import Outline.Proofs.Engine.Composed
import Outline.Session

/-!
# What a session remembers

A session that is called again and again answers every parse as a new session would, as long as it is not
given two texts of one length without being told to forget the first. What it remembers is the latest
parse that it did not fail in.

* `Engine.Retains`, `Engine.composable_retains`: steps that leave the text at hand and what is remembered
  alone;
* `Session.Call`, `Session.after`: a call of a session, and the session after a row of calls;
* `Session.parseAll_kept`, `Session.parseAll_missed`: a parse that was remembered, and one that was not;
* `Session.Unambiguous`: histories in which no two texts of one length are mixed up;
* `Session.Recalls`, `Session.Recalls.after`: what is remembered is the result of a call, by induction on
  the history;
* **`Session.parseAll_history`**: every parse of a history.
-/

namespace Outline

open Engine

/-! ## Steps that retain what is remembered -/

/-- The text at hand and what is remembered. -/
def State.memory (s : State) : Option Text × Option ParseCache := (s.text, s.cache)

/-- The step leaves the text at hand and what is remembered alone, whether it fails or not. -/
def Engine.Retains (c : Settings) {α : Type} (m : Engine α) : Prop := ∀ s, (m c s).2.memory = s.memory

theorem Engine.composable_retains (c : Settings) : Composable c (Retains c) where
  pure _ _ := rfl
  fail _ _ := rfl
  ask h s := h s
  state _ := rfl
  emit _ _ := rfl
  tally _ := rfl
  attempt h s := h s
  rule e h s := h (s.enter e)
  matcher h s := h { s with run := {} }
  bind {α β m f} hm hf s := by
    have h := hm s
    rcases hr : m c s with ⟨e | a, s₁⟩
    · rw [hr] at h
      rw [bind_run_error hr, h]
    · rw [hr] at h
      rw [bind_run_ok hr, hf a s₁, h]

namespace Session

/-! ## Calls -/

/-- A call of a session. -/
inductive Call where
  | parseAll (text : Text) (skip : Option Bool)
  | invalidate
  | expand (e : Expansion)
  | expandFull (e : Expansion)
  | parseStream (cursor : Cursor) (rule : String)

/-- What a call does, its answer left aside. -/
def Call.steps (room : Nat) : Call → Engine Unit
  | parseAll text skip => do let _ ← (level room).parseAll text skip
  | invalidate => Outline.invalidate
  | expand e => do let _ ← (level room).expand e
  | expandFull e => do let _ ← (level room).expandFull e
  | parseStream cursor rule => do let _ ← Matching.parseStream (level room).match? cursor rule

/-- The session after a row of calls, which may fail. -/
def after (s : Session) (room : Nat) (calls : List Call) : Session :=
  calls.foldl (fun s k => (s.run (k.steps room)).session) s

theorem settings_after (s : Session) (room : Nat) (calls : List Call) :
    (s.after room calls).settings = s.settings := by
  induction calls generalizing s with
  | nil => rfl
  | cons k calls ih => exact ih _

/-- What is behind a step whose answer is left aside is what is behind the step. -/
theorem snd_discard {α : Type} (m : Engine α) (c : Settings) (s : State) :
    ((do let _ ← m : Engine Unit) c s).2 = (m c s).2 := by
  show ((m >>= fun _ => pure () : Engine Unit) c s).2 = _
  rcases hr : m c s with ⟨e | a, s₁⟩
  · rw [bind_run_error hr]
  · rw [bind_run_ok hr]
    rfl

/-! ## One parse -/

section

variable {c : Settings} (room : Nat) {text : Text} {skip : Option Bool} {cache : Option ParseCache}

/-- A parse that is remembered is not made again. -/
theorem parseAll_kept {k : ParseCache} (hv : k.isValidFor text (skip.getD c.skipComments) = true) :
    ((level (room + 1)).parseAll text skip c { cache := some k }).1 = .ok k.constructs ∧
      ((level (room + 1)).parseAll text skip c { cache := some k }).2.memory = (none, some k) := by
  have hrun : Matching.parseAll (level room).matchRule (level room) text skip c { cache := some k } = _ :=
    Matching.parseAll_run skip
  rw [Option.filter_some, if_pos hv] at hrun
  change (level (room + 1)).parseAll text skip c { cache := some k } = _ at hrun
  rw [hrun]
  exact ⟨rfl, rfl⟩

/-- What is remembered of a parse, if it comes to a result. -/
def remembered (text : Text) (skipComments : Bool) :
    Except Failure (List Construct) → Option ParseCache
  | .ok found => some ⟨found, text.length, skipComments⟩
  | .error _ => none

/-- A parse that is not remembered comes to what a new session comes to, and that is remembered. -/
theorem parseAll_missed (hc : c.Inward)
    (hv : ∀ k ∈ cache, ¬ k.isValidFor text (skip.getD c.skipComments) = true) :
    ((level (room + 1)).parseAll text skip c { cache }).1 =
        ((⟨c, none⟩ : Session).parseAll text skip (room + 1)).result ∧
      ((level (room + 1)).parseAll text skip c { cache }).2.memory =
        (none, remembered text (skip.getD c.skipComments)
          ((level (room + 1)).parseAll text skip c { cache }).1) := by
  have hmiss : cache.filter (·.isValidFor text (skip.getD c.skipComments)) = none :=
    Option.filter_eq_none_iff.mpr hv
  have hrun : ∀ cache : Option ParseCache,
      cache.filter (·.isValidFor text (skip.getD c.skipComments)) = none →
        (level (room + 1)).parseAll text skip c { cache } =
          Matching.parseText (level room).matchRule (level room) text (skip.getD c.skipComments) c { cache } := by
    intro cache hnone
    have hrun : Matching.parseAll (level room).matchRule (level room) text skip c { cache } = _ :=
      Matching.parseAll_run skip
    rwa [hnone] at hrun
  have hfresh : ((⟨c, none⟩ : Session).parseAll text skip (room + 1)).result =
      ((level (room + 1)).parseAll text skip c { cache := none }).1 := rfl
  rw [hfresh, hrun cache hmiss, hrun none rfl, Matching.parseText_run, Matching.parseText_run]
  -- A parse begins in the same state, whatever is remembered.
  have hbegun : Matching.begun text { cache } = Matching.begun text { cache := none } := rfl
  have hkeep := (composable_retains c).inProgress hc room text (skip.getD c.skipComments)
    (Matching.begun text { cache := none })
  rw [hbegun]
  rcases hp : Matching.inProgress (level room).matchRule (level room) c text
    (skip.getD c.skipComments) c (Matching.begun text { cache := none }) with ⟨e | found, after⟩
  · rw [hp] at hkeep
    exact ⟨rfl, congrArg (fun m => (none, m.2)) hkeep⟩
  · exact ⟨rfl, rfl⟩

/-- A parse that is not remembered depends on the treatment of comments that is meant, not on who chose
it. -/
theorem result_congr {skip' : Option Bool} (h : skip.getD c.skipComments = skip'.getD c.skipComments) :
    ((⟨c, none⟩ : Session).parseAll text skip (room + 1)).result =
      ((⟨c, none⟩ : Session).parseAll text skip' (room + 1)).result := by
  have hrun : ∀ skip : Option Bool, ((⟨c, none⟩ : Session).parseAll text skip (room + 1)).result =
      (Matching.parseText (level room).matchRule (level room) text (skip.getD c.skipComments) c {}).1 := by
    intro skip
    have hrun : Matching.parseAll (level room).matchRule (level room) text skip c {} = _ :=
      Matching.parseAll_run skip
    exact congrArg Prod.fst hrun
  rw [hrun, hrun, h]

end

/-- A parse is remembered, or it is not. -/
theorem kept_or_missed (cache : Option ParseCache) (text : Text) (skipComments : Bool) :
    (∃ k, cache = some k ∧ k.isValidFor text skipComments = true) ∨
      ∀ k ∈ cache, ¬ k.isValidFor text skipComments = true := by
  cases cache with
  | none => exact Or.inr fun _ hk => nomatch hk
  | some k =>
    by_cases hv : k.isValidFor text skipComments = true
    · exact Or.inl ⟨k, rfl, hv⟩
    · refine Or.inr fun k' hk' => ?_
      cases hk'
      exact hv

theorem eq_of_isValidFor {k : ParseCache} {text : Text} {skipComments : Bool}
    (h : k.isValidFor text skipComments = true) : k = ⟨k.constructs, text.length, skipComments⟩ := by
  simp only [ParseCache.isValidFor, Bool.and_eq_true, beq_iff_eq] at h
  rw [← h.1, ← h.2]

/-! ## Histories -/

/-- The texts that are parsed before anything is forgotten. -/
def standing : List Call → List Text
  | .parseAll text _ :: calls => text :: standing calls
  | .invalidate :: _ => []
  | _ :: calls => standing calls
  | [] => []

/-- Two texts of one length that are parsed are the same, unless the first is forgotten in between. -/
def Unambiguous : List Call → Prop
  | .parseAll text _ :: calls =>
    (∀ text' ∈ standing calls, text.length = text'.length → text = text') ∧ Unambiguous calls
  | _ :: calls => Unambiguous calls
  | [] => True

instance decidableUnambiguous : (calls : List Call) → Decidable (Unambiguous calls)
  | .parseAll text _ :: calls =>
    have := decidableUnambiguous calls
    inferInstanceAs (Decidable
      ((∀ text' ∈ standing calls, text.length = text'.length → text = text') ∧ Unambiguous calls))
  | .invalidate :: calls => decidableUnambiguous calls
  | .expand _ :: calls => decidableUnambiguous calls
  | .expandFull _ :: calls => decidableUnambiguous calls
  | .parseStream _ _ :: calls => decidableUnambiguous calls
  | [] => .isTrue trivial

theorem mem_standing {text : Text} {skip : Option Bool} {between behind : List Call}
    (h : .invalidate ∉ between) : text ∈ standing (between ++ .parseAll text skip :: behind) := by
  induction between with
  | nil => exact List.mem_cons_self
  | cons k between ih =>
    rw [List.mem_cons, not_or] at h
    cases k with
    | invalidate => exact absurd rfl h.1
    | parseAll text' skip' => exact List.mem_cons_of_mem _ (ih h.2)
    | expand e => exact ih h.2
    | expandFull e => exact ih h.2
    | parseStream cursor rule => exact ih h.2

theorem Unambiguous.text_eq {text text' : Text} {skip skip' : Option Bool}
    {before between behind : List Call}
    (h : Unambiguous (before ++ .parseAll text skip :: (between ++ .parseAll text' skip' :: behind)))
    (hb : .invalidate ∉ between) (hl : text.length = text'.length) : text = text' := by
  induction before with
  | nil => exact h.1 text' (mem_standing hb) hl
  | cons k before ih =>
    cases k with
    | parseAll _ _ => exact ih h.2
    | invalidate => exact ih h
    | expand _ => exact ih h
    | expandFull _ => exact ih h
    | parseStream _ _ => exact ih h

/-- What is remembered is what a new session comes to in one of the calls, which was not forgotten since
then. -/
def Recalls (c : Settings) (room : Nat) (calls : List Call) (cache : Option ParseCache) : Prop :=
  ∀ k ∈ cache, ∃ before text skip behind, calls = before ++ .parseAll text skip :: behind ∧
    .invalidate ∉ behind ∧
    ((⟨c, none⟩ : Session).parseAll text skip (room + 1)).result = .ok k.constructs ∧
    k.isValidFor text (skip.getD c.skipComments) = true

variable {c : Settings} {room : Nat}

/-- What was remembered before a call that does not forget it is remembered of the longer history. -/
theorem Recalls.concat {calls : List Call} {cache : Option ParseCache} {k : Call}
    (h : Recalls c room calls cache) (hk : k ≠ .invalidate) : Recalls c room (calls ++ [k]) cache := by
  intro kept hkept
  obtain ⟨before, text, skip, behind, rfl, hb, hr, hv⟩ := h kept hkept
  refine ⟨before, text, skip, behind ++ [k], by simp, ?_, hr, hv⟩
  simpa [hb] using hk.symm

/-- What is remembered behind a call: nothing, what was remembered before it, or what a new session comes
to. -/
inductive Leaves (c : Settings) (room : Nat) (cache : Option ParseCache) :
    Call → Option ParseCache → Prop where
  | forgotten : Leaves c room cache .invalidate none
  | retained {k : Call} (hk : k ≠ .invalidate) : Leaves c room cache k cache
  | parsed (text : Text) (skip : Option Bool) : Leaves c room cache (.parseAll text skip)
      (remembered text (skip.getD c.skipComments)
        ((⟨c, none⟩ : Session).parseAll text skip (room + 1)).result)

/-- Behind a call no text is at hand, and what is remembered is one of those. -/
theorem leaves (room : Nat) (hc : c.Inward) (cache : Option ParseCache) (k : Call) :
    ∃ kept, (k.steps (room + 1) c { cache }).2.memory = (none, kept) ∧ Leaves c room cache k kept := by
  have hp := composable_retains c
  have hl := hp.level hc.actions (room + 1)
  cases k with
  | invalidate => exact ⟨none, rfl, .forgotten⟩
  | expand e =>
    rw [Call.steps, snd_discard]
    exact ⟨cache, hl.expand e _, .retained nofun⟩
  | expandFull e =>
    rw [Call.steps, snd_discard]
    exact ⟨cache, hl.expandFull e _, .retained nofun⟩
  | parseStream cursor rule =>
    rw [Call.steps, snd_discard]
    exact ⟨cache, hp.parseStream hl.match? cursor rule _, .retained nofun⟩
  | parseAll text skip =>
    rw [Call.steps, snd_discard]
    rcases kept_or_missed cache text (skip.getD c.skipComments) with ⟨kept, rfl, hv⟩ | hv
    · exact ⟨_, (parseAll_kept room hv).2, .retained nofun⟩
    · obtain ⟨hr, hm⟩ := parseAll_missed room hc hv
      rw [hr] at hm
      exact ⟨_, hm, .parsed text skip⟩

/-- One more call of a history. -/
theorem Recalls.step {calls : List Call} {cache kept : Option ParseCache} {k : Call}
    (h : Recalls c room calls cache) (hk : Leaves c room cache k kept) :
    Recalls c room (calls ++ [k]) kept := by
  cases hk with
  | forgotten => exact fun _ hk => nomatch hk
  | retained hk => exact h.concat hk
  | parsed text skip =>
    intro k hk
    cases hf : ((⟨c, none⟩ : Session).parseAll text skip (room + 1)).result with
    | error e => rw [hf] at hk; cases hk
    | ok found =>
      rw [hf] at hk
      cases hk
      exact ⟨calls, text, skip, [], rfl, List.not_mem_nil, hf, by simp [ParseCache.isValidFor]⟩

/-- What is remembered after a history comes from a call of it, if that was so before. -/
theorem Recalls.after (hc : c.Inward) (calls : List Call) :
    ∀ {earlier : List Call} {cache : Option ParseCache}, Recalls c room earlier cache →
      Recalls c room (earlier ++ calls) ((⟨c, cache⟩ : Session).after (room + 1) calls).cache := by
  induction calls with
  | nil =>
    intro earlier cache h
    rwa [List.append_nil]
  | cons k calls ih =>
    intro earlier cache h
    obtain ⟨kept, hkept, hk⟩ := leaves room hc cache k
    obtain rfl : _ = kept := congrArg Prod.snd hkept
    rw [List.append_cons]
    exact ih (h.step hk)

/-- **Every parse of a history comes to what a new session comes to.** After a parse that fails nothing is
remembered, and after any other its result. No call leaves a text at hand. -/
theorem parseAll_history (hc : c.Inward) (hroom : 0 < room) {calls : List Call} (h : Unambiguous calls) :
    (∀ k cache, (Call.steps room k c { cache }).2.text = none) ∧
    ∀ before text skip behind, calls = before ++ .parseAll text skip :: behind →
      let s := (⟨c, none⟩ : Session).after room before
      let o := s.parseAll text skip room
      o.result = ((⟨c, none⟩ : Session).parseAll text skip room).result ∧
        (∀ e, o.result = .error e → o.session.cache = none) ∧
        ∀ found, o.result = .ok found →
          o.session.cache = some ⟨found, text.length, skip.getD c.skipComments⟩ := by
  obtain ⟨room, rfl⟩ : ∃ r, room = r + 1 := ⟨room - 1, by omega⟩
  constructor
  · intro k cache
    obtain ⟨kept, hkept, -⟩ := leaves room hc cache k
    exact congrArg Prod.fst hkept
  rintro before text skip behind rfl
  have hs := settings_after ⟨c, none⟩ (room + 1) before
  have hnone : Recalls c room [] none := nofun
  have hrecalls := hnone.after hc before
  rw [List.nil_append] at hrecalls
  generalize (⟨c, none⟩ : Session).after (room + 1) before = s at hs hrecalls
  obtain ⟨_, cache⟩ := s
  obtain rfl : _ = c := hs
  rename_i c
  have hresult : ((⟨c, cache⟩ : Session).parseAll text skip (room + 1)).result =
      ((level (room + 1)).parseAll text skip c { cache }).1 := rfl
  have hcache : ((⟨c, cache⟩ : Session).parseAll text skip (room + 1)).session.cache =
      ((level (room + 1)).parseAll text skip c { cache }).2.memory.2 := rfl
  simp only [hresult, hcache]
  rcases kept_or_missed cache text (skip.getD c.skipComments) with ⟨k, rfl, hv⟩ | hv
  · obtain ⟨hr, hm⟩ := parseAll_kept room hv
    obtain ⟨b, text', skip', between, rfl, hb, hf, hv'⟩ := hrecalls k rfl
    -- The text that is remembered is as long as this one, so that it is this one.
    have hk := eq_of_isValidFor hv
    have hk' := eq_of_isValidFor hv'
    rw [hk, ParseCache.mk.injEq] at hk'
    rw [List.append_assoc, List.cons_append] at h
    obtain rfl : text' = text := h.text_eq hb hk'.2.1.symm
    rw [hr, hm]
    refine ⟨?_, nofun, fun found hfound => ?_⟩
    · rw [result_congr room hk'.2.2, hf]
    · cases hfound
      rw [← hk]
  · obtain ⟨hr, hm⟩ := parseAll_missed room hc hv
    rw [hm]
    refine ⟨hr, fun e he => ?_, fun found hfound => ?_⟩
    · rw [he]
      rfl
    · rw [hfound]
      rfl

end Session

/-! ## An action that puts up with a failure -/

/-- An action that counts what is in a group, and does not mind if there is something else. -/
def NamedAction.estimate : NamedAction := ⟨"estimate", .function fun values start stop =>
  .expandFull { span := values.headD .none, rule := "entry" } fun
    | .ok found => .done (.tuple [.int found.length, .int start, .int stop])
    | .error _ => .done (.tuple [.none, .int start, .int stop])⟩

/-- Groups, in which there should be symbols. -/
def Grammar.estimated : Grammar := .ofRules
  [⟨"toplevel", [{ items := [.terminal ⟨.semanticList, none⟩], action := some .estimate }]⟩,
    ⟨"entry", [{ items := [.terminal ⟨.symbol, none⟩] }]⟩]

theorem Settings.inward_estimated : ({ grammar := .estimated } : Settings).Inward := by
  have hactions : ∀ r ∈ Grammar.estimated.rules, ∀ a ∈ r.alternatives,
      a.action = none ∨ a.action = some .estimate := by
    rw [Grammar.estimated, Grammar.rules_ofRules (by decide)]
    simp
  refine ⟨fun r hr a ha name run hn values start stop => ?_, nofun⟩
  rcases hactions r hr a ha with h | h
  · cases h.symm.trans hn
  · cases h.symm.trans hn
    refine .expandFull fun found => ?_
    cases found with
    | ok found => exact .done _
    | error e => exact .done _

/-- A group is parsed twice, a text that is none once, and another group of the same length when the first
is forgotten. -/
def Session.retold : List Session.Call :=
  [.parseAll (.ofString "(a)") none, .expand { span := .span 0 3, rule := "entry" },
    .parseAll (.ofString "(a)") (some true), .parseAll (.ofString "a") none, .invalidate,
    .parseAll (.ofString "(=)") none]

/-- The second parse of the group comes to what the first did, the third fails and leaves nothing behind,
and the other group is not taken for the first. -/
theorem Session.parseAll_retold :
    ((⟨{ grammar := .estimated }, none⟩ : Session).after 4 (retold.take 2)).cache.isSome ∧
    (((⟨{ grammar := .estimated }, none⟩ : Session).after 4 (retold.take 2)).parseAll
        (.ofString "(a)") (some true) 4).result =
      ((⟨{ grammar := .estimated }, none⟩ : Session).parseAll (.ofString "(a)") (some true) 4).result ∧
    (∃ e, (((⟨{ grammar := .estimated }, none⟩ : Session).after 4 (retold.take 3)).parseAll
        (.ofString "a") none 4).result = .error e) ∧
    (((⟨{ grammar := .estimated }, none⟩ : Session).after 4 (retold.take 3)).parseAll
        (.ofString "a") none 4).session.cache = none ∧
    ∃ found, (((⟨{ grammar := .estimated }, none⟩ : Session).after 4 (retold.take 5)).parseAll
        (.ofString "(=)") none 4).result = .ok found ∧
      (((⟨{ grammar := .estimated }, none⟩ : Session).after 4 (retold.take 5)).parseAll
        (.ofString "(=)") none 4).session.cache = some ⟨found, 3, true⟩ := by
  obtain ⟨-, h⟩ := parseAll_history Settings.inward_estimated (show 0 < 4 by decide)
    (show Unambiguous retold by decide)
  have hkept := h (retold.take 2) (.ofString "(a)") (some true) _ rfl
  have hfailed := h (retold.take 3) (.ofString "a") none _ rfl
  have hother := h (retold.take 5) (.ofString "(=)") none _ rfl
  have hfail : (((⟨{ grammar := .estimated }, none⟩ : Session).after 4 (retold.take 3)).parseAll
      (.ofString "a") none 4).result.toBool = false := by
    decide +kernel
  have hfound : (((⟨{ grammar := .estimated }, none⟩ : Session).after 4 (retold.take 5)).parseAll
      (.ofString "(=)") none 4).result.toBool = true := by
    decide +kernel
  refine ⟨by decide +kernel, hkept.1, ?_⟩
  dsimp only at hfailed hother
  generalize ((⟨{ grammar := .estimated }, none⟩ : Session).after 4 (retold.take 3)).parseAll
    (.ofString "a") none 4 = o at hfail hfailed ⊢
  generalize ((⟨{ grammar := .estimated }, none⟩ : Session).after 4 (retold.take 5)).parseAll
    (.ofString "(=)") none 4 = o' at hfound hother ⊢
  cases hr : o.result with
  | ok found => rw [hr] at hfail; cases hfail
  | error e =>
    cases hr' : o'.result with
    | error e => rw [hr'] at hfound; cases hfound
    | ok found => exact ⟨⟨e, rfl⟩, hfailed.2.1 e hr, found, rfl, hother.2.2 found hr'⟩

end Outline
