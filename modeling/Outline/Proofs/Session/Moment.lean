import Mathlib.Data.List.Induction
import Outline.Proofs.Engine.Invariant
import Outline.Proofs.Session.History

/-!
# What happens in a history

A session is called again and again. In the course of a call the parser is busy with one thing after the
other, and wherever one of them begins, what came before is known: the calls that have ended, the call that
is in progress, and the state.

* `Session.Call.task`, `Session.start`: what a call has the parser do, and the state it begins in;
* `Session.Moment`: where a task begins in a history;
* **`Session.Moment.invariant`**: what is true where tasks begin;
* `Session.told`: what was reported in a row of calls.
-/

namespace Outline

open Engine

namespace Session

/-- What a call has the parser do. -/
def Call.task (room : Nat) : Call → Task
  | parseAll text skip => .parse room text skip
  | invalidate => .script room (.invalidate (.done .none))
  | expand e => .expand room e
  | expandFull e => .expandFull room e
  | parseStream cursor rule => .stream room cursor rule

variable {c : Settings} {room : Nat}

theorem Call.snd_steps (k : Call) (s : State) :
    (k.steps room c s).2 = ((k.task room).run c s).2 := by
  cases k with
  | invalidate => rfl
  | parseAll => exact snd_discard _ _ _
  | expand => exact snd_discard _ _ _
  | expandFull => exact snd_discard _ _ _
  | parseStream => exact snd_discard _ _ _

theorem Call.usual (k : Call) : (k.task room).Usual c := by
  cases k <;> exact trivial

theorem Call.upright (k : Call) : (k.task room).Upright := by
  cases k with
  | invalidate => exact .invalidate (.done _)
  | _ => exact trivial

/-- The state in which a call begins after a row of calls. -/
def start (c : Settings) (room : Nat) (before : List Call) : State :=
  { cache := ((⟨c, none⟩ : Session).after room before).cache }

/-- The state in which a call ends. -/
def finish (c : Settings) (room : Nat) (before : List Call) (k : Call) : State :=
  ((k.task room).run c (start c room before)).2

/-- A call begins with what the call before it has left. -/
theorem start_concat (before : List Call) (k : Call) :
    start c room (before ++ [k]) = { cache := (finish c room before k).cache } := by
  have hc : ((⟨c, none⟩ : Session).after room before).settings = c := settings_after _ room before
  have hrun : ((⟨c, none⟩ : Session).after room (before ++ [k])).cache =
      (k.steps room ((⟨c, none⟩ : Session).after room before).settings (start c room before)).2.cache := by
    rw [after, List.foldl_append]
    rfl
  rw [start, hrun, hc, Call.snd_steps, finish]

/-- Where a task begins in a history: behind some calls, in the course of another. -/
structure Moment (c : Settings) (room : Nat) where
  before : List Call
  call : Call
  task : Task
  state : State
  leads : (call.task room).Leads c (start c room before) task state

namespace Moment

/-- The call has just begun. -/
def ofCall (c : Settings) (room : Nat) (before : List Call) (k : Call) : Moment c room :=
  ⟨before, k, k.task room, start c room before, .refl⟩

/-- The state in which the task ends. -/
def after (m : Moment c room) : State := (m.task.run c m.state).2

/-- A parse comes to what its task does, and leaves what that leaves. -/
theorem parseAll_eq (c : Settings) (room : Nat) (before : List Call) (text : Text) (skip : Option Bool) :
    let o := ((⟨c, none⟩ : Session).after room before).parseAll text skip room
    let m := ofCall c room before (.parseAll text skip)
    o.result = (m.task.run c m.state).1 ∧ o.session.cache = m.after.cache := by
  intro o m
  have hc : ((⟨c, none⟩ : Session).after room before).settings = c := settings_after _ room before
  have hrun : (level room).parseAll text skip ((⟨c, none⟩ : Session).after room before).settings m.state =
      m.task.run c m.state := by
    rw [hc]
    rfl
  exact ⟨congrArg Prod.fst hrun, congrArg (·.2.cache) hrun⟩

theorem upright (hc : c.Upright) (m : Moment c room) : m.task.Upright := m.leads.upright hc m.call.upright

/-- **What is true of a session and kept in the course of each call is true wherever a task begins.** -/
theorem invariant {I : State → Prop} (h : ∀ t s, Invariant c t s I) (hnew : I {})
    (hcall : ∀ s, I s → I { cache := s.cache }) (m : Moment c room) : I m.state := by
  have hstart : ∀ before : List Call, I (start c room before) := by
    intro before
    induction before using List.reverseRecOn with
    | nil => exact hnew
    | append_singleton before k ih =>
      rw [start_concat]
      exact hcall _ ((h _ _).task .refl k.usual ih)
  exact (h _ _).leads m.call.usual m.leads (hstart m.before)

end Moment

/-- What was reported in a row of calls behind others, the latest first. -/
def told (c : Settings) (room : Nat) : (before calls : List Call) → List Event
  | _, [] => []
  | before, k :: calls => told c room (before ++ [k]) calls ++ (finish c room before k).events

theorem told_concat (before calls : List Call) (k : Call) : told c room before (calls ++ [k]) =
    (finish c room (before ++ calls) k).events ++ told c room before calls := by
  induction calls generalizing before with
  | nil => simp [told]
  | cons j calls ih => rw [List.cons_append, told, ih, told, List.append_assoc, List.append_assoc]; rfl

end Session

end Outline
