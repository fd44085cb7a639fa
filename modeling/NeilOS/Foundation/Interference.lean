import Mathlib.Logic.Relation
import NeilOS.Foundation.Refine

/-!
# Programs that are interrupted

Between two operations of a program other code may run and change the state, as long as the state allows
it. `Interleaved` is the execution of a program with such interference. A part of a program whose
operations keep interference disabled runs as if it were alone: this is what `Interleaved.undisturbed`
says of a critical section.
-/

namespace Foundation.Program

variable {Op State α β : Type} {Answer : Op → Type}

/-- Other code runs some number of times, each time in a state that allows it. -/
def Disturbed (enabled : State → Prop) (interfere : State → State → Prop) : State → State → Prop :=
  Relation.ReflTransGen fun before after ↦ enabled before ∧ interfere before after

/-- The program, started in one state, returns a value in another one. -/
inductive Interleaved (handler : Handler Op Answer State) (enabled : State → Prop)
    (interfere : State → State → Prop) : Program Op Answer α → State → α → State → Prop where
  | result (value : α) (state : State) :
      Interleaved handler enabled interfere (result value) state value state
  | perform {op : Op} {next : Answer op → Program Op Answer α} {before after : State}
      {reply : Answer op × State} {value : α} : handler op before = some reply →
      Interleaved handler enabled interfere (next reply.1) reply.2 value after →
        Interleaved handler enabled interfere (perform op next) before value after
  | disturb {program : Program Op Answer α} {before middle after : State} {value : α} :
      enabled before → interfere before middle →
      Interleaved handler enabled interfere program middle value after →
        Interleaved handler enabled interfere program before value after

section Rules

variable {handler : Handler Op Answer State} {enabled : State → Prop} {interfere : State → State → Prop}
  {before after : State}

/-- Where interference is disabled, nothing happens between two operations. -/
theorem Disturbed.eq_of_disabled (h : Disturbed enabled interfere before after)
    (hdisabled : ¬ enabled before) : after = before := by
  rcases Relation.ReflTransGen.cases_head h with rfl | ⟨middle, hfirst, -⟩
  · rfl
  · exact absurd hfirst.1 hdisabled

theorem Interleaved.disturbed {program : Program Op Answer α} {middle : State} {value : α}
    (hfirst : Disturbed enabled interfere before middle)
    (h : Interleaved handler enabled interfere program middle value after) :
    Interleaved handler enabled interfere program before value after := by
  induction hfirst using Relation.ReflTransGen.head_induction_on with
  | refl => exact h
  | head hstep _ ih => exact .disturb hstep.1 hstep.2 ih

theorem interleaved_result {expected value : α}
    (h : Interleaved handler enabled interfere (result expected : Program Op Answer α) before value after) :
    value = expected ∧ Disturbed enabled interfere before after := by
  generalize hprogram : (result expected : Program Op Answer α) = program at h
  induction h with
  | result value state =>
    obtain rfl := Program.result.inj hprogram
    exact ⟨rfl, .refl⟩
  | perform _ _ _ => cases hprogram
  | disturb henabled hstep _ ih =>
    obtain ⟨hvalue, hrest⟩ := ih hprogram
    exact ⟨hvalue, .head ⟨henabled, hstep⟩ hrest⟩

/-- An operation is performed once the interference before it is over. -/
theorem interleaved_perform {op : Op} {next : Answer op → Program Op Answer α} {value : α}
    (h : Interleaved handler enabled interfere (perform op next) before value after) :
    ∃ middle reply, Disturbed enabled interfere before middle ∧ handler op middle = some reply ∧
      Interleaved handler enabled interfere (next reply.1) reply.2 value after := by
  generalize hprogram : perform op next = program at h
  induction h with
  | result value state => cases hprogram
  | perform hreply hrest _ =>
    obtain ⟨rfl, hnext⟩ := Program.perform.inj hprogram
    obtain rfl := eq_of_heq hnext
    exact ⟨_, _, .refl, hreply, hrest⟩
  | disturb henabled hstep _ ih =>
    obtain ⟨middle, reply, hdisturbed, hreply, hrest⟩ := ih hprogram
    exact ⟨middle, reply, .head ⟨henabled, hstep⟩ hdisturbed, hreply, hrest⟩

theorem interleaved_bind {program : Program Op Answer α} {next : α → Program Op Answer β} {value : β}
    (h : Interleaved handler enabled interfere (program >>= next) before value after) :
    ∃ first middle, Interleaved handler enabled interfere program before first middle ∧
      Interleaved handler enabled interfere (next first) middle value after := by
  induction program generalizing before with
  | result first => exact ⟨first, before, .result first before, h⟩
  | diverge =>
    generalize hprogram : (diverge >>= next : Program Op Answer β) = rest at h
    induction h with
    | result value state => cases hprogram
    | perform _ _ _ => cases hprogram
    | disturb henabled hstep _ ih =>
      obtain ⟨first, middle, hfirst, hrest⟩ := ih hprogram
      exact ⟨first, middle, .disturb henabled hstep hfirst, hrest⟩
  | perform op rest ih =>
    obtain ⟨middle, reply, hdisturbed, hreply, hrest⟩ := interleaved_perform h
    obtain ⟨first, last, hfirst, hlast⟩ := ih reply.1 hrest
    exact ⟨first, last, .disturbed hdisturbed (.perform hreply hfirst), hlast⟩

/-- Without interference the program runs as it does alone. -/
theorem Interleaved.of_exec {program : Program Op Answer α} {value : α}
    (h : exec handler program before = some (value, after)) :
    Interleaved handler enabled interfere program before value after := by
  induction program generalizing before with
  | result other =>
    obtain ⟨rfl, rfl⟩ := Prod.mk.inj (Option.some.inj h)
    exact .result other before
  | diverge => cases h
  | perform op rest ih =>
    obtain ⟨reply, hreply, hrest⟩ := Option.bind_eq_some_iff.mp h
    exact .perform hreply (ih reply.1 hrest)

/-- A critical section: its operations keep interference disabled, so it runs as it does alone. -/
theorem Interleaved.undisturbed {allowed : Op → Prop} {program : Program Op Answer α}
    {next : α → Program Op Answer β} {value : β}
    (hallowed : ∀ op state reply, allowed op → ¬ enabled state → handler op state = some reply →
      ¬ enabled reply.2)
    (honly : program.Only allowed) (hdisabled : ¬ enabled before)
    (h : Interleaved handler enabled interfere (program >>= next) before value after) :
    ∃ reply, exec handler program before = some reply ∧ ¬ enabled reply.2 ∧
      Interleaved handler enabled interfere (next reply.1) reply.2 value after := by
  induction program generalizing before with
  | result first => exact ⟨(first, before), rfl, hdisabled, h⟩
  | diverge => exact honly.elim
  | perform op rest ih =>
    obtain ⟨middle, reply, hdisturbed, hreply, hrest⟩ := interleaved_perform h
    obtain rfl := hdisturbed.eq_of_disabled hdisabled
    obtain ⟨last, hlast, hstill, hnext⟩ :=
      ih reply.1 (honly.2 reply.1) (hallowed op _ reply honly.1 hdisabled hreply) hrest
    refine ⟨last, ?_, hstill, hnext⟩
    rw [exec, hreply]
    exact hlast

end Rules

/-- The handler with a log beside the state, which the program itself leaves alone. -/
def beside {Log : Type} (handler : Handler Op Answer State) : Handler Op Answer (State × Log) :=
  fun op state ↦ (handler op state.1).map fun reply ↦ (reply.1, reply.2, state.2)

theorem exec_beside {Log : Type} (handler : Handler Op Answer State) (program : Program Op Answer α)
    (state : State) (log : Log) :
    exec (beside handler) program (state, log) =
      (exec handler program state).map fun reply ↦ (reply.1, reply.2, log) := by
  induction program generalizing state with
  | result value => rfl
  | diverge => rfl
  | perform op rest ih =>
    rw [exec, exec, beside]
    cases handler op state with
    | none => rfl
    | some reply => exact ih reply.1 reply.2

end Foundation.Program
