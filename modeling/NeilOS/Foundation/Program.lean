import Mathlib.Logic.Basic
import Mathlib.Tactic.Common

/-!
# Effectful programs and their total-correctness rules

A `Program` is a tree of operations: it performs an operation, waits for the answer and goes on,
until it returns a result. What an operation means is left to a `Handler`, so one text of a
program can be run against several machines. `diverge` stands for a loop that used up its bound.

`Meets` is the specification predicate of the development. It asks that the program returns,
that the result and the last state satisfy a postcondition, and that every single operation is
allowed, in the state in which it is performed, by a guarantee. `meets_iff` ties it to the
executable semantics `exec` and to the recorded `events`.
-/

namespace Foundation

inductive Program (Op : Type) (Answer : Op → Type) (α : Type) : Type where
  | result (value : α)
  | perform (op : Op) (next : Answer op → Program Op Answer α)
  | diverge

/-- The meaning of one operation; `none` is a trap. -/
abbrev Handler (Op : Type) (Answer : Op → Type) (State : Type) :=
  (op : Op) → State → Option (Answer op × State)

namespace Program

variable {Op State α β : Type} {Answer : Op → Type}

def bind : Program Op Answer α → (α → Program Op Answer β) → Program Op Answer β
  | result value, next => next value
  | perform op rest, next => perform op fun answer ↦ (rest answer).bind next
  | diverge, _ => diverge

instance : Monad (Program Op Answer) where
  pure := result
  bind := bind

/-- Perform one operation and return its answer. -/
def call (op : Op) : Program Op Answer (Answer op) := perform op result

/-- The counted loop `for (i = 0; i < count; ++i) body i`. -/
def forRange : ℕ → (ℕ → Program Op Answer Unit) → Program Op Answer Unit
  | 0, _ => result ()
  | count + 1, body => (forRange count body).bind fun _ ↦ body count

def exec (handler : Handler Op Answer State) : Program Op Answer α → State → Option (α × State)
  | result value, state => some (value, state)
  | perform op next, state =>
      (handler op state).bind fun reply ↦ exec handler (next reply.1) reply.2
  | diverge, _ => none

/-- The operations performed, each with the state in which it was performed. A trapping
operation is still recorded. -/
def events (handler : Handler Op Answer State) : Program Op Answer α → State → List (State × Op)
  | result _, _ => []
  | perform op next, state =>
      (state, op) :: ((handler op state).elim [] fun reply ↦ events handler (next reply.1) reply.2)
  | diverge, _ => []

/-- The program returns with the postcondition, and every operation on the way is allowed. -/
def Meets (handler : Handler Op Answer State) (guarantee : State → Op → Prop) :
    Program Op Answer α → State → (α → State → Prop) → Prop
  | result value, state, post => post value state
  | perform op next, state, post =>
      guarantee state op ∧ ∃ reply, handler op state = some reply ∧
        Meets handler guarantee (next reply.1) reply.2 post
  | diverge, _, _ => False

section Rules

variable {handler : Handler Op Answer State} {guarantee : State → Op → Prop}

@[simp] theorem meets_pure (value : α) (state : State) (post : α → State → Prop) :
    Meets handler guarantee (pure value : Program Op Answer α) state post ↔ post value state :=
  Iff.rfl

theorem meets_bind (program : Program Op Answer α) (next : α → Program Op Answer β)
    (state : State) (post : β → State → Prop) :
    Meets handler guarantee (program >>= next) state post ↔
      Meets handler guarantee program state fun value after ↦
        Meets handler guarantee (next value) after post := by
  induction program generalizing state with
  | result value => exact Iff.rfl
  | diverge => exact Iff.rfl
  | perform op rest ih =>
    change (_ ∧ ∃ reply : Answer op × State,
      _ ∧ Meets handler guarantee (rest reply.1 >>= next) reply.2 post) ↔ _
    simp only [ih]
    exact Iff.rfl

theorem Meets.mono {program : Program Op Answer α} {state : State} {post weaker : α → State → Prop}
    (h : Meets handler guarantee program state post)
    (hpost : ∀ value after, post value after → weaker value after) :
    Meets handler guarantee program state weaker := by
  induction program generalizing state with
  | result value => exact hpost _ _ h
  | diverge => exact h
  | perform op rest ih =>
    obtain ⟨hallowed, reply, hreply, hrest⟩ := h
    exact ⟨hallowed, reply, hreply, ih reply.1 hrest⟩

/-- A larger guarantee asks less of the program. -/
theorem Meets.allow {larger : State → Op → Prop} {program : Program Op Answer α} {state : State}
    {post : α → State → Prop} (h : Meets handler guarantee program state post)
    (hlarger : ∀ before op, guarantee before op → larger before op) :
    Meets handler larger program state post := by
  induction program generalizing state with
  | result value => exact h
  | diverge => exact h
  | perform op rest ih =>
    obtain ⟨hallowed, reply, hreply, hrest⟩ := h
    exact ⟨hlarger _ _ hallowed, reply, hreply, ih reply.1 hrest⟩

/-- A handler that agrees on the allowed operations runs the program the same way. -/
theorem Meets.transfer {other : Handler Op Answer State} {program : Program Op Answer α}
    {state : State} {post : α → State → Prop} (h : Meets handler guarantee program state post)
    (hagree : ∀ before op, guarantee before op → other op before = handler op before) :
    Meets other guarantee program state post := by
  induction program generalizing state with
  | result value => exact h
  | diverge => exact h
  | perform op rest ih =>
    obtain ⟨hallowed, reply, hreply, hrest⟩ := h
    exact ⟨hallowed, reply, (hagree state op hallowed).trans hreply, ih reply.1 hrest⟩

/-- What every allowed operation preserves, the program preserves. -/
theorem Meets.preserve {relation : State → State → Prop} (hrefl : ∀ state, relation state state)
    (htrans : ∀ first second third, relation first second → relation second third →
      relation first third)
    (hop : ∀ before op reply, guarantee before op → handler op before = some reply →
      relation before reply.2) {program : Program Op Answer α} {state : State}
    {post : α → State → Prop} (h : Meets handler guarantee program state post) :
    Meets handler guarantee program state fun value after ↦ post value after ∧ relation state after := by
  induction program generalizing state with
  | result value => exact ⟨h, hrefl state⟩
  | diverge => exact h
  | perform op rest ih =>
    obtain ⟨hallowed, reply, hreply, hrest⟩ := h
    have hstep := hop state op reply hallowed hreply
    refine ⟨hallowed, reply, hreply, (ih reply.1 hrest).mono fun value after hafter ↦ ?_⟩
    exact ⟨hafter.1, htrans _ _ _ hstep hafter.2⟩

/-- Sequencing with an intermediate assertion. -/
theorem Meets.bind {program : Program Op Answer α} {next : α → Program Op Answer β}
    {state : State} {middle : α → State → Prop} {post : β → State → Prop}
    (h : Meets handler guarantee program state middle)
    (hnext : ∀ value after, middle value after →
      Meets handler guarantee (next value) after post) :
    Meets handler guarantee (program >>= next) state post :=
  (meets_bind program next state post).mpr (h.mono hnext)

/-- Invariant rule of the counted loop. -/
theorem meets_forRange {count : ℕ} {body : ℕ → Program Op Answer Unit} {state : State}
    (invariant : ℕ → State → Prop) (hinit : invariant 0 state)
    (hbody : ∀ index < count, ∀ before, invariant index before →
      Meets handler guarantee (body index) before fun _ after ↦ invariant (index + 1) after) :
    Meets handler guarantee (forRange count body) state fun _ after ↦ invariant count after := by
  induction count with
  | zero => exact hinit
  | succ count ih =>
    have hprefix := ih fun index hindex ↦ hbody index (by omega)
    exact hprefix.bind fun _ after hafter ↦ hbody count (by omega) after hafter

theorem mem_events_bind_left {program : Program Op Answer α} {next : α → Program Op Answer β}
    {state : State} {event : State × Op} (h : event ∈ Program.events handler program state) :
    event ∈ Program.events handler (program >>= next) state := by
  induction program generalizing state with
  | result value => exact absurd h List.not_mem_nil
  | diverge => exact absurd h List.not_mem_nil
  | perform op rest ih =>
    rcases List.mem_cons.mp h with rfl | h
    · exact List.mem_cons_self
    · apply List.mem_cons_of_mem
      cases hreply : handler op state with
      | none => simp [hreply] at h
      | some reply =>
        rw [hreply] at h
        exact ih reply.1 h

theorem mem_events_bind_right {program : Program Op Answer α} {next : α → Program Op Answer β}
    {state after : State} {value : α} {event : State × Op}
    (hexec : Program.exec handler program state = some (value, after))
    (h : event ∈ Program.events handler (next value) after) :
    event ∈ Program.events handler (program >>= next) state := by
  induction program generalizing state with
  | result other =>
    obtain ⟨rfl, rfl⟩ := Prod.mk.inj (Option.some.inj hexec)
    exact h
  | diverge => cases hexec
  | perform op rest ih =>
    apply List.mem_cons_of_mem
    cases hreply : handler op state with
    | none => simp [Program.exec, hreply] at hexec
    | some reply =>
      simp only [Program.exec, hreply, Option.bind_some] at hexec
      exact ih reply.1 hexec

/-- A counted loop starts with its first round. -/
theorem mem_events_forRange {count : ℕ} {body : ℕ → Program Op Answer Unit} {state : State}
    {event : State × Op} (h : event ∈ events handler (body 0) state) :
    event ∈ events handler (forRange (count + 1) body) state := by
  induction count with
  | zero => exact h
  | succ count ih => exact mem_events_bind_left ih

theorem exec_bind (program : Program Op Answer α) (next : α → Program Op Answer β)
    (state : State) :
    exec handler (program >>= next) state =
      (exec handler program state).bind fun reply ↦ exec handler (next reply.1) reply.2 := by
  change exec handler (bind program next) state = _
  induction program generalizing state with
  | result value => rfl
  | diverge => rfl
  | perform op rest ih =>
    simp only [bind, exec, Option.bind_assoc]
    exact congrArg _ (funext fun reply ↦ ih reply.1 reply.2)

-- Loops have literal bounds, which a goal must not unroll.
attribute [irreducible] forRange

/-- The specification predicate, in terms of the run and its record of operations. -/
theorem meets_iff (program : Program Op Answer α) (state : State) (post : α → State → Prop) :
    Meets handler guarantee program state post ↔
      (∀ event ∈ events handler program state, guarantee event.1 event.2) ∧
        ∃ value after, exec handler program state = some (value, after) ∧ post value after := by
  induction program generalizing state with
  | result value => simp [Meets, events, exec]
  | diverge => simp [Meets, exec]
  | perform op rest ih =>
    cases hreply : handler op state with
    | none => simp [Meets, exec, hreply]
    | some reply => simp [Meets, events, exec, hreply, ih, and_assoc]

theorem Meets.exec {program : Program Op Answer α} {state : State} {post : α → State → Prop}
    (h : Meets handler guarantee program state post) :
    ∃ value after, Program.exec handler program state = some (value, after) ∧ post value after :=
  ((meets_iff program state post).mp h).2

theorem Meets.events {program : Program Op Answer α} {state : State} {post : α → State → Prop}
    (h : Meets handler guarantee program state post) :
    ∀ event ∈ Program.events handler program state, guarantee event.1 event.2 :=
  ((meets_iff program state post).mp h).1

/-- The postcondition may mention the run that led to it. -/
theorem Meets.with_exec {program : Program Op Answer α} {state : State} {post : α → State → Prop}
    (h : Meets handler guarantee program state post) :
    Meets handler guarantee program state fun value after ↦
      post value after ∧ Program.exec handler program state = some (value, after) := by
  obtain ⟨hevents, value, after, hexec, hpost⟩ := (meets_iff program state post).mp h
  exact (meets_iff program state _).mpr ⟨hevents, value, after, hexec, hpost, hexec⟩

/-- A run that did return satisfies the postcondition. -/
theorem Meets.of_exec {program : Program Op Answer α} {state after : State}
    {value : α} {post : α → State → Prop} (h : Meets handler guarantee program state post)
    (hexec : Program.exec handler program state = some (value, after)) : post value after := by
  obtain ⟨other, last, hother, hpost⟩ := h.exec
  rw [hexec] at hother
  obtain ⟨rfl, rfl⟩ := Prod.mk.inj (Option.some.inj hother)
  exact hpost

end Rules

end Program

end Foundation
