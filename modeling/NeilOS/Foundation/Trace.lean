import NeilOS.Foundation.Program

/-!
# Programs with a known trace

`Performs` says of one run what it returns and which operations it performs, in order. A program that
performs the same operations whatever they answer is `straight`, and for it the trace is part of the
program text.
-/

namespace Foundation

namespace Program

variable {Op State α β : Type} {Answer : Op → Type}

/-- An optional value; a missing one stops the program. -/
def ofOption : Option α → Program Op Answer α
  | some value => result value
  | none => diverge

/-- Perform a list of operations, ignore the answers and return a value. -/
def straight (value : α) : List Op → Program Op Answer α
  | [] => result value
  | op :: ops => perform op fun _ ↦ straight value ops

theorem straight_bind {value : α} {ops rest : List Op} {other : β}
    {next : α → Program Op Answer β} (hnext : next value = straight other rest) :
    straight value ops >>= next = straight other (ops ++ rest) := by
  change (straight value ops).bind next = _
  induction ops with
  | nil => exact hnext
  | cons op ops ih => exact congrArg (perform op) (funext fun _ ↦ ih)

theorem straight_map (value : α) (ops : List Op) (f : α → β) :
    (straight value ops >>= fun value ↦ pure (f value) : Program Op Answer β) =
      straight (f value) ops := by
  have hlast : (pure (f value) : Program Op Answer β) = straight (f value) [] := rfl
  have hbind := @straight_bind Op α β Answer value ops [] (f value) (fun value ↦ pure (f value)) hlast
  rwa [List.append_nil] at hbind

variable {handler : Handler Op Answer State}

/-- The operations of a run, in order. -/
def trace (handler : Handler Op Answer State) (program : Program Op Answer α) (state : State) :
    List Op :=
  (events handler program state).map Prod.snd

theorem events_bind {program : Program Op Answer α} {next : α → Program Op Answer β}
    {state after : State} {value : α} (hexec : exec handler program state = some (value, after)) :
    events handler (program >>= next) state =
      events handler program state ++ events handler (next value) after := by
  change events handler (bind program next) state = _
  induction program generalizing state with
  | result other =>
    obtain ⟨rfl, rfl⟩ := Prod.mk.inj (Option.some.inj hexec)
    rfl
  | diverge => cases hexec
  | perform op rest ih =>
    cases hreply : handler op state with
    | none => simp [exec, hreply] at hexec
    | some reply =>
      simp only [exec, hreply, Option.bind_some] at hexec
      simp only [bind, events, hreply, Option.elim_some, List.cons_append]
      exact congrArg _ (ih reply.1 hexec)

/-- The run returns and performs exactly these operations. -/
structure Performs (handler : Handler Op Answer State) (program : Program Op Answer α)
    (before : State) (ops : List Op) (value : α) (after : State) : Prop where
  exec_eq : exec handler program before = some (value, after)
  trace_eq : trace handler program before = ops

theorem performs_pure (value : α) (state : State) :
    Performs handler (pure value : Program Op Answer α) state [] value state :=
  ⟨rfl, rfl⟩

theorem performs_call {op : Op} {before after : State} {answer : Answer op}
    (hreply : handler op before = some (answer, after)) :
    Performs handler (call op) before [op] answer after := by
  constructor
  · simp only [call, exec, hreply, Option.bind_some]
  · simp only [trace, call, events, hreply, Option.elim_some, List.map_cons, List.map_nil]

theorem Performs.bind {program : Program Op Answer α} {next : α → Program Op Answer β}
    {before middle after : State} {ops rest : List Op} {value : α} {other : β}
    (h : Performs handler program before ops value middle)
    (hnext : Performs handler (next value) middle rest other after) :
    Performs handler (program >>= next) before (ops ++ rest) other after := by
  constructor
  · rw [exec_bind, h.exec_eq]
    exact hnext.exec_eq
  · rw [trace, events_bind h.exec_eq, List.map_append]
    exact congrArg₂ _ h.trace_eq hnext.trace_eq

/-- A last step that only computes. -/
theorem Performs.map {program : Program Op Answer α} {before after : State} {ops : List Op}
    {value : α} (h : Performs handler program before ops value after) (f : α → β) :
    Performs handler (program >>= fun value ↦ pure (f value)) before ops (f value) after := by
  have hmap : Performs handler (program >>= fun value ↦ pure (f value)) before (ops ++ [])
      (f value) after := h.bind (performs_pure (f value) after)
  rwa [List.append_nil] at hmap

/-- A run whose operations are all allowed, by its trace. -/
theorem Meets.performs {allowed : Op → Prop} {program : Program Op Answer α} {before : State}
    {post : α → State → Prop}
    (h : Meets handler (fun _ op ↦ allowed op) program before post) :
    ∃ ops value after, Performs handler program before ops value after ∧ (∀ op ∈ ops, allowed op) ∧
      post value after := by
  obtain ⟨value, after, hexec, hpost⟩ := h.exec
  refine ⟨trace handler program before, value, after, ⟨hexec, rfl⟩, fun op hop ↦ ?_, hpost⟩
  obtain ⟨event, hevent, rfl⟩ := List.mem_map.mp hop
  exact h.events event hevent

/-! ## A second state beside the first -/

section Along

variable {Other : Type}

/-- Every operation also acts on a second state, which no answer depends on. -/
def along (handler : Handler Op Answer State) (act : Op → Other → Option Other) :
    Handler Op Answer (State × Other) :=
  fun op states ↦ (handler op states.1).bind fun reply ↦
    (act op states.2).map fun other ↦ (reply.1, reply.2, other)

/-- What a run does to the second state depends on its trace only. -/
theorem Performs.along {act : Op → Other → Option Other} {program : Program Op Answer α}
    {before after : State} {ops : List Op} {value : α}
    (h : Performs handler program before ops value after) (other : Other) :
    exec (Program.along handler act) program (before, other) =
      (ops.foldlM (fun other op ↦ act op other) other).map fun last ↦ (value, after, last) := by
  obtain ⟨hexec, rfl⟩ := h
  induction program generalizing before other with
  | result expected =>
    obtain ⟨rfl, rfl⟩ := Prod.mk.inj (Option.some.inj hexec)
    rfl
  | diverge => cases hexec
  | perform op next ih =>
    cases hreply : handler op before with
    | none => simp [exec, hreply] at hexec
    | some reply =>
      have htrace : trace handler (perform op next) before = op :: trace handler (next reply.1) reply.2 := by
        simp only [trace, events, hreply, Option.elim_some, List.map_cons]
      simp only [exec, hreply, Option.bind_some] at hexec
      rw [htrace, List.foldlM_cons, exec, Program.along, hreply, Option.bind_some]
      cases hact : act op other with
      | none => rfl
      | some changed => exact ih reply.1 changed hexec

end Along

end Program

end Foundation
