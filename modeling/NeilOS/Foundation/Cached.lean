import NeilOS.Foundation.Program

/-!
# Programs next to a cache

A cache holds entries of a partial map that is computed from the state of a machine. At any moment
it may load the current value of a key that has one, or evict a key; some operations make it drop
keys. The program itself does not see the cache, so the question is only what the cache holds when
the program returns: whatever bounds the map at every operation on the way bounds the cache.
-/

namespace Foundation

variable {Key Value : Type}

abbrev Cache (Key Value : Type) := Key → Option Value

namespace Cache

/-- Every value of the first map is the value of the second. -/
def Agrees (cache source : Key → Option Value) : Prop :=
  ∀ key value, cache key = some value → source key = some value

/-- Any number of loads of present keys and of evictions. -/
def Drifts (source : Key → Option Value) (before after : Cache Key Value) : Prop :=
  ∀ key, after key = before key ∨ after key = source key ∨ after key = none

/-- The cache without the keys an operation drops. -/
def forget (dropped : Key → Bool) (cache : Cache Key Value) : Cache Key Value :=
  fun key ↦ if dropped key then none else cache key

theorem Agrees.refl (source : Key → Option Value) : Agrees source source := fun _ _ h ↦ h

theorem Drifts.refl (source : Key → Option Value) (cache : Cache Key Value) :
    Drifts source cache cache := fun _ ↦ .inl rfl

theorem Agrees.drift {source bound : Key → Option Value} {before after : Cache Key Value}
    (h : Agrees before bound) (hsource : Agrees source bound) (hdrift : Drifts source before after) :
    Agrees after bound := by
  intro key value hvalue
  rcases hdrift key with heq | heq | heq
  · exact h key value (heq.symm.trans hvalue)
  · exact hsource key value (heq.symm.trans hvalue)
  · rw [heq] at hvalue
    cases hvalue

theorem Agrees.forget {bound : Key → Option Value} {cache : Cache Key Value} (h : Agrees cache bound)
    (dropped : Key → Bool) : Agrees (forget dropped cache) bound := by
  intro key value hvalue
  unfold Cache.forget at hvalue
  split at hvalue
  · cases hvalue
  · exact h key value hvalue

/-- Without loads a dropped key stays absent. -/
theorem Drifts.eq_none {source : Key → Option Value} {before after : Cache Key Value}
    (h : Drifts source before after) {key : Key} (hbefore : before key = none)
    (hsource : source key = none) : after key = none := by
  rcases h key with heq | heq | heq
  · exact heq.trans hbefore
  · exact heq.trans hsource
  · exact heq

end Cache

namespace Program

open Cache

variable {Op State α β : Type} {Answer : Op → Type}

/-- A run of a program during which the cache drifts before each operation and at the end. -/
inductive CachedExec (handler : Handler Op Answer State) (source : State → Key → Option Value)
    (drops : Op → Key → Bool) :
    Program Op Answer α → State → Cache Key Value → α → State → Cache Key Value → Prop where
  | result {value : α} {state : State} {before after : Cache Key Value} :
      Drifts (source state) before after →
        CachedExec handler source drops (.result value) state before value state after
  | perform {op : Op} {next : Answer op → Program Op Answer α} {state last : State} {value : α}
      {before drifted after : Cache Key Value} {reply : Answer op × State} :
      Drifts (source state) before drifted → handler op state = some reply →
        CachedExec handler source drops (next reply.1) reply.2 (forget (drops op) drifted)
          value last after →
        CachedExec handler source drops (.perform op next) state before value last after

section Rules

variable {handler : Handler Op Answer State} {source : State → Key → Option Value}
  {drops : Op → Key → Bool} {state last : State} {value : α} {before after : Cache Key Value}

/-- The cache does not disturb the program. -/
theorem CachedExec.exec {program : Program Op Answer α}
    (h : CachedExec handler source drops program state before value last after) :
    Program.exec handler program state = some (value, last) := by
  induction h with
  | result _ => rfl
  | perform _ hreply _ ih =>
    rw [Program.exec, hreply]
    exact ih

/-- Every run of the program is one next to a cache that does not move. -/
theorem CachedExec.of_exec (source : State → Key → Option Value) (drops : Op → Key → Bool)
    {program : Program Op Answer α} (h : Program.exec handler program state = some (value, last))
    (before : Cache Key Value) :
    ∃ after, CachedExec handler source drops program state before value last after := by
  induction program generalizing state before with
  | result other =>
    obtain ⟨rfl, rfl⟩ := Prod.mk.inj (Option.some.inj h)
    exact ⟨before, .result (.refl _ _)⟩
  | diverge => cases h
  | perform op next ih =>
    cases hreply : handler op state with
    | none => simp [Program.exec, hreply] at h
    | some reply =>
      simp only [Program.exec, hreply, Option.bind_some] at h
      obtain ⟨after, hrest⟩ := ih reply.1 h (forget (drops op) before)
      exact ⟨after, .perform (.refl _ _) hreply hrest⟩

/-- A run of a sequence splits where the first part returns. -/
theorem CachedExec.of_bind {program : Program Op Answer β} {next : β → Program Op Answer α}
    (h : CachedExec handler source drops (program >>= next) state before value last after) :
    ∃ result middle cache, CachedExec handler source drops program state before result middle cache ∧
      CachedExec handler source drops (next result) middle cache value last after := by
  induction program generalizing state before with
  | result other => exact ⟨other, state, before, .result (.refl _ _), h⟩
  | diverge => cases h
  | perform op rest ih =>
    cases h with
    | perform hdrift hreply hrest =>
      obtain ⟨result, middle, cache, hfirst, hsecond⟩ := ih _ hrest
      exact ⟨result, middle, cache, .perform hdrift hreply hfirst, hsecond⟩

/-- A bound on the map at every operation bounds the cache up to its last drift. -/
theorem Meets.cached {guarantee : State → Op → Prop} {program : Program Op Answer α}
    {post : α → State → Prop} {bound : Key → Option Value}
    (h : Meets handler guarantee program state post)
    (hbound : ∀ middle op, guarantee middle op → Agrees (source middle) bound)
    (hbefore : Agrees before bound)
    (hexec : CachedExec handler source drops program state before value last after) :
    post value last ∧ (Agrees (source last) bound → Agrees after bound) := by
  induction hexec with
  | result hdrift => exact ⟨h, fun hsource ↦ hbefore.drift hsource hdrift⟩
  | perform hdrift hreply _ ih =>
    obtain ⟨hallowed, reply, hsame, hrest⟩ := h
    rw [hreply] at hsame
    obtain rfl := Option.some.inj hsame
    exact ih hrest ((hbefore.drift (hbound _ _ hallowed) hdrift).forget _)

end Rules

end Program

end Foundation
