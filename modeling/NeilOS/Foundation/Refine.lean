import Mathlib.Logic.Function.Basic
import NeilOS.Foundation.Program

/-!
# Programs over programs

An operation of one level is often a program of the level below. `translate` puts those programs in the
place of the operations, and a translated program runs as the original one does under the handler that
runs the replacements.

The upper level may leave open what the lower level decides, such as which attempts of a device fail. Its
handler is then a family, indexed by an oracle that is consulted at a position found in the state.
`Meets.resolve` is the rule for it: what a program meets under every admissible oracle, it meets on the
lower level, because the choices of a run can be collected into an oracle as the run goes on.
-/

namespace Foundation.Program

variable {Op Op' State State' Choice α : Type} {Answer : Op → Type} {Answer' : Op' → Type}

/-- The program with every operation replaced by its implementation. -/
def translate (implement : (op : Op) → Program Op' Answer' (Answer op)) :
    Program Op Answer α → Program Op' Answer' α
  | result value => result value
  | perform op next => implement op >>= fun answer ↦ (next answer).translate implement
  | diverge => diverge

/-- The handler that runs the implementations. -/
def implemented (implement : (op : Op) → Program Op' Answer' (Answer op))
    (handler : Handler Op' Answer' State) : Handler Op Answer State :=
  fun op state ↦ exec handler (implement op) state

theorem exec_translate (implement : (op : Op) → Program Op' Answer' (Answer op))
    (handler : Handler Op' Answer' State) (program : Program Op Answer α) (state : State) :
    exec handler (program.translate implement) state =
      exec (implemented implement handler) program state := by
  induction program generalizing state with
  | result value => rfl
  | diverge => rfl
  | perform op next ih =>
    rw [translate, exec_bind]
    exact congrArg _ (funext fun reply ↦ ih reply.1 reply.2)

section Meets

variable {handler : Handler Op Answer State} {guarantee : State → Op → Prop}

/-- The guarantee of a specification may be shown apart from its postcondition. -/
theorem Meets.within {other : State → Op → Prop} {program : Program Op Answer α} {state : State}
    {post : α → State → Prop} (h : Meets handler guarantee program state post)
    (hother : Meets handler other program state fun _ _ ↦ True) :
    Meets handler other program state post :=
  (meets_iff program state post).mpr ⟨hother.events, h.exec⟩

end Meets

/-! ## Allowed operations -/

/-- Whatever the answers are, the program returns, and it performs allowed operations only. -/
def Only (allowed : Op → Prop) : Program Op Answer α → Prop
  | result _ => True
  | perform op next => allowed op ∧ ∀ answer, (next answer).Only allowed
  | diverge => False

section Only

variable {allowed : Op → Prop} {β : Type}

@[simp]
theorem only_pure (value : α) : (pure value : Program Op Answer α).Only allowed := trivial

theorem Only.bind {program : Program Op Answer α} {next : α → Program Op Answer β}
    (h : program.Only allowed) (hnext : ∀ value, (next value).Only allowed) :
    (program >>= next).Only allowed := by
  induction program with
  | result value => exact hnext value
  | diverge => exact h
  | perform op rest ih => exact ⟨h.1, fun answer ↦ ih answer (h.2 answer)⟩

theorem Only.meets {handler : Handler Op Answer State} {program : Program Op Answer α}
    (h : program.Only allowed) (htotal : ∀ op state, ∃ reply, handler op state = some reply)
    (state : State) :
    Meets handler (fun _ op ↦ allowed op) program state fun _ _ ↦ True := by
  induction program generalizing state with
  | result value => trivial
  | diverge => exact h
  | perform op rest ih =>
    obtain ⟨reply, hreply⟩ := htotal op state
    exact ⟨h.1, reply, hreply, ih reply.1 (h.2 reply.1) reply.2⟩

end Only

/-! ## Oracles -/

/-- The handler consults its oracle at one position only, and never goes back. -/
structure Consults (handler : (ℕ → Choice) → Handler Op Answer State) (position : State → ℕ) : Prop where
  congr : ∀ oracle other op state, oracle (position state) = other (position state) →
    handler oracle op state = handler other op state
  forward : ∀ oracle op state reply, handler oracle op state = some reply →
    position state ≤ position reply.2

/-- How an operation of the lower level is matched above: by every oracle, or by those with a certain
choice at the present position, which is then left behind. -/
inductive Matches (handler : (ℕ → Choice) → Handler Op Answer State) (position : State → ℕ)
    (admissible : Choice → Prop) (op : Op) (state : State) (reply : Answer op × State) : Prop where
  | always (h : ∀ oracle, handler oracle op state = some reply)
  | choose (choice : Choice) (hadmissible : admissible choice)
      (hforward : position state < position reply.2)
      (h : ∀ oracle, oracle (position state) = choice → handler oracle op state = some reply)

section Resolve

variable {handler : (ℕ → Choice) → Handler Op Answer State} {position : State → ℕ}
  {guarantee : State → Op → Prop}

/-- Only the choices ahead matter. -/
theorem Consults.meets_congr (hconsults : Consults handler position) {oracle other : ℕ → Choice}
    {program : Program Op Answer α} {state : State} {post : α → State → Prop}
    (hahead : ∀ index, position state ≤ index → oracle index = other index)
    (h : Meets (handler oracle) guarantee program state post) :
    Meets (handler other) guarantee program state post := by
  induction program generalizing state with
  | result value => exact h
  | diverge => exact h
  | perform op next ih =>
    obtain ⟨hallowed, reply, hreply, hnext⟩ := h
    have hforward := hconsults.forward oracle op state reply hreply
    rw [hconsults.congr oracle other op state (hahead _ (Nat.le_refl _))] at hreply
    refine ⟨hallowed, reply, hreply, ih _ (fun index hindex ↦ ?_) hnext⟩
    exact hahead index (Nat.le_trans hforward hindex)

/-- Refinement against a family of handlers. -/
theorem Meets.resolve {lower : Handler Op Answer State'} {related : State' → State → Prop}
    {admissible : Choice → Prop} (hconsults : Consults handler position) (hsome : ∃ choice, admissible choice)
    (hstep : ∀ op below above, related below above → guarantee above op →
      ∃ reply next, lower op below = some reply ∧ related reply.2 next ∧
        Matches handler position admissible op above (reply.1, next))
    {program : Program Op Answer α} {below : State'} {above : State} {post : α → State → Prop}
    (hrelated : related below above)
    (h : ∀ oracle, (∀ index, admissible (oracle index)) →
      Meets (handler oracle) guarantee program above post) :
    ∃ value after last, Program.exec lower program below = some (value, after) ∧ related after last ∧
      post value last := by
  obtain ⟨default, hdefault⟩ := hsome
  induction program generalizing below above with
  | result value => exact ⟨value, below, above, rfl, hrelated, h (fun _ ↦ default) fun _ ↦ hdefault⟩
  | diverge => exact (h (fun _ ↦ default) fun _ ↦ hdefault).elim
  | perform op next ih =>
    have hallowed := (h (fun _ ↦ default) fun _ ↦ hdefault).1
    obtain ⟨reply, state, hreply, hstate, hmatches⟩ := hstep op below above hrelated hallowed
    have hrest : ∀ oracle, (∀ index, admissible (oracle index)) →
        Meets (handler oracle) guarantee (next reply.1) state post := by
      intro oracle hadmissible
      cases hmatches with
      | always halways =>
        obtain ⟨-, other, hother, hnext⟩ := h oracle hadmissible
        rw [halways oracle] at hother
        obtain rfl := Option.some.inj hother
        exact hnext
      | choose choice hchoice hforward hchosen =>
        -- The oracle that makes this choice now agrees with the given one from here on.
        have hupdated : ∀ index, admissible (Function.update oracle (position above) choice index) := by
          intro index
          by_cases hindex : index = position above
          · rw [hindex, Function.update_self]
            exact hchoice
          · rw [Function.update_of_ne hindex]
            exact hadmissible index
        obtain ⟨-, other, hother, hnext⟩ := h _ hupdated
        rw [hchosen _ (Function.update_self ..)] at hother
        obtain rfl := Option.some.inj hother
        refine hconsults.meets_congr (fun index hindex ↦ ?_) hnext
        exact Function.update_of_ne (Nat.ne_of_gt (Nat.lt_of_lt_of_le hforward hindex)) ..
    obtain ⟨value, after, last, hexec, hlast, hpost⟩ := ih reply.1 hstate hrest
    refine ⟨value, after, last, ?_, hlast, hpost⟩
    rw [Program.exec, hreply]
    exact hexec

end Resolve

end Foundation.Program
