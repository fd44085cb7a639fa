import Mathlib.Logic.Basic
import Mathlib.Tactic.Common

/-!
# Labelled runs

A run starts in an initial state and takes labelled steps. Its history lists the labels newest
first, so that "the most recent event such that .." is a search from the head of the list and an
induction over the run peels off the last step.
-/

namespace Foundation

inductive Run {State Label : Type} (Initial : State → Prop) (Step : State → Label → State → Prop) :
    List Label → State → Prop where
  | start {state : State} : Initial state → Run Initial Step [] state
  | step {history : List Label} {before after : State} {label : Label} :
      Run Initial Step history before → Step before label after →
        Run Initial Step (label :: history) after

/-- The states that some run reaches. -/
def Reachable {State Label : Type} (Initial : State → Prop)
    (Step : State → Label → State → Prop) (state : State) : Prop :=
  ∃ history, Run Initial Step history state

/-- What the most recent event with a report reports; `initial` if there is none. -/
def latest {Label Value : Type} (report : Label → Option Value) (initial : Value) : List Label → Value
  | [] => initial
  | label :: older => (report label).getD (latest report initial older)

theorem latest_of_some {Label Value : Type} {report : Label → Option Value} {initial value : Value}
    {label : Label} (older : List Label) (h : report label = some value) :
    latest report initial (label :: older) = value := by
  rw [latest, h]
  rfl

theorem latest_of_none {Label Value : Type} {report : Label → Option Value} {initial : Value}
    {label : Label} (older : List Label) (h : report label = none) :
    latest report initial (label :: older) = latest report initial older := by
  rw [latest, h]
  rfl

/-- The oldest event with a property. -/
theorem exists_oldest {Label : Type} {property : Label → Prop} {history : List Label}
    (h : ∃ label ∈ history, property label) :
    ∃ newer label older, history = newer ++ label :: older ∧ property label ∧
      ∀ other ∈ older, ¬ property other := by
  induction history with
  | nil =>
    obtain ⟨_, hmem, _⟩ := h
    exact absurd hmem List.not_mem_nil
  | cons event history ih =>
    by_cases holder : ∃ label ∈ history, property label
    · obtain ⟨newer, label, older, rfl, hlabel, hfirst⟩ := ih holder
      exact ⟨event :: newer, label, older, rfl, hlabel, hfirst⟩
    · obtain ⟨label, hmem, hlabel⟩ := h
      rcases List.mem_cons.mp hmem with rfl | hmem
      · exact ⟨[], label, history, rfl, hlabel, fun other hother hproperty ↦
          holder ⟨other, hother, hproperty⟩⟩
      · exact absurd ⟨label, hmem, hlabel⟩ holder

namespace Run

variable {State Label : Type} {Initial : State → Prop} {Step : State → Label → State → Prop}

/-- A history invariant holds along every run. -/
theorem induct (Invariant : List Label → State → Prop)
    (hinit : ∀ state, Initial state → Invariant [] state)
    (hstep : ∀ history before label after, Run Initial Step history before →
      Invariant history before → Step before label after → Invariant (label :: history) after)
    {history : List Label} {state : State} (hrun : Run Initial Step history state) :
    Invariant history state := by
  induction hrun with
  | start hinitial => exact hinit _ hinitial
  | step hprefix hlast ih => exact hstep _ _ _ _ hprefix ih hlast

/-- A state invariant holds along every run. -/
theorem invariant (Invariant : State → Prop) (hinit : ∀ state, Initial state → Invariant state)
    (hstep : ∀ before label after, Invariant before → Step before label after → Invariant after)
    {history : List Label} {state : State} (hrun : Run Initial Step history state) :
    Invariant state :=
  induct (fun _ state ↦ Invariant state) hinit
    (fun _ before label after _ hbefore hlast ↦ hstep before label after hbefore hlast) hrun

/-- A run from the last state of another one goes on with it. -/
theorem append {older newer : List Label} {middle state : State} (hfirst : Run Initial Step older middle)
    (hrest : Run (· = middle) Step newer state) : Run Initial Step (newer ++ older) state := by
  induction hrest with
  | start hstart =>
    obtain rfl := hstart
    exact hfirst
  | step _ hlast ih => exact ih.step hlast

/-- Cutting off the newest events leaves a run. -/
theorem suffix {newer older : List Label} {state : State}
    (hrun : Run Initial Step (newer ++ older) state) : ∃ middle, Run Initial Step older middle := by
  induction newer generalizing state with
  | nil => exact ⟨state, hrun⟩
  | cons label newer ih =>
    cases hrun with
    | step hprefix _ => exact ih hprefix

end Run

namespace Reachable

variable {State Label : Type} {Initial : State → Prop} {Step : State → Label → State → Prop}

theorem initial {state : State} (h : Initial state) : Reachable Initial Step state :=
  ⟨[], .start h⟩

theorem step {before after : State} {label : Label} (h : Reachable Initial Step before)
    (hstep : Step before label after) : Reachable Initial Step after := by
  obtain ⟨history, hrun⟩ := h
  exact ⟨label :: history, hrun.step hstep⟩

theorem invariant (Invariant : State → Prop) (hinit : ∀ state, Initial state → Invariant state)
    (hstep : ∀ before label after, Invariant before → Step before label after → Invariant after)
    {state : State} (h : Reachable Initial Step state) : Invariant state := by
  obtain ⟨history, hrun⟩ := h
  exact hrun.invariant Invariant hinit hstep

end Reachable

end Foundation
