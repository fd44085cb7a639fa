import NeilOS.Scheduler.Stacks

/-!
# Which stack pointer a decision returns

`esp` is overwritten at every decision and at every creation. Along a run, the pointer that a
decision returns is the one that the most recent event about the selected task left behind: the
frame of its last interruption or, if it has not run since, the frame of its creation.
-/

namespace NeilOS.Scheduler

open Foundation

/-- The stack pointer that an event leaves for a task; an exit leaves none, except for `idleTask`. -/
def Event.leaves (ref : TaskRef) : Event → Option (Option Word)
  | .decision kind outgoing regs _ _ =>
      if outgoing = ref then some (if kind = .exit ∧ ref ≠ .idle then none else some regs) else none
  | .create _ (some (index, frame)) => if ref = .slot index then some (some frame) else none
  | _ => none

/-- The frame that `scheduler_init` builds for `idleTask`. -/
def initialPointer (image : TaskImage) : TaskRef → Option Word
  | .idle => some (taskCreateContext image image.idleStack image.idleTaskEntry fun _ ↦ 0).1
  | .slot _ => none

/-- The pointer that the history leaves for a task. -/
def savedPointer (image : TaskImage) (ref : TaskRef) (history : List Event) : Option Word :=
  latest (Event.leaves ref) (initialPointer image ref) history

/-- Every task that waits to run has the pointer that the history leaves for it. -/
def Saved (image : TaskImage) (history : List Event) (system : System) : Prop :=
  ∀ ref, Live system.scheduler ref → system.scheduler.curTask ≠ some ref →
    savedPointer image ref history = some (system.scheduler.task ref).esp ∧
      (system.scheduler.task ref).esp ≠ 0

variable {image : TaskImage} {before after : System} {event : Event} {current : TaskRef}
  {history : List Event}

theorem Event.leaves_of_quiet (ref : TaskRef) (h : event.quiet = true) : event.leaves ref = none := by
  cases event with
  | decision => cases h
  | block => cases h
  | create entry created =>
    cases created with
    | none => rfl
    | some created => cases h
  | pass => rfl
  | unblock => rfl
  | execute => rfl

theorem taskCreateContext_fst (image : TaskImage) {stack : Word} (entry : Word) (memory : Memory)
    (hbound : stack.toNat + 4096 < 2 ^ 32) :
    (taskCreateContext image stack entry memory).1 = .ofNat 32 (stack.toNat + 4040) :=
  (taskCreateContext_spec image entry memory hbound).pointer_eq

theorem Created.esp_ne_zero {entry : Word} {index : Fin 16} {scheduler created : Scheduler}
    (h : Numbered scheduler) (hcreated : Created image entry scheduler index created) :
    (created.task (.slot index)).esp ≠ 0 := by
  have hstacks := stacks_le_boot image
  have hlt := index.isLt
  have hpointer := (hcreated.pushed h).pointer_eq
  have hwords : (contextWords image entry).length = 14 := rfl
  rw [hcreated.stackOf_eq h, hwords] at hpointer
  dsimp only at hpointer
  rw [hpointer]
  bv_omega

theorem Initial.saved (h : Initial image before) : Saved image [] before := by
  obtain ⟨scheduler, rfl⟩ := h
  intro ref hlive hcurrent
  cases ref with
  | idle =>
    have hidle := idle_le_boot image
    have hpointer (memory : Memory) :
        (taskCreateContext image image.idleStack image.idleTaskEntry memory).1 =
          .ofNat 32 (image.idleStack.toNat + 4040) :=
      taskCreateContext_fst image image.idleTaskEntry memory (by omega)
    refine ⟨congrArg some ((hpointer _).trans (hpointer scheduler.memory).symm), ?_⟩
    change (taskCreateContext image image.idleStack image.idleTaskEntry scheduler.memory).1 ≠ 0
    rw [hpointer]
    bv_omega
  | slot index =>
    have hindex : index ≠ 0 := fun heq ↦ hcurrent (by rw [heq]; rfl)
    exact absurd (if_neg hindex) (hlive.resolve_left TaskRef.noConfusion)

/-- What the decision itself leaves for the outgoing task, if that can still run. -/
theorem leaves_outgoing {kind : Interrupt} {regs returned : Word} {selected : TaskRef}
    (h : kind = .exit → current = .idle) :
    (Event.decision kind current regs selected returned).leaves current = some (some regs) := by
  have hkept : ¬ (kind = .exit ∧ current ≠ .idle) := fun hboth ↦ hboth.2 (h hboth.1)
  rw [Event.leaves, if_pos rfl, if_neg hkept]

theorem Saved.unchanged (hsaved : Saved image history before) {ref : TaskRef}
    (hleaves : event.leaves ref = none)
    (hesp : (after.scheduler.task ref).esp = (before.scheduler.task ref).esp)
    (hlive : Live before.scheduler ref) (hcurrent : before.scheduler.curTask ≠ some ref) :
    savedPointer image ref (event :: history) = some (after.scheduler.task ref).esp ∧
      (after.scheduler.task ref).esp ≠ 0 := by
  rw [savedPointer, latest_of_none history hleaves, hesp]
  exact hsaved ref hlive hcurrent

theorem Outcome.saved (hrunning : Running before current) (hnumbered : Numbered before.scheduler)
    (hsaved : Saved image history before) (h : Outcome image before current event after) :
    Saved image (event :: history) after := by
  intro ref hlive hcurrent
  have hwaiting (hne : ref ≠ current) : before.scheduler.curTask ≠ some ref := by
    rw [hrunning.curTask]
    exact fun heq ↦ hne (Option.some.inj heq).symm
  cases h with
  | @decision kind regs returned selected _ hregs hdecision =>
    have hselected : ref ≠ selected := by
      rintro rfl
      exact hcurrent hdecision.curTask
    have htask := hdecision.task_other ref hselected
    by_cases heq : ref = current
    · subst heq
      rw [Decision.demoted_current] at htask
      have hkept : kind = .exit → ref = .idle := by
        rintro rfl
        refine hlive.resolve_right fun hstate ↦ hstate ?_
        rw [htask]
        rfl
      rw [savedPointer, latest_of_some history (leaves_outgoing hkept), htask]
      exact ⟨rfl, hregs⟩
    · rw [Decision.demoted_other heq] at htask
      exact hsaved.unchanged (if_neg (Ne.symm heq)) (congrArg Task.esp htask)
        (by rwa [Live, htask] at hlive) (hwaiting heq)
  | quiet hquiet htask hsame _ _ =>
    exact hsaved.unchanged (Event.leaves_of_quiet ref hquiet) (by rw [htask])
      (by rwa [Live, htask] at hlive) (by rwa [hsame] at hcurrent)
  | @created _ index _ _ hcreated =>
    by_cases heq : ref = .slot index
    · subst heq
      rw [savedPointer, latest_of_some history (if_pos rfl), hcreated.task_slot]
      have hne := hcreated.esp_ne_zero hnumbered
      rw [hcreated.task_slot] at hne
      exact ⟨rfl, hne⟩
    · have htask := hcreated.task_other ref heq
      exact hsaved.unchanged (if_neg heq) (congrArg Task.esp htask)
        (by rwa [Live, htask] at hlive) (by rwa [hcreated.curTask] at hcurrent)
  | block _ =>
    have hne : ref ≠ current := by
      rintro rfl
      exact hcurrent ((curTask_modify ..).trans hrunning.curTask)
    have htask := task_modify_of_ne before.scheduler (fun task ↦ { task with state := .blocked }) hne
    exact hsaved.unchanged rfl (congrArg Task.esp htask) (by rwa [Live, htask] at hlive) (hwaiting hne)
  | @unblock _ index _ hblocked =>
    have hbefore : before.scheduler.curTask ≠ some ref := fun heq ↦
      hcurrent ((curTask_modify ..).trans heq)
    by_cases heq : ref = .slot index
    · subst heq
      have htask := task_modify_same before.scheduler (.slot index) fun task ↦ { task with state := .ready }
      exact hsaved.unchanged rfl (by rw [htask]) (.inr (not_terminated_of_blocked hblocked)) hbefore
    · have htask := task_modify_of_ne before.scheduler (fun task ↦ { task with state := .ready }) heq
      exact hsaved.unchanged rfl (congrArg Task.esp htask) (by rwa [Live, htask] at hlive) hbefore

theorem run_saved {system : System} (hrun : Run (Initial image) (Step image) history system) :
    Saved image history system := by
  refine hrun.induct (Saved image) (fun _ ↦ Initial.saved) ?_
  intro history before event after hprefix hsaved hstep
  obtain ⟨⟨current, hrunning⟩, hnumbered⟩ := run_invariant hprefix
  exact (step_outcome hrunning hnumbered hstep).saved hrunning hnumbered hsaved

/-- A decision returns the pointer the history left for the task it selects, never a null one. -/
theorem decision_returns_saved {system : System} {kind : Interrupt} {outgoing selected : TaskRef}
    {regs returned : Word} (hrun : Run (Initial image) (Step image)
      (.decision kind outgoing regs selected returned :: history) system) :
    savedPointer image selected (.decision kind outgoing regs selected returned :: history) =
      some returned ∧ returned ≠ 0 := by
  cases hrun with
  | step hprefix hstep =>
    obtain ⟨⟨current, hrunning⟩, hnumbered⟩ := run_invariant hprefix
    cases step_outcome hrunning hnumbered hstep with
    | quiet hquiet => cases hquiet
    | decision hregs hdecision =>
      have hreturned := hdecision.returned_eq
      by_cases heq : selected = outgoing
      · subst heq
        rw [Decision.demoted_current] at hreturned
        have hkept : kind = .exit → selected = .idle := by
          rintro rfl
          rcases hdecision.selected_cases with ⟨index, -, hready⟩ | ⟨hidle, -⟩
          · rw [Decision.demoted_current] at hready
            cases hready
          · exact hidle
        rw [savedPointer, latest_of_some history (leaves_outgoing hkept), hreturned]
        exact ⟨rfl, hregs⟩
      · rw [Decision.demoted_other heq] at hreturned
        have hwaiting : ¬ _ = some selected := fun hsame ↦
          heq (Option.some.inj (hrunning.curTask.symm.trans hsame)).symm
        have hsaved := run_saved hprefix selected (hrunning.live_selected hdecision) hwaiting
        rw [savedPointer, latest_of_none history (if_neg (Ne.symm heq)), hreturned]
        exact hsaved

theorem decision_returns_saved_first_switch :
    savedPointer smallTaskImage (.slot 1) [.decision .yield (.slot 0) 0x9D000 (.slot 1) 0x20FC8,
      .create 0xC000 (some (1, 0x20FC8))] = some 0x20FC8 :=
  (decision_returns_saved run_firstSwitch).1

end NeilOS.Scheduler
