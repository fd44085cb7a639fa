import NeilOS.Scheduler.Stacks
import NeilOS.Scheduler.Waiting

/-!
# What the calls of a task answer

`task_create` and `task_unblock` in every reachable state. The ids along a run are slot indices, so
`task_create` always has an id for the slot it found, and `task_unblock` finds the one blocked task
with the given id. Its search starts at slot 1, though, and the kernel task in slot 0 can block like
any other: nothing makes it ready again.
-/

namespace NeilOS.Scheduler

open Foundation

variable {image : TaskImage}

/-! ## Unblocking -/

/-- Among the slots that `task_unblock` searches, a blocked task is found by its id. -/
theorem Numbered.taskUnblock_eq {scheduler : Scheduler} (h : Numbered scheduler) {index : Fin 16}
    (hone : 1 ≤ index.val) (hblocked : (scheduler.tasks index).state = .blocked) :
    taskUnblock (scheduler.tasks index).id scheduler =
      (0, scheduler.modify (.slot index) fun task ↦ { task with state := .ready }) := by
  rcases taskUnblock_cases (scheduler.tasks index).id scheduler with
    ⟨-, hnone⟩ | ⟨other, -, hid, hother, hwoken⟩
  · exact absurd hblocked (hnone index hone rfl)
  · have hlive : Live scheduler (.slot index) := .inr (not_terminated_of_blocked hblocked)
    have hotherLive : Live scheduler (.slot other) := .inr (not_terminated_of_blocked hother)
    have hsame : liveID (.slot other) = liveID (.slot index) := by
      rw [← h.id_eq_liveID hlive, ← h.id_eq_liveID hotherLive]
      exact hid
    obtain rfl := TaskRef.slot.inj (liveID_injective hsame)
    exact hwoken

/-- The id of the kernel task finds nothing: a slot behind it that has id 0 was never used. -/
theorem Numbered.taskUnblock_kernel {scheduler : Scheduler} (h : Numbered scheduler) :
    taskUnblock (scheduler.tasks 0).id scheduler = (-1, scheduler) := by
  have hkernel : (scheduler.tasks 0).id = 0 := by
    rw [h.id_eq 0]
    exact if_neg fun hboth ↦ absurd hboth.1 (by decide)
  rcases taskUnblock_cases (scheduler.tasks 0).id scheduler with
    ⟨hfailed, -⟩ | ⟨index, hone, hid, hblocked, -⟩
  · exact hfailed
  · have hlt := index.isLt
    rw [hkernel, h.id_of_live hone (not_terminated_of_blocked hblocked)] at hid
    bv_omega

/-- Only a change of its own state to another one unblocks the kernel task. -/
theorem kernel_blocked_modify {scheduler : Scheduler} {ref : TaskRef} {state : TaskState}
    (hblocked : (scheduler.tasks 0).state = .blocked) (h : ref = .slot 0 → state = .blocked) :
    ((scheduler.modify ref fun task ↦ { task with state := state }).task (.slot 0)).state =
      .blocked := by
  by_cases hkernel : ref = .slot 0
  · rw [hkernel, task_modify_same]
    exact h hkernel
  · rw [task_modify_of_ne _ _ fun heq ↦ hkernel heq.symm]
    exact hblocked

theorem kernel_blocked_step {before after : System} {event : Event} (hinvariant : Invariant before)
    (hblocked : (before.scheduler.tasks 0).state = .blocked)
    (hstep : Step image before event after) : (after.scheduler.tasks 0).state = .blocked := by
  obtain ⟨current, hrunning⟩ := hinvariant.running
  have hselects := hinvariant.blocked_not_selected hblocked hstep
  cases hstep with
  | @decision _ kind _ _ selected hexit hdecides hcurrent hselected =>
    obtain rfl := Option.some.inj (hcurrent.symm.trans hrunning.curTask)
    obtain ⟨next, hdecision⟩ := interrupt_decision hcurrent hdecides
    obtain rfl := Option.some.inj (hselected.symm.trans hdecision.curTask)
    rcases hdecision.state_cases 0 with ⟨hnext, -⟩ | ⟨rfl, hstate⟩ | ⟨-, hstate⟩
    · exact absurd hnext (of_decide_eq_false hselects)
    · -- The kernel task is between its store and its yield, so it does not exit here.
      have hblocking : before.blocking = true := by
        have hcurrentState := hrunning.state
        cases hflag : before.blocking with
        | true => rfl
        | false =>
          rw [hflag] at hcurrentState
          exact TaskState.noConfusion (hblocked.symm.trans hcurrentState)
      rw [hstate, hblocked, outgoingState, if_neg (hexit hblocking)]
      rfl
    · exact hstate.trans hblocked
  | pass _ hpass =>
    obtain ⟨ticks, hinterrupt⟩ := interrupt_pass hpass
    rw [hinterrupt]
    exact hblocked
  | @create scheduler entry =>
    rcases hinvariant.numbered.taskCreate_cases image entry with hrefused | ⟨index, hone, -, -, hcreated⟩
    · dsimp only at hrefused ⊢
      rw [hrefused]
      exact hblocked
    · have hne : TaskRef.slot 0 ≠ .slot index := by
        rintro ⟨rfl⟩
        exact absurd hone (by decide)
      exact (congrArg Task.state (hcreated.task_other (.slot 0) hne)).trans hblocked
  | @block scheduler =>
    have hcurrent : scheduler.curTask = some current := hrunning.curTask
    rw [taskBlock, hcurrent]
    exact kernel_blocked_modify hblocked fun _ ↦ rfl
  | @unblock scheduler id =>
    rcases taskUnblock_cases id scheduler with ⟨hfailed, -⟩ | ⟨index, hone, -, -, hwoken⟩
    · rw [hfailed]
      exact hblocked
    · have hkernel : TaskRef.slot index = .slot 0 → TaskState.ready = .blocked := by
        rintro ⟨rfl⟩
        exact absurd hone (by decide)
      rw [hwoken]
      exact kernel_blocked_modify hblocked hkernel
  | execute => exact hblocked

/-- Once the kernel task has called `task_block` it stays blocked for the rest of the run. -/
theorem kernel_stays_blocked {system later : System} {newer : List Event}
    (hinvariant : Invariant system) (hblocked : (system.scheduler.tasks 0).state = .blocked)
    (hnewer : Run (· = system) (Step image) newer later) :
    (later.scheduler.tasks 0).state = .blocked := by
  refine (hnewer.invariant (fun later ↦ Invariant later ∧
    (later.scheduler.tasks 0).state = .blocked) ?_ ?_).2
  · rintro _ rfl
    exact ⟨hinvariant, hblocked⟩
  · rintro before event after ⟨hbefore, hkernel⟩ hstep
    exact ⟨hbefore.step hstep, kernel_blocked_step hbefore hkernel hstep⟩

/-- **Unblocking.** In every reachable state `task_unblock` with the id of a blocked task makes that
task ready and changes nothing else, exactly if it is not the kernel task; with any other id it
fails and changes nothing. -/
theorem task_unblock_wakes_iff {history : List Event} {system : System}
    (hrun : Run (Initial image) (Step image) history system) :
    (∀ index : Fin 16, (system.scheduler.tasks index).state = .blocked →
      (taskUnblock (system.scheduler.tasks index).id system.scheduler =
          (0, system.scheduler.modify (.slot index) fun task ↦ { task with state := .ready }) ↔
        index ≠ 0)) ∧
    ∀ id, (∀ index : Fin 16, (system.scheduler.tasks index).state = .blocked →
        (system.scheduler.tasks index).id ≠ id) →
      taskUnblock id system.scheduler = (-1, system.scheduler) := by
  have hnumbered := (run_invariant hrun).numbered
  refine ⟨fun index hblocked ↦ ⟨?_, fun hindex ↦ ?_⟩, fun id hother ↦ ?_⟩
  · rintro hwoken rfl
    rw [hnumbered.taskUnblock_kernel] at hwoken
    exact absurd (congrArg Prod.fst hwoken) (by decide : (-1 : ℤ) ≠ 0)
  · have hone : 1 ≤ index.val := Nat.one_le_iff_ne_zero.mpr fun hzero ↦ hindex (Fin.ext hzero)
    exact hnumbered.taskUnblock_eq hone hblocked
  · rcases taskUnblock_cases id system.scheduler with ⟨hfailed, -⟩ | ⟨index, -, hid, hblocked, -⟩
    · exact hfailed
    · exact absurd hid (hother index hblocked)

theorem task_unblock_wakes_iff_first_block :
    (firstBlock.scheduler.tasks 1).state = .blocked ∧ (taskUnblock 1 firstBlock.scheduler).1 = 0 := by
  obtain ⟨history, hrun⟩ := run_firstBlock
  have hwoken := ((task_unblock_wakes_iff hrun).1 1 rfl).mpr (by decide)
  exact ⟨rfl, congrArg Prod.fst hwoken⟩

/-- The kernel task creates a task, blocks itself and yields to it. -/
def kernelBlock : System :=
  let created := (taskCreate smallTaskImage 0xC000 (schedulerInit smallTaskImage emptyScheduler)).2
  ⟨((taskBlock created).interrupt .yield 0x9D000).2, false⟩

theorem run_kernelBlock : Run (Initial smallTaskImage) (Step smallTaskImage)
    [.decision .yield (.slot 0) 0x9D000 (.slot 1) 0x20FC8, .block, .create 0xC000 (some (1, 0x20FC8))]
    kernelBlock := by
  have hinitial : Initial smallTaskImage ⟨schedulerInit smallTaskImage emptyScheduler, false⟩ :=
    ⟨_, rfl⟩
  exact (((Run.start hinitial).step .create).step .block).step
    (.decision (fun _ ↦ Interrupt.noConfusion) rfl rfl rfl)

/-- The blocked kernel task cannot be woken, now or later. -/
theorem kernel_task_not_woken :
    (kernelBlock.scheduler.tasks 0).state = .blocked ∧ (kernelBlock.scheduler.tasks 0).id = 0 ∧
      taskUnblock 0 kernelBlock.scheduler = (-1, kernelBlock.scheduler) ∧
      ∀ newer later, Run (· = kernelBlock) (Step smallTaskImage) newer later →
        (later.scheduler.tasks 0).state = .blocked := by
  have hinvariant := run_invariant run_kernelBlock
  exact ⟨rfl, rfl, hinvariant.numbered.taskUnblock_kernel, fun newer later hnewer ↦
    kernel_stays_blocked hinvariant rfl hnewer⟩

/-! ## Creating -/

/-- The slot that `task_create` is to take: the lowest terminated one behind the kernel task. -/
structure LowestTerminated (scheduler : Scheduler) (index : Fin 16) : Prop where
  one_le : 1 ≤ index.val
  terminated : (scheduler.tasks index).state = .terminated
  lowest : ∀ earlier : Fin 16, 1 ≤ earlier.val → earlier < index →
    (scheduler.tasks earlier).state ≠ .terminated

theorem terminatedSlot_eq_none {scheduler : Scheduler} (h : scheduler.terminatedSlot = none)
    (index : Fin 16) (hone : 1 ≤ index.val) : (scheduler.tasks index).state ≠ .terminated := by
  rw [terminatedSlot, Option.map_eq_none_iff, List.find?_range'_eq_none] at h
  have hlt := index.isLt
  have hskipped := h index.val hone (by omega)
  simpa using hskipped

theorem LowestTerminated.terminatedSlot_eq {scheduler : Scheduler} {index : Fin 16}
    (h : LowestTerminated scheduler index) : scheduler.terminatedSlot = some index := by
  cases hslot : scheduler.terminatedSlot with
  | none => exact absurd h.terminated (terminatedSlot_eq_none hslot index h.one_le)
  | some found =>
    obtain ⟨hone, hterminated, hearlier⟩ := terminatedSlot_eq_some hslot
    rcases Nat.lt_trichotomy found.val index.val with hlt | heq | hgt
    · exact absurd hterminated (h.lowest found hone hlt)
    · rw [Fin.ext heq]
    · exact absurd h.terminated (hearlier index h.one_le hgt)

/-- What a successful `task_create` leaves: the slot's task is ready, with a fresh context on the
slot's own stack, and no other task has changed. -/
structure Fresh (image : TaskImage) (entry : Word) (scheduler : Scheduler) (index : Fin 16)
    (after : Scheduler) : Prop where
  id_eq : (after.tasks index).id = .ofNat 32 index.val
  ready : (after.tasks index).state = .ready
  stack : stackOf image after (.slot index) = ⟨image.taskStacks.toNat + 4096 * (index.val - 1),
    image.taskStacks.toNat + 4096 * (index.val - 1) + 4096⟩
  context : Stack.Pushed scheduler.memory (stackOf image after (.slot index)).high
    (contextWords image entry) ((after.tasks index).esp, after.memory)
  curTask : after.curTask = scheduler.curTask
  others : ∀ other, other ≠ .slot index → after.task other = scheduler.task other

theorem Created.fresh {scheduler after : Scheduler} {entry : Word} {index : Fin 16}
    (h : Created image entry scheduler index after) (hnumbered : Numbered scheduler) :
    Fresh image entry scheduler index after where
  id_eq := (congrArg Task.id h.task_slot).trans (hnumbered.slotID_eq h.slot).1
  ready := congrArg Task.state h.task_slot
  stack := h.stackOf_eq hnumbered
  context := h.pushed hnumbered
  curTask := h.curTask
  others := h.task_other

/-- **Creating.** In every reachable state `task_create` fails exactly for a null entry or without a
terminated slot, and then changes nothing. Otherwise it makes the lowest such slot ready with a fresh
context and returns the slot's id. Its check of that id never fails. -/
theorem task_create_fails_iff {history : List Event} {system : System}
    (hrun : Run (Initial image) (Step image) history system) (entry : Word) :
    ((taskCreate image entry system.scheduler).1 = -1 ↔ entry = 0 ∨
      ∀ index : Fin 16, 1 ≤ index.val → (system.scheduler.tasks index).state ≠ .terminated) ∧
    ((taskCreate image entry system.scheduler).1 = -1 →
      (taskCreate image entry system.scheduler).2 = system.scheduler) ∧
    (∀ index, entry ≠ 0 → LowestTerminated system.scheduler index →
      Fresh image entry system.scheduler index (taskCreate image entry system.scheduler).2 ∧
        (taskCreate image entry system.scheduler).1 =
          ((taskCreate image entry system.scheduler).2.tasks index).id.toNat) ∧
    ∀ index, system.scheduler.terminatedSlot = some index →
      system.scheduler.slotID index - 1 < maxUserTasks := by
  have hnumbered := (run_invariant hrun).numbered
  refine ⟨⟨fun hfailed ↦ ?_, fun hrefused ↦ ?_⟩, fun hfailed ↦ ?_, fun index hentry hlowest ↦ ?_,
    fun index ↦ hnumbered.slotID_lt⟩
  · by_cases hentry : entry = 0
    · exact .inl hentry
    cases hslot : system.scheduler.terminatedSlot with
    | none => exact .inr (terminatedSlot_eq_none hslot)
    | some index =>
      have hresult := (hnumbered.taskCreate_slot image hentry hslot).1
      omega
  · have hnone : entry = 0 ∨ system.scheduler.terminatedSlot = none := by
      refine hrefused.imp_right fun hlive ↦ ?_
      cases hslot : system.scheduler.terminatedSlot with
      | none => rfl
      | some index =>
        obtain ⟨hone, hterminated, -⟩ := terminatedSlot_eq_some hslot
        exact absurd hterminated (hlive index hone)
    rw [taskCreate_refused hnone]
  · rcases hnumbered.taskCreate_cases image entry with hrefused | ⟨index, -, -, hresult, -⟩
    · rw [hrefused]
    · omega
  · obtain ⟨hresult, hcreated⟩ := hnumbered.taskCreate_slot image hentry hlowest.terminatedSlot_eq
    have hfresh := hcreated.fresh hnumbered
    have hlt := index.isLt
    refine ⟨hfresh, ?_⟩
    rw [hresult, hfresh.id_eq, Word.toNat_ofNat_of_lt (by omega)]

/-- The slot behind the first task is the next one. -/
theorem task_create_fails_iff_first_switch :
    LowestTerminated firstSwitch.scheduler 2 ∧
      (taskCreate smallTaskImage 0xD000 firstSwitch.scheduler).1 = 2 := by
  have hlowest : LowestTerminated firstSwitch.scheduler 2 := by
    refine ⟨by decide, rfl, fun earlier hone hearlier ↦ ?_⟩
    obtain rfl : earlier = 1 := Fin.ext (by change earlier.val = 1; omega)
    exact TaskState.noConfusion
  obtain ⟨hfresh, hresult⟩ :=
    (task_create_fails_iff run_firstSwitch 0xD000).2.2.1 2 (by decide) hlowest
  rw [hfresh.id_eq] at hresult
  exact ⟨hlowest, hresult⟩

end NeilOS.Scheduler
