import NeilOS.Scheduler.Model
import Mathlib.Tactic.Common

/-!
# What the scheduler's functions do to the task table

One lemma per function, in terms of `task`: which entries change and how. Later modules do not
unfold the functions again.
-/

namespace NeilOS.Scheduler

open Foundation

section Modify

variable (scheduler : Scheduler) (ref : TaskRef) (change : Task → Task)

@[simp]
theorem task_modify_same : (scheduler.modify ref change).task ref = change (scheduler.task ref) := by
  cases ref with
  | slot index => simp [modify, task]
  | idle => rfl

@[simp]
theorem curTask_modify : (scheduler.modify ref change).curTask = scheduler.curTask := by
  cases ref <;> rfl

@[simp]
theorem nextTaskID_modify : (scheduler.modify ref change).nextTaskID = scheduler.nextTaskID := by
  cases ref <;> rfl

@[simp]
theorem memory_modify : (scheduler.modify ref change).memory = scheduler.memory := by
  cases ref <;> rfl

@[simp]
theorem schedulerTicks_modify :
    (scheduler.modify ref change).schedulerTicks = scheduler.schedulerTicks := by
  cases ref <;> rfl

theorem task_of_update {scheduler after : Scheduler} {index : Fin 16} {value : Task}
    (htasks : after.tasks = Function.update scheduler.tasks index value)
    (hidle : after.idleTask = scheduler.idleTask) {other : TaskRef} (h : other ≠ .slot index) :
    after.task other = scheduler.task other := by
  cases other with
  | idle => exact hidle
  | slot otherIndex =>
    have hindex : otherIndex ≠ index := fun heq ↦ h (by rw [heq])
    exact (congrFun htasks otherIndex).trans (Function.update_of_ne hindex _ _)

variable {ref}

theorem task_modify_of_ne {other : TaskRef} (h : other ≠ ref) :
    (scheduler.modify ref change).task other = scheduler.task other := by
  cases ref with
  | slot index => exact task_of_update (by rfl) (by rfl) h
  | idle =>
    cases other with
    | slot index => rfl
    | idle => exact absurd rfl h

end Modify

/-! ## Selecting -/

/-- The round-robin search finds a ready entry if there is one, and falls to `idleTask` if not. -/
theorem pick_spec (current : TaskRef) (scheduler : Scheduler) :
    (∃ index, scheduler.pick current = .slot index ∧ (scheduler.tasks index).state = .ready) ∨
      (scheduler.pick current = .idle ∧ ∀ index, (scheduler.tasks index).state ≠ .ready) := by
  unfold pick
  cases hfind : (List.range' 1 16).find? fun offset ↦
    (scheduler.tasks (Fin.ofNat 16 (currentIndex current + offset))).state = .ready with
  | some offset =>
    rw [List.find?_range'_eq_some, decide_eq_true_eq] at hfind
    exact .inl ⟨_, rfl, hfind.1⟩
  | none =>
    rw [List.find?_range'_eq_none] at hfind
    have hnone (index : Fin 16) : (scheduler.tasks index).state ≠ .ready := by
      have hcurrent : currentIndex current < 16 := by
        cases current with
        | slot index => exact index.isLt
        | idle => decide
      -- Sixteen offsets reach every index, the current one last.
      let offset := (index.val + 15 - currentIndex current) % 16 + 1
      have hindex : Fin.ofNat 16 (currentIndex current + offset) = index := by
        apply Fin.ext
        change (currentIndex current + ((index.val + 15 - currentIndex current) % 16 + 1)) % 16 = index
        have hlt := index.isLt
        omega
      have hoffset := hfind offset (by omega) (by omega)
      rw [hindex] at hoffset
      simpa using hoffset
    refine .inr ⟨?_, hnone⟩
    cases current with
    | idle => exact ite_self _
    | slot index => exact if_neg (hnone index)

theorem select_spec (next : TaskRef) (scheduler : Scheduler) :
    (scheduler.select next).1 = (scheduler.task next).esp ∧
      (scheduler.select next).2.curTask = some next ∧
      (scheduler.select next).2.nextTaskID = scheduler.nextTaskID ∧
      (scheduler.select next).2.memory = scheduler.memory ∧
      (scheduler.select next).2.task next = { scheduler.task next with state := .running } ∧
      ∀ other, other ≠ next → (scheduler.select next).2.task other = scheduler.task other := by
  have htask : (scheduler.select next).2.task =
      (scheduler.modify next fun task ↦ { task with state := .running }).task := by
    funext ref
    cases ref <;> rfl
  have hnext := task_modify_same scheduler next fun task ↦ { task with state := .running }
  refine ⟨?_, rfl, nextTaskID_modify .., memory_modify .., ?_, ?_⟩
  · change ((scheduler.select next).2.task next).esp = _
    rw [htask, hnext]
  · rw [htask, hnext]
  · intro other hne
    rw [htask]
    exact task_modify_of_ne scheduler _ hne

/-! ## A scheduling decision -/

inductive Interrupt where
  | tick
  | yield
  | exit
deriving DecidableEq

/-- The handler behind vectors 32, 49 and 50. -/
def interrupt (kind : Interrupt) (regs : Word) (scheduler : Scheduler) : Word × Scheduler :=
  match kind with
  | .tick => schedulerTick regs scheduler
  | .yield => schedulerSchedule regs scheduler
  | .exit => schedulerExit regs scheduler

/-- The interrupt leads to a scheduling decision. -/
def decides (kind : Interrupt) (regs : Word) (scheduler : Scheduler) : Bool :=
  regs ≠ 0 ∧ (kind = .tick → timeSliceMs ≤ scheduler.schedulerTicks + 1)

/-- The state in which the outgoing task stays behind. -/
def outgoingState (kind : Interrupt) (state : TaskState) : TaskState :=
  if kind = .exit then .terminated else if state = .running then .ready else state

theorem outgoingState_ne_running (kind : Interrupt) (state : TaskState) :
    outgoingState kind state ≠ .running := by
  cases kind <;> cases state <;> decide

/-- The table once the outgoing task is saved and demoted, before the search. -/
def demoted (kind : Interrupt) (current : TaskRef) (regs : Word) (scheduler : Scheduler) :
    Scheduler :=
  scheduler.modify current fun task ↦
    { task with esp := regs, state := outgoingState kind task.state }

/-- Everything a scheduling decision does. -/
structure Decision (kind : Interrupt) (current : TaskRef) (regs : Word) (scheduler : Scheduler)
    (selected : TaskRef) (returned : Word) (after : Scheduler) : Prop where
  selected_eq : selected = (scheduler.demoted kind current regs).pick current
  returned_eq : returned = ((scheduler.demoted kind current regs).task selected).esp
  curTask : after.curTask = some selected
  nextTaskID : after.nextTaskID = scheduler.nextTaskID
  memory : after.memory = scheduler.memory
  task_selected : after.task selected =
    { (scheduler.demoted kind current regs).task selected with state := .running }
  task_other : ∀ other, other ≠ selected →
    after.task other = (scheduler.demoted kind current regs).task other

theorem decision_of_select {kind : Interrupt} {current : TaskRef} {regs : Word}
    {scheduler demoted : Scheduler} (htask : demoted.task = (scheduler.demoted kind current regs).task)
    (hnext : demoted.nextTaskID = scheduler.nextTaskID) (hmemory : demoted.memory = scheduler.memory) :
    Decision kind current regs scheduler (demoted.pick current)
      (demoted.select (demoted.pick current)).1 (demoted.select (demoted.pick current)).2 := by
  have htasks : demoted.tasks = (scheduler.demoted kind current regs).tasks := by
    funext index
    exact congrFun htask (.slot index)
  have hpick : demoted.pick current = (scheduler.demoted kind current regs).pick current := by
    unfold pick
    rw [htasks, htask]
  obtain ⟨hesp, hcurrent, hid, hmem, hselected, hother⟩ := select_spec (demoted.pick current) demoted
  rw [htask] at hesp hselected hother
  exact ⟨hpick, hesp, hcurrent, hid.trans hnext, hmem.trans hmemory, hselected, hother⟩

theorem schedulerSchedule_decision {kind : Interrupt} {current : TaskRef} {regs : Word}
    {scheduler before : Scheduler} (hcurrent : before.curTask = some current) (hregs : regs ≠ 0)
    (htask : (before.demote current regs).task = (scheduler.demoted kind current regs).task)
    (hnext : before.nextTaskID = scheduler.nextTaskID) (hmemory : before.memory = scheduler.memory) :
    ∃ selected, Decision kind current regs scheduler selected
      (schedulerSchedule regs before).1 (schedulerSchedule regs before).2 := by
  have hschedule : schedulerSchedule regs before = (before.demote current regs).select
      ((before.demote current regs).pick current) := by
    simp only [schedulerSchedule, hcurrent, if_neg hregs]
  rw [hschedule]
  exact ⟨_, decision_of_select htask ((nextTaskID_modify ..).trans hnext)
    ((memory_modify ..).trans hmemory)⟩

/-- Two changes of one entry are one change. -/
theorem modify_modify (scheduler : Scheduler) (ref : TaskRef) (first second : Task → Task) :
    (scheduler.modify ref first).modify ref second =
      scheduler.modify ref fun task ↦ second (first task) := by
  cases ref <;> simp [modify]

theorem interrupt_decision {kind : Interrupt} {current : TaskRef} {regs : Word} {scheduler : Scheduler}
    (hcurrent : scheduler.curTask = some current) (hdecides : scheduler.decides kind regs = true) :
    ∃ selected, Decision kind current regs scheduler selected
      (scheduler.interrupt kind regs).1 (scheduler.interrupt kind regs).2 := by
  obtain ⟨hregs, hslice⟩ := of_decide_eq_true hdecides
  cases kind with
  | yield => exact schedulerSchedule_decision hcurrent hregs rfl rfl rfl
  | tick =>
    have hexpired : ¬ scheduler.schedulerTicks + 1 < timeSliceMs := BitVec.not_lt.mpr (hslice rfl)
    simp only [interrupt, schedulerTick, if_neg hexpired]
    refine schedulerSchedule_decision hcurrent hregs ?_ rfl rfl
    funext ref
    cases current <;> cases ref <;> rfl
  | exit =>
    simp only [interrupt, schedulerExit, hcurrent, if_neg hregs]
    refine schedulerSchedule_decision ((curTask_modify ..).trans hcurrent) hregs ?_
      (nextTaskID_modify ..) (memory_modify ..)
    rw [demote, modify_modify]
    rfl

theorem schedulerSchedule_null (scheduler : Scheduler) : schedulerSchedule 0 scheduler = (0, scheduler) := by
  unfold schedulerSchedule
  cases scheduler.curTask <;> rfl

theorem schedulerExit_null (scheduler : Scheduler) : schedulerExit 0 scheduler = (0, scheduler) := by
  unfold schedulerExit
  cases scheduler.curTask <;> rfl

/-- Without a decision the interrupted task goes on; only the tick counter may have changed. -/
theorem interrupt_pass {kind : Interrupt} {regs : Word} {scheduler : Scheduler}
    (hpass : scheduler.decides kind regs = false) :
    ∃ ticks, scheduler.interrupt kind regs = (regs, { scheduler with schedulerTicks := ticks }) := by
  have hcases := of_decide_eq_false hpass
  by_cases hregs : regs = 0
  · subst hregs
    cases kind with
    | yield => exact ⟨scheduler.schedulerTicks, schedulerSchedule_null scheduler⟩
    | exit => exact ⟨scheduler.schedulerTicks, schedulerExit_null scheduler⟩
    | tick =>
      by_cases hslice : scheduler.schedulerTicks + 1 < timeSliceMs
      · exact ⟨_, if_pos hslice⟩
      · exact ⟨0, (if_neg hslice).trans (schedulerSchedule_null _)⟩
  · obtain ⟨rfl, hslice⟩ : kind = .tick ∧ ¬ timeSliceMs ≤ scheduler.schedulerTicks + 1 := by
      by_contra hnot
      exact hcases ⟨hregs, fun hkind ↦ by_contra fun hslice ↦ hnot ⟨hkind, hslice⟩⟩
    exact ⟨_, if_pos (BitVec.not_le.mp hslice)⟩

namespace Decision

variable {kind : Interrupt} {current selected : TaskRef} {regs returned : Word}
  {scheduler after : Scheduler}

theorem demoted_current : (scheduler.demoted kind current regs).task current =
    { scheduler.task current with
      esp := regs, state := outgoingState kind (scheduler.task current).state } :=
  task_modify_same ..

theorem demoted_other {other : TaskRef} (h : other ≠ current) :
    (scheduler.demoted kind current regs).task other = scheduler.task other :=
  task_modify_of_ne _ _ h

/-- A decision selects an entry that is ready after the demotion, or `idleTask` if there is none. -/
theorem selected_cases
    (h : Decision kind current regs scheduler selected returned after) :
    (∃ index, selected = .slot index ∧
        ((scheduler.demoted kind current regs).task selected).state = .ready) ∨
      (selected = .idle ∧ ∀ index, ((scheduler.demoted kind current regs).tasks index).state ≠ .ready) := by
  rw [h.selected_eq]
  rcases pick_spec current (scheduler.demoted kind current regs) with ⟨index, hpick, hready⟩ | hidle
  · rw [hpick]
    exact .inl ⟨index, rfl, hready⟩
  · exact .inr hidle

theorem id_eq (h : Decision kind current regs scheduler selected returned after) (ref : TaskRef) :
    (after.task ref).id = (scheduler.task ref).id := by
  have hdemoted : ((scheduler.demoted kind current regs).task ref).id = (scheduler.task ref).id := by
    by_cases hcurrent : ref = current
    · rw [hcurrent, demoted_current]
    · rw [demoted_other hcurrent]
  by_cases hselected : ref = selected
  · subst hselected
    rw [h.task_selected]
    exact hdemoted
  · rw [h.task_other ref hselected, hdemoted]

end Decision

/-! ## Creating and unblocking -/

theorem terminatedSlot_eq_some {scheduler : Scheduler} {index : Fin 16}
    (h : scheduler.terminatedSlot = some index) :
    1 ≤ index.val ∧ (scheduler.tasks index).state = .terminated ∧
      ∀ earlier : Fin 16, 1 ≤ earlier.val → earlier < index →
        (scheduler.tasks earlier).state ≠ .terminated := by
  obtain ⟨number, hfind, rfl⟩ := Option.map_eq_some_iff.mp h
  rw [List.find?_range'_eq_some, decide_eq_true_eq] at hfind
  obtain ⟨hstate, hmem, hearlier⟩ := hfind
  rw [List.mem_range'_1] at hmem
  have hnumber : (Fin.ofNat 16 number).val = number := Nat.mod_eq_of_lt (by omega)
  refine ⟨by omega, hstate, fun earlier hone hlt ↦ ?_⟩
  have hstate := hearlier earlier.val hone (hnumber ▸ hlt)
  simpa using hstate

/-- The id `task_create` leaves in a slot. -/
def slotID (scheduler : Scheduler) (index : Fin 16) : Word :=
  if (scheduler.tasks index).id = 0 then scheduler.nextTaskID else (scheduler.tasks index).id

/-- Everything a successful `task_create` does. -/
structure Created (image : TaskImage) (entry : Word) (scheduler : Scheduler) (index : Fin 16)
    (after : Scheduler) : Prop where
  slot : scheduler.terminatedSlot = some index
  curTask : after.curTask = scheduler.curTask
  nextTaskID : after.nextTaskID =
    if (scheduler.tasks index).id = 0 then scheduler.nextTaskID + 1 else scheduler.nextTaskID
  task_slot : after.task (.slot index) = ⟨scheduler.slotID index,
    (taskCreateContext image (taskStack image (scheduler.slotID index - 1)) entry scheduler.memory).1, .ready⟩
  task_other : ∀ other, other ≠ .slot index → after.task other = scheduler.task other
  memory : after.memory =
    (taskCreateContext image (taskStack image (scheduler.slotID index - 1)) entry scheduler.memory).2

theorem taskCreate_refused {image : TaskImage} {entry : Word} {scheduler : Scheduler}
    (h : entry = 0 ∨ scheduler.terminatedSlot = none) :
    taskCreate image entry scheduler = (-1, scheduler) := by
  unfold taskCreate
  rcases h with hentry | hslot
  · exact if_pos hentry
  · rw [hslot]
    exact ite_self _

theorem taskCreate_created {image : TaskImage} {entry : Word} {scheduler : Scheduler} {index : Fin 16}
    (hentry : entry ≠ 0) (hslot : scheduler.terminatedSlot = some index)
    (hlimit : scheduler.slotID index - 1 < maxUserTasks) :
    (taskCreate image entry scheduler).1 = (scheduler.slotID index).toInt ∧
      Created image entry scheduler index (taskCreate image entry scheduler).2 := by
  have hwithin := BitVec.not_le.mpr hlimit
  by_cases hid : (scheduler.tasks index).id = 0
  · have hslotID : scheduler.slotID index = scheduler.nextTaskID := if_pos hid
    rw [hslotID] at hwithin
    simp only [taskCreate, if_neg hentry, hslot, hid, if_true, modify, Function.update_self,
      if_neg hwithin]
    exact ⟨by rw [hslotID], hslot, rfl, (if_pos hid).symm, by simp [task, hslotID],
      fun _ hne ↦ task_of_update (by exact Function.update_idem ..) (by rfl) hne, by rw [hslotID]⟩
  · have hslotID : scheduler.slotID index = (scheduler.tasks index).id := if_neg hid
    rw [hslotID] at hwithin
    simp only [taskCreate, if_neg hentry, hslot, if_neg hid, modify, if_neg hwithin]
    exact ⟨by rw [hslotID], hslot, rfl, (if_neg hid).symm, by simp [task, hslotID],
      fun _ hne ↦ task_of_update (by rfl) (by rfl) hne, by rw [hslotID]⟩

theorem not_terminated_of_blocked {task : Task} (h : task.state = .blocked) : task.state ≠ .terminated := by
  rw [h]
  decide

/-- `task_unblock` makes one blocked entry with the given id ready, or there is none and it fails and
changes nothing. -/
theorem taskUnblock_cases (id : Word) (scheduler : Scheduler) :
    (taskUnblock id scheduler = (-1, scheduler) ∧ ∀ index : Fin 16, 1 ≤ index.val →
        (scheduler.tasks index).id = id → (scheduler.tasks index).state ≠ .blocked) ∨
      ∃ index : Fin 16, 1 ≤ index.val ∧ (scheduler.tasks index).id = id ∧
        (scheduler.tasks index).state = .blocked ∧ taskUnblock id scheduler =
          (0, scheduler.modify (.slot index) fun task ↦ { task with state := .ready }) := by
  unfold taskUnblock
  split
  · next hfind =>
    rw [List.find?_range'_eq_none] at hfind
    refine .inl ⟨rfl, fun index hone hid hblocked ↦ ?_⟩
    have hindex := index.isLt
    have hskipped := hfind index.val hone (by omega)
    simp [hid, hblocked] at hskipped
  · next index hfind =>
    rw [List.find?_range'_eq_some, decide_eq_true_eq, List.mem_range'_1] at hfind
    have hnumber : (Fin.ofNat 16 index).val = index := Nat.mod_eq_of_lt (by omega)
    exact .inr ⟨Fin.ofNat 16 index, by omega, hfind.1.1, hfind.1.2, rfl⟩

theorem taskUnblock_spec (id : Word) (scheduler : Scheduler) :
    (taskUnblock id scheduler).2 = scheduler ∨
      ∃ index, (scheduler.tasks index).state = .blocked ∧ (taskUnblock id scheduler).2 =
        scheduler.modify (.slot index) fun task ↦ { task with state := .ready } := by
  rcases taskUnblock_cases id scheduler with ⟨hfailed, -⟩ | ⟨index, -, -, hblocked, hwoken⟩
  · exact .inl (by rw [hfailed])
  · exact .inr ⟨index, hblocked, by rw [hwoken]⟩

end NeilOS.Scheduler
