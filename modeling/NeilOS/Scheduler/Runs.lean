import NeilOS.Foundation.Run
import NeilOS.Scheduler.Decision

/-!
# Runs of the scheduler

The operations interleave in any order. `task_block` is two steps, the store and the yield, and
`blocking` remembers that the current task is between them; the code of the task does nothing else
there, but a timer tick can come. Memory outside the scheduler's variables belongs to the code of
the tasks, which may change it at any time.
-/

namespace NeilOS.Scheduler

open Foundation

structure System where
  scheduler : Scheduler
  blocking : Bool

/-- The slot and the frame of a successful `task_create`. -/
def creation (image : TaskImage) (entry : Word) (scheduler : Scheduler) : Option (Fin 16 × Word) :=
  if (taskCreate image entry scheduler).1 = -1 then none
  else scheduler.terminatedSlot.map fun index ↦
    (index, (taskCreateContext image (taskStack image (scheduler.slotID index - 1)) entry
      scheduler.memory).1)

inductive Event where
  | decision (kind : Interrupt) (outgoing : TaskRef) (regs : Word) (selected : TaskRef) (returned : Word)
  | pass (kind : Interrupt) (regs : Word)
  | create (entry : Word) (created : Option (Fin 16 × Word))
  | block
  | unblock (id : Word)
  | execute

def Initial (image : TaskImage) (system : System) : Prop :=
  ∃ before, system = ⟨schedulerInit image before, false⟩

inductive Step (image : TaskImage) : System → Event → System → Prop where
  | decision {system : System} {kind : Interrupt} {regs : Word} {outgoing selected : TaskRef} :
      (system.blocking = true → kind ≠ .exit) → system.scheduler.decides kind regs = true →
      system.scheduler.curTask = some outgoing →
      (system.scheduler.interrupt kind regs).2.curTask = some selected →
        Step image system
          (.decision kind outgoing regs selected (system.scheduler.interrupt kind regs).1)
          ⟨(system.scheduler.interrupt kind regs).2, false⟩
  | pass {system : System} {kind : Interrupt} {regs : Word} :
      (system.blocking = true → kind ≠ .exit) → system.scheduler.decides kind regs = false →
        Step image system (.pass kind regs)
          ⟨(system.scheduler.interrupt kind regs).2, system.blocking⟩
  | create {scheduler : Scheduler} {entry : Word} :
      Step image ⟨scheduler, false⟩ (.create entry (creation image entry scheduler))
        ⟨(taskCreate image entry scheduler).2, false⟩
  | block {scheduler : Scheduler} : Step image ⟨scheduler, false⟩ .block ⟨taskBlock scheduler, true⟩
  | unblock {scheduler : Scheduler} {id : Word} :
      Step image ⟨scheduler, false⟩ (.unblock id) ⟨(taskUnblock id scheduler).2, false⟩
  | execute {system : System} {memory : Memory} :
      Step image system .execute ⟨{ system.scheduler with memory := memory }, system.blocking⟩

/-! ## The invariant -/

/-- The current task is the only one that can be running. -/
structure Running (system : System) (current : TaskRef) : Prop where
  curTask : system.scheduler.curTask = some current
  state : (system.scheduler.task current).state = if system.blocking then .blocked else .running
  others : ∀ ref, ref ≠ current → (system.scheduler.task ref).state ≠ .running

/-- The used slots are `1 .. nextTaskID - 1`, and each has its index as id. -/
structure Numbered (scheduler : Scheduler) : Prop where
  next_ge : 1 ≤ scheduler.nextTaskID.toNat
  next_le : scheduler.nextTaskID.toNat ≤ 16
  id_eq : ∀ index : Fin 16, (scheduler.tasks index).id =
    if 1 ≤ index.val ∧ index.val < scheduler.nextTaskID.toNat then .ofNat 32 index.val else 0
  idle_id : scheduler.idleTask.id = 0xFFFFFFFF
  unused : ∀ index : Fin 16, scheduler.nextTaskID.toNat ≤ index.val →
    (scheduler.tasks index).state = .terminated

/-- A task that can still be selected. `idleTask` is the fallback in any state. -/
def Live (scheduler : Scheduler) (ref : TaskRef) : Prop :=
  ref = .idle ∨ (scheduler.task ref).state ≠ .terminated

theorem Running.not_terminated {system : System} {current : TaskRef} (h : Running system current) :
    (system.scheduler.task current).state ≠ .terminated := by
  rw [h.state]
  cases system.blocking <;> decide

theorem Numbered.of_same {before after : Scheduler} (h : Numbered before)
    (hnext : after.nextTaskID = before.nextTaskID)
    (hid : ∀ ref, (after.task ref).id = (before.task ref).id)
    (hstate : ∀ index : Fin 16, (before.tasks index).state = .terminated →
      (after.tasks index).state = .terminated) : Numbered after where
  next_ge := hnext ▸ h.next_ge
  next_le := hnext ▸ h.next_le
  id_eq index := by
    rw [hnext, ← h.id_eq index]
    exact hid (.slot index)
  idle_id := (hid .idle).trans h.idle_id
  unused index hindex := hstate index (h.unused index (hnext ▸ hindex))

/-! ## Decisions keep the invariant -/

section DecisionStep

variable {system : System} {kind : Interrupt} {current selected : TaskRef} {regs returned : Word}
  {after : Scheduler}

/-- The selected task could be selected before. -/
theorem Running.live_selected (h : Running system current)
    (hdecision : Decision kind current regs system.scheduler selected returned after) :
    Live system.scheduler selected := by
  rcases hdecision.selected_cases with ⟨index, rfl, hready⟩ | ⟨hidle, -⟩
  · refine .inr ?_
    by_cases hcurrent : TaskRef.slot index = current
    · rw [hcurrent]
      exact h.not_terminated
    · rw [Decision.demoted_other hcurrent] at hready
      rw [hready]
      decide
  · exact .inl hidle

theorem Running.decision (h : Running system current)
    (hdecision : Decision kind current regs system.scheduler selected returned after) :
    Running ⟨after, false⟩ selected where
  curTask := hdecision.curTask
  state := by
    rw [hdecision.task_selected]
    rfl
  others ref hne := by
    rw [hdecision.task_other ref hne]
    by_cases hcurrent : ref = current
    · rw [hcurrent, Decision.demoted_current]
      exact outgoingState_ne_running _ _
    · rw [Decision.demoted_other hcurrent]
      exact h.others ref hcurrent

theorem Numbered.decision (h : Numbered system.scheduler) (hrunning : Running system current)
    (hdecision : Decision kind current regs system.scheduler selected returned after) :
    Numbered after := by
  refine h.of_same hdecision.nextTaskID hdecision.id_eq fun index hterminated ↦ ?_
  have hselected : TaskRef.slot index ≠ selected := by
    rintro rfl
    rcases hrunning.live_selected hdecision with hidle | hlive
    · exact TaskRef.noConfusion hidle
    · exact hlive hterminated
  have hcurrent : TaskRef.slot index ≠ current := by
    rintro rfl
    exact hrunning.not_terminated hterminated
  have htask := hdecision.task_other _ hselected
  rw [Decision.demoted_other hcurrent] at htask
  exact (congrArg Task.state htask).trans hterminated

end DecisionStep

/-! ## The other operations keep the invariant -/

/-- The lowest terminated slot has or gets its own index as id. -/
theorem Numbered.slotID_eq {scheduler : Scheduler} (h : Numbered scheduler) {index : Fin 16}
    (hslot : scheduler.terminatedSlot = some index) :
    scheduler.slotID index = .ofNat 32 index.val ∧
      ((scheduler.tasks index).id = 0 → scheduler.nextTaskID.toNat = index.val) := by
  obtain ⟨hone, hterminated, hearlier⟩ := terminatedSlot_eq_some hslot
  have hlt := index.isLt
  by_cases hused : index.val < scheduler.nextTaskID.toNat
  · have hid : (scheduler.tasks index).id = .ofNat 32 index.val := by
      rw [h.id_eq index, if_pos ⟨hone, hused⟩]
    have hne : (scheduler.tasks index).id ≠ 0 := by
      rw [hid]
      bv_omega
    exact ⟨(if_neg hne).trans hid, fun hzero ↦ absurd hzero hne⟩
  · have hid : (scheduler.tasks index).id = 0 := by
      rw [h.id_eq index, if_neg fun hboth ↦ hused hboth.2]
    -- A lower unused slot would be terminated and found first.
    have hnext : scheduler.nextTaskID.toNat = index.val := by
      by_contra hne
      have hge := h.next_ge
      let first : Fin 16 := ⟨scheduler.nextTaskID.toNat, by omega⟩
      exact hearlier first hge (Fin.lt_def.mpr (by change scheduler.nextTaskID.toNat < _; omega))
        (h.unused first le_rfl)
    refine ⟨(if_pos hid).trans ?_, fun _ ↦ hnext⟩
    rw [← hnext]
    simp

/-- A slot that `task_create` finds has an id in range, so it does not fail any more. -/
theorem Numbered.slotID_lt {scheduler : Scheduler} (h : Numbered scheduler) {index : Fin 16}
    (hslot : scheduler.terminatedSlot = some index) :
    scheduler.slotID index - 1 < maxUserTasks := by
  have hone := (terminatedSlot_eq_some hslot).1
  have hlt := index.isLt
  rw [(h.slotID_eq hslot).1]
  change _ < 15#32
  bv_omega

theorem Numbered.taskCreate_slot {scheduler : Scheduler} (h : Numbered scheduler) (image : TaskImage)
    {entry : Word} {index : Fin 16} (hentry : entry ≠ 0)
    (hslot : scheduler.terminatedSlot = some index) :
    (taskCreate image entry scheduler).1 = index.val ∧
      Created image entry scheduler index (taskCreate image entry scheduler).2 := by
  obtain ⟨hresult, hcreated⟩ := taskCreate_created hentry hslot (h.slotID_lt hslot)
  refine ⟨?_, hcreated⟩
  have hlt := index.isLt
  have hnumber : (BitVec.ofNat 32 index.val).toNat = index.val := Word.toNat_ofNat_of_lt (by omega)
  rw [hresult, (h.slotID_eq hslot).1, BitVec.toInt_eq_toNat_of_lt (by omega), hnumber]

/-- `task_create` either refuses and changes nothing, or succeeds with the slot's index as id. -/
theorem Numbered.taskCreate_cases {scheduler : Scheduler} (h : Numbered scheduler) (image : TaskImage)
    (entry : Word) :
    taskCreate image entry scheduler = (-1, scheduler) ∨
      ∃ index : Fin 16, 1 ≤ index.val ∧ scheduler.slotID index = .ofNat 32 index.val ∧
        (taskCreate image entry scheduler).1 = index.val ∧
        Created image entry scheduler index (taskCreate image entry scheduler).2 := by
  by_cases hentry : entry = 0
  · exact .inl (taskCreate_refused (.inl hentry))
  cases hslot : scheduler.terminatedSlot with
  | none => exact .inl (taskCreate_refused (.inr hslot))
  | some index =>
    exact .inr ⟨index, (terminatedSlot_eq_some hslot).1, (h.slotID_eq hslot).1,
      h.taskCreate_slot image hentry hslot⟩

/-- What `task_create` records in the history. -/
theorem Numbered.creation_cases {scheduler : Scheduler} (h : Numbered scheduler) (image : TaskImage)
    (entry : Word) :
    (creation image entry scheduler = none ∧ (taskCreate image entry scheduler).2 = scheduler) ∨
      ∃ index, creation image entry scheduler = some (index, (taskCreateContext image
          (taskStack image (scheduler.slotID index - 1)) entry scheduler.memory).1) ∧
        Created image entry scheduler index (taskCreate image entry scheduler).2 := by
  rcases h.taskCreate_cases image entry with hrefused | ⟨index, _, _, hresult, hcreated⟩
  · exact .inl ⟨if_pos (by rw [hrefused]), by rw [hrefused]⟩
  · have hne : (taskCreate image entry scheduler).1 ≠ -1 := by omega
    refine .inr ⟨index, ?_, hcreated⟩
    rw [creation, if_neg hne, hcreated.slot]
    rfl

theorem Numbered.created {image : TaskImage} {entry : Word} {scheduler after : Scheduler}
    {index : Fin 16} (h : Numbered scheduler) (hcreated : Created image entry scheduler index after) :
    Numbered after := by
  obtain ⟨hid, hfresh⟩ := h.slotID_eq hcreated.slot
  obtain ⟨hone, hterminated, -⟩ := terminatedSlot_eq_some hcreated.slot
  have hlt := index.isLt
  have hge := h.next_ge
  have hnext : after.nextTaskID.toNat = max scheduler.nextTaskID.toNat (index.val + 1) := by
    rw [hcreated.nextTaskID]
    split_ifs with hzero
    · have heq := hfresh hzero
      rw [← heq]
      bv_omega
    · have hused : index.val < scheduler.nextTaskID.toNat := by
        by_contra hnot
        exact hzero (by rw [h.id_eq index, if_neg fun hboth ↦ hnot hboth.2])
      omega
  have hcovered : scheduler.nextTaskID.toNat = index.val ∨ index.val < scheduler.nextTaskID.toNat := by
    by_cases hzero : (scheduler.tasks index).id = 0
    · exact .inl (hfresh hzero)
    · refine .inr (by_contra fun hnot ↦ hzero ?_)
      rw [h.id_eq index, if_neg fun hboth ↦ hnot hboth.2]
  have hle := h.next_le
  have hother (other : Fin 16) (hne : other ≠ index) : after.tasks other = scheduler.tasks other :=
    hcreated.task_other (.slot other) fun heq ↦ hne (TaskRef.slot.inj heq)
  refine ⟨by omega, by omega, fun other ↦ ?_, ?_, fun other hunused ↦ ?_⟩
  · by_cases heq : other = index
    · subst heq
      rw [if_pos ⟨hone, by omega⟩, ← hid]
      exact congrArg Task.id hcreated.task_slot
    · have hval : other.val ≠ index.val := fun hval ↦ heq (Fin.ext hval)
      rw [hother other heq, h.id_eq other]
      have hiff : (1 ≤ other.val ∧ other.val < scheduler.nextTaskID.toNat) ↔
          (1 ≤ other.val ∧ other.val < after.nextTaskID.toNat) := by omega
      simp only [hiff]
  · exact (congrArg Task.id (hcreated.task_other .idle TaskRef.noConfusion)).trans h.idle_id
  · have hne : other ≠ index := by
      rintro rfl
      omega
    rw [hother other hne]
    exact h.unused other (by omega)

/-! ## What a step can do -/

/-- The events that leave every task as it is. -/
def Event.quiet : Event → Bool
  | .pass .. | .create _ none | .unblock _ | .execute => true
  | _ => false

inductive Outcome (image : TaskImage) (before : System) (current : TaskRef) : Event → System → Prop where
  | decision {kind : Interrupt} {regs returned : Word} {selected : TaskRef} {after : Scheduler} :
      regs ≠ 0 → Decision kind current regs before.scheduler selected returned after →
        Outcome image before current (.decision kind current regs selected returned) ⟨after, false⟩
  | quiet {event : Event} {after : System} :
      event.quiet = true → after.scheduler.task = before.scheduler.task →
      after.scheduler.curTask = before.scheduler.curTask →
      after.scheduler.nextTaskID = before.scheduler.nextTaskID → after.blocking = before.blocking →
        Outcome image before current event after
  | created {entry : Word} {index : Fin 16} {after : Scheduler} :
      before.blocking = false → Created image entry before.scheduler index after →
        Outcome image before current
          (.create entry (some (index, (taskCreateContext image
            (taskStack image (before.scheduler.slotID index - 1)) entry before.scheduler.memory).1)))
          ⟨after, false⟩
  | block : before.blocking = false → Outcome image before current .block
      ⟨before.scheduler.modify current fun task ↦ { task with state := .blocked }, true⟩
  | unblock {id : Word} {index : Fin 16} :
      before.blocking = false → (before.scheduler.tasks index).state = .blocked →
        Outcome image before current (.unblock id)
          ⟨before.scheduler.modify (.slot index) fun task ↦ { task with state := .ready }, false⟩

variable {image : TaskImage} {before after : System} {event : Event} {current : TaskRef}

theorem step_outcome (hrunning : Running before current) (hnumbered : Numbered before.scheduler)
    (hstep : Step image before event after) : Outcome image before current event after := by
  cases hstep with
  | decision _ hdecides hcurrent hselected =>
    obtain rfl := Option.some.inj (hcurrent.symm.trans hrunning.curTask)
    obtain ⟨selected, hdecision⟩ := interrupt_decision hcurrent hdecides
    obtain rfl := Option.some.inj (hselected.symm.trans hdecision.curTask)
    exact .decision (of_decide_eq_true hdecides).1 hdecision
  | pass _ hpass =>
    obtain ⟨ticks, hinterrupt⟩ := interrupt_pass hpass
    rw [hinterrupt]
    exact .quiet rfl (by funext ref; cases ref <;> rfl) rfl rfl rfl
  | @create scheduler entry =>
    rcases Numbered.creation_cases hnumbered image entry with ⟨hnone, hsame⟩ | ⟨index, hcreation, hcreated⟩
    · dsimp only at hnone hsame
      rw [hnone, hsame]
      exact .quiet rfl rfl rfl rfl rfl
    · dsimp only at hcreation
      rw [hcreation]
      exact .created rfl hcreated
  | @block scheduler =>
    have hblock : taskBlock scheduler =
        scheduler.modify current fun task ↦ { task with state := .blocked } := by
      have hcurrent : scheduler.curTask = some current := hrunning.curTask
      rw [taskBlock, hcurrent]
    rw [hblock]
    exact .block rfl
  | @unblock scheduler id =>
    rcases taskUnblock_spec id scheduler with hsame | ⟨index, hblocked, hafter⟩
    · rw [hsame]
      exact .quiet rfl rfl rfl rfl rfl
    · rw [hafter]
      exact .unblock rfl hblocked
  | execute => exact .quiet rfl (by funext ref; cases ref <;> rfl) rfl rfl rfl

theorem Numbered.modify_state {scheduler : Scheduler} {ref : TaskRef} (h : Numbered scheduler)
    (hlive : (scheduler.task ref).state ≠ .terminated) (state : TaskState) :
    Numbered (scheduler.modify ref fun task ↦ { task with state := state }) := by
  refine h.of_same (nextTaskID_modify ..) (fun other ↦ ?_) fun index hterminated ↦ ?_
  · by_cases heq : other = ref
    · rw [heq, task_modify_same]
    · rw [task_modify_of_ne _ _ heq]
  · have hne : TaskRef.slot index ≠ ref := by
      rintro rfl
      exact hlive hterminated
    exact (congrArg Task.state (task_modify_of_ne scheduler _ hne)).trans hterminated

theorem Outcome.numbered (hrunning : Running before current) (hnumbered : Numbered before.scheduler)
    (h : Outcome image before current event after) : Numbered after.scheduler := by
  cases h with
  | decision _ hdecision => exact hnumbered.decision hrunning hdecision
  | quiet _ htask _ hnext _ =>
    refine hnumbered.of_same hnext (fun ref ↦ by rw [htask]) fun index hterminated ↦ ?_
    exact (congrArg Task.state (congrFun htask (.slot index))).trans hterminated
  | created _ hcreated => exact hnumbered.created hcreated
  | block _ => exact hnumbered.modify_state hrunning.not_terminated _
  | @unblock _ index _ hblocked =>
    have hlive : (before.scheduler.task (.slot index)).state ≠ .terminated :=
      not_terminated_of_blocked hblocked
    exact hnumbered.modify_state hlive _

theorem Outcome.running (hrunning : Running before current)
    (h : Outcome image before current event after) : ∃ next, Running after next := by
  cases h with
  | decision _ hdecision => exact ⟨_, hrunning.decision hdecision⟩
  | quiet _ htask hcurrent _ hblocking =>
    refine ⟨current, hcurrent.trans hrunning.curTask, ?_, ?_⟩
    · rw [htask, hblocking]
      exact hrunning.state
    · rw [htask]
      exact hrunning.others
  | @created _ index _ hblocking hcreated =>
    have hterminated := (terminatedSlot_eq_some hcreated.slot).2.1
    have hne : current ≠ .slot index := by
      rintro rfl
      exact hrunning.not_terminated hterminated
    refine ⟨current, hcreated.curTask.trans hrunning.curTask, ?_, fun ref href ↦ ?_⟩
    · rw [hcreated.task_other current hne, hrunning.state, hblocking]
    · by_cases hslot : ref = .slot index
      · rw [hslot, hcreated.task_slot]
        exact TaskState.noConfusion
      · rw [hcreated.task_other ref hslot]
        exact hrunning.others ref href
  | block _ =>
    refine ⟨current, (curTask_modify ..).trans hrunning.curTask, ?_, fun ref href ↦ ?_⟩
    · rw [task_modify_same]
      rfl
    · rw [task_modify_of_ne _ _ href]
      exact hrunning.others ref href
  | @unblock _ index hblocking hblocked =>
    have hne : current ≠ .slot index := by
      rintro rfl
      have hstate := hrunning.state
      rw [hblocking] at hstate
      exact TaskState.noConfusion (hblocked.symm.trans hstate)
    refine ⟨current, (curTask_modify ..).trans hrunning.curTask, ?_, fun ref href ↦ ?_⟩
    · rw [task_modify_of_ne _ _ hne, hrunning.state, hblocking]
    · by_cases hslot : ref = .slot index
      · rw [hslot, task_modify_same]
        exact TaskState.noConfusion
      · rw [task_modify_of_ne _ _ hslot]
        exact hrunning.others ref href

/-! ## Whole runs -/

structure Invariant (system : System) : Prop where
  running : ∃ current, Running system current
  numbered : Numbered system.scheduler

theorem Initial.invariant {system : System} (h : Initial image system) : Invariant system := by
  obtain ⟨scheduler, rfl⟩ := h
  refine ⟨⟨.slot 0, rfl, rfl, fun ref hne ↦ ?_⟩, Nat.le_refl 1, Nat.le_add_left 1 15,
    fun index ↦ ?_, rfl, fun index hge ↦ ?_⟩
  · cases ref with
    | idle => exact TaskState.noConfusion
    | slot index =>
      have hindex : index ≠ 0 := fun heq ↦ hne (by rw [heq])
      simp [task, schedulerInit, hindex]
  · refine (if_neg ?_).symm
    change ¬ (1 ≤ index.val ∧ index.val < 1)
    omega
  · change 1 ≤ index.val at hge
    have hindex : index ≠ 0 := by
      rintro rfl
      exact absurd hge (by decide)
    exact if_neg hindex

theorem Invariant.step (h : Invariant before) (hstep : Step image before event after) :
    Invariant after := by
  obtain ⟨current, hrunning⟩ := h.running
  have houtcome := step_outcome hrunning h.numbered hstep
  exact ⟨houtcome.running hrunning, houtcome.numbered hrunning h.numbered⟩

theorem run_invariant {history : List Event} {system : System}
    (hrun : Run (Initial image) (Step image) history system) : Invariant system :=
  hrun.invariant Invariant (fun _ ↦ Initial.invariant) fun _ _ _ ↦ Invariant.step

/-- One task runs at a time, and a decision falls to `idleTask` exactly when nothing is ready. -/
theorem current_task_exclusive {history : List Event} {system : System}
    (hrun : Run (Initial image) (Step image) history system) :
    ∃ current, system.scheduler.curTask = some current ∧
      (∀ ref, ref ≠ current → (system.scheduler.task ref).state ≠ .running) ∧
      (system.scheduler.task current).state = (if system.blocking then .blocked else .running) ∧
      (system.scheduler.task current).state ≠ .terminated ∧
      ∀ kind regs, system.scheduler.decides kind regs = true →
        ((system.scheduler.interrupt kind regs).2.curTask = some .idle ↔
          ∀ index, ((system.scheduler.demoted kind current regs).tasks index).state ≠ .ready) := by
  obtain ⟨current, hrunning⟩ := (run_invariant hrun).running
  refine ⟨current, hrunning.curTask, hrunning.others, hrunning.state, hrunning.not_terminated, ?_⟩
  intro kind regs hdecides
  obtain ⟨selected, hdecision⟩ := interrupt_decision hrunning.curTask hdecides
  rw [hdecision.curTask, Option.some.injEq]
  rcases hdecision.selected_cases with ⟨index, rfl, hready⟩ | ⟨rfl, hnone⟩
  · exact ⟨TaskRef.noConfusion, fun hnone ↦ absurd hready (hnone index)⟩
  · exact ⟨fun _ ↦ hnone, fun _ ↦ rfl⟩

theorem smallTaskStacks_ge : 0x9000 ≤ (0x20000 : Word).toNat := by decide

def smallTaskImage : TaskImage where
  kernelEnd := 0x40000
  start_le := by decide
  le_stack := by decide
  taskStacks := 0x20000
  idleStack := 0x30000
  taskExit := 0xA000
  idleTaskEntry := 0xB000
  stacks_ge := smallTaskStacks_ge
  stacks_le := by decide
  idle_ge := by decide
  idle_le := by decide
  apart := by decide

def emptyScheduler : Scheduler := ⟨fun _ ↦ ⟨0, 0, .terminated⟩, ⟨0, 0, .terminated⟩, none, 0, 0, fun _ ↦ 0⟩

/-- The kernel task creates a task and yields to it. -/
def firstSwitch : System :=
  let created := (taskCreate smallTaskImage 0xC000 (schedulerInit smallTaskImage emptyScheduler)).2
  ⟨(created.interrupt .yield 0x9D000).2, false⟩

theorem run_firstSwitch : Run (Initial smallTaskImage) (Step smallTaskImage)
    [.decision .yield (.slot 0) 0x9D000 (.slot 1) 0x20FC8, .create 0xC000 (some (1, 0x20FC8))]
    firstSwitch := by
  have hinitial : Initial smallTaskImage ⟨schedulerInit smallTaskImage emptyScheduler, false⟩ :=
    ⟨_, rfl⟩
  exact ((Run.start hinitial).step .create).step (.decision Bool.noConfusion rfl rfl rfl)

theorem current_task_exclusive_first_switch : ∃ current, firstSwitch.scheduler.curTask = some current ∧
    (firstSwitch.scheduler.task current).state = .running := by
  obtain ⟨current, hcurrent, -, hstate, -⟩ := current_task_exclusive run_firstSwitch
  exact ⟨current, hcurrent, hstate⟩

end NeilOS.Scheduler
