import NeilOS.Scheduler.Runs

/-!
# The tasks' stacks

`task_create` takes the stack from the id and the slot from the state. Along every run the id of a
used slot is its index, so different tasks that can still run have different stacks, and a context
is only built on a stack that no such task uses.
-/

namespace NeilOS.Scheduler

open Foundation

namespace Region

def Contains (region : Region) (address : Word) : Prop :=
  region.low ≤ address.toNat ∧ address.toNat < region.high

def Apart (first second : Region) : Prop :=
  first.high ≤ second.low ∨ second.high ≤ first.low

end Region

variable {image : TaskImage} {scheduler : Scheduler}

theorem stackOf_congr {after : Scheduler} {ref : TaskRef}
    (h : (after.task ref).id = (scheduler.task ref).id) :
    stackOf image after ref = stackOf image scheduler ref := by
  cases ref with
  | idle => rfl
  | slot index =>
    have hid : (after.tasks index).id = (scheduler.tasks index).id := h
    simp only [stackOf, hid]

/-- The stacks end below the kernel task's stack. -/
theorem stacks_le_boot (image : TaskImage) : image.taskStacks.toNat + 15 * 4096 ≤ 0x98000 :=
  image.stacks_le.trans image.le_stack

theorem idle_le_boot (image : TaskImage) : image.idleStack.toNat + 4096 ≤ 0x98000 :=
  image.idle_le.trans image.le_stack

theorem toNat_taskStack (image : TaskImage) {index : Fin 16} (hone : 1 ≤ index.val) :
    (taskStack image (.ofNat 32 index.val - 1)).toNat =
      image.taskStacks.toNat + 4096 * (index.val - 1) := by
  have hlt := index.isLt
  have hstacks := stacks_le_boot image
  have hnumber : BitVec.ofNat 32 index.val - 1 = BitVec.ofNat 32 (index.val - 1) := by bv_omega
  rw [taskStack, hnumber]
  have hsize : (4096 : Word).toNat = 4096 := rfl
  simp only [BitVec.toNat_add, BitVec.toNat_mul, BitVec.toNat_ofNat, hsize]
  omega

/-- A slot that can still run is used, so its id is its index. -/
theorem Numbered.id_of_live (h : Numbered scheduler) {index : Fin 16} (hone : 1 ≤ index.val)
    (hlive : (scheduler.tasks index).state ≠ .terminated) :
    (scheduler.tasks index).id = .ofNat 32 index.val := by
  have hused : index.val < scheduler.nextTaskID.toNat :=
    not_le.mp fun hunused ↦ hlive (h.unused index hunused)
  rw [h.id_eq index, if_pos ⟨hone, hused⟩]

theorem stackOf_slot {index : Fin 16} (hone : 1 ≤ index.val)
    (hid : (scheduler.tasks index).id = .ofNat 32 index.val) :
    stackOf image scheduler (.slot index) =
      ⟨image.taskStacks.toNat + 4096 * (index.val - 1),
        image.taskStacks.toNat + 4096 * (index.val - 1) + 4096⟩ := by
  have hindex : index ≠ 0 := by
    rintro rfl
    exact absurd hone (by decide)
  simp only [stackOf, if_neg hindex, hid, toNat_taskStack image hone]

/-- The three kinds of stack. -/
theorem stackOf_cases (image : TaskImage) (h : Numbered scheduler) {ref : TaskRef}
    (hlive : Live scheduler ref) :
    (ref = .idle ∧ stackOf image scheduler ref =
        ⟨image.idleStack.toNat, image.idleStack.toNat + 4096⟩) ∨
      (ref = .slot 0 ∧ stackOf image scheduler ref = ⟨0x98000, 0x9E000⟩) ∨
      ∃ index : Fin 16, ref = .slot index ∧ 1 ≤ index.val ∧ index.val ≤ 15 ∧
        stackOf image scheduler ref = ⟨image.taskStacks.toNat + 4096 * (index.val - 1),
          image.taskStacks.toNat + 4096 * (index.val - 1) + 4096⟩ := by
  cases ref with
  | idle => exact .inl ⟨rfl, rfl⟩
  | slot index =>
    by_cases hzero : index = 0
    · subst hzero
      exact .inr (.inl ⟨rfl, rfl⟩)
    · have hone : 1 ≤ index.val := Nat.one_le_iff_ne_zero.mpr fun hval ↦ hzero (Fin.ext hval)
      have hstate := hlive.resolve_left TaskRef.noConfusion
      exact .inr (.inr ⟨index, rfl, hone, Nat.le_of_lt_succ index.isLt,
        stackOf_slot hone (h.id_of_live hone hstate)⟩)

theorem stackOf_bounds (image : TaskImage) (h : Numbered scheduler) {ref : TaskRef}
    (hlive : Live scheduler ref) :
    0x9000 ≤ (stackOf image scheduler ref).low ∧ (stackOf image scheduler ref).high ≤ 0x9E000 := by
  have hstacksGe := image.stacks_ge
  have hstacks := stacks_le_boot image
  have hidleGe := image.idle_ge
  have hidle := idle_le_boot image
  rcases stackOf_cases image h hlive with
    ⟨-, hstack⟩ | ⟨-, hstack⟩ | ⟨index, -, hone, hle, hstack⟩ <;> rw [hstack] <;> dsimp only <;> omega

/-- Different tasks that can still run have separate stacks. -/
theorem stacks_apart (image : TaskImage) (h : Numbered scheduler) {first second : TaskRef}
    (hne : first ≠ second)
    (hfirst : Live scheduler first) (hsecond : Live scheduler second) :
    (stackOf image scheduler first).Apart (stackOf image scheduler second) := by
  have hstacks := stacks_le_boot image
  have hidle := idle_le_boot image
  have hapart := image.apart
  rcases stackOf_cases image h hfirst with
    ⟨hidleFirst, hstack⟩ | ⟨hboot, hstack⟩ | ⟨index, hslot, hone, hle, hstack⟩
  · rcases stackOf_cases image h hsecond with
      ⟨hsame, -⟩ | ⟨-, hother⟩ | ⟨other, -, hotherOne, hotherLe, hother⟩
    · exact absurd (hidleFirst.trans hsame.symm) hne
    · rw [hstack, hother]
      exact .inl hidle
    · rw [hstack, hother]
      simp only [Region.Apart]
      omega
  · rcases stackOf_cases image h hsecond with
      ⟨-, hother⟩ | ⟨hsame, -⟩ | ⟨other, -, hotherOne, hotherLe, hother⟩
    · rw [hstack, hother]
      exact .inr hidle
    · exact absurd (hboot.trans hsame.symm) hne
    · rw [hstack, hother]
      exact .inr (by dsimp only; omega)
  · rcases stackOf_cases image h hsecond with
      ⟨-, hother⟩ | ⟨-, hother⟩ | ⟨other, hotherSlot, hotherOne, hotherLe, hother⟩
    · rw [hstack, hother]
      simp only [Region.Apart]
      omega
    · rw [hstack, hother]
      exact .inl (by dsimp only; omega)
    · have hval : index.val ≠ other.val := fun hval ↦
        hne (by rw [hslot, hotherSlot, Fin.ext hval])
      rw [hstack, hother]
      simp only [Region.Apart]
      omega

/-- The id of a task that can still run. -/
def liveID : TaskRef → Word
  | .idle => 0xFFFFFFFF
  | .slot index => .ofNat 32 index.val

theorem liveID_injective : Function.Injective liveID := by
  have hidle (index : Fin 16) : liveID .idle ≠ liveID (.slot index) := by
    have hlt := index.isLt
    simp only [liveID]
    bv_omega
  intro first second heq
  cases first with
  | idle =>
    cases second with
    | idle => rfl
    | slot index => exact absurd heq (hidle index)
  | slot index =>
    cases second with
    | idle => exact absurd heq.symm (hidle index)
    | slot other =>
      have hlt := index.isLt
      have hotherLt := other.isLt
      have hval : index.val = other.val := by
        simp only [liveID] at heq
        bv_omega
      rw [Fin.ext hval]

theorem Numbered.id_eq_liveID (h : Numbered scheduler) {ref : TaskRef} (hlive : Live scheduler ref) :
    (scheduler.task ref).id = liveID ref := by
  cases ref with
  | idle => exact h.idle_id
  | slot index =>
    by_cases hone : 1 ≤ index.val
    · exact h.id_of_live hone (hlive.resolve_left TaskRef.noConfusion)
    · have hzero : index.val = 0 := by omega
      rw [liveID, hzero]
      exact (h.id_eq index).trans (if_neg fun hboth ↦ hone hboth.1)

/-! ## Building a context -/

theorem taskCreateContext_spec (image : TaskImage) {stack : Word} (entry : Word) (memory : Memory)
    (hbound : stack.toNat + 4096 < 2 ^ 32) :
    Stack.Pushed memory (stack.toNat + 4096) (contextWords image entry)
      (taskCreateContext image stack entry memory) := by
  have htop : stack + 4096 = .ofNat 32 (stack.toNat + 4096) := by bv_omega
  rw [taskCreateContext, htop]
  apply Stack.pushAll_spec
  · change 4 * 14 ≤ _
    omega
  · exact hbound

section Creation

variable {entry : Word} {index : Fin 16} {after : Scheduler}

/-- The new task's stack is the one of its slot in `taskStacks`. -/
theorem Created.stackOf_eq (h : Numbered scheduler) (hcreated : Created image entry scheduler index after) :
    stackOf image after (.slot index) = ⟨image.taskStacks.toNat + 4096 * (index.val - 1),
      image.taskStacks.toNat + 4096 * (index.val - 1) + 4096⟩ := by
  have hone := (terminatedSlot_eq_some hcreated.slot).1
  apply stackOf_slot hone
  rw [← (h.slotID_eq hcreated.slot).1]
  exact congrArg Task.id hcreated.task_slot

/-- The words of the new context, and nothing else, are written, at the top of its stack. -/
theorem Created.pushed (h : Numbered scheduler) (hcreated : Created image entry scheduler index after) :
    Stack.Pushed scheduler.memory (stackOf image after (.slot index)).high (contextWords image entry)
      ((after.task (.slot index)).esp, after.memory) := by
  have hone := (terminatedSlot_eq_some hcreated.slot).1
  have hstacks := stacks_le_boot image
  have hlt := index.isLt
  rw [hcreated.stackOf_eq h, hcreated.task_slot, hcreated.memory, (h.slotID_eq hcreated.slot).1]
  dsimp only
  have hstack := toNat_taskStack image hone
  rw [← hstack]
  exact taskCreateContext_spec image entry scheduler.memory (by omega)

/-- Tasks that can run before a creation keep their stack, apart from the new one. -/
theorem Created.apart (h : Numbered scheduler) (hcreated : Created image entry scheduler index after)
    {ref : TaskRef} (hlive : Live scheduler ref) :
    stackOf image after ref = stackOf image scheduler ref ∧
      (stackOf image after (.slot index)).Apart (stackOf image after ref) := by
  have hne : ref ≠ .slot index := by
    rintro rfl
    exact hlive.resolve_left TaskRef.noConfusion (terminatedSlot_eq_some hcreated.slot).2.1
  have htask := hcreated.task_other ref hne
  refine ⟨stackOf_congr (by rw [htask]), ?_⟩
  apply stacks_apart image (h.created hcreated) hne.symm
  · rw [Live, hcreated.task_slot]
    exact .inr TaskState.noConfusion
  · rwa [Live, htask]

/-- A creation writes on no stack of a task that can run. -/
theorem Created.memory_eq (h : Numbered scheduler) (hcreated : Created image entry scheduler index after)
    {ref : TaskRef} (hlive : Live scheduler ref) {target : Word}
    (htarget : (stackOf image scheduler ref).Contains target) :
    after.memory target = scheduler.memory target := by
  obtain ⟨hstack, hapart⟩ := hcreated.apart h hlive
  rw [← hstack] at htarget
  have hwords : (contextWords image entry).length = 14 := rfl
  have hpushed := (hcreated.pushed h).outside target
  have hnew := hcreated.stackOf_eq h
  rw [hwords] at hpushed
  apply hpushed
  unfold Region.Apart at hapart
  unfold Region.Contains at htarget
  rw [hnew] at hapart ⊢
  dsimp only at hapart ⊢
  omega

end Creation

/-! ## Whole runs -/

theorem Running.live {system : System} {current : TaskRef} (h : Running system current) :
    Live system.scheduler current :=
  .inr h.not_terminated

/-- Ids are slot indices, so stacks are never shared and never rebuilt under a task that can run. -/
theorem task_ids_are_slots {history : List Event} {system : System}
    (hrun : Run (Initial image) (Step image) history system) :
    (∀ index : Fin 16, 1 ≤ index.val → (system.scheduler.tasks index).id = 0 ∨
        (system.scheduler.tasks index).id = .ofNat 32 index.val) ∧
      (∀ index : Fin 16, 1 ≤ index.val → ((system.scheduler.tasks index).id ≠ 0 ↔
        index.val < system.scheduler.nextTaskID.toNat)) ∧
      (∀ first second, first ≠ second → (system.scheduler.task first).state ≠ .terminated →
        (system.scheduler.task second).state ≠ .terminated →
          (system.scheduler.task first).id ≠ (system.scheduler.task second).id ∧
          (stackOf image system.scheduler first).Apart (stackOf image system.scheduler second)) ∧
      ∀ entry result after, taskCreate image entry system.scheduler = (result, after) →
        (result = -1 ∧ after = system.scheduler) ∨
        ∃ index : Fin 16, result = index.val ∧ 1 ≤ result ∧ result ≤ 15 ∧
          image.taskStacks.toNat ≤ (stackOf image after (.slot index)).low ∧
          (stackOf image after (.slot index)).high ≤ image.taskStacks.toNat + 15 * 4096 ∧
          Stack.Pushed system.scheduler.memory (stackOf image after (.slot index)).high
            (contextWords image entry) ((after.task (.slot index)).esp, after.memory) ∧
          ∀ ref, (system.scheduler.curTask = some ref ∨ (system.scheduler.task ref).state = .ready ∨
              (system.scheduler.task ref).state = .blocked) →
            (stackOf image after (.slot index)).Apart (stackOf image system.scheduler ref) ∧
            ∀ target, (stackOf image system.scheduler ref).Contains target →
              after.memory target = system.scheduler.memory target := by
  obtain ⟨⟨current, hrunning⟩, hnumbered⟩ := run_invariant hrun
  refine ⟨fun index hone ↦ ?_, fun index hone ↦ ?_, fun first second hne hfirst hsecond ↦ ?_, ?_⟩
  · rw [hnumbered.id_eq index]
    split_ifs
    · exact .inr rfl
    · exact .inl rfl
  · have hlt := index.isLt
    rw [hnumbered.id_eq index]
    split_ifs with hused
    · exact ⟨fun _ ↦ hused.2, fun _ ↦ by bv_omega⟩
    · exact ⟨fun hzero ↦ absurd rfl hzero, fun hnext ↦ absurd ⟨hone, hnext⟩ hused⟩
  · refine ⟨?_, stacks_apart image hnumbered hne (.inr hfirst) (.inr hsecond)⟩
    rw [hnumbered.id_eq_liveID (.inr hfirst), hnumbered.id_eq_liveID (.inr hsecond)]
    exact liveID_injective.ne hne
  · intro entry result after hcreate
    rcases hnumbered.taskCreate_cases image entry with hrefused | ⟨index, hone, -, hresult, hcreated⟩
    · exact .inl (Prod.mk.inj (hcreate.symm.trans hrefused))
    · rw [hcreate] at hresult hcreated
      dsimp only at hresult hcreated
      have hlt := index.isLt
      have hstack := hcreated.stackOf_eq hnumbered
      refine .inr ⟨index, hresult, by omega, by omega, ?_, ?_, hcreated.pushed hnumbered, ?_⟩
      · rw [hstack]
        exact Nat.le_add_right _ _
      · rw [hstack]
        dsimp only
        omega
      · intro ref href
        have hlive : Live system.scheduler ref := by
          rcases href with hcurrent | hready | hblocked
          · obtain rfl := Option.some.inj (hrunning.curTask.symm.trans hcurrent)
            exact hrunning.live
          · exact .inr (by rw [hready]; decide)
          · exact .inr (by rw [hblocked]; decide)
        obtain ⟨hsame, hapart⟩ := hcreated.apart hnumbered hlive
        rw [hsame] at hapart
        exact ⟨hapart, fun target ↦ hcreated.memory_eq hnumbered hlive⟩

theorem task_ids_are_slots_first_switch :
    (stackOf smallTaskImage firstSwitch.scheduler (.slot 0)).Apart
      (stackOf smallTaskImage firstSwitch.scheduler (.slot 1)) := by
  obtain ⟨-, -, happart, -⟩ := task_ids_are_slots run_firstSwitch
  exact (happart (.slot 0) (.slot 1) (by decide) (by decide) (by decide)).2

end NeilOS.Scheduler
