import NeilOS.Context.Frames

/-!
# Context switches are transparent

Along every run of the machine, each task that waits has a frame on its own stack that resumes it as
it should: with the registers it was interrupted with, or at its entry. Interrupts push on the stack
of the current task and creations build on a stack nobody uses, so no frame is ever overwritten.
-/

namespace NeilOS.Context

open Foundation Scheduler

/-- Every waiting task has the frame that the history asks for. -/
def Waiting (image : TaskImage) (history : List Event) (machine : Machine) : Prop :=
  ∀ ref, Live machine.system.scheduler ref → machine.system.scheduler.curTask ≠ some ref →
    ∃ resume, resumption image ref history = some resume ∧
      Frame image machine.memory (stackOf image machine.system.scheduler ref)
        (machine.system.scheduler.task ref).esp resume

variable {image : TaskImage} {before after : Machine} {event : Event} {current ref : TaskRef}
  {history : List Event}

theorem stackOf_high_le {scheduler : Scheduler} (h : Numbered scheduler) (hlive : Live scheduler ref) :
    (stackOf image scheduler ref).high ≤ 2 ^ 32 :=
  (stackOf_bounds image h hlive).2.trans (by decide)

/-- A step that leaves a waiting task and its stack alone leaves its frame. -/
theorem Waiting.unchanged (hwaiting : Waiting image history before)
    (hnumbered : Numbered before.system.scheduler) (hleaves : event.leaves ref = none)
    (hid : (after.system.scheduler.task ref).id = (before.system.scheduler.task ref).id)
    (hesp : (after.system.scheduler.task ref).esp = (before.system.scheduler.task ref).esp)
    (hmemory : ∀ target, (stackOf image before.system.scheduler ref).Contains target →
      after.memory target = before.memory target)
    (hlive : Live before.system.scheduler ref) (hcurrent : before.system.scheduler.curTask ≠ some ref) :
    ∃ resume, resumption image ref (event :: history) = some resume ∧
      Frame image after.memory (stackOf image after.system.scheduler ref)
        (after.system.scheduler.task ref).esp resume := by
  obtain ⟨resume, hresume, hframe⟩ := hwaiting ref hlive hcurrent
  refine ⟨resume, ?_, ?_⟩
  · rw [resumption, latest_of_none history hleaves]
    exact hresume
  · rw [stackOf_congr hid, hesp]
    exact hframe.keep (stackOf_high_le hnumbered hlive) hmemory

theorem Waiting.same (hwaiting : Waiting image history before)
    (hnumbered : Numbered before.system.scheduler) (hleaves : ∀ ref, event.leaves ref = none)
    (hsame : after.system.scheduler = before.system.scheduler) : Waiting image (event :: history) after := by
  intro ref hlive hcurrent
  rw [hsame] at hlive hcurrent
  exact hwaiting.unchanged hnumbered (hleaves ref) (by rw [hsame]) (by rw [hsame])
    (fun target _ ↦ by rw [Machine.memory, hsame]; rfl) hlive hcurrent

/-! ## Entering and leaving the handler -/

section Interrupt

variable {kind : Interrupt} {memory : Memory}

theorem task_withMemory (machine : Machine) (memory : Memory) :
    (machine.withMemory memory).task = machine.system.scheduler.task := by
  funext ref
  cases ref <;> rfl

/-- The machine when the handler has done its work on the interrupted stack. -/
structure Entered (image : TaskImage) (before : Machine) (kind : Interrupt) (current : TaskRef)
    (memory : Memory) : Prop where
  frame : Frame image memory (stackOf image before.system.scheduler current) (before.entered kind).1
    (.interrupted before.cpu)
  number : memory.load32 ((before.entered kind).1 + 32) = vector kind
  regs_ne : (before.entered kind).1 ≠ 0
  others : ∀ ref, ref ≠ current → Live before.system.scheduler ref → ∀ target,
    (stackOf image before.system.scheduler ref).Contains target → memory target = before.memory target

/-- The saved frame lies on the current task's stack and survives the handler. -/
theorem entered_spec (hrunning : Running before.system current)
    (hnumbered : Numbered before.system.scheduler)
    (hroom : HasRoom image before.system.scheduler current before.cpu)
    (hwrites : HandlerWrites image before.system.scheduler current (before.entered kind) memory) :
    Entered image before kind current memory := by
  obtain ⟨hlow, hhigh⟩ := hroom
  obtain ⟨hstackLow, hstackHigh⟩ := stackOf_bounds image hnumbered hrunning.live
  have hpushed : Stack.Pushed before.memory before.cpu.esp.toNat (frameWords (vector kind) before.cpu)
    (before.entered kind) := enter_spec (vector kind) before.memory (by omega)
  have hlength : (frameWords (vector kind) before.cpu).length = 13 := rfl
  have hregs : (before.entered kind).1.toNat = before.cpu.esp.toNat - 52 := by
    have hlt := before.cpu.esp.isLt
    rw [hpushed.pointer_eq, hlength, BitVec.toNat_ofNat]
    omega
  have hwords : WordsAt memory (before.entered kind).1.toNat
      (frameWords (vector kind) before.cpu).reverse := by
    have hpushedWords := hpushed.words
    rw [hlength, ← hregs] at hpushedWords
    refine hpushedWords.frame ?_ fun target hge hlt ↦ hwrites.frame target ?_ hge
    all_goals rw [List.length_reverse, hlength] at *
    · omega
    · exact ⟨by omega, by omega⟩
  refine ⟨⟨_, ⟨vector kind, rfl, ?_⟩, by omega, ?_, hwords⟩, (leave_of_words hwords).2.1, ?_, ?_⟩
  · bv_omega
  · rw [List.length_reverse, hlength]
    omega
  · bv_omega
  · intro ref hne hlive target htarget
    have hapart := stacks_apart image hnumbered hne hlive hrunning.live
    rw [hwrites.others ref hne hlive target htarget]
    apply hpushed.outside
    rw [hlength]
    unfold Region.Apart at hapart
    unfold Region.Contains at htarget
    omega

/-- What an interrupt does to the tasks, whether or not it leads to a decision. -/
structure Switched (before : Machine) (kind : Interrupt) (current selected : TaskRef) (memory : Memory)
    (after : Machine) : Prop where
  cpu : after.cpu = leave (if selected = current then (before.entered kind).1
    else (before.system.scheduler.task selected).esp) memory
  memory : after.memory = memory
  id : ∀ ref, (after.system.scheduler.task ref).id = (before.system.scheduler.task ref).id
  esp : ∀ ref, ref ≠ selected → (after.system.scheduler.task ref).esp =
    if ref = current then (before.entered kind).1 else (before.system.scheduler.task ref).esp
  live : ∀ ref, ref ≠ selected → ref ≠ current → Live after.system.scheduler ref →
    Live before.system.scheduler ref
  live_selected : Live before.system.scheduler selected
  -- An exit takes the task away for good.
  exit : kind = .exit → Live after.system.scheduler current → current = .idle

theorem live_withMemory (machine : Machine) (memory : Memory) (ref : TaskRef) :
    Live (machine.withMemory memory) ref ↔ Live machine.system.scheduler ref := by
  rw [Live, Live, task_withMemory]

theorem running_withMemory (h : Running before.system current) (memory : Memory) :
    Running ⟨before.withMemory memory, before.system.blocking⟩ current where
  curTask := h.curTask
  state := by
    rw [task_withMemory]
    exact h.state
  others := by
    rw [task_withMemory]
    exact h.others

theorem handled_eq (hentered : Entered image before kind current memory) :
    before.handled kind memory = (before.withMemory memory).interrupt kind (before.entered kind).1 :=
  interruptHandler_eq hentered.number

theorem switched_of_decision {selected : TaskRef} (hrunning : Running before.system current)
    (hdecision : Decision kind current (before.entered kind).1 (before.withMemory memory) selected
      (before.handled kind memory).1 (before.handled kind memory).2) :
    Switched before kind current selected memory (before.interrupted kind memory) := by
  have hmemory : (before.handled kind memory).2.memory = memory := hdecision.memory
  have hother {ref : TaskRef} (hselected : ref ≠ selected) (hne : ref ≠ current) :
      (before.handled kind memory).2.task ref = before.system.scheduler.task ref := by
    rw [hdecision.task_other ref hselected, Decision.demoted_other hne, task_withMemory]
  have hlive := (running_withMemory hrunning memory).live_selected hdecision
  refine ⟨?_, hmemory, fun ref ↦ ?_, fun ref hselected ↦ ?_, fun ref hselected hne ↦ ?_,
    (live_withMemory before memory selected).mp hlive, ?_⟩
  · change leave _ (before.handled kind memory).2.memory = _
    rw [hmemory, hdecision.returned_eq]
    split_ifs with heq
    · rw [heq, Decision.demoted_current]
    · rw [Decision.demoted_other heq, task_withMemory]
  · exact (hdecision.id_eq ref).trans (by rw [task_withMemory])
  · split_ifs with heq
    · have htask := hdecision.task_other ref hselected
      rw [heq, Decision.demoted_current] at htask
      rw [heq]
      exact congrArg Task.esp htask
    · exact congrArg Task.esp (hother hselected heq)
  · intro hlive
    rwa [Live, show (before.interrupted kind memory).system.scheduler.task ref = _ from
      hother hselected hne] at hlive
  · rintro rfl hlive
    by_cases heq : current = selected
    · rcases hdecision.selected_cases with ⟨index, -, hready⟩ | ⟨hidle, -⟩
      · rw [← heq, Decision.demoted_current] at hready
        cases hready
      · exact heq.trans hidle
    · refine hlive.resolve_right fun hstate ↦ hstate ?_
      have htask := hdecision.task_other current heq
      rw [Decision.demoted_current] at htask
      exact congrArg Task.state htask

theorem switched_of_pass (hrunning : Running before.system current) (hregs : (before.entered kind).1 ≠ 0)
    (hpass : (before.withMemory memory).decides kind (before.entered kind).1 = false)
    (hhandled : before.handled kind memory =
      (before.withMemory memory).interrupt kind (before.entered kind).1) :
    (before.interrupted kind memory).system.scheduler.curTask = some current ∧
      Switched before kind current current memory (before.interrupted kind memory) := by
  obtain ⟨ticks, hinterrupt⟩ := interrupt_pass hpass
  rw [hinterrupt] at hhandled
  have htask : (before.handled kind memory).2.task = before.system.scheduler.task := by
    rw [hhandled, ← task_withMemory before memory]
    funext ref
    cases ref <;> rfl
  have hmemory : (before.handled kind memory).2.memory = memory := by
    rw [hhandled]
    rfl
  refine ⟨?_, ?_, hmemory, fun ref ↦ congrArg (fun task ↦ (task ref).id) htask, fun ref hne ↦ ?_,
    fun ref _ _ hlive ↦ ?_, hrunning.live, ?_⟩
  · change (before.handled kind memory).2.curTask = some current
    rw [hhandled]
    exact hrunning.curTask
  · change leave (before.handled kind memory).1 (before.handled kind memory).2.memory = _
    rw [hmemory, if_pos rfl, hhandled]
  · rw [if_neg hne]
    exact congrArg (fun task ↦ (task ref).esp) htask
  · rwa [Live, show (before.interrupted kind memory).system.scheduler.task = _ from htask] at hlive
  · rintro rfl
    exact absurd ⟨hregs, Interrupt.noConfusion⟩ (of_decide_eq_false hpass)

/-- The interrupt is a step of the scheduler in the memory that the handler leaves. -/
theorem interrupted_spec {selected : TaskRef} (hinvariant : Scheduler.Invariant before.system)
    (hrunning : Running before.system current) (hblocking : before.system.blocking = true → kind ≠ .exit)
    (hentered : Entered image before kind current memory)
    (hselected : (before.interrupted kind memory).system.scheduler.curTask = some selected) :
    Scheduler.Invariant (before.interrupted kind memory).system ∧
      Switched before kind current selected memory (before.interrupted kind memory) := by
  have hexecute : Scheduler.Step image before.system .execute
    ⟨before.withMemory memory, before.system.blocking⟩ := .execute
  have hmiddle := hinvariant.step hexecute
  have hhandled := handled_eq hentered
  have hcurrent : (before.withMemory memory).curTask = some current := hrunning.curTask
  have hsystem : (before.interrupted kind memory).system =
      ⟨((before.withMemory memory).interrupt kind (before.entered kind).1).2, before.system.blocking &&
        !(before.withMemory memory).decides kind (before.entered kind).1⟩ := by
    rw [← hhandled]
    rfl
  cases hdecides : (before.withMemory memory).decides kind (before.entered kind).1 with
  | true =>
    obtain ⟨next, hdecision⟩ := interrupt_decision hcurrent hdecides
    have hstep : Scheduler.Step image ⟨before.withMemory memory, before.system.blocking⟩ _ _ :=
      .decision hblocking hdecides hcurrent hdecision.curTask
    rw [← hhandled] at hdecision
    obtain rfl := Option.some.inj (hselected.symm.trans hdecision.curTask)
    refine ⟨?_, switched_of_decision hrunning hdecision⟩
    rw [hsystem, hdecides, Bool.not_true, Bool.and_false]
    exact hmiddle.step hstep
  | false =>
    have hstep : Scheduler.Step image ⟨before.withMemory memory, before.system.blocking⟩ _ _ :=
      .pass hblocking hdecides
    obtain ⟨hsame, hswitched⟩ := switched_of_pass hrunning hentered.regs_ne hdecides hhandled
    obtain rfl := Option.some.inj (hsame.symm.trans hselected)
    refine ⟨?_, hswitched⟩
    rw [hsystem, hdecides, Bool.not_false, Bool.and_true]
    exact hmiddle.step hstep

theorem leaves_interrupted {cpu resumed : Cpu} {selected : TaskRef} (h : kind = .exit → current = .idle) :
    (Event.interrupt kind current cpu selected resumed).leaves current = some (some (.interrupted cpu)) := by
  have hkept : ¬ (kind = .exit ∧ current ≠ .idle) := fun hboth ↦ hboth.2 (h hboth.1)
  rw [Event.leaves, if_pos rfl, if_neg hkept]

theorem Switched.waiting {selected : TaskRef} {resumed : Cpu} (hnumbered : Numbered before.system.scheduler)
    (hwaiting : Waiting image history before) (hrunning : Running before.system current)
    (hentered : Entered image before kind current memory)
    (hselected : after.system.scheduler.curTask = some selected)
    (h : Switched before kind current selected memory after) :
    Waiting image (.interrupt kind current before.cpu selected resumed :: history) after := by
  intro ref hlive hcurrent
  have hne : ref ≠ selected := by
    rintro rfl
    exact hcurrent hselected
  have hesp := h.esp ref hne
  by_cases heq : ref = current
  · subst heq
    refine ⟨_, latest_of_some history (leaves_interrupted fun hexit ↦ h.exit hexit hlive), ?_⟩
    rw [stackOf_congr (h.id ref), hesp, if_pos rfl, h.memory]
    exact hentered.frame
  · rw [if_neg heq] at hesp
    have hbefore := h.live ref hne heq hlive
    refine hwaiting.unchanged hnumbered (if_neg (Ne.symm heq)) (h.id ref) hesp ?_ hbefore ?_
    · rw [h.memory]
      exact hentered.others ref heq hbefore
    · rw [hrunning.curTask]
      exact fun hsame ↦ heq (Option.some.inj hsame).symm

end Interrupt

/-! ## Whole runs -/

structure Invariant (image : TaskImage) (history : List Event) (machine : Machine) : Prop where
  scheduler : Scheduler.Invariant machine.system
  waiting : Waiting image history machine

theorem Initial.machine_invariant (h : Initial image before) : Invariant image [] before := by
  refine ⟨Scheduler.Initial.invariant h, fun ref hlive hcurrent ↦ ?_⟩
  obtain ⟨cpu, system⟩ := before
  obtain ⟨scheduler, rfl⟩ := h
  cases ref with
  | slot index =>
    have hindex : index ≠ 0 := fun heq ↦ hcurrent (by rw [heq]; rfl)
    exact absurd (if_neg hindex) (hlive.resolve_left TaskRef.noConfusion)
  | idle =>
    have hidle := idle_le_boot image
    have hpushed := taskCreateContext_spec image image.idleTaskEntry scheduler.memory
      (show image.idleStack.toNat + 4096 < 2 ^ 32 by omega)
    let stack : Region := ⟨image.idleStack.toNat, image.idleStack.toNat + 4096⟩
    have hroom : stack.low + 56 ≤ stack.high := Nat.add_le_add_left (by decide) _
    have hbound : stack.high < 2 ^ 32 := by
      change image.idleStack.toNat + 4096 < 2 ^ 32
      omega
    exact ⟨.fresh image.idleTaskEntry, rfl, frame_of_pushed hpushed hroom hbound⟩

theorem Created.waiting {scheduler created : Scheduler} {cpu resumed : Cpu} {entry : Word} {index : Fin 16}
    (hnumbered : Numbered scheduler) (hwaiting : Waiting image history ⟨cpu, scheduler, false⟩)
    (hcreated : Created image entry scheduler index created) :
    Waiting image (.create entry (some index) :: history) ⟨resumed, created, false⟩ := by
  intro ref hlive hcurrent
  by_cases heq : ref = .slot index
  · subst heq
    refine ⟨_, latest_of_some history (if_pos rfl), ?_⟩
    obtain ⟨hlow, hhigh⟩ := stackOf_bounds image (hnumbered.created hcreated) hlive
    have hstack := hcreated.stackOf_eq hnumbered
    refine frame_of_pushed (hcreated.pushed hnumbered) ?_ (by omega)
    rw [hstack]
    dsimp only
    omega
  · have htask := hcreated.task_other ref heq
    have hbefore : Live scheduler ref := by rwa [Live, htask] at hlive
    exact hwaiting.unchanged hnumbered (if_neg heq) (congrArg Task.id htask) (congrArg Task.esp htask)
      (fun _ ↦ hcreated.memory_eq hnumbered hbefore) hbefore (by rwa [hcreated.curTask] at hcurrent)

/-- A step that changes no more than one task's state, in the same memory, keeps the frames. -/
theorem Waiting.modify_state {scheduler : Scheduler} {cpu resumed : Cpu} {blocking next : Bool}
    (hnumbered : Numbered scheduler) (hwaiting : Waiting image history ⟨cpu, scheduler, blocking⟩)
    (state : TaskState) (hstate : (scheduler.task current).state ≠ .terminated) :
    Waiting image (.other :: history)
      ⟨resumed, scheduler.modify current fun task ↦ { task with state := state }, next⟩ := by
  intro ref hlive hcurrent
  have hfields : ((scheduler.modify current fun task ↦ { task with state := state }).task ref).id =
      (scheduler.task ref).id ∧
      ((scheduler.modify current fun task ↦ { task with state := state }).task ref).esp =
      (scheduler.task ref).esp ∧ Live scheduler ref := by
    by_cases heq : ref = current
    · subst heq
      rw [task_modify_same]
      exact ⟨rfl, rfl, .inr hstate⟩
    · rw [Live, task_modify_of_ne _ _ heq] at hlive
      rw [task_modify_of_ne _ _ heq]
      exact ⟨rfl, rfl, hlive⟩
  obtain ⟨hid, hesp, hbefore⟩ := hfields
  refine hwaiting.unchanged hnumbered rfl hid hesp (fun target _ ↦ ?_) hbefore ?_
  · exact congrFun (memory_modify ..) target
  · exact fun hsame ↦ hcurrent ((curTask_modify ..).trans hsame)

theorem Invariant.machine_step (h : Invariant image history before) (hstep : Step image before event after) :
    Invariant image (event :: history) after := by
  obtain ⟨⟨current, hrunning⟩, hnumbered⟩ := h.scheduler
  cases hstep with
  | interrupt hblocking hcurrent hroom hwrites hselected =>
    obtain rfl := Option.some.inj (hcurrent.symm.trans hrunning.curTask)
    have hentered := entered_spec hrunning hnumbered hroom hwrites
    obtain ⟨hinvariant, hswitched⟩ := interrupted_spec h.scheduler hrunning hblocking hentered hselected
    exact ⟨hinvariant, hswitched.waiting hnumbered h.waiting hrunning hentered hselected⟩
  | @create cpu resumed scheduler entry =>
    have hschedulerStep : Scheduler.Step image ⟨scheduler, false⟩
      (.create entry (creation image entry scheduler)) _ := .create
    refine ⟨h.scheduler.step hschedulerStep, ?_⟩
    rcases Numbered.creation_cases hnumbered image entry with ⟨hnone, hsame⟩ | ⟨index, hcreation, hcreated⟩
    · dsimp only at hnone hsame
      rw [hnone, hsame]
      exact h.waiting.same hnumbered (fun _ ↦ rfl) rfl
    · dsimp only at hcreation
      rw [hcreation]
      exact Created.waiting hnumbered h.waiting hcreated
  | @block cpu resumed scheduler =>
    have hschedulerStep : Scheduler.Step image ⟨scheduler, false⟩ _ _ := .block
    refine ⟨h.scheduler.step hschedulerStep, ?_⟩
    have hcurrent : scheduler.curTask = some current := hrunning.curTask
    rw [taskBlock, hcurrent]
    exact h.waiting.modify_state hnumbered .blocked hrunning.not_terminated
  | @unblock cpu resumed scheduler id =>
    have hschedulerStep : Scheduler.Step image ⟨scheduler, false⟩ (.unblock id) _ := .unblock
    refine ⟨h.scheduler.step hschedulerStep, ?_⟩
    rcases taskUnblock_spec id scheduler with hsame | ⟨index, hblocked, hafter⟩
    · rw [hsame]
      exact h.waiting.same hnumbered (fun _ ↦ rfl) rfl
    · rw [hafter]
      have hlive : (scheduler.task (.slot index)).state ≠ .terminated :=
        not_terminated_of_blocked hblocked
      exact h.waiting.modify_state hnumbered .ready hlive
  | @execute _ resumed _ memory hcurrent hkept =>
    have hactive := Option.some.inj (hcurrent.symm.trans hrunning.curTask)
    rw [hactive] at hkept
    have hschedulerStep : Scheduler.Step image before.system .execute
      ⟨before.withMemory memory, before.system.blocking⟩ := .execute
    refine ⟨h.scheduler.step hschedulerStep, fun ref hlive hother ↦ ?_⟩
    have hne : ref ≠ current := by
      rintro rfl
      exact hother hrunning.curTask
    have hbefore := (live_withMemory before memory ref).mp hlive
    exact h.waiting.unchanged hnumbered rfl (congrArg (fun task ↦ (task ref).id) (task_withMemory ..))
      (congrArg (fun task ↦ (task ref).esp) (task_withMemory ..)) (hkept ref hne hbefore) hbefore hother

theorem machine_run_invariant {machine : Machine}
    (hrun : Run (Initial image) (Step image) history machine) : Invariant image history machine :=
  hrun.induct (Invariant image) (fun _ ↦ Initial.machine_invariant)
    fun _ _ _ _ _ hbefore hstep ↦ hbefore.machine_step hstep

/-- A resumed task continues exactly as it was interrupted, or starts at its entry. -/
theorem context_switch_transparent {machine : Machine} {kind : Interrupt} {outgoing selected : TaskRef}
    {interrupted resumed : Cpu} (hrun : Run (Initial image) (Step image)
      (.interrupt kind outgoing interrupted selected resumed :: history) machine) :
    machine.cpu = resumed ∧ machine.system.scheduler.curTask = some selected ∧
      ∃ resume, resumption image selected
          (.interrupt kind outgoing interrupted selected resumed :: history) = some resume ∧
        Resumes image machine.memory resumed resume := by
  cases hrun with
  | step hprefix hstep =>
    obtain ⟨hscheduler, hwaiting⟩ := machine_run_invariant hprefix
    obtain ⟨⟨current, hrunning⟩, hnumbered⟩ := hscheduler
    cases hstep with
    | interrupt hblocking hcurrent hroom hwrites hselected =>
      obtain rfl := Option.some.inj (hcurrent.symm.trans hrunning.curTask)
      have hentered := entered_spec hrunning hnumbered hroom hwrites
      obtain ⟨hinvariant, hswitched⟩ :=
        interrupted_spec ⟨⟨_, hrunning⟩, hnumbered⟩ hrunning hblocking hentered hselected
      refine ⟨rfl, hselected, ?_⟩
      rw [hswitched.memory, hswitched.cpu]
      by_cases heq : selected = outgoing
      · subst heq
        rw [if_pos rfl]
        obtain ⟨next, hnext⟩ := hinvariant.running
        obtain rfl := Option.some.inj (hselected.symm.trans hnext.curTask)
        exact ⟨_, latest_of_some history (leaves_interrupted fun hexit ↦ hswitched.exit hexit hnext.live),
          hentered.frame.resumes⟩
      · rw [if_neg heq]
        have hlive := hswitched.live_selected
        have hother : ¬ _ = some selected := fun hsame ↦
          heq (Option.some.inj (hrunning.curTask.symm.trans hsame)).symm
        obtain ⟨resume, hresume, hframe⟩ := hwaiting selected hlive hother
        refine ⟨resume, (latest_of_none history (if_neg (Ne.symm heq))).trans hresume, ?_⟩
        exact (hframe.keep (stackOf_high_le hnumbered hlive) (hentered.others selected heq hlive)).resumes

/-- The kernel task with a new task, about to yield. -/
def beforeYield : Machine :=
  ⟨⟨1, 2, 3, 4, 0x9D000, 5, 6, 7, 0x9000, 0x08, 0x202⟩,
    (taskCreate smallTaskImage 0xC000 (schedulerInit smallTaskImage emptyScheduler)).2, false⟩

/-- The yield, with a handler that leaves the memory as it is on entry. -/
def yielded (machine : Machine) : Machine :=
  machine.interrupted .yield (machine.entered .yield).2

theorem handlerWrites_entered {image : TaskImage} {scheduler : Scheduler} {current : TaskRef}
    (top : Stack.Top) : HandlerWrites image scheduler current top top.2 :=
  ⟨fun _ _ _ _ _ ↦ rfl, fun _ _ _ ↦ rfl⟩

/-- The kernel task yields to the new task, which yields back. -/
theorem run_yield_back : Run (Initial smallTaskImage) (Step smallTaskImage)
    [.interrupt .yield (.slot 1) (yielded beforeYield).cpu (.slot 0) (yielded (yielded beforeYield)).cpu,
      .interrupt .yield (.slot 0) beforeYield.cpu (.slot 1) (yielded beforeYield).cpu,
      .create 0xC000 (some 1)] (yielded (yielded beforeYield)) := by
  have hinitial : Initial smallTaskImage
      ⟨beforeYield.cpu, schedulerInit smallTaskImage emptyScheduler, false⟩ := ⟨_, rfl⟩
  have hcreated : Run (Initial smallTaskImage) (Step smallTaskImage) [.create 0xC000 (some 1)] beforeYield :=
    (Run.start hinitial).step .create
  have hyield : Step smallTaskImage beforeYield
      (.interrupt .yield (.slot 0) beforeYield.cpu (.slot 1) (yielded beforeYield).cpu)
      (yielded beforeYield) :=
    .interrupt Bool.noConfusion rfl ⟨by decide, by decide⟩ (handlerWrites_entered _) (by decide +kernel)
  have hback : Step smallTaskImage (yielded beforeYield)
      (.interrupt .yield (.slot 1) (yielded beforeYield).cpu (.slot 0) (yielded (yielded beforeYield)).cpu)
      (yielded (yielded beforeYield)) :=
    .interrupt (by decide +kernel) (by decide +kernel) ⟨by decide +kernel, by decide +kernel⟩
      (handlerWrites_entered _) (by decide +kernel)
  exact (hcreated.step hyield).step hback

theorem context_switch_transparent_yield_back : (yielded (yielded beforeYield)).cpu = beforeYield.cpu := by
  obtain ⟨-, -, resume, hresume, hresumes⟩ := context_switch_transparent run_yield_back
  obtain rfl : resume = .interrupted beforeYield.cpu := Option.some.inj (hresume.symm.trans rfl)
  exact hresumes

end NeilOS.Context
