import NeilOS.Foundation.Interference
import NeilOS.Scheduler.Runs

/-!
# The critical sections of the scheduler

`Model.lean` takes the calls of `scheduler.c` as single steps. Here they are programs whose operations are
the single accesses to the scheduler's variables and the two functions that save and restore the
interrupt flag. While the flag is set, an interrupt can come between any two accesses, and the other tasks
can make any number of steps before the interrupted one goes on.
-/

namespace NeilOS.Scheduler

open Foundation Foundation.Program

inductive TaskOp where
  | irqSave
  | irqRestore (flags : Bool)
  | curTask
  | state (ref : TaskRef)
  | setState (ref : TaskRef) (state : TaskState)
  | id (ref : TaskRef)
  | setId (ref : TaskRef) (id : Word)
  | setEsp (ref : TaskRef) (esp : Word)
  | nextTaskID
  | setNextTaskID (id : Word)
  | store (address value : Word)
deriving DecidableEq

def TaskOp.Answer : TaskOp → Type
  | .irqSave => Bool
  | .curTask => Option TaskRef
  | .state _ => TaskState
  | .id _ | .nextTaskID => Word
  | _ => Unit

abbrev TaskProgram := Program TaskOp TaskOp.Answer

/-- The scheduler's variables and the interrupt flag of the processor. -/
structure Core where
  system : System
  interrupts : Bool

def Core.scheduler (core : Core) : Scheduler := core.system.scheduler

def Core.setScheduler (core : Core) (scheduler : Scheduler) : Core :=
  { core with system := { core.system with scheduler := scheduler } }

/-- The only store of `TASK_BLOCKED` is the one of `task_block`, so it raises `blocking`. -/
def handle : Handler TaskOp TaskOp.Answer Core
  | .irqSave, core => some (core.interrupts, { core with interrupts := false })
  | .irqRestore flags, core => some ((), { core with interrupts := flags })
  | .curTask, core => some (core.scheduler.curTask, core)
  | .state ref, core => some ((core.scheduler.task ref).state, core)
  | .setState ref state, core =>
      some ((), { core with system :=
        { scheduler := core.scheduler.modify ref fun task ↦ { task with state := state }
          blocking := if state = .blocked then true else core.system.blocking } })
  | .id ref, core => some ((core.scheduler.task ref).id, core)
  | .setId ref id, core =>
      some ((), core.setScheduler (core.scheduler.modify ref fun task ↦ { task with id := id }))
  | .setEsp ref esp, core =>
      some ((), core.setScheduler (core.scheduler.modify ref fun task ↦ { task with esp := esp }))
  | .nextTaskID, core => some (core.scheduler.nextTaskID, core)
  | .setNextTaskID id, core => some ((), core.setScheduler { core.scheduler with nextTaskID := id })
  | .store address value, core =>
      some ((), core.setScheduler
        { core.scheduler with memory := core.scheduler.memory.store32 address value })

/-- An index of `tasks`. -/
def slotAt (index : ℕ) : Fin 16 := ⟨index % 16, Nat.mod_lt index (by decide)⟩

namespace Critical

/-! ## The programs -/

def irqSave : TaskProgram Bool := perform .irqSave result

def irqRestore (flags : Bool) : TaskProgram Unit := perform (.irqRestore flags) result

def curTask : TaskProgram (Option TaskRef) := perform .curTask result

def state (ref : TaskRef) : TaskProgram TaskState := perform (.state ref) result

def setState (ref : TaskRef) (state : TaskState) : TaskProgram Unit := perform (.setState ref state) result

def id (ref : TaskRef) : TaskProgram Word := perform (.id ref) result

def setId (ref : TaskRef) (id : Word) : TaskProgram Unit := perform (.setId ref id) result

def setEsp (ref : TaskRef) (esp : Word) : TaskProgram Unit := perform (.setEsp ref esp) result

def nextTaskID : TaskProgram Word := perform .nextTaskID result

def setNextTaskID (id : Word) : TaskProgram Unit := perform (.setNextTaskID id) result

def store (address value : Word) : TaskProgram Unit := perform (.store address value) result

/-- The loop over `tasks[1..15]` that stops at the first entry with a property. -/
def findSlot (test : TaskRef → TaskProgram Bool) : ℕ → ℕ → TaskProgram (Option (Fin 16))
  | _, 0 => return none
  | index, count + 1 => do
      if ← test (.slot (slotAt index)) then return some (slotAt index)
      else findSlot test (index + 1) count

/-- `*(--sp) = word` for each of the words. -/
def pushAll : List Word → Word → TaskProgram Word
  | [], sp => return sp
  | word :: rest, sp => do
      store (sp - 4) word
      pushAll rest (sp - 4)

def taskCreateContext (image : TaskImage) (stack entry : Word) : TaskProgram Word :=
  pushAll (contextWords image entry) (stack + 4096)

def isTerminated (ref : TaskRef) : TaskProgram Bool := do
  return (← state ref) = .terminated

def isBlockedWith (wanted : Word) (ref : TaskRef) : TaskProgram Bool := do
  if (← id ref) = wanted then return (← state ref) = .blocked
  else return false

/-- Only a brand new task gets a fresh id. -/
def assignID (ref : TaskRef) : TaskProgram Unit := do
  if (← id ref) = 0 then do
    let next ← nextTaskID
    setNextTaskID (next + 1)
    setId ref next

def startTask (image : TaskImage) (entry : Word) (ref : TaskRef) : TaskProgram Unit := do
  let number ← id ref
  let esp ← taskCreateContext image (taskStack image (number - 1)) entry
  setEsp ref esp
  setState ref .ready

def taskCreate (image : TaskImage) (entry : Word) : TaskProgram ℤ :=
  if entry = 0 then return -1
  else do
    let flags ← irqSave
    match ← findSlot isTerminated 1 15 with
    | none => do
        irqRestore flags
        return -1
    | some index => do
        assignID (.slot index)
        if maxUserTasks ≤ (← id (.slot index)) - 1 then do
          irqRestore flags
          return -1
        else do
          startTask image entry (.slot index)
          irqRestore flags
          -- The id is read again after the section.
          return (← id (.slot index)).toInt

def taskUnblock (wanted : Word) : TaskProgram ℤ := do
  let flags ← irqSave
  match ← findSlot (isBlockedWith wanted) 1 15 with
  | some index => do
      setState (.slot index) .ready
      irqRestore flags
      return 0
  | none => do
      irqRestore flags
      return -1

/-- `task_block` up to its `task_yield`, without a critical section. The yield is a step of its own: ticks are
possible in front of it, and others run in it. -/
def taskBlockUntilYield : TaskProgram Unit := do
  match ← curTask with
  | none => return ()
  | some ref => setState ref .blocked

end Critical

/-! ## The accesses of a critical section -/

def TaskOp.quiet : TaskOp → Bool
  | .irqRestore _ => false
  | _ => true

def Core.Enabled (core : Core) : Prop := core.interrupts = true

theorem handle_quiet (op : TaskOp) (core : Core) (reply : op.Answer × Core) (hop : op.quiet = true)
    (hdisabled : ¬ core.Enabled) (hreply : handle op core = some reply) : ¬ reply.2.Enabled := by
  cases op with
  | irqRestore flags => cases hop
  | irqSave =>
    obtain rfl := Option.some.inj hreply
    exact Bool.false_ne_true
  | _ =>
    obtain rfl := Option.some.inj hreply
    exact hdisabled

section Only

theorem only_findSlot {test : TaskRef → TaskProgram Bool}
    (htest : ∀ ref, (test ref).Only fun op ↦ op.quiet = true) (index count : ℕ) :
    (Critical.findSlot test index count).Only fun op ↦ op.quiet = true := by
  induction count generalizing index with
  | zero => exact only_pure _
  | succ count ih =>
    refine (htest _).bind fun holds ↦ ?_
    cases holds with
    | true => exact only_pure _
    | false => exact ih (index + 1)

theorem only_isTerminated (ref : TaskRef) : (Critical.isTerminated ref).Only fun op ↦ op.quiet = true :=
  ⟨rfl, fun _ ↦ trivial⟩

theorem only_isBlockedWith (wanted : Word) (ref : TaskRef) :
    (Critical.isBlockedWith wanted ref).Only fun op ↦ op.quiet = true := by
  refine ⟨rfl, fun (found : Word) ↦ ?_⟩
  change Only _ (if found = wanted then _ else _ : TaskProgram Bool)
  split_ifs
  · exact ⟨rfl, fun _ ↦ trivial⟩
  · exact only_pure _

theorem only_assignID (ref : TaskRef) : (Critical.assignID ref).Only fun op ↦ op.quiet = true := by
  refine ⟨rfl, fun (found : Word) ↦ ?_⟩
  change Only _ (if found = 0 then _ else _ : TaskProgram Unit)
  split_ifs
  · exact ⟨rfl, fun _ ↦ ⟨rfl, fun _ ↦ ⟨rfl, fun _ ↦ trivial⟩⟩⟩
  · exact only_pure _

theorem only_pushAll (words : List Word) (sp : Word) :
    (Critical.pushAll words sp).Only fun op ↦ op.quiet = true := by
  induction words generalizing sp with
  | nil => exact only_pure _
  | cons word rest ih => exact ⟨rfl, fun _ ↦ ih (sp - 4)⟩

theorem only_startTask (image : TaskImage) (entry : Word) (ref : TaskRef) :
    (Critical.startTask image entry ref).Only fun op ↦ op.quiet = true := by
  refine ⟨rfl, fun (number : Word) ↦ ?_⟩
  refine (only_pushAll _ _).bind fun esp ↦ ?_
  exact ⟨rfl, fun _ ↦ ⟨rfl, fun _ ↦ trivial⟩⟩

end Only

/-! ## What the parts compute alone -/

section Exec

variable {core : Core}

theorem exec_findSlot {test : TaskRef → TaskProgram Bool} {property : TaskRef → Bool}
    (htest : ∀ ref, exec handle (test ref) core = some (property ref, core)) (index count : ℕ) :
    exec handle (Critical.findSlot test index count) core =
      some (((List.range' index count).find? fun number ↦ property (.slot (slotAt number))).map
        slotAt, core) := by
  induction count generalizing index with
  | zero => rfl
  | succ count ih =>
    rw [Critical.findSlot, exec_bind, htest, Option.bind_some, List.range'_succ, List.find?_cons]
    cases property (.slot (slotAt index)) with
    | true => rfl
    | false => exact ih (index + 1)

theorem exec_findTerminated :
    exec handle (Critical.findSlot Critical.isTerminated 1 15) core =
      some (core.scheduler.terminatedSlot, core) := by
  let property (ref : TaskRef) : Bool := (core.scheduler.task ref).state = .terminated
  have htest (ref : TaskRef) :
      exec handle (Critical.isTerminated ref) core = some (property ref, core) := rfl
  exact exec_findSlot htest 1 15

/-- The first blocked entry of `tasks[1..15]` with an id. -/
def blockedSlot (wanted : Word) (scheduler : Scheduler) : Option (Fin 16) :=
  ((List.range' 1 15).find? fun index ↦
    (scheduler.tasks (slotAt index)).id = wanted ∧
      (scheduler.tasks (slotAt index)).state = .blocked).map slotAt

theorem taskUnblock_eq (wanted : Word) (scheduler : Scheduler) :
    taskUnblock wanted scheduler =
      match blockedSlot wanted scheduler with
      | none => (-1, scheduler)
      | some index => (0, scheduler.modify (.slot index) fun task ↦ { task with state := .ready }) := by
  have hslot : slotAt = Fin.ofNat 16 := rfl
  unfold taskUnblock blockedSlot
  rw [hslot]
  cases (List.range' 1 15).find? _ <;> rfl

theorem exec_findBlocked (wanted : Word) :
    exec handle (Critical.findSlot (Critical.isBlockedWith wanted) 1 15) core =
      some (blockedSlot wanted core.scheduler, core) := by
  let property (ref : TaskRef) : Bool :=
    (core.scheduler.task ref).id = wanted ∧ (core.scheduler.task ref).state = .blocked
  have htest (ref : TaskRef) :
      exec handle (Critical.isBlockedWith wanted ref) core = some (property ref, core) := by
    change exec handle (if (core.scheduler.task ref).id = wanted then _ else _ : TaskProgram Bool) core = _
    by_cases hid : (core.scheduler.task ref).id = wanted
    · rw [if_pos hid]
      simp only [property, hid, true_and]
      rfl
    · rw [if_neg hid]
      simp only [property, hid, false_and, decide_false]
      rfl
  exact exec_findSlot htest 1 15

/-- The variables after the assignment of an id. -/
def withID (scheduler : Scheduler) (index : Fin 16) : Scheduler :=
  if (scheduler.tasks index).id = 0 then
    { scheduler.modify (.slot index) fun task ↦ { task with id := scheduler.nextTaskID } with
      nextTaskID := scheduler.nextTaskID + 1 }
  else scheduler

theorem exec_assignID (index : Fin 16) :
    exec handle (Critical.assignID (.slot index)) core =
      some ((), core.setScheduler (withID core.scheduler index)) := by
  change exec handle (if (core.scheduler.tasks index).id = 0 then _ else _ : TaskProgram Unit) core = _
  unfold withID
  split_ifs
  · rfl
  · rfl

theorem exec_pushAll (words : List Word) (sp : Word) (core : Core) :
    exec handle (Critical.pushAll words sp) core =
      some ((Stack.pushAll words (sp, core.scheduler.memory)).1,
        core.setScheduler { core.scheduler with
          memory := (Stack.pushAll words (sp, core.scheduler.memory)).2 }) := by
  induction words generalizing sp core with
  | nil => rfl
  | cons word rest ih =>
    calc exec handle (Critical.pushAll (word :: rest) sp) core
        = exec handle (Critical.pushAll rest (sp - 4)) (core.setScheduler
            { core.scheduler with memory := core.scheduler.memory.store32 (sp - 4) word }) := rfl
      _ = _ := ih (sp - 4) _

/-- The variables after the frame is built and the task made ready. -/
def withTask (image : TaskImage) (entry : Word) (scheduler : Scheduler) (index : Fin 16) : Scheduler :=
  let context := taskCreateContext image (taskStack image ((scheduler.tasks index).id - 1)) entry
    scheduler.memory
  { scheduler.modify (.slot index) fun task ↦ { task with esp := context.1, state := .ready } with
    memory := context.2 }

theorem modify_esp_state (scheduler : Scheduler) (ref : TaskRef) (esp : Word) (memory : Memory) :
    ({ scheduler with memory := memory }.modify ref fun task ↦ { task with esp := esp }).modify ref
        (fun task ↦ { task with state := .ready }) =
      { scheduler.modify ref fun task ↦ { task with esp := esp, state := .ready } with memory := memory } := by
  rw [modify_modify]
  cases ref <;> rfl

theorem exec_startTask (image : TaskImage) (entry : Word) (index : Fin 16) :
    exec handle (Critical.startTask image entry (.slot index)) core =
      some ((), core.setScheduler (withTask image entry core.scheduler index)) := by
  have hid : exec handle (Critical.id (.slot index)) core = some ((core.scheduler.tasks index).id, core) := rfl
  let context := taskCreateContext image (taskStack image ((core.scheduler.tasks index).id - 1)) entry
    core.scheduler.memory
  rw [Critical.startTask, exec_bind, hid, Option.bind_some, exec_bind, Critical.taskCreateContext,
    exec_pushAll, Option.bind_some]
  exact congrArg (fun scheduler ↦ some ((), core.setScheduler scheduler))
    (modify_esp_state core.scheduler (.slot index) context.1 context.2)

theorem taskCreate_eq (image : TaskImage) (entry : Word) (scheduler : Scheduler) :
    taskCreate image entry scheduler =
      if entry = 0 then (-1, scheduler)
      else
        match scheduler.terminatedSlot with
        | none => (-1, scheduler)
        | some index =>
            let numbered := withID scheduler index
            if maxUserTasks ≤ (numbered.tasks index).id - 1 then (-1, numbered)
            else ((numbered.tasks index).id.toInt, withTask image entry numbered index) := rfl

end Exec

/-! ## Interference -/

/-- An interrupt came, other tasks made their steps, and the interrupted task goes on. -/
structure Resumed (image : TaskImage) (me : TaskRef) (before after : Core) : Prop where
  interrupts : after.interrupts = before.interrupts
  run : ∃ newer, Run (· = before.system) (Step image) newer after.system
  curTask : after.scheduler.curTask = some me
  blocking : after.system.blocking = true → before.system.blocking = true

/-- The steps of the others, as events of the scheduler. -/
structure Passes (image : TaskImage) (before after : Core) (newer : List Event) : Prop where
  interrupts : after.interrupts = before.interrupts
  run : Run (· = before.system) (Step image) newer after.system
  blocking : after.system.blocking = true → before.system.blocking = true
  quiet : before.interrupts = false → newer = []

variable {image : TaskImage} {me : TaskRef}

theorem exists_passes {before after : Core} (h : Disturbed Core.Enabled (Resumed image me) before after) :
    ∃ newer, Passes image before after newer := by
  induction h with
  | refl => exact ⟨[], rfl, .start rfl, fun hblocking ↦ hblocking, fun _ ↦ rfl⟩
  | tail _ hlast ih =>
    obtain ⟨older, hpasses⟩ := ih
    obtain ⟨newer, hrun⟩ := hlast.2.run
    refine ⟨newer ++ older, hlast.2.interrupts.trans hpasses.interrupts, hpasses.run.append hrun,
      fun hblocking ↦ hpasses.blocking (hlast.2.blocking hblocking), fun hoff ↦ ?_⟩
    have hon := hpasses.interrupts.symm.trans hlast.1
    exact absurd (hoff.symm.trans hon) Bool.false_ne_true

theorem Invariant.run {before after : System} {newer : List Event} (h : Invariant before)
    (hrun : Run (· = before) (Step image) newer after) : Invariant after := by
  apply hrun.invariant Invariant
  · intro system heq
    exact heq ▸ h
  · exact fun _ _ _ ↦ Invariant.step

theorem Outcome.id_kept {before after : System} {event : Event} {current : TaskRef} {index : Fin 16}
    (h : Outcome image before current event after) (hid : (before.scheduler.tasks index).id ≠ 0) :
    (after.scheduler.tasks index).id = (before.scheduler.tasks index).id := by
  have hmodify (ref : TaskRef) (state : TaskState) :
      ((before.scheduler.modify ref fun task ↦ { task with state := state }).task (.slot index)).id =
        (before.scheduler.task (.slot index)).id := by
    by_cases heq : TaskRef.slot index = ref
    · rw [heq, task_modify_same]
    · rw [task_modify_of_ne _ _ heq]
  cases h with
  | decision _ hdecision => exact hdecision.id_eq (.slot index)
  | quiet _ htask => exact congrArg Task.id (congrFun htask (.slot index))
  | @created _ created _ _ hcreated =>
    by_cases heq : index = created
    · subst heq
      exact (congrArg Task.id hcreated.task_slot).trans (if_neg hid)
    · exact congrArg Task.id (hcreated.task_other (.slot index) fun h ↦ heq (TaskRef.slot.inj h))
  | block _ => exact hmodify current .blocked
  | @unblock _ woken _ _ => exact hmodify (.slot woken) .ready

/-- An id that was assigned stays. -/
theorem id_kept_of_run {before after : System} {newer : List Event} {index : Fin 16} (h : Invariant before)
    (hid : (before.scheduler.tasks index).id ≠ 0) (hrun : Run (· = before) (Step image) newer after) :
    (after.scheduler.tasks index).id = (before.scheduler.tasks index).id := by
  induction hrun with
  | start heq => rw [heq]
  | step hrun hlast ih =>
    have hinvariant := h.run hrun
    obtain ⟨current, hrunning⟩ := hinvariant.running
    have houtcome := step_outcome hrunning hinvariant.numbered hlast
    exact (houtcome.id_kept (ih ▸ hid)).trans ih

/-! ## The calls take effect at one point -/

/-- The others make steps, the call has its whole effect at once, and the others make steps again. -/
def AtPoint {α : Type} (image : TaskImage) (me : TaskRef) (effect : System → α × System) (start : Core)
    (value : α) (after : Core) : Prop :=
  ∃ before : Core, Disturbed Core.Enabled (Resumed image me) start before ∧
    value = (effect before.system).1 ∧
    Disturbed Core.Enabled (Resumed image me) { before with system := (effect before.system).2 } after

section Point

variable {α β : Type} {start core after : Core} {value : β}

theorem interleaved_irqSave {next : Bool → TaskProgram β}
    (h : Interleaved handle Core.Enabled (Resumed image me) (Critical.irqSave >>= next) start value after) :
    ∃ core, Disturbed Core.Enabled (Resumed image me) start core ∧
      Interleaved handle Core.Enabled (Resumed image me) (next core.interrupts)
        { core with interrupts := false } value after := by
  obtain ⟨core, reply, hdisturbed, hreply, hrest⟩ := interleaved_perform h
  obtain rfl := Option.some.inj hreply
  exact ⟨core, hdisturbed, hrest⟩

theorem interleaved_irqRestore {flags : Bool} {next : Unit → TaskProgram β} (hoff : core.interrupts = false)
    (h : Interleaved handle Core.Enabled (Resumed image me) (Critical.irqRestore flags >>= next)
      core value after) :
    Interleaved handle Core.Enabled (Resumed image me) (next ())
      { core with interrupts := flags } value after := by
  obtain ⟨middle, reply, hdisturbed, hreply, hrest⟩ := interleaved_perform h
  obtain rfl := hdisturbed.eq_of_disabled fun hon ↦ Bool.false_ne_true (hoff.symm.trans hon)
  obtain rfl := Option.some.inj hreply
  exact hrest

/-- Inside a critical section a part of the program does what it does alone. -/
theorem interleaved_section {part : TaskProgram α} {next : α → TaskProgram β} {first : α} {last : Core}
    (hoff : core.interrupts = false) (honly : part.Only fun op ↦ op.quiet = true)
    (hexec : exec handle part core = some (first, last))
    (h : Interleaved handle Core.Enabled (Resumed image me) (part >>= next) core value after) :
    Interleaved handle Core.Enabled (Resumed image me) (next first) last value after := by
  have hdisabled : ¬ core.Enabled := fun hon ↦ Bool.false_ne_true (hoff.symm.trans hon)
  obtain ⟨reply, hreply, -, hrest⟩ := h.undisturbed handle_quiet honly hdisabled
  obtain rfl := Option.some.inj (hreply.symm.trans hexec)
  exact hrest

end Point

theorem taskUnblock_atPoint {wanted : Word} {start after : Core} {value : ℤ}
    (h : Interleaved handle Core.Enabled (Resumed image me) (Critical.taskUnblock wanted) start value after) :
    AtPoint image me (fun system ↦ ((taskUnblock wanted system.scheduler).1,
      ⟨(taskUnblock wanted system.scheduler).2, system.blocking⟩)) start value after := by
  obtain ⟨core, hbefore, h⟩ := interleaved_irqSave h
  have h := interleaved_section rfl (only_findSlot (only_isBlockedWith wanted) 1 15)
    (exec_findBlocked wanted) h
  refine ⟨core, hbefore, ?_⟩
  dsimp only
  rw [taskUnblock_eq]
  change Interleaved _ _ _ (match blockedSlot wanted core.system.scheduler with | some _ => _ | none => _) _ _ _ at h
  cases hslot : blockedSlot wanted core.system.scheduler with
  | none =>
    rw [hslot] at h
    exact interleaved_result (interleaved_irqRestore rfl h)
  | some index =>
    rw [hslot] at h
    have honly : (Critical.setState (.slot index) .ready).Only fun op ↦ op.quiet = true :=
      ⟨rfl, fun _ ↦ trivial⟩
    have h := interleaved_section rfl honly rfl h
    exact interleaved_result (interleaved_irqRestore rfl h)

theorem curTask_of_disturbed {before after : Core} (hme : before.scheduler.curTask = some me)
    (h : Disturbed Core.Enabled (Resumed image me) before after) : after.scheduler.curTask = some me := by
  induction h with
  | refl => exact hme
  | tail _ hlast _ => exact hlast.2.curTask

/-- `curTask` may change between its load and the store, but not as seen by the task itself. -/
theorem taskBlockUntilYield_atPoint {start after : Core} {value : Unit} (hme : start.scheduler.curTask = some me)
    (h : Interleaved handle Core.Enabled (Resumed image me) Critical.taskBlockUntilYield start value after) :
    AtPoint image me (fun system ↦ ((), ⟨taskBlock system.scheduler, true⟩)) start value after := by
  obtain ⟨core, reply, hload, hreply, h⟩ := interleaved_perform h
  obtain rfl := Option.some.inj hreply
  have hcore := curTask_of_disturbed hme hload
  change Interleaved _ _ _ (match core.scheduler.curTask with | none => _ | some _ => _) core _ _ at h
  rw [hcore] at h
  obtain ⟨before, reply, hstore, hreply, h⟩ := interleaved_perform h
  obtain rfl := Option.some.inj hreply
  have hblock : taskBlock before.scheduler =
      before.scheduler.modify me fun task ↦ { task with state := .blocked } := by
    rw [taskBlock, curTask_of_disturbed hcore hstore]
  refine ⟨before, hload.trans hstore, rfl, ?_⟩
  change Disturbed _ _ { before with system := ⟨taskBlock before.scheduler, true⟩ } after
  rw [hblock]
  exact (interleaved_result h).2

theorem Invariant.disturbed {before after : Core} (h : Invariant before.system)
    (hblocking : before.system.blocking = false)
    (hdisturbed : Disturbed Core.Enabled (Resumed image me) before after) :
    Invariant after.system ∧ after.system.blocking = false := by
  obtain ⟨newer, hpasses⟩ := exists_passes hdisturbed
  refine ⟨h.run hpasses.run, Bool.eq_false_of_not_eq_true fun hon ↦ ?_⟩
  exact Bool.false_ne_true (hblocking.symm.trans (hpasses.blocking hon))

/-- The id that `task_create` reads after its critical section is the one it assigned. -/
theorem id_read_later {entry : Word} {core middle : Core} {index : Fin 16} (h : Invariant core.system)
    (hblocking : core.system.blocking = false)
    (hid : ((taskCreate image entry core.system.scheduler).2.tasks index).id ≠ 0)
    (hdisturbed : Disturbed Core.Enabled (Resumed image me)
      { core with system := ⟨(taskCreate image entry core.system.scheduler).2, core.system.blocking⟩ } middle) :
    (middle.scheduler.tasks index).id = ((taskCreate image entry core.system.scheduler).2.tasks index).id := by
  obtain ⟨newer, hpasses⟩ := exists_passes hdisturbed
  have hstep : Step image ⟨core.system.scheduler, false⟩
      (.create entry (creation image entry core.system.scheduler))
      ⟨(taskCreate image entry core.system.scheduler).2, false⟩ := .create
  rw [← hblocking] at hstep
  exact id_kept_of_run (h.step hstep) hid hpasses.run

theorem taskCreate_atPoint {entry : Word} {start after : Core} {value : ℤ} (hinvariant : Invariant start.system)
    (hblocking : start.system.blocking = false)
    (h : Interleaved handle Core.Enabled (Resumed image me) (Critical.taskCreate image entry) start value after) :
    AtPoint image me (fun system ↦ ((taskCreate image entry system.scheduler).1,
      ⟨(taskCreate image entry system.scheduler).2, system.blocking⟩)) start value after := by
  by_cases hentry : entry = 0
  · rw [Critical.taskCreate, if_pos hentry] at h
    obtain ⟨hvalue, hdisturbed⟩ := interleaved_result h
    refine ⟨after, hdisturbed, ?_⟩
    dsimp only
    rw [taskCreate_eq, if_pos hentry]
    exact ⟨hvalue, .refl⟩
  rw [Critical.taskCreate, if_neg hentry] at h
  obtain ⟨core, hbefore, h⟩ := interleaved_irqSave h
  have h := interleaved_section rfl (only_findSlot only_isTerminated 1 15) exec_findTerminated h
  refine ⟨core, hbefore, ?_⟩
  have hcreate := taskCreate_eq image entry core.system.scheduler
  rw [if_neg hentry] at hcreate
  change Interleaved _ _ _ (match core.system.scheduler.terminatedSlot with | none => _ | some _ => _) _ _ _ at h
  cases hslot : core.system.scheduler.terminatedSlot with
  | none =>
    simp only [hslot] at h hcreate
    dsimp only
    rw [hcreate]
    exact interleaved_result (interleaved_irqRestore rfl h)
  | some index =>
    simp only [hslot] at h hcreate
    have h := interleaved_section rfl (only_assignID (.slot index)) (exec_assignID index) h
    have honly : (Critical.id (.slot index)).Only fun op ↦ op.quiet = true := ⟨rfl, fun _ ↦ trivial⟩
    have h := interleaved_section rfl honly rfl h
    let numbered := withID core.system.scheduler index
    change Interleaved _ _ _ (if maxUserTasks ≤ (numbered.tasks index).id - 1 then _ else _) _ _ _ at h
    change _ = if maxUserTasks ≤ (numbered.tasks index).id - 1 then _ else _ at hcreate
    by_cases hlimit : maxUserTasks ≤ (numbered.tasks index).id - 1
    · rw [if_pos hlimit] at h hcreate
      dsimp only
      rw [hcreate]
      exact interleaved_result (interleaved_irqRestore rfl h)
    · rw [if_neg hlimit] at h hcreate
      have h := interleaved_section rfl (only_startTask image entry (.slot index))
        (exec_startTask image entry index) h
      have h := interleaved_irqRestore rfl h
      dsimp only
      rw [hcreate]
      obtain ⟨middle, reply, hfirst, hreply, h⟩ := interleaved_perform h
      obtain rfl := Option.some.inj hreply
      obtain ⟨hvalue, hrest⟩ := interleaved_result h
      refine ⟨hvalue.trans (congrArg BitVec.toInt ?_), hfirst.trans hrest⟩
      have hid : ((withTask image entry numbered index).tasks index).id = (numbered.tasks index).id := by
        simp [withTask, modify]
      have hcore := hinvariant.disturbed hblocking hbefore
      have hlater := @id_read_later image me entry core middle index hcore.1 hcore.2
      rw [hcreate] at hlater
      refine (hlater (fun hzero ↦ hlimit ?_) hfirst).trans hid
      rw [← hid, hzero]
      decide

/-! ## The calls as programs -/

inductive Call where
  | create (entry : Word)
  | unblock (id : Word)
  | block

/-- The accesses of a call; `task_block` up to its `task_yield`, with nothing returned. -/
def Call.program (image : TaskImage) : Call → TaskProgram (Option ℤ)
  | .create entry => do return some (← Critical.taskCreate image entry)
  | .unblock id => do return some (← Critical.taskUnblock id)
  | .block => do
      Critical.taskBlockUntilYield
      return none

/-- The same calls as single steps. -/
def Call.effect (image : TaskImage) : Call → System → Option ℤ × System
  | .create entry, system =>
      (some (taskCreate image entry system.scheduler).1,
        ⟨(taskCreate image entry system.scheduler).2, system.blocking⟩)
  | .unblock id, system =>
      (some (taskUnblock id system.scheduler).1, ⟨(taskUnblock id system.scheduler).2, system.blocking⟩)
  | .block, system => (none, ⟨taskBlock system.scheduler, true⟩)

def Call.event (image : TaskImage) : Call → Scheduler → Event
  | .create entry, scheduler => .create entry (creation image entry scheduler)
  | .unblock id, _ => .unblock id
  | .block, _ => .block

theorem Call.step (call : Call) {system : System} (hblocking : system.blocking = false) :
    Step image system (call.event image system.scheduler) (call.effect image system).2 := by
  obtain ⟨scheduler, blocking⟩ := system
  obtain rfl : blocking = false := hblocking
  cases call with
  | create entry => exact .create
  | unblock id => exact .unblock
  | block => exact .block

theorem AtPoint.disturbed {α : Type} {effect : System → α × System} {start middle after : Core} {value : α}
    (h : AtPoint image me effect start value middle)
    (hrest : Disturbed Core.Enabled (Resumed image me) middle after) :
    AtPoint image me effect start value after := by
  obtain ⟨before, hbefore, hvalue, hafter⟩ := h
  exact ⟨before, hbefore, hvalue, hafter.trans hrest⟩

theorem Call.atPoint {call : Call} {start after : Core} {value : Option ℤ} (hinvariant : Invariant start.system)
    (hme : start.scheduler.curTask = some me) (hblocking : start.system.blocking = false)
    (h : Interleaved handle Core.Enabled (Resumed image me) (call.program image) start value after) :
    AtPoint image me (call.effect image) start value after := by
  cases call with
  | create entry =>
    obtain ⟨first, middle, hcall, hrest⟩ := interleaved_bind h
    obtain ⟨rfl, hlast⟩ := interleaved_result hrest
    obtain ⟨before, hbefore, rfl, hafter⟩ := (taskCreate_atPoint hinvariant hblocking hcall).disturbed hlast
    exact ⟨before, hbefore, rfl, hafter⟩
  | unblock id =>
    obtain ⟨first, middle, hcall, hrest⟩ := interleaved_bind h
    obtain ⟨rfl, hlast⟩ := interleaved_result hrest
    obtain ⟨before, hbefore, rfl, hafter⟩ := (taskUnblock_atPoint hcall).disturbed hlast
    exact ⟨before, hbefore, rfl, hafter⟩
  | block =>
    obtain ⟨first, middle, hcall, hrest⟩ := interleaved_bind h
    obtain ⟨rfl, hlast⟩ := interleaved_result hrest
    obtain ⟨before, hbefore, -, hafter⟩ := (taskBlockUntilYield_atPoint hme hcall).disturbed hlast
    exact ⟨before, hbefore, rfl, hafter⟩

/-- However a call of `task_create` or `task_unblock`, or of `task_block` up to its `task_yield`, is interrupted,
it is one step of a run of the scheduler: the others make steps, the call has its whole effect and determines
its result, and the others make steps again. If it starts with interrupts off, there are no others. The
interrupt flag is left as it was. -/
theorem calls_are_atomic {history : List Event} {call : Call} {start after : Core} {value : Option ℤ}
    (hrun : Run (Initial image) (Step image) history start.system)
    (hme : start.scheduler.curTask = some me) (hblocking : start.system.blocking = false)
    (h : Interleaved handle Core.Enabled (Resumed image me) (call.program image) start value after) :
    after.interrupts = start.interrupts ∧
      ∃ before older newer, Run (· = start.system) (Step image) older before ∧
        value = (call.effect image before).1 ∧
        Run (· = (call.effect image before).2) (Step image) newer after.system ∧
        Run (Initial image) (Step image)
          (newer ++ call.event image before.scheduler :: (older ++ history)) after.system ∧
        (start.interrupts = false → older = [] ∧ newer = []) := by
  have hinvariant := run_invariant hrun
  obtain ⟨before, hbefore, hvalue, hafter⟩ := Call.atPoint hinvariant hme hblocking h
  obtain ⟨older, holder⟩ := exists_passes hbefore
  obtain ⟨newer, hnewer⟩ := exists_passes hafter
  have hstep : Step image before.system _ _ := call.step (hinvariant.disturbed hblocking hbefore).2
  have hwhole := ((hrun.append holder.run).step hstep).append hnewer.run
  refine ⟨hnewer.interrupts.trans holder.interrupts, before.system, older, newer, holder.run, hvalue,
    hnewer.run, hwhole, fun hoff ↦ ⟨holder.quiet hoff, hnewer.quiet ?_⟩⟩
  exact holder.interrupts.trans hoff

/-- The kernel task, with one other task and at the end of its time slice. -/
def busyKernel : System :=
  let created := (taskCreate smallTaskImage 0xC000 (schedulerInit smallTaskImage emptyScheduler)).2
  ⟨{ created with schedulerTicks := 9 }, false⟩

theorem run_busyKernel : ∃ history, Run (Initial smallTaskImage) (Step smallTaskImage) history busyKernel := by
  have hinitial : Initial smallTaskImage ⟨schedulerInit smallTaskImage emptyScheduler, false⟩ := ⟨_, rfl⟩
  have hcreated := (Run.start hinitial).step (@Step.create smallTaskImage _ 0xC000)
  have htick {system : System} {history : List Event}
      (hrun : Run (Initial smallTaskImage) (Step smallTaskImage) history system)
      (hlate : system.scheduler.decides .tick 0x9D000 = false) :
      Run (Initial smallTaskImage) (Step smallTaskImage) (.pass .tick 0x9D000 :: history)
        ⟨(system.scheduler.interrupt .tick 0x9D000).2, system.blocking⟩ :=
    hrun.step (.pass (fun _ ↦ Interrupt.noConfusion) hlate)
  exact ⟨_, htick (htick (htick (htick (htick (htick (htick (htick (htick hcreated
    rfl) rfl) rfl) rfl) rfl) rfl) rfl) rfl) rfl⟩

/-- The time slice is over, the other task creates a third one, and both yield. -/
def resumedKernel : System :=
  let preempted := (busyKernel.scheduler.interrupt .tick 0x9D000).2
  let created := (taskCreate smallTaskImage 0xE000 preempted).2
  ⟨((created.interrupt .yield 0x20F00).2.interrupt .yield 0x21F00).2, false⟩

theorem resumed_busyKernel : Resumed smallTaskImage (.slot 0) ⟨busyKernel, true⟩ ⟨resumedKernel, true⟩ := by
  have hnever (system : System) (kind : Interrupt) (hkind : kind ≠ .exit) :
      system.blocking = true → kind ≠ .exit := fun _ ↦ hkind
  have hpreempted : Run (· = busyKernel) (Step smallTaskImage) _
      ⟨(busyKernel.scheduler.interrupt .tick 0x9D000).2, false⟩ :=
    .step (.start rfl) (.decision (hnever _ _ Interrupt.noConfusion) rfl rfl rfl)
  have hcreated := hpreempted.step (@Step.create smallTaskImage _ 0xE000)
  have hfirst := hcreated.step
    (@Step.decision _ _ .yield 0x20F00 _ _ (hnever _ _ Interrupt.noConfusion) rfl rfl rfl)
  have hsecond := hfirst.step
    (@Step.decision _ _ .yield 0x21F00 _ _ (hnever _ _ Interrupt.noConfusion) rfl rfl rfl)
  exact ⟨rfl, ⟨_, hsecond⟩, rfl, Bool.noConfusion⟩

/-- The kernel task is preempted in `task_create`, and the third slot is gone when it goes on. -/
theorem calls_are_atomic_preempted :
    ∃ after before older newer,
      Interleaved handle Core.Enabled (Resumed smallTaskImage (.slot 0))
        ((Call.create 0xD000).program smallTaskImage) ⟨busyKernel, true⟩ (some 3) after ∧
      Run (· = busyKernel) (Step smallTaskImage) older before ∧
      some 3 = ((Call.create 0xD000).effect smallTaskImage before).1 ∧
      Run (· = ((Call.create 0xD000).effect smallTaskImage before).2) (Step smallTaskImage) newer
        after.system := by
  obtain ⟨history, hrun⟩ := run_busyKernel
  obtain ⟨after, hexec⟩ : ∃ after, exec handle ((Call.create 0xD000).program smallTaskImage)
      ⟨resumedKernel, true⟩ = some (some 3, after) := ⟨_, rfl⟩
  have hinterleaved : Interleaved handle Core.Enabled (Resumed smallTaskImage (.slot 0))
      ((Call.create 0xD000).program smallTaskImage) ⟨busyKernel, true⟩ (some 3) after :=
    .disturb rfl resumed_busyKernel (.of_exec hexec)
  obtain ⟨-, before, older, newer, hbefore, hvalue, hafter, -⟩ :=
    calls_are_atomic hrun rfl rfl hinterleaved
  exact ⟨after, before, older, newer, hinterleaved, hbefore, hvalue, hafter⟩

end NeilOS.Scheduler
