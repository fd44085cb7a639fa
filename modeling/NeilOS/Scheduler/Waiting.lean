import NeilOS.Scheduler.Runs

/-!
# How long a ready task waits

The round-robin search starts behind the current slot, so a decision that does not select a ready
task brings the current slot closer to it: the cyclic distance is a rank that every such decision
lowers and nothing raises. Ticks are turned into decisions by the time slice. The last section is
about tasks that block: a task that was woken stays awake until it blocks or exits itself.
-/

namespace NeilOS.Scheduler

open Foundation

/-! ## The distance to a slot -/

/-- The distance, counted in `1 .. 16`, from the current slot to `index`. -/
def distance (current : TaskRef) (index : Fin 16) : ℕ :=
  (index.val + 15 - currentIndex current) % 16 + 1

theorem currentIndex_lt (current : TaskRef) : currentIndex current < 16 := by
  cases current with
  | slot index => exact index.isLt
  | idle => decide

theorem distance_pos (current : TaskRef) (index : Fin 16) : 1 ≤ distance current index :=
  Nat.le_add_left _ _

theorem distance_le (current : TaskRef) (index : Fin 16) : distance current index ≤ 16 := by
  unfold distance
  omega

/-- The search reaches `index` after `distance` steps. -/
theorem slot_of_distance (current : TaskRef) (index : Fin 16) :
    Fin.ofNat 16 (currentIndex current + distance current index) = index := by
  apply Fin.ext
  have hlt := index.isLt
  have hcurrent := currentIndex_lt current
  change (currentIndex current + ((index.val + 15 - currentIndex current) % 16 + 1)) % 16 = index.val
  omega

/-- A slot before `index` in the search order is closer to it. -/
theorem distance_of_offset {current : TaskRef} {index : Fin 16} {offset : ℕ} (hpos : 1 ≤ offset)
    (hlt : offset < distance current index) :
    distance (.slot (Fin.ofNat 16 (currentIndex current + offset))) index <
      distance current index := by
  have hindex := index.isLt
  have hcurrent := currentIndex_lt current
  have hslot : currentIndex (.slot (Fin.ofNat 16 (currentIndex current + offset))) =
      (currentIndex current + offset) % 16 := rfl
  unfold distance at *
  rw [hslot]
  omega

/-- The search selects a ready slot or one that is closer to it. -/
theorem pick_closer (current : TaskRef) {scheduler : Scheduler} {index : Fin 16}
    (h : (scheduler.tasks index).state = .ready) :
    scheduler.pick current = .slot index ∨
      distance (scheduler.pick current) index < distance current index := by
  have hpos := distance_pos current index
  have hle := distance_le current index
  unfold pick
  cases hfind : (List.range' 1 16).find? fun offset ↦
    (scheduler.tasks (Fin.ofNat 16 (currentIndex current + offset))).state = .ready with
  | none =>
    rw [List.find?_range'_eq_none] at hfind
    have hready := hfind (distance current index) hpos (by omega)
    rw [slot_of_distance] at hready
    simp [h] at hready
  | some offset =>
    rw [List.find?_range'_eq_some, List.mem_range'_1] at hfind
    obtain ⟨-, hrange, hfirst⟩ := hfind
    rcases Nat.lt_trichotomy offset (distance current index) with hlt | rfl | hgt
    · exact .inr (distance_of_offset hrange.1 hlt)
    · exact .inl (congrArg TaskRef.slot (slot_of_distance current index))
    · have hready := hfirst (distance current index) hpos hgt
      rw [slot_of_distance] at hready
      simp [h] at hready

/-! ## Waiting for a decision -/

def Event.isDecision : Event → Bool
  | .decision .. => true
  | _ => false

/-- The event is the selection of a slot. -/
def Event.selects (index : Fin 16) : Event → Bool
  | .decision _ _ _ selected _ => selected = .slot index
  | _ => false

/-- A slot is ready and another task is current. -/
structure Waiting (index : Fin 16) (system : System) (current : TaskRef) : Prop where
  running : Running system current
  numbered : Numbered system.scheduler
  ready : (system.scheduler.tasks index).state = .ready
  not_current : current ≠ .slot index

variable {image : TaskImage} {before after : System} {event : Event} {current : TaskRef}
  {index : Fin 16}

/-- Between decisions the state of a ready or running task changes only by its own blocking. -/
theorem Outcome.state_eq (h : Outcome image before current event after)
    (hdecision : event.isDecision = false)
    (hlive : (before.scheduler.tasks index).state ≠ .terminated)
    (hawake : (before.scheduler.tasks index).state ≠ .blocked)
    (hblock : event = .block → current ≠ .slot index) :
    (after.scheduler.tasks index).state = (before.scheduler.tasks index).state := by
  cases h with
  | decision => cases hdecision
  | quiet _ htask _ _ _ => exact congrArg Task.state (congrFun htask (.slot index))
  | @created _ slot _ _ hcreated =>
    have hne : TaskRef.slot index ≠ .slot slot := by
      intro heq
      rw [TaskRef.slot.inj heq] at hlive
      exact hlive (terminatedSlot_eq_some hcreated.slot).2.1
    exact congrArg Task.state (hcreated.task_other _ hne)
  | block _ => exact congrArg Task.state (task_modify_of_ne _ _ (hblock rfl).symm)
  | @unblock _ slot _ hblocked =>
    have hne : TaskRef.slot index ≠ .slot slot := by
      intro heq
      rw [TaskRef.slot.inj heq] at hawake
      exact hawake hblocked
    exact congrArg Task.state
      (task_modify_of_ne before.scheduler (fun task ↦ { task with state := .ready }) hne)

/-- A decision demotes the outgoing task, makes the selected one run and leaves the others alone. -/
theorem Decision.state_cases {kind : Interrupt} {selected : TaskRef} {regs returned : Word}
    {scheduler decided : Scheduler}
    (h : Decision kind current regs scheduler selected returned decided) (index : Fin 16) :
    (selected = .slot index ∧ (decided.tasks index).state = .running) ∨
      (current = .slot index ∧
        (decided.tasks index).state = outgoingState kind (scheduler.tasks index).state) ∨
      (current ≠ .slot index ∧ (decided.tasks index).state = (scheduler.tasks index).state) := by
  by_cases hselected : selected = .slot index
  · have htask := h.task_selected
    rw [hselected] at htask
    exact .inl ⟨hselected, congrArg Task.state htask⟩
  have htask := h.task_other (.slot index) fun heq ↦ hselected heq.symm
  by_cases hcurrent : current = .slot index
  · rw [hcurrent, Decision.demoted_current] at htask
    exact .inr (.inl ⟨hcurrent, congrArg Task.state htask⟩)
  · rw [Decision.demoted_other fun heq ↦ hcurrent heq.symm] at htask
    exact .inr (.inr ⟨hcurrent, congrArg Task.state htask⟩)

theorem Outcome.of_isDecision (h : Outcome image before current event after)
    (hevent : event.isDecision = true) :
    ∃ kind regs selected returned, event = .decision kind current regs selected returned ∧
      Decision kind current regs before.scheduler selected returned after.scheduler := by
  cases h with
  | decision _ hdecision => exact ⟨_, _, _, _, rfl, hdecision⟩
  | quiet hquiet =>
    cases event with
    | decision => cases hquiet
    | _ => cases hevent
  | _ => cases hevent

/-- The state of a ready task that is not current changes only by its selection. -/
theorem Outcome.ready_other (h : Outcome image before current event after)
    (hready : (before.scheduler.tasks index).state = .ready) (hother : current ≠ .slot index)
    (hselects : event.selects index = false) : (after.scheduler.tasks index).state = .ready := by
  cases hdecision : event.isDecision with
  | false =>
    rw [h.state_eq hdecision (by rw [hready]; decide) (by rw [hready]; decide) fun _ ↦ hother, hready]
  | true =>
    obtain ⟨kind, regs, selected, returned, rfl, hdecides⟩ := h.of_isDecision hdecision
    rcases hdecides.state_cases index with ⟨hselected, -⟩ | ⟨hcurrent, -⟩ | ⟨-, hstate⟩
    · exact absurd hselected (of_decide_eq_false hselects)
    · exact absurd hcurrent hother
    · exact hstate.trans hready

/-- Only a decision changes the current task. -/
theorem Outcome.curTask_eq (h : Outcome image before current event after)
    (hrunning : Running before current) (hevent : event.isDecision = false) :
    after.scheduler.curTask = some current := by
  cases h with
  | decision => cases hevent
  | quiet _ _ hcurrent _ _ => exact hcurrent.trans hrunning.curTask
  | created _ hcreated => exact hcreated.curTask.trans hrunning.curTask
  | block _ => exact (curTask_modify ..).trans hrunning.curTask
  | unblock _ _ => exact (curTask_modify ..).trans hrunning.curTask

/-- A step that does not select a waiting task leaves it waiting, and a decision brings the current
slot closer to it. -/
theorem Waiting.step (h : Waiting index before current) (hstep : Step image before event after)
    (hselects : event.selects index = false) :
    ∃ next, Waiting index after next ∧
      distance next index + (if event.isDecision then 1 else 0) ≤ distance current index := by
  have houtcome := step_outcome h.running h.numbered hstep
  have hnumbered := houtcome.numbered h.running h.numbered
  have hready := houtcome.ready_other h.ready h.not_current hselects
  obtain ⟨next, hrunning⟩ := houtcome.running h.running
  by_cases hdecision : event.isDecision = true
  · obtain ⟨kind, regs, selected, returned, rfl, hdecides⟩ := houtcome.of_isDecision hdecision
    obtain rfl := Option.some.inj (hdecides.curTask.symm.trans hrunning.curTask)
    have hne : selected ≠ .slot index := of_decide_eq_false hselects
    have hstate : ((before.scheduler.demoted kind current regs).tasks index).state = .ready :=
      (congrArg Task.state (Decision.demoted_other h.not_current.symm)).trans h.ready
    have hcloser := pick_closer current hstate
    rw [← hdecides.selected_eq] at hcloser
    refine ⟨selected, ⟨hrunning, hnumbered, hready, hne⟩, ?_⟩
    exact hcloser.resolve_left hne
  · rw [Bool.not_eq_true] at hdecision
    obtain rfl := Option.some.inj
      ((houtcome.curTask_eq h.running hdecision).symm.trans hrunning.curTask)
    exact ⟨current, ⟨hrunning, hnumbered, hready, h.not_current⟩, by rw [hdecision]; exact le_refl _⟩

/-- While a waiting task is not selected, every decision lowers its distance. -/
theorem Waiting.run {start : System} {newer : List Event} {later : System}
    (h : Waiting index start current) (hrun : Run (· = start) (Step image) newer later)
    (hselects : ∀ event ∈ newer, event.selects index = false) :
    ∃ next, Waiting index later next ∧
      distance next index + newer.countP Event.isDecision ≤ distance current index := by
  induction hrun with
  | start heq =>
    subst heq
    exact ⟨current, h, le_refl _⟩
  | @step older middle last label _ hlast ih =>
    obtain ⟨between, hbetween, hsum⟩ := ih fun event hevent ↦
      hselects event (List.mem_cons_of_mem _ hevent)
    obtain ⟨next, hnext, hdrop⟩ := hbetween.step hlast (hselects label List.mem_cons_self)
    refine ⟨next, hnext, ?_⟩
    rw [List.countP_cons]
    omega

/-- Without its selection a waiting task sees at most fifteen decisions. -/
theorem Waiting.decisions_le {start later : System} {newer : List Event}
    (h : Waiting index start current) (hrun : Run (· = start) (Step image) newer later)
    (hselects : ∀ event ∈ newer, event.selects index = false) :
    newer.countP Event.isDecision ≤ 15 := by
  obtain ⟨next, -, hsum⟩ := h.run hrun hselects
  have hpos := distance_pos next index
  have hle := distance_le current index
  omega

/-! ## Ticks and decisions -/

/-- The event is a timer interrupt. -/
def Event.isTick : Event → Bool
  | .decision .tick .. => true
  | .pass .tick _ => true
  | _ => false

/-- An interrupt passes the address of the frame on the stack, as the stubs do. -/
def Event.hasFrame : Event → Bool
  | .decision _ _ regs _ _ => regs ≠ 0
  | .pass _ regs => regs ≠ 0
  | _ => true

/-- A decision starts the count of ticks anew. -/
def countTick : Event → ℕ → ℕ
  | .decision .., _ => 0
  | .pass .tick _, count => count + 1
  | _, count => count

/-- The timer interrupts since the last decision. -/
def ticksSinceDecision (history : List Event) : ℕ := history.foldr countTick 0

/-- What an event does to `schedulerTicks`. -/
def ticksAfter (ticks : Word) : Event → Word
  | .decision .. => 0
  | .pass .tick _ => if ticks + 1 < timeSliceMs then ticks + 1 else 0
  | _ => ticks

theorem interrupt_ticks_of_decides {kind : Interrupt} {regs : Word} {scheduler : Scheduler}
    (hcurrent : scheduler.curTask = some current) (hdecides : scheduler.decides kind regs = true) :
    (scheduler.interrupt kind regs).2.schedulerTicks = 0 := by
  obtain ⟨hregs, hslice⟩ := of_decide_eq_true hdecides
  cases kind with
  | yield =>
    simp only [interrupt, schedulerSchedule, hcurrent, if_neg hregs]
    rfl
  | tick =>
    have hexpired : ¬ scheduler.schedulerTicks + 1 < timeSliceMs := BitVec.not_lt.mpr (hslice rfl)
    simp only [interrupt, schedulerTick, if_neg hexpired, schedulerSchedule, hcurrent, if_neg hregs]
    rfl
  | exit =>
    simp only [interrupt, schedulerExit, schedulerSchedule, curTask_modify, hcurrent, if_neg hregs]
    rfl

theorem interrupt_ticks_of_pass {kind : Interrupt} {regs : Word} {scheduler : Scheduler}
    (hpass : scheduler.decides kind regs = false) :
    (scheduler.interrupt kind regs).2.schedulerTicks =
        ticksAfter scheduler.schedulerTicks (.pass kind regs) ∧
      (kind = .tick → regs ≠ 0 → scheduler.schedulerTicks + 1 < timeSliceMs) := by
  have hcases := of_decide_eq_false hpass
  cases kind with
  | yield =>
    obtain rfl : regs = 0 := by_contra fun hregs ↦ hcases ⟨hregs, Interrupt.noConfusion⟩
    exact ⟨congrArg (fun pair ↦ pair.2.schedulerTicks) (schedulerSchedule_null scheduler),
      Interrupt.noConfusion⟩
  | exit =>
    obtain rfl : regs = 0 := by_contra fun hregs ↦ hcases ⟨hregs, Interrupt.noConfusion⟩
    exact ⟨congrArg (fun pair ↦ pair.2.schedulerTicks) (schedulerExit_null scheduler),
      Interrupt.noConfusion⟩
  | tick =>
    have hslice (hregs : regs ≠ 0) : scheduler.schedulerTicks + 1 < timeSliceMs :=
      BitVec.not_le.mp fun hexpired ↦ hcases ⟨hregs, fun _ ↦ hexpired⟩
    refine ⟨?_, fun _ hregs ↦ hslice hregs⟩
    by_cases hexpired : scheduler.schedulerTicks + 1 < timeSliceMs
    · simp only [interrupt, schedulerTick, ticksAfter, if_pos hexpired]
    · obtain rfl : regs = 0 := by_contra fun hregs ↦ hexpired (hslice hregs)
      simp only [interrupt, schedulerTick, ticksAfter, if_neg hexpired, schedulerSchedule_null]

theorem taskCreate_ticks (image : TaskImage) (entry : Word) (scheduler : Scheduler) :
    (taskCreate image entry scheduler).2.schedulerTicks = scheduler.schedulerTicks := by
  unfold taskCreate
  by_cases hentry : entry = 0
  · rw [if_pos hentry]
  rw [if_neg hentry]
  cases scheduler.terminatedSlot with
  | none => rfl
  | some index =>
    by_cases hid : (scheduler.tasks index).id = 0
    · simp only [if_pos hid]
      split <;> rfl
    · simp only [if_neg hid]
      split <;> rfl

/-- Every step moves the tick counter as its event says. -/
theorem step_ticks (hrunning : Running before current) (hstep : Step image before event after) :
    after.scheduler.schedulerTicks = ticksAfter before.scheduler.schedulerTicks event := by
  cases hstep with
  | decision _ hdecides hcurrent _ => exact interrupt_ticks_of_decides hcurrent hdecides
  | pass _ hpass => exact (interrupt_ticks_of_pass hpass).1
  | create => exact taskCreate_ticks ..
  | @block scheduler =>
    change (taskBlock scheduler).schedulerTicks = scheduler.schedulerTicks
    unfold taskBlock
    cases scheduler.curTask with
    | none => rfl
    | some ref => exact schedulerTicks_modify ..
  | @unblock scheduler id =>
    change (taskUnblock id scheduler).2.schedulerTicks = scheduler.schedulerTicks
    rcases taskUnblock_spec id scheduler with hsame | ⟨index, -, hwoken⟩
    · rw [hsame]
    · rw [hwoken, schedulerTicks_modify]
  | execute => rfl

/-- A tick with a frame that leads to no decision is counted. -/
theorem step_tick_pass {regs : Word} (hstep : Step image before (.pass .tick regs) after)
    (hregs : regs ≠ 0) : before.scheduler.schedulerTicks + 1 < timeSliceMs := by
  cases hstep with
  | pass _ hpass => exact (interrupt_ticks_of_pass hpass).2 rfl hregs

theorem ticksAfter_lt {ticks : Word} (h : ticks < timeSliceMs) (event : Event) :
    ticksAfter ticks event < timeSliceMs := by
  cases event with
  | decision => exact (by decide : (0 : Word) < timeSliceMs)
  | pass kind regs =>
    cases kind with
    | tick =>
      change (if ticks + 1 < timeSliceMs then ticks + 1 else 0) < timeSliceMs
      split
      · assumption
      · decide
    | yield => exact h
    | exit => exact h
  | create => exact h
  | block => exact h
  | unblock => exact h
  | execute => exact h

/-- Counted in natural numbers, since the counter stays below the time slice. -/
theorem step_countTick (hrunning : Running before current) (hstep : Step image before event after)
    (hbefore : before.scheduler.schedulerTicks < timeSliceMs) (hframe : event.hasFrame = true) :
    after.scheduler.schedulerTicks.toNat = countTick event before.scheduler.schedulerTicks.toNat := by
  have hticks := step_ticks hrunning hstep
  cases event with
  | pass kind regs =>
    cases kind with
    | tick =>
      have hslice := step_tick_pass hstep (of_decide_eq_true hframe)
      change _ = if _ then _ else _ at hticks
      rw [if_pos hslice] at hticks
      have hbound : before.scheduler.schedulerTicks < 10#32 := hbefore
      rw [hticks]
      change _ = before.scheduler.schedulerTicks.toNat + 1
      bv_omega
    | yield => exact congrArg BitVec.toNat hticks
    | exit => exact congrArg BitVec.toNat hticks
  | decision => exact congrArg BitVec.toNat hticks
  | create => exact congrArg BitVec.toNat hticks
  | block => exact congrArg BitVec.toNat hticks
  | unblock => exact congrArg BitVec.toNat hticks
  | execute => exact congrArg BitVec.toNat hticks

/-- A decision pays for at most ten ticks. -/
theorem isTick_add_le (event : Event) {count : ℕ} (h : count < 10) :
    (if event.isTick then 1 else 0) + count ≤
      10 * (if event.isDecision then 1 else 0) + countTick event count := by
  cases event with
  | decision kind outgoing regs selected returned =>
    have htick : (if (Event.decision kind outgoing regs selected returned).isTick then 1 else 0) ≤ 1 := by
      split <;> omega
    change _ ≤ 10 * 1 + 0
    omega
  | pass kind regs =>
    cases kind with
    | tick =>
      change 1 + count ≤ 10 * 0 + (count + 1)
      omega
    | yield => exact le_refl _
    | exit => exact le_refl _
  | create => exact le_refl _
  | block => exact le_refl _
  | unblock => exact le_refl _
  | execute => exact le_refl _

theorem Initial.ticking {system : System} (h : Initial image system) :
    Invariant system ∧ system.scheduler.schedulerTicks < timeSliceMs := by
  refine ⟨h.invariant, ?_⟩
  obtain ⟨_, rfl⟩ := h
  exact (by decide : (0 : Word) < timeSliceMs)

theorem ticks_lt_of_run {Start : System → Prop} {history : List Event} {system : System}
    (hrun : Run Start (Step image) history system)
    (hstart : ∀ {start}, Start start → Invariant start ∧ start.scheduler.schedulerTicks < timeSliceMs) :
    Invariant system ∧ system.scheduler.schedulerTicks < timeSliceMs := by
  refine hrun.invariant (fun system ↦ Invariant system ∧ system.scheduler.schedulerTicks < timeSliceMs)
    (fun _ ↦ hstart) ?_
  rintro before event after ⟨hbefore, hticks⟩ hstep
  obtain ⟨current, hrunning⟩ := hbefore.running
  refine ⟨hbefore.step hstep, ?_⟩
  rw [step_ticks hrunning hstep]
  exact ticksAfter_lt hticks event

/-- Ten ticks make a decision, whatever else happens. -/
theorem run_ticks_le {start later : System} {newer : List Event} (hinvariant : Invariant start)
    (hstart : start.scheduler.schedulerTicks < timeSliceMs)
    (hrun : Run (· = start) (Step image) newer later)
    (hframes : ∀ event ∈ newer, event.hasFrame = true) :
    newer.countP Event.isTick + start.scheduler.schedulerTicks.toNat ≤
      10 * newer.countP Event.isDecision + later.scheduler.schedulerTicks.toNat := by
  induction hrun with
  | start heq =>
    subst heq
    simp
  | @step older middle last label hprefix hlast ih =>
    have hsum := ih fun event hevent ↦ hframes event (List.mem_cons_of_mem _ hevent)
    obtain ⟨hmiddle, hbound⟩ := ticks_lt_of_run hprefix (by rintro _ rfl; exact ⟨hinvariant, hstart⟩)
    obtain ⟨current, hrunning⟩ := hmiddle.running
    have hcount := step_countTick hrunning hlast hbound (hframes label List.mem_cons_self)
    have hpaid := isTick_add_le label (show middle.scheduler.schedulerTicks.toNat < 10 from hbound)
    rw [List.countP_cons, List.countP_cons, hcount]
    omega

theorem ticks_eq_of_run {history : List Event} {system : System}
    (hrun : Run (Initial image) (Step image) history system)
    (hframes : ∀ event ∈ history, event.hasFrame = true) :
    system.scheduler.schedulerTicks.toNat = ticksSinceDecision history := by
  induction hrun with
  | start hinitial =>
    obtain ⟨_, rfl⟩ := hinitial
    rfl
  | @step older middle last label hprefix hlast ih =>
    obtain ⟨hmiddle, hbound⟩ := ticks_lt_of_run hprefix Initial.ticking
    obtain ⟨current, hrunning⟩ := hmiddle.running
    rw [step_countTick hrunning hlast hbound (hframes label List.mem_cons_self),
      ih fun event hevent ↦ hframes event (List.mem_cons_of_mem _ hevent)]
    rfl

/-- A ready task is selected by the sixteenth decision at the latest, and so within 160 ticks. -/
theorem ready_task_selected {history : List Event} {system : System}
    (hrun : Run (Initial image) (Step image) history system) :
    system.scheduler.schedulerTicks < timeSliceMs ∧
    ((∀ event ∈ history, event.hasFrame = true) →
      system.scheduler.schedulerTicks.toNat = ticksSinceDecision history) ∧
    ∀ index current, (system.scheduler.tasks index).state = .ready →
      system.scheduler.curTask = some current → current ≠ .slot index →
      ∀ newer later, Run (· = system) (Step image) newer later →
        ((∀ event ∈ newer, event.selects index = false) →
          (later.scheduler.tasks index).state = .ready ∧
          ∃ next, later.scheduler.curTask = some next ∧ next ≠ .slot index ∧
            distance next index + newer.countP Event.isDecision ≤ distance current index) ∧
        (16 ≤ newer.countP Event.isDecision → ∃ after selection before,
          newer = after ++ selection :: before ∧ selection.selects index = true ∧
            before.countP Event.isDecision ≤ 15) ∧
        ((∀ event ∈ newer, event.hasFrame = true) → 160 ≤ newer.countP Event.isTick →
          ∃ selection ∈ newer, selection.selects index = true) := by
  obtain ⟨hinvariant, hbound⟩ := ticks_lt_of_run hrun Initial.ticking
  refine ⟨hbound, ticks_eq_of_run hrun, ?_⟩
  intro index current hready hcurrent hother newer later hnewer
  obtain ⟨running, hrunning⟩ := hinvariant.running
  obtain rfl := Option.some.inj (hcurrent.symm.trans hrunning.curTask)
  have hwaiting : Waiting index system current := ⟨hrunning, hinvariant.numbered, hready, hother⟩
  have hselected (hmany : 16 ≤ newer.countP Event.isDecision) :
      ∃ selection ∈ newer, selection.selects index = true := by
    by_contra hnone
    push Not at hnone
    have hle := hwaiting.decisions_le hnewer fun event hevent ↦ by simpa using hnone event hevent
    omega
  refine ⟨fun hselects ↦ ?_, fun hmany ↦ ?_, fun hframes hmany ↦ ?_⟩
  · obtain ⟨next, hnext, hsum⟩ := hwaiting.run hnewer hselects
    exact ⟨hnext.ready, next, hnext.running.curTask, hnext.not_current, hsum⟩
  · obtain ⟨after, selection, before, rfl, hselects, hfirst⟩ := exists_oldest (hselected hmany)
    have hsplit : after ++ selection :: before = (after ++ [selection]) ++ before := by simp
    rw [hsplit] at hnewer
    obtain ⟨middle, hmiddle⟩ := hnewer.suffix
    exact ⟨after, selection, before, rfl, hselects,
      hwaiting.decisions_le hmiddle fun event hevent ↦ by simpa using hfirst event hevent⟩
  · apply hselected
    have hsum := run_ticks_le hinvariant hbound hnewer hframes
    have hlast : later.scheduler.schedulerTicks.toNat < 10 :=
      (ticks_lt_of_run hnewer (by rintro _ rfl; exact ⟨hinvariant, hbound⟩)).2
    omega

/-- The kernel task waits while the first task it created runs. -/
theorem ready_task_selected_kernel_task : firstSwitch.scheduler.curTask = some (.slot 1) ∧
    ∀ newer later, Run (· = firstSwitch) (Step smallTaskImage) newer later →
      (∀ event ∈ newer, event.hasFrame = true) → 160 ≤ newer.countP Event.isTick →
        ∃ selection ∈ newer, selection.selects 0 = true :=
  ⟨rfl, fun newer later hnewer ↦
    ((ready_task_selected run_firstSwitch).2.2 0 (.slot 1) rfl rfl (by decide) newer later hnewer).2.2⟩

/-! ## Waking up -/

/-- The task in a slot begins to block, or exits. -/
def Retires (index : Fin 16) (system : System) (event : Event) : Prop :=
  system.scheduler.curTask = some (.slot index) ∧ (event = .block ∨
    ∃ regs selected returned, event = .decision .exit (.slot index) regs selected returned)

def Awake (index : Fin 16) (system : System) : Prop :=
  (system.scheduler.tasks index).state = .ready ∨ (system.scheduler.tasks index).state = .running

theorem Awake.step (h : Awake index before) (hinvariant : Invariant before)
    (hstep : Step image before event after) (hstays : ¬ Retires index before event) :
    Awake index after := by
  obtain ⟨current, hrunning⟩ := hinvariant.running
  have houtcome := step_outcome hrunning hinvariant.numbered hstep
  have hlive : (before.scheduler.tasks index).state ≠ .terminated := by
    rcases h with h | h <;> rw [h] <;> decide
  have hawake : (before.scheduler.tasks index).state ≠ .blocked := by
    rcases h with h | h <;> rw [h] <;> decide
  cases hdecision : event.isDecision with
  | false =>
    have hblock : event = .block → current ≠ .slot index := by
      rintro rfl rfl
      exact hstays ⟨hrunning.curTask, .inl rfl⟩
    unfold Awake
    rw [houtcome.state_eq hdecision hlive hawake hblock]
    exact h
  | true =>
    obtain ⟨kind, regs, selected, returned, rfl, hdecides⟩ := houtcome.of_isDecision hdecision
    rcases hdecides.state_cases index with ⟨-, hstate⟩ | ⟨rfl, hstate⟩ | ⟨-, hstate⟩
    · exact .inr hstate
    · have hkind : kind ≠ .exit := by
        rintro rfl
        exact hstays ⟨hrunning.curTask, .inr ⟨_, _, _, rfl⟩⟩
      refine .inl (hstate.trans ?_)
      rw [outgoingState, if_neg hkind]
      rcases h with h | h <;> rw [h] <;> rfl
    · unfold Awake
      rw [hstate]
      exact h

/-- A blocked task is not selected. -/
theorem Invariant.blocked_not_selected (h : Invariant before)
    (hblocked : (before.scheduler.tasks index).state = .blocked)
    (hstep : Step image before event after) : event.selects index = false := by
  obtain ⟨current, hrunning⟩ := h.running
  have houtcome := step_outcome hrunning h.numbered hstep
  cases hdecision : event.isDecision with
  | false =>
    cases event with
    | decision => cases hdecision
    | _ => rfl
  | true =>
    obtain ⟨kind, regs, selected, returned, rfl, hdecides⟩ := houtcome.of_isDecision hdecision
    refine decide_eq_false fun hselected ↦ ?_
    rcases hdecides.selected_cases with ⟨slot, -, hready⟩ | ⟨hidle, -⟩
    · rw [hselected] at hready
      by_cases hcurrent : TaskRef.slot index = current
      · rw [hcurrent, Decision.demoted_current, ← hcurrent] at hready
        have hstate : outgoingState kind .blocked = .ready := hblocked ▸ hready
        cases kind <;> exact absurd hstate (by decide)
      · rw [Decision.demoted_other hcurrent] at hready
        exact TaskState.noConfusion (hblocked.symm.trans hready)
    · rw [hidle] at hselected
      cases hselected

/-- No wakeup is lost: a task that `task_unblock` woke stays ready or running until it blocks or
exits itself, whatever was interrupted; and a blocked task is never selected. -/
theorem wakeup_not_lost {history : List Event} {system : System}
    (hrun : Run (Initial image) (Step image) history system) :
    (∀ index, (system.scheduler.tasks index).state = .blocked →
      ∀ event after, Step image system event after → event.selects index = false) ∧
    ∀ id, system.blocking = false → (taskUnblock id system.scheduler).1 = 0 →
      ∃ index : Fin 16, 1 ≤ index.val ∧ id = .ofNat 32 index.val ∧
        (system.scheduler.tasks index).id = id ∧
        (system.scheduler.tasks index).state = .blocked ∧
        ∀ newer later, Run (· = ⟨(taskUnblock id system.scheduler).2, false⟩)
          (fun before event after ↦ Step image before event after ∧ ¬ Retires index before event)
          newer later → Awake index later := by
  have hinvariant := run_invariant hrun
  refine ⟨fun index hblocked event after hstep ↦ hinvariant.blocked_not_selected hblocked hstep, ?_⟩
  intro id hblocking hresult
  rcases taskUnblock_cases id system.scheduler with ⟨hfailed, -⟩ | ⟨index, hone, hid, hblocked, hwoken⟩
  · rw [hfailed] at hresult
    exact absurd hresult (by decide : (-1 : ℤ) ≠ 0)
  have hnumber := hinvariant.numbered.id_eq index
  have hused : 1 ≤ index.val ∧ index.val < system.scheduler.nextTaskID.toNat := by
    refine ⟨hone, by_contra fun hunused ↦ ?_⟩
    have hterminated := hinvariant.numbered.unused index (by omega)
    exact TaskState.noConfusion (hblocked.symm.trans hterminated)
  rw [if_pos hused] at hnumber
  refine ⟨index, hone, hid.symm.trans hnumber, hid, hblocked, fun newer later hnewer ↦ ?_⟩
  have hstep : Step image system (.unblock id) ⟨(taskUnblock id system.scheduler).2, false⟩ := by
    obtain ⟨scheduler, blocking⟩ := system
    subst hblocking
    exact .unblock
  have hawake : Awake index ⟨(taskUnblock id system.scheduler).2, false⟩ := by
    have htask := task_modify_same system.scheduler (.slot index) fun task ↦ { task with state := .ready }
    rw [hwoken]
    exact .inl (congrArg Task.state htask)
  refine (hnewer.invariant (fun later ↦ Invariant later ∧ Awake index later) ?_ ?_).2
  · rintro _ rfl
    exact ⟨hinvariant.step hstep, hawake⟩
  · rintro before event after ⟨hbefore, hbeforeAwake⟩ ⟨htaken, hstays⟩
    exact ⟨hbefore.step htaken, hbeforeAwake.step hbefore htaken hstays⟩

/-- The first task blocks itself and yields back to the kernel task. -/
def firstBlock : System :=
  ⟨((taskBlock firstSwitch.scheduler).interrupt .yield 0x20F00).2, false⟩

theorem run_firstBlock : ∃ history, Run (Initial smallTaskImage) (Step smallTaskImage) history firstBlock := by
  have hblock : Step smallTaskImage firstSwitch .block ⟨taskBlock firstSwitch.scheduler, true⟩ := .block
  have hyield : Step smallTaskImage ⟨taskBlock firstSwitch.scheduler, true⟩
      (.decision .yield (.slot 1) 0x20F00 (.slot 0) 0x9D000) firstBlock :=
    .decision (fun _ ↦ Interrupt.noConfusion) rfl rfl rfl
  exact ⟨_, (run_firstSwitch.step hblock).step hyield⟩

theorem wakeup_not_lost_first_block : ∃ index : Fin 16,
    (firstBlock.scheduler.tasks index).state = .blocked ∧
      ∀ newer later, Run (· = ⟨(taskUnblock 1 firstBlock.scheduler).2, false⟩)
        (fun before event after ↦ Step smallTaskImage before event after ∧ ¬ Retires index before event)
        newer later → Awake index later := by
  obtain ⟨history, hrun⟩ := run_firstBlock
  obtain ⟨index, -, -, -, hblocked, hawake⟩ := (wakeup_not_lost hrun).2 1 rfl rfl
  exact ⟨index, hblocked, hawake⟩

end NeilOS.Scheduler
