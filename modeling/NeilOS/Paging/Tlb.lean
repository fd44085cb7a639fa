import NeilOS.Foundation.Cached
import NeilOS.Paging.Directory

/-!
# The translation lookaside buffer

The processor keeps translations of present pages in a cache of its own. It may load one at any
moment, also between two instructions of `paging_map` or `paging_unmap`; `invlpg` drops one page
and loading CR3 drops all. What is to be shown is that the two functions invalidate enough: when a
call returns, every cached translation is the one in the tables.
-/

namespace NeilOS.Paging

open Foundation Program Cache

def pageNumber (address : Word) : Fin 1048576 := ⟨address.toNat / 4096, by omega⟩

/-- The current translation of a page. -/
def translations (machine : Machine) (page : Fin 1048576) : Option (Word × Word) :=
  mapping machine (.ofNat 32 (page * 4096))

/-- What an instruction makes the processor drop. -/
def drops : PagingOp → Fin 1048576 → Bool
  | .invlpg address, page => page = pageNumber address
  | .loadCr3 _, _ => true
  | _, _ => false

abbrev Tlb := Cache (Fin 1048576) (Word × Word)

theorem mapping_eq_translations (machine : Machine) (address : Word) :
    mapping machine address = translations machine (pageNumber address) := by
  have hpage : address.toNat / 4096 =
      (BitVec.ofNat 32 ((pageNumber address).val * 4096)).toNat / 4096 := by
    have hnumber : (pageNumber address).val = address.toNat / 4096 := rfl
    rw [hnumber, Word.toNat_ofNat_of_lt (by omega), Nat.mul_div_cancel _ (by decide)]
  rw [translations, mapping, mapping, walk_congr_page hpage]

theorem pageNumber_eq_iff (first second : Word) :
    pageNumber first = pageNumber second ↔ first.toNat / 4096 = second.toNat / 4096 :=
  Fin.ext_iff

theorem mapping_of_cr3 {image : PagingImage} {machine : Machine}
    (h : machine.cr3 = image.pageDirectory) (address : Word) :
    mapping machine address = (walk machine.memory image.pageDirectory address).map
      fun value ↦ (value &&& 0xFFFFF000, value &&& 0xFFF) := by
  have hdirectory : Aligned image.pageDirectory := image.directory_aligned
  rw [mapping, h, hdirectory.and_frame]

/-- Tables that agree give translations that agree. -/
theorem agrees_of_walk {image : PagingImage} {first second : Machine}
    (hfirst : first.cr3 = image.pageDirectory) (hsecond : second.cr3 = image.pageDirectory)
    (h : ∀ address value, walk first.memory image.pageDirectory address = some value →
      walk second.memory image.pageDirectory address = some value) :
    Agrees (translations first) (translations second) := by
  intro page found hfound
  rw [translations, mapping_of_cr3 hfirst, Option.map_eq_some_iff] at hfound
  obtain ⟨value, hvalue, rfl⟩ := hfound
  rw [translations, mapping_of_cr3 hsecond, h _ value hvalue, Option.map_some]

/-! ## What each function leaves in the cache -/

section Calls

variable {image : PagingImage} {system : System} {history : List Physical.Event}
  {taken : Word → Prop} {before tlb : Tlb} {virtualAddress physicalAddress flags : Word} {result : ℤ}
  {after : Machine}

/-- Every mapping that exists at some moment of a call of `paging_map` exists when it returns. -/
theorem MapOutcome.walk_of_progress {start middle : Machine}
    (h : MapOutcome image taken start virtualAddress physicalAddress flags result after)
    (hprogress : Progress image virtualAddress physicalAddress flags start middle)
    {other value : Word} (hvalue : walk middle.memory image.pageDirectory other = some value) :
    walk after.memory image.pageDirectory other = some value := by
  rcases hprogress.found other with hsame | ⟨hinstalls, hpage, hnone, hfound⟩
  · rw [hsame] at hvalue
    cases h with
    | misaligned _ => exact hvalue
    | mapped _ _ _ => exact hvalue
    | full _ _ _ _ => exact hvalue
    | installed _ _ hunmapped _ _ _ hothers =>
      refine (hothers other fun hpage ↦ ?_).trans hvalue
      rw [walk_congr_page hpage, hunmapped] at hvalue
      cases hvalue
  · obtain ⟨hvirtual, hphysical, huses⟩ := hinstalls
    cases h with
    | misaligned hmisaligned => exact absurd hmisaligned (by simp [hvirtual, hphysical])
    | mapped _ _ hmapped =>
      rw [walk_congr_page hpage] at hnone
      exact absurd hnone hmapped
    | full _ _ habsent hnoFrame => exact absurd huses (by simp [UsesTable, habsent, hnoFrame])
    | installed _ _ _ _ _ hwalk _ =>
      rw [walk_congr_page hpage, hwalk, ← hfound]
      exact hvalue

theorem MapOutcome.cr3_eq {start : Machine}
    (h : MapOutcome image taken start virtualAddress physicalAddress flags result after) :
    after.cr3 = start.cr3 := by
  cases h <;> rfl

theorem Invariant.map_coherent (h : Invariant image system history taken)
    (hbefore : Agrees before (translations system.machine))
    (hexec : CachedExec (handle direct) translations drops
      (pagingMap image virtualAddress physicalAddress flags) system.machine before result after tlb) :
    Agrees tlb (translations after) := by
  have hmeets := h.meets_pagingMap virtualAddress physicalAddress flags
  obtain ⟨hout, -⟩ := hmeets.of_exec hexec.exec
  have hbound (middle : Machine)
      (hmiddle : Progress image virtualAddress physicalAddress flags system.machine middle) :
      Agrees (translations middle) (translations after) :=
    agrees_of_walk (hmiddle.cr3.trans h.cr3) (hout.cr3_eq.trans h.cr3)
      fun _ _ hvalue ↦ hout.walk_of_progress hmiddle hvalue
  have hstart := hbound system.machine (.refl image _ _ _ _)
  have hcached := hmeets.cached (fun middle _ hworks ↦ hbound middle hworks.progress)
    (fun page value hvalue ↦ hstart page value (hbefore page value hvalue)) hexec
  exact hcached.2 (.refl _)

/-- A successful `paging_unmap` ends with `invlpg`, when the entry is gone already. -/
theorem unmap_drops {start : Machine}
    (hexec : CachedExec (handle direct) translations drops (pagingUnmap image virtualAddress) start
      before 0 after tlb) (hgone : translations after (pageNumber virtualAddress) = none) :
    tlb (pageNumber virtualAddress) = none := by
  unfold pagingUnmap at hexec
  split at hexec
  · cases hexec
  obtain ⟨directoryEntry, _, _, -, hexec⟩ := hexec.of_bind
  split at hexec
  · cases hexec
  obtain ⟨tableEntry, _, _, -, hexec⟩ := hexec.of_bind
  split at hexec
  · cases hexec
  obtain ⟨_, stored, _, -, hexec⟩ := hexec.of_bind
  obtain ⟨_, last, cache, hinvlpg, hexec⟩ := hexec.of_bind
  cases hexec with
  | result hdrift =>
    cases hinvlpg with
    | perform hfirst hreply hrest =>
      cases hreply
      cases hrest with
      | result hsecond =>
        have hdropped := hsecond.eq_none (by simp [forget, drops]) hgone
        exact hdrift.eq_none hdropped hgone

theorem Invariant.unmap_coherent (h : Invariant image system history taken)
    (hbefore : Agrees before (translations system.machine))
    (hexec : CachedExec (handle direct) translations drops (pagingUnmap image virtualAddress)
      system.machine before result after tlb) :
    Agrees tlb (translations after) := by
  have hmeets := pagingUnmap_works h.formed
    (fun _ _ ↦ rfl : Aligned virtualAddress → _ → _ = tableOf image system.machine virtualAddress)
  obtain ⟨hout, -⟩ := hmeets.of_exec hexec.exec
  obtain ⟨-, -, hmapping⟩ := h.unmap_refines hout
  have hbound (middle : Machine) (hmiddle : Shrinks image system.machine middle) :
      Agrees (translations middle) (translations system.machine) := by
    refine agrees_of_walk (hmiddle.cr3.trans h.cr3) h.cr3 fun other value hvalue ↦ ?_
    rcases hmiddle.found other with hsame | hnone
    · exact hsame.symm.trans hvalue
    · rw [hnone] at hvalue
      cases hvalue
  have hlast : Agrees (translations after) (translations system.machine) := by
    intro page value hvalue
    rw [translations, hmapping] at hvalue
    split at hvalue
    · cases hvalue
    · exact hvalue
  have hstale := (hmeets.cached (fun middle _ hworks ↦ hbound middle hworks.2) hbefore hexec).2 hlast
  intro page value hvalue
  rw [translations, hmapping]
  split
  · rename_i hremoved
    obtain ⟨rfl, hpage⟩ := hremoved
    have hsame : page = pageNumber virtualAddress := by
      apply Fin.ext
      rw [Word.toNat_ofNat_of_lt (by omega), Nat.mul_div_cancel _ (by decide)] at hpage
      exact hpage
    have hgone : translations after (pageNumber virtualAddress) = none := by
      rw [← mapping_eq_translations, hmapping, if_pos ⟨rfl, rfl⟩]
    rw [hsame, unmap_drops hexec hgone] at hvalue
    cases hvalue
  · exact hstale page value hvalue

/-- Loading CR3 empties the cache once the tables are complete. -/
theorem init_coherent {start : Machine}
    (hexec : CachedExec (handle direct) translations drops (pagingInit image) start before () after
      tlb) : Agrees tlb (translations after) := by
  unfold pagingInit at hexec
  obtain ⟨_, _, _, -, hexec⟩ := hexec.of_bind
  obtain ⟨_, _, _, -, hexec⟩ := hexec.of_bind
  obtain ⟨_, _, _, -, hexec⟩ := hexec.of_bind
  obtain ⟨_, loaded, cache, hload, henable⟩ := hexec.of_bind
  have hempty : Agrees cache (translations loaded) := by
    cases hload with
    | perform hfirst hreply hrest =>
      cases hreply
      cases hrest with
      | result hsecond =>
        refine Agrees.drift (fun page value hvalue ↦ ?_) (.refl _) hsecond
        simp [forget, drops] at hvalue
  cases henable with
  | perform hfirst hreply hrest =>
    cases hreply
    cases hrest with
    | result hsecond =>
      have hbefore := (hempty.drift (.refl _) hfirst).forget (drops .enablePaging)
      exact hbefore.drift (.refl _) hsecond

end Calls

/-! ## Runs -/

structure TlbSystem where
  system : System
  tlb : Tlb

/-- `physical_init`, then `paging_init` with any contents of the cache. -/
inductive TlbInitial (image : PagingImage) : TlbSystem → Prop where
  | init {machine after : Machine} {before tlb : Tlb} :
      Physical.Initial image.toImage machine.physical → machine.pagingEnabled = false →
      CachedExec (handle direct) translations drops (pagingInit image) machine before () after tlb →
      TlbInitial image ⟨⟨after, []⟩, tlb⟩

/-- Calls with the cache drifting inside them, and drifts between calls, which have no label. -/
inductive TlbStep (image : PagingImage) : TlbSystem → Option Event → TlbSystem → Prop where
  | map {system : System} {before tlb : Tlb} {virtualAddress physicalAddress flags : Word}
      {result : ℤ} {after : Machine} :
      CachedExec (handle direct) translations drops
        (pagingMap image virtualAddress physicalAddress flags) system.machine before result after tlb →
      TlbStep image ⟨system, before⟩ (some (.map virtualAddress physicalAddress flags result))
        ⟨{ system with machine := after }, tlb⟩
  | unmap {system : System} {before tlb : Tlb} {virtualAddress : Word} {result : ℤ}
      {after : Machine} :
      CachedExec (handle direct) translations drops (pagingUnmap image virtualAddress)
        system.machine before result after tlb →
      TlbStep image ⟨system, before⟩ (some (.unmap virtualAddress result))
        ⟨{ system with machine := after }, tlb⟩
  | alloc (system : System) (tlb : Tlb) :
      TlbStep image ⟨system, tlb⟩ (some (.alloc system.machine.physical.physicalAllocPage.1))
        ⟨system.alloc, tlb⟩
  | free {system : System} {tlb : Tlb} {address : Word} : address ∈ system.owned →
      TlbStep image ⟨system, tlb⟩ (some (.free address)) ⟨system.free address, tlb⟩
  | drift {system : System} {before tlb : Tlb} : Drifts (translations system.machine) before tlb →
      TlbStep image ⟨system, before⟩ none ⟨system, tlb⟩

/-- The translation an access uses: the cached one if there is one, else the one in the tables. -/
def TlbSystem.access (state : TlbSystem) (address : Word) : Option (Word × Word) :=
  (state.tlb (pageNumber address)).or (mapping state.system.machine address)

/-- What a label reports about a page: `true` if the page was removed, `false` if it was mapped. -/
def removal (page : Fin 1048576) : Option Event → Option Bool
  | some (.map virtualAddress _ _ code) =>
      if code = 0 ∧ page = pageNumber virtualAddress then some false else none
  | some (.unmap virtualAddress code) =>
      if code = 0 ∧ page = pageNumber virtualAddress then some true else none
  | _ => none

structure Coherent (image : PagingImage) (history : List (Option Event)) (state : TlbSystem) : Prop where
  reachable : Reachable (Initial image direct) (Step image direct) state.system
  agrees : Agrees state.tlb (translations state.system.machine)
  removed : ∀ address, latest (removal (pageNumber address)) false history = true →
    mapping state.system.machine address = none

theorem TlbInitial.coherent {image : PagingImage} {state : TlbSystem} (h : TlbInitial image state) :
    Coherent image [] state := by
  obtain ⟨hphysical, hdisabled, hexec⟩ := h
  exact ⟨.initial (.init hphysical hdisabled hexec.exec), init_coherent hexec,
    fun _ hremoved ↦ absurd hremoved Bool.false_ne_true⟩

theorem Coherent.step {image : PagingImage} {history : List (Option Event)} {before after : TlbSystem}
    {label : Option Event} (h : Coherent image history before) (hstep : TlbStep image before label after) :
    Coherent image (label :: history) after := by
  obtain ⟨hreachable, hagrees, hremoved⟩ := h
  obtain ⟨allocations, taken, hinv⟩ := exists_invariant hreachable
  cases hstep with
  | @map system cache tlb virtualAddress physicalAddress flags result machine hexec =>
    obtain ⟨hout, -⟩ := (hinv.meets_pagingMap _ _ _).of_exec hexec.exec
    obtain ⟨-, -, hmapping⟩ := hinv.map_refines hout
    refine ⟨hreachable.step (.map hexec.exec), hinv.map_coherent hagrees hexec, fun address hlatest ↦ ?_⟩
    have hpage := pageNumber_eq_iff address virtualAddress
    rw [hmapping address]
    by_cases hown : result = 0 ∧ pageNumber address = pageNumber virtualAddress
    · have hreport : removal (pageNumber address)
          (some (.map virtualAddress physicalAddress flags result)) = some false := if_pos hown
      rw [latest_of_some history hreport] at hlatest
      cases hlatest
    · have hreport : removal (pageNumber address)
          (some (.map virtualAddress physicalAddress flags result)) = none := if_neg hown
      rw [latest_of_none history hreport] at hlatest
      rw [if_neg (by rwa [← hpage])]
      exact hremoved address hlatest
  | @unmap system cache tlb virtualAddress result machine hexec =>
    have hout := (pagingUnmap_spec hinv.formed fun _ _ ↦ rfl).of_exec hexec.exec
    obtain ⟨-, -, hmapping⟩ := hinv.unmap_refines hout
    refine ⟨hreachable.step (.unmap hexec.exec), hinv.unmap_coherent hagrees hexec,
      fun address hlatest ↦ ?_⟩
    have hpage := pageNumber_eq_iff address virtualAddress
    rw [hmapping address]
    by_cases hown : result = 0 ∧ pageNumber address = pageNumber virtualAddress
    · rw [if_pos (by rwa [← hpage])]
    · have hreport : removal (pageNumber address) (some (.unmap virtualAddress result)) = none :=
        if_neg hown
      rw [latest_of_none history hreport] at hlatest
      rw [if_neg (by rwa [← hpage])]
      exact hremoved address hlatest
  | alloc => exact ⟨hreachable.step (.alloc _), hagrees, hremoved⟩
  | free hmem => exact ⟨hreachable.step (.free hmem), hagrees, hremoved⟩
  | drift hdrift => exact ⟨hreachable, hagrees.drift (.refl _) hdrift, hremoved⟩

/-- The cache agrees with the tables whenever no call is under way, so no access uses a mapping
that `paging_unmap` removed. -/
theorem tlb_agrees_with_tables {image : PagingImage} {history : List (Option Event)}
    {state : TlbSystem} (h : Run (TlbInitial image) (TlbStep image) history state) :
    (∀ page value, state.tlb page = some value →
      mapping state.system.machine (.ofNat 32 (page * 4096)) = some value) ∧
    (∀ address, state.access address = mapping state.system.machine address) ∧
    ∀ address, latest (removal (pageNumber address)) false history = true →
      state.access address = none := by
  have hcoherent : Coherent image history state :=
    h.induct (Coherent image) (fun _ hinitial ↦ hinitial.coherent)
      fun _ _ _ _ _ hbefore hstep ↦ hbefore.step hstep
  have haccess (address : Word) : state.access address = mapping state.system.machine address := by
    unfold TlbSystem.access
    cases hcached : state.tlb (pageNumber address) with
    | none => rfl
    | some value =>
      rw [mapping_eq_translations, hcoherent.agrees _ value hcached]
      rfl
  refine ⟨hcoherent.agrees, haccess, fun address hremoved ↦ ?_⟩
  rw [haccess, hcoherent.removed address hremoved]

/-- A page of the identity map that is cached and then unmapped. -/
theorem tlb_agrees_with_tables_unmap : ∃ state,
    Run (TlbInitial smallImage) (TlbStep smallImage) [some (.unmap 0x5000#32 0), none] state ∧
      state.access 0x5000#32 = none := by
  obtain ⟨⟨⟩, machine, hexec, hinit⟩ := (pagingInit_spec smallImage (bootMachine smallImage)).exec
  obtain ⟨tlb, hcached⟩ := CachedExec.of_exec translations drops hexec fun _ ↦ none
  have hstart : TlbInitial smallImage ⟨⟨machine, []⟩, tlb⟩ := .init ⟨_, rfl⟩ rfl hcached
  have hfill : TlbStep smallImage ⟨⟨machine, []⟩, tlb⟩ none ⟨⟨machine, []⟩, translations machine⟩ :=
    .drift fun _ ↦ .inr (.inl rfl)
  obtain ⟨history, taken, hinv⟩ := exists_invariant hstart.coherent.reachable
  obtain ⟨result, after, hunmap, hout⟩ :=
    (pagingUnmap_spec hinv.formed (fun _ _ ↦ rfl : Aligned 0x5000#32 → _)).exec
  have hmapped : mapping machine 0x5000#32 ≠ none := by
    rw [hinv.mapping_eq 0x5000#32, hinit.walk, if_pos (by decide)]
    exact Option.some_ne_none _
  have hresult : result = 0 := (hinv.unmap_refines hout).1.mpr ⟨by decide, hmapped⟩
  subst hresult
  obtain ⟨last, hlast⟩ := CachedExec.of_exec translations drops hunmap (translations machine)
  have hrun := ((Run.start hstart).step hfill).step (TlbStep.unmap hlast)
  exact ⟨_, hrun, (tlb_agrees_with_tables hrun).2.2 0x5000#32 (by decide)⟩

end NeilOS.Paging
