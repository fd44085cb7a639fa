import NeilOS.Kernel.Model

/-!
# The memory map of the kernel

Heap, page directory, page tables, frames of the clients and stacks of the tasks share no byte. The
static objects and the stacks lie below 0xA0000, the heap between 1 and 2 MiB and the frames, those
of the page tables included, above; within the first and the last zone the linker and the page
allocator keep the areas apart.
-/

namespace NeilOS

open Foundation

namespace Scheduler.Region

theorem Apart.symm {first second : Region} (h : first.Apart second) : second.Apart first :=
  Or.symm h

theorem Apart.not_contains {first second : Region} (h : first.Apart second) {target : Word}
    (hfirst : first.Contains target) : ¬ second.Contains target := by
  rintro ⟨hlow, hhigh⟩
  obtain ⟨hfirstLow, hfirstHigh⟩ := hfirst
  rcases h with hbefore | hafter
  · omega
  · omega

theorem page_apart {first second : Word} (hfirst : Paging.Aligned first) (hsecond : Paging.Aligned second)
    (hne : first ≠ second) : (page first).Apart (page second) := by
  have hnat : first.toNat ≠ second.toNat := fun heq ↦ hne (BitVec.eq_of_toNat_eq heq)
  unfold Paging.Aligned at hfirst hsecond
  simp only [Apart, page]
  omega

end Scheduler.Region

namespace Kernel

open Scheduler Context

variable {image : KernelImage} {state : State} {history : List Physical.Event} {taken : Word → Prop}

/-- The areas below 0xA0000: the two static tables and the stacks. -/
inductive LowArea (image : KernelImage) (state : State) : Area → Region → Prop where
  | directory : LowArea image state .directory (.page image.pageDirectory)
  | table : LowArea image state (.table 0) (.page image.firstPageTable)
  | stack {ref : TaskRef} : Live state.scheduler ref →
      LowArea image state (.stack ref) (stackOf image.toTaskImage state.scheduler ref)

/-- The areas from 2 MiB on: the page tables and the frames of the clients. -/
inductive HighArea (image : KernelImage) (state : State) : Area → Word → Prop where
  | table {index : Fin 1024} {table : Word} :
      Paging.root state.memory image.pageDirectory index = some table →
        HighArea image state (.table index) table
  | frame {address : Word} : address ∈ state.owned → HighArea image state (.frame address) address

/-- Which areas there are. -/
theorem Area.region_cases (hpaging : Paging.Invariant image.toPagingImage state.paging history taken)
    {area : Area} {region : Region} (h : area.region image state = some region) :
    LowArea image state area region ∨ (area = .heap ∧ region = ⟨0x100000, 0x200000⟩) ∨
      ∃ address, region = .page address ∧ Paging.Aligned address ∧ 0x200000 ≤ address.toNat ∧
        address.toNat < 0x4000000 ∧ HighArea image state area address := by
  have hkept := Physical.heapKept_of_run hpaging.run hpaging.clean
  have howned {address : Word} (h : Physical.owned address history = true) :
      Paging.Aligned address ∧ 0x200000 ≤ address.toNat ∧ address.toNat < 0x4000000 := by
    obtain ⟨haligned, -, hpage, -⟩ := (Physical.invariant_of_run hpaging.run).owned address h
    exact ⟨haligned, hkept.owned_high address h, by omega⟩
  cases area with
  | heap => exact .inr (.inl ⟨rfl, (Option.some.inj h).symm⟩)
  | directory =>
    rw [← Option.some.inj h]
    exact .inl .directory
  | table index =>
    obtain ⟨table, hroot, rfl⟩ := Option.map_eq_some_iff.mp h
    rcases hpaging.formed.placed index table hroot with rfl | htaken
    · obtain rfl : index = 0 := hpaging.formed.unshared index 0 image.firstPageTable hroot hpaging.formed.first
      exact .inl .table
    · obtain ⟨haligned, hlow, hhigh⟩ := howned (hpaging.taken_owned table htaken)
      exact .inr (.inr ⟨table, rfl, haligned, hlow, hhigh, .table hroot⟩)
  | frame address =>
    simp only [Area.region, Option.ite_none_right_eq_some] at h
    obtain ⟨hmem, hregion⟩ := h
    obtain ⟨haligned, hlow, hhigh⟩ := howned (hpaging.client_owned address hmem)
    exact .inr (.inr ⟨address, (Option.some.inj hregion).symm, haligned, hlow, hhigh, .frame hmem⟩)
  | stack ref =>
    simp only [Area.region, Option.ite_none_right_eq_some] at h
    rw [← Option.some.inj h.2]
    exact .inl (.stack h.1)

/-- A page table and a client's frame are never the same page. -/
theorem HighArea.injective (hpaging : Paging.Invariant image.toPagingImage state.paging history taken)
    {first second : Area} {address : Word} (hhigh : 0x200000 ≤ address.toNat)
    (hfirst : HighArea image state first address) (hsecond : HighArea image state second address) :
    first = second := by
  have hnotOwned {index : Fin 1024} {table : Word} (hfar : 0x200000 ≤ table.toNat)
      (hroot : Paging.root state.memory image.pageDirectory index = some table)
      (hmem : table ∈ state.owned) : False := by
    rcases hpaging.formed.placed index table hroot with rfl | htaken
    · have hle := image.table_le
      have hend := image.le_stack
      omega
    · exact hpaging.apart table hmem htaken
  cases hfirst with
  | table hroot =>
    cases hsecond with
    | table hother => exact congrArg Area.table (hpaging.formed.unshared _ _ _ hroot hother)
    | frame hmem => exact (hnotOwned hhigh hroot hmem).elim
  | frame hmem =>
    cases hsecond with
    | table hroot => exact (hnotOwned hhigh hroot hmem).elim
    | frame _ => rfl

/-- The pages of the high areas are taken from the page allocator. -/
theorem HighArea.owned (hpaging : Paging.Invariant image.toPagingImage state.paging history taken)
    {area : Area} {address : Word} (hhigh : 0x200000 ≤ address.toNat)
    (h : HighArea image state area address) : Physical.owned address history = true := by
  cases h with
  | @table index _ hroot =>
    rcases hpaging.formed.placed index address hroot with rfl | htaken
    · have hle := image.table_le
      have hend := image.le_stack
      omega
    · exact hpaging.taken_owned address htaken
  | frame hmem => exact hpaging.client_owned address hmem

theorem table_apart_stack {scheduler : Scheduler} (hnumbered : Numbered scheduler) {table : Word}
    {ref : TaskRef} (htable : table ∈ [image.pageDirectory, image.firstPageTable])
    (hlive : Live scheduler ref) :
    (Region.page table).Apart (stackOf image.toTaskImage scheduler ref) := by
  obtain ⟨htasks, hidle⟩ := image.tables_apart table htable
  have hend : table.toNat + 4096 ≤ 0x98000 := by
    have hstack := image.le_stack
    have hdirectory := image.directory_le
    have hfirst := image.table_le
    simp only [List.mem_cons, List.not_mem_nil, or_false] at htable
    rcases htable with rfl | rfl
    · omega
    · omega
  rcases stackOf_cases image.toTaskImage hnumbered hlive with
    ⟨-, hstack⟩ | ⟨-, hstack⟩ | ⟨index, -, hone, hle, hstack⟩
  · rw [hstack]
    exact hidle
  · rw [hstack]
    exact .inl hend
  · rw [hstack]
    simp only [Region.Apart, Region.page] at htasks ⊢
    omega

theorem LowArea.bounds (hnumbered : Numbered state.scheduler) {area : Area} {region : Region}
    (h : LowArea image state area region) : 0x9000 ≤ region.low ∧ region.high ≤ 0xA0000 := by
  have hend := image.le_stack
  cases h with
  | directory =>
    have hlow := image.directory_ge
    have hhigh := image.directory_le
    exact ⟨hlow, by simp only [Region.page]; omega⟩
  | table =>
    have hlow := image.table_ge
    have hhigh := image.table_le
    exact ⟨hlow, by simp only [Region.page]; omega⟩
  | stack hlive =>
    obtain ⟨hlow, hhigh⟩ := stackOf_bounds image.toTaskImage hnumbered hlive
    exact ⟨hlow, by omega⟩

theorem LowArea.apart (hnumbered : Numbered state.scheduler) {first second : Area} {left right : Region}
    (hne : first ≠ second) (hfirst : LowArea image state first left)
    (hsecond : LowArea image state second right) : left.Apart right := by
  have hstatic : (Region.page image.pageDirectory).Apart (.page image.firstPageTable) :=
    Region.page_apart image.directory_aligned image.table_aligned image.distinct
  have hstack {table : Word} {ref : TaskRef} (htable : table ∈ [image.pageDirectory, image.firstPageTable])
      (hlive : Live state.scheduler ref) := table_apart_stack hnumbered htable hlive
  cases hfirst with
  | directory =>
    cases hsecond with
    | directory => exact absurd rfl hne
    | table => exact hstatic
    | stack hlive => exact hstack (by simp) hlive
  | table =>
    cases hsecond with
    | directory => exact hstatic.symm
    | table => exact absurd rfl hne
    | stack hlive => exact hstack (by simp) hlive
  | stack hlive =>
    cases hsecond with
    | directory => exact (hstack (by simp) hlive).symm
    | table => exact (hstack (by simp) hlive).symm
    | stack hother =>
      have hrefs : _ ≠ _ := fun heq ↦ hne (congrArg Area.stack heq)
      exact stacks_apart image.toTaskImage hnumbered hrefs hlive hother

/-- Different areas share no byte. -/
def Isolated (image : KernelImage) (state : State) : Prop :=
  ∀ (first second : Area) (left right : Region), first ≠ second →
    first.region image state = some left → second.region image state = some right → left.Apart right

theorem isolated (hpaging : Paging.Invariant image.toPagingImage state.paging history taken)
    (hnumbered : Numbered state.scheduler) : Isolated image state := by
  intro first second left right hne hleft hright
  rcases Area.region_cases hpaging hleft with
    hlow | ⟨rfl, rfl⟩ | ⟨address, rfl, haligned, hhigh, -, harea⟩
  · have hbounds := hlow.bounds hnumbered
    rcases Area.region_cases hpaging hright with
      hother | ⟨rfl, rfl⟩ | ⟨other, rfl, -, hotherHigh, -, -⟩
    · exact hlow.apart hnumbered hne hother
    · exact .inl (by dsimp only; omega)
    · exact .inl (by simp only [Region.page]; omega)
  · rcases Area.region_cases hpaging hright with
      hother | ⟨rfl, rfl⟩ | ⟨other, rfl, -, hotherHigh, -, -⟩
    · have hbounds := hother.bounds hnumbered
      exact .inr (by dsimp only; omega)
    · exact absurd rfl hne
    · exact .inl hotherHigh
  · rcases Area.region_cases hpaging hright with
      hother | ⟨rfl, rfl⟩ | ⟨other, rfl, hotherAligned, hotherHigh, -, hotherArea⟩
    · have hbounds := hother.bounds hnumbered
      exact .inr (by simp only [Region.page]; omega)
    · exact .inr hhigh
    · apply Region.page_apart haligned hotherAligned
      rintro rfl
      exact hne (harea.injective hpaging hhigh hotherArea)

theorem Isolated.not_holds (h : Isolated image state) {first second : Area} {target : Word}
    (hne : first ≠ second) (hfirst : first.Holds image state target) :
    ¬ second.Holds image state target := by
  rintro ⟨right, hright, htarget⟩
  obtain ⟨left, hleft, hcontains⟩ := hfirst
  exact (h first second left right hne hleft hright).not_contains hcontains htarget

end Kernel

end NeilOS
