import SimplyOs.KheapMemory

/-!
# A platform with arbitrary answers

The heap over a flat byte memory in which the frame allocator and the page mapper
answer as a given stream says. Nothing restricts the stream: any pattern of
successes and failures and any stale content of a fresh page occurs in some
initial state. A page that was mapped stays mapped, as `kheap_extend` unmaps none.
-/

namespace SimplyOs.FlatPlatform

open SimplyOs.Word SimplyOs.Kheap SimplyOs.KheapMemory
open SimplyOs.Library.ByteMemory

set_option autoImplicit false

/-- What one call of `pmm_alloc_frame` or `paging_map_page` answers. -/
structure Answer where
  frame : Nat
  mapped : Bool
  content : Memory

structure FlatWorld where
  bytes : Memory
  mapped : Nat → Bool
  answers : Nat → Answer
  turn : Nat

def pageMapped (world : FlatWorld) (address : Nat) : Bool := world.mapped (address / pageSize)

/-- A fresh page at `address` with its stale content. -/
def mapFresh (world : FlatWorld) (address : Nat) (content : Memory) : FlatWorld :=
  { world with
    bytes := fun place =>
      if place / pageSize = address / pageSize then content place else world.bytes place
    mapped := fun page => if page = address / pageSize then true else world.mapped page }

instance : Platform FlatWorld where
  load8 world address := if pageMapped world address then some (world.bytes address) else none
  load32 world address :=
    if pageMapped world address && pageMapped world (address + 3) then
      some (Library.ByteMemory.load32 world.bytes address)
    else none
  store8 world address value :=
    if pageMapped world address then
      some { world with bytes := Library.ByteMemory.store8 world.bytes address value }
    else none
  store32 world address word :=
    if pageMapped world address && pageMapped world (address + 3) then
      some { world with bytes := Library.ByteMemory.store32 world.bytes address word }
    else none
  pmmAllocFrame world := ((world.answers world.turn).frame, { world with turn := world.turn + 1 })
  pmmFreeFrame world _ := world
  pagingMapPage world address _ _ :=
    let answer := world.answers world.turn
    let next := { world with turn := world.turn + 1 }
    some (answer.mapped, if answer.mapped then mapFresh next address answer.content else next)

/-- The addresses of the heap window are mapped and hold `memory`. -/
structure FlatShows (world : FlatWorld) (limit : Nat) (memory : Memory) : Prop where
  mapped : ∀ address, kheapStartAddress ≤ address → address < limit → pageMapped world address
  same : Agree kheapStartAddress limit memory world.bytes

theorem flat_start (world : FlatWorld) : FlatShows world kheapStartAddress world.bytes :=
  ⟨fun _ above below => absurd above (Nat.not_le.mpr below), agree_refl⟩

theorem map_fresh_shows {world : FlatWorld} {limit : Nat} {memory content : Memory}
    (shows : FlatShows world limit memory) (aligned : limit % pageSize = 0) :
    ∃ fresh, FlatShows (mapFresh world limit content) (limit + pageSize) fresh ∧
      Agree kheapStartAddress limit memory fresh := by
  refine ⟨(mapFresh world limit content).bytes, ⟨?_, agree_refl⟩, ?_⟩
  · intro address lower upper
    by_cases inside : address < limit
    · have mapped := shows.mapped address lower inside
      simp only [pageMapped] at mapped
      simp [pageMapped, mapFresh, mapped]
    · have samePage : address / pageSize = limit / pageSize := by
        simp only [pageSize] at *
        omega
      simp [pageMapped, mapFresh, samePage]
  · intro place lower upper
    have otherPage : place / pageSize ≠ limit / pageSize := by
      simp only [pageSize] at *
      omega
    simp only [mapFresh, if_neg otherPage]
    exact shows.same place lower upper

theorem flat_laws : PlatformLaws FlatWorld FlatShows where
  load8 {world limit memory} address shows above below := by
    have mapped := shows.mapped address above below
    simp only [Platform.load8, mapped, if_true]
    rw [shows.same address above below]
  load32 {world limit memory} address shows above below _ := by
    have first := shows.mapped address above (by omega)
    have last := shows.mapped (address + 3) (by omega) (by omega)
    simp only [Platform.load32, first, last, Bool.and_self, if_true]
    rw [load32_of_agree address shows.same above below]
  store8 {world limit memory} address value shows above below := by
    have mapped := shows.mapped address above below
    refine ⟨{ world with bytes := store8 world.bytes address value },
      by simp only [Platform.store8, mapped, if_true], shows.mapped, ?_⟩
    intro place lower upper
    simp only [store8]
    rw [shows.same place lower upper]
  store32 {world limit memory} address word shows above below _ := by
    have first := shows.mapped address above (by omega)
    have last := shows.mapped (address + 3) (by omega) (by omega)
    refine ⟨{ world with bytes := store32 world.bytes address word },
      by simp only [Platform.store32, first, last, Bool.and_self, if_true], shows.mapped, ?_⟩
    intro place lower upper
    simp only [store32]
    rw [shows.same place lower upper]
  noFrame shows _ := ⟨shows.mapped, shows.same⟩
  mapPage {world limit memory} shows aligned above within frame := by
    refine ⟨_, _, rfl, ?_, ?_⟩
    · intro success
      simp only [Platform.pmmAllocFrame] at success
      simp only [Platform.pmmAllocFrame, success, if_true]
      exact map_fresh_shows ⟨shows.mapped, shows.same⟩ aligned
    · intro failure
      simp only [Platform.pmmAllocFrame] at failure
      simp only [Platform.pmmAllocFrame, Platform.pmmFreeFrame, failure]
      exact ⟨shows.mapped, shows.same⟩
  shrink shows smaller :=
    ⟨fun address above below => shows.mapped address above (by omega),
      agree_mono shows.same (Nat.le_refl _) smaller⟩
  beyond {world limit memory} shows aligned above within := by
    cases mapped : pageMapped world limit with
    | false => exact Or.inl fun word => by simp [Platform.store32, mapped]
    | true =>
        refine Or.inr ⟨world.bytes, ⟨fun address lower upper => ?_, agree_refl⟩, shows.same⟩
        by_cases inside : address < limit
        · exact shows.mapped address lower inside
        · simp only [pageMapped, pageSize] at *
          have samePage : address / 4096 = limit / 4096 := by omega
          rw [samePage, mapped]

end SimplyOs.FlatPlatform
