import OsdiKernel.Mm.Boot

/-!
# Runs of the buddy allocator

A run starts after the boot phase, with page zero reserved, and continues with
calls of `_alloc` and calls of `_free` on pointers in use.  Other parts of the
kernel may write the `cache_order` fields at any time.
-/

namespace OsdiKernel.Mm

open DyadicBlock Tiling

/-- The order of the block that serves a request. -/
def orderOf (size : Nat) : Nat := getOrder (round size)

/-- The pages of a block that is in use, given its pointer and the requested size. -/
def pagesOf (use : Nat × Nat) : Set Nat := block (use.1 / pageSize) (orderOf use.2)

/-- The pointers in use after a call of `_alloc`. -/
def keep (ptr size : Nat) (live : List (Nat × Nat)) : List (Nat × Nat) :=
  if ptr = 0 then live else (ptr, size) :: live

/-- The states of the allocator, with the reserved ranges and the pointers in use. -/
inductive Run (ranges : List (Nat × Nat)) : List (Nat × Nat) → State → Prop
  | boot {s : State} (boot : Boot ranges s) (first : 0 ∈ reservedPages ranges) : Run ranges [] s
  | alloc {live : List (Nat × Nat)} {s : State} (earlier : Run ranges live s) (size : Nat) :
      Run ranges (keep (alloc s size).2 size live) (alloc s size).1
  | free {live : List (Nat × Nat)} {s : State} (earlier : Run ranges live s)
      {use : Nat × Nat} (member : use ∈ live) : Run ranges (live.erase use) (free s use.1)
  | retag {live : List (Nat × Nat)} {s : State} (earlier : Run ranges live s)
      (tags : Nat → Int) : Run ranges live (s.retag tags)

theorem Run.congr {ranges live : List (Nat × Nat)} {s t : State} (run : Run ranges live s)
    (same : s = t) : Run ranges live t := same ▸ run

/-! ## The invariant of a run -/

/-- A block in use: it belongs to the tiling and is marked as off the lists. -/
structure InUse (s : State) (T : PageTiling) (reserved : Set Nat) (use : Nat × Nat) : Prop where
  pointer : use.1 = use.1 / pageSize * pageSize
  size : 1 ≤ use.2 ∧ use.2 ≤ maxAllocSize
  order : T.order (use.1 / pageSize) = some (orderOf use.2)
  entry : (s.pageList (use.1 / pageSize)).entryInList = none
  nonzero : use.1 / pageSize ≠ 0
  apart : Disjoint (pagesOf use) reserved

/-- The invariant of a run; `reserved` are pages that are never handed out. -/
structure Safe (reserved : Set Nat) (live : List (Nat × Nat)) (s : State) (T : PageTiling)
    (L : Nat → List Nat) : Prop where
  inv : Inv s T L
  noBuddies : NoBuddies L
  zero : 0 ∈ reserved
  off : Disjoint (freePages L) reserved
  inUse : ∀ use ∈ live, InUse s T reserved use
  distinct : live.Pairwise fun first second => first.1 / pageSize ≠ second.1 / pageSize

/-- The part of that invariant that does not need page zero to be reserved. -/
structure Held (reserved : Set Nat) (live : List (Nat × Nat)) (s : State) (T : PageTiling)
    (L : Nat → List Nat) : Prop where
  inv : Inv s T L
  off : Disjoint (freePages L) reserved
  inUse : ∀ use ∈ live, InUse s T reserved use
  distinct : live.Pairwise fun first second => first.1 / pageSize ≠ second.1 / pageSize

section Safe

variable {reserved : Set Nat} {live : List (Nat × Nat)} {s : State} {T : PageTiling}
  {L : Nat → List Nat}

theorem InUse.absent {use : Nat × Nat} (inUse : InUse s T reserved use) (inv : Inv s T L) (k : Nat) :
    use.1 / pageSize ∉ L k :=
  inv.absent_of_null inUse.entry k

theorem InUse.not_free {use : Nat × Nat} (inUse : InUse s T reserved use) (inv : Inv s T L) :
    Disjoint (pagesOf use) (freePages L) := by
  rw [Set.disjoint_left]
  intro x inside
  exact inv.not_freePage inUse.order (inUse.absent inv _) inside

/-- A change of the state elsewhere leaves a block in use. -/
theorem InUse.agree {use : Nat × Nat} {region : Set Nat} {s' : State} {T' : PageTiling}
    (inUse : InUse s T reserved use) (agree : Agree region s T s' T')
    (outside : use.1 / pageSize ∉ region) : InUse s' T' reserved use where
  pointer := inUse.pointer
  size := inUse.size
  order := (agree.order outside).trans inUse.order
  entry := (agree.entry outside).trans inUse.entry
  nonzero := inUse.nonzero
  apart := inUse.apart

theorem Safe.disjoint (safe : Safe reserved live s T L) :
    live.Pairwise fun first second => Disjoint (pagesOf first) (pagesOf second) := by
  apply safe.distinct.imp_of_mem
  intro first second memberFirst memberSecond other
  rw [Set.disjoint_left]
  intro x inFirst inSecond
  exact other (T.unique (safe.inUse first memberFirst).order (safe.inUse second memberSecond).order
    inFirst inSecond)

theorem pointer_div (c : Nat) : c * pageSize / pageSize = c :=
  Nat.mul_div_cancel c (by decide)

/-- A block that is handed out is apart from the blocks in use, and joins them
unless its pointer is null. -/
theorem Held.taken (held : Held reserved live s T L) {size c i : Nat} {s' : State} {T' : PageTiling}
    {L' : Nat → List Nat} (positive : 1 ≤ size) (fits : size ≤ maxAllocSize)
    (taken : Taken s T L c i (orderOf size) s' T' L') :
    Held reserved live s' T' L' ∧
      (c ≠ 0 → Held reserved ((c * pageSize, size) :: live) s' T' L') := by
  have outside : ∀ use ∈ live, use.1 / pageSize ∉ block c i := by
    intro use member inside
    exact Set.disjoint_left.mp ((held.inUse use member).not_free held.inv)
      (self_mem_block _ _) (taken.region inside)
  have off : Disjoint (freePages L') reserved := by
    rw [taken.pages]
    exact held.off.mono_left Set.sdiff_subset
  have others : ∀ use ∈ live, InUse s' T' reserved use := fun use member =>
    (held.inUse use member).agree taken.agree (outside use member)
  refine ⟨⟨taken.inv, off, others, held.distinct⟩, fun nonzero => ⟨taken.inv, off, ?_, ?_⟩⟩
  · intro use member
    rcases List.mem_cons.mp member with rfl | old
    · constructor
      · dsimp only
        rw [pointer_div]
      · exact ⟨positive, fits⟩
      · dsimp only
        rw [pointer_div]
        exact taken.order
      · dsimp only
        rw [pointer_div]
        exact taken.entry
      · dsimp only
        rw [pointer_div]
        exact nonzero
      · unfold pagesOf
        dsimp only
        rw [pointer_div]
        exact held.off.mono_left taken.inside
    · exact others use old
  · rw [List.pairwise_cons]
    refine ⟨?_, held.distinct⟩
    intro use member same
    dsimp only at same
    rw [pointer_div] at same
    exact outside use member (same ▸ self_mem_block c i)

theorem Safe.held (safe : Safe reserved live s T L) : Held reserved live s T L :=
  ⟨safe.inv, safe.off, safe.inUse, safe.distinct⟩

/-- A block that was just handed out joins the blocks in use. -/
theorem Safe.taken (safe : Safe reserved live s T L) {size c i : Nat} {s' : State} {T' : PageTiling}
    {L' : Nat → List Nat} (positive : 1 ≤ size) (fits : size ≤ maxAllocSize)
    (taken : Taken s T L c i (orderOf size) s' T' L') :
    c ≠ 0 ∧ Safe reserved ((c * pageSize, size) :: live) s' T' L' := by
  have nonzero : c ≠ 0 := by
    rintro rfl
    exact Set.disjoint_left.mp safe.off (taken.inside (self_mem_block 0 _)) safe.zero
  have held := (safe.held.taken positive fits taken).2 nonzero
  exact ⟨nonzero, held.inv, taken.noBuddies safe.noBuddies, safe.zero, held.off, held.inUse,
    held.distinct⟩

theorem alloc_invalid (s : State) {size : Nat} (invalid : size = 0 ∨ maxAllocSize < size) :
    alloc s size = (s, 0) := if_pos invalid

theorem Safe.alloc (safe : Safe reserved live s T L) (size : Nat) :
    ∃ T' L', Safe reserved (keep (Mm.alloc s size).2 size live) (Mm.alloc s size).1 T' L' := by
  by_cases valid : size = 0 ∨ maxAllocSize < size
  · rw [alloc_invalid s valid]
    exact ⟨T, L, safe⟩
  · have positive : 1 ≤ size := by omega
    have fits : size ≤ maxAllocSize := by omega
    rcases alloc_spec safe.inv positive fits with
      ⟨_, result⟩ | ⟨i, c, _, _, _, _, address, T', L', taken⟩
    · rw [result]
      exact ⟨T, L, safe⟩
    · obtain ⟨nonzero, next⟩ := safe.taken positive fits taken
      refine ⟨T', L', ?_⟩
      rw [address, keep, if_neg (Nat.mul_ne_zero nonzero (by decide))]
      exact next

/-- What `_free` does to a block in use, and to the other ones. -/
theorem Held.released (held : Held reserved live s T L) {use : Nat × Nat} (member : use ∈ live) :
    ∃ T' L', Released s T L (use.1 / pageSize) (freePages L ∪ pagesOf use)
        (Mm.free s use.1) T' L' ∧ Held reserved (live.erase use) (Mm.free s use.1) T' L' := by
  have inUse := held.inUse use member
  obtain ⟨_, T', L', released⟩ := free_spec held.inv inUse.order inUse.entry inUse.nonzero
  rw [← inUse.pointer] at released
  refine ⟨T', L', released, released.inv, ?_, ?_, ?_⟩
  · have all : Disjoint (freePages L ∪ pagesOf use) reserved :=
      Set.disjoint_union_left.mpr ⟨held.off, inUse.apart⟩
    rcases released.pages with same | ⟨r, _, _, _, _, same⟩
    · rw [same]
      exact all
    · rw [same]
      exact all.mono_left Set.sdiff_subset
  · intro other inErase
    have old : other ∈ live := List.mem_of_mem_erase inErase
    have apart : other.1 / pageSize ≠ use.1 / pageSize := by
      have perm := List.perm_cons_erase member
      have distinct := perm.pairwise held.distinct fun {first second} different =>
        Ne.symm different
      exact Ne.symm ((List.pairwise_cons.mp distinct).1 other inErase)
    apply (held.inUse other old).agree released.agree
    rintro (free | inside)
    · exact Set.disjoint_left.mp ((held.inUse other old).not_free held.inv)
        (self_mem_block _ _) free
    · exact apart (T.unique (held.inUse other old).order inUse.order (self_mem_block _ _) inside)
  · exact held.distinct.sublist List.erase_sublist

/-- What `_free` does to a block in use, and to the invariant. -/
theorem Safe.released (safe : Safe reserved live s T L) {use : Nat × Nat} (member : use ∈ live) :
    ∃ T' L', Released s T L (use.1 / pageSize) (freePages L ∪ pagesOf use)
        (Mm.free s use.1) T' L' ∧ Safe reserved (live.erase use) (Mm.free s use.1) T' L' := by
  obtain ⟨T', L', released, held⟩ := safe.held.released member
  exact ⟨T', L', released, held.inv, released.noBuddies safe.noBuddies, safe.zero, held.off,
    held.inUse, held.distinct⟩

theorem Safe.retag (safe : Safe reserved live s T L) (tags : Nat → Int) :
    Safe reserved live (s.retag tags) T L where
  inv := safe.inv.retag tags
  noBuddies := safe.noBuddies
  zero := safe.zero
  off := safe.off
  inUse use member := by
    have inUse := safe.inUse use member
    exact ⟨inUse.pointer, inUse.size, inUse.order, inUse.entry, inUse.nonzero, inUse.apart⟩
  distinct := safe.distinct

end Safe

theorem Boot.safe {ranges : List (Nat × Nat)} {s : State} (boot : Boot ranges s)
    (first : 0 ∈ reservedPages ranges) :
    ∃ T L, Safe (reservedPages ranges) [] s T L := by
  obtain ⟨fitting, T, L, settled, coalesced, _⟩ := boot.fitting
  refine ⟨T, L, settled.inv, coalesced, first, ?_, ?_, .nil⟩
  · rw [← settled.inv.lists.freeSet_eq, fitting.freeSet_eq]
    exact Set.disjoint_sdiff_left
  · intro use impossible
    cases impossible

/-- The invariant holds throughout every run. -/
theorem Run.safe {ranges live : List (Nat × Nat)} {s : State} (run : Run ranges live s) :
    ∃ T L, Safe (reservedPages ranges) live s T L := by
  induction run with
  | boot boot first => exact boot.safe first
  | alloc earlier size ih =>
      obtain ⟨T, L, safe⟩ := ih
      exact safe.alloc size
  | free earlier member ih =>
      obtain ⟨T, L, safe⟩ := ih
      obtain ⟨T', L', _, next⟩ := safe.released member
      exact ⟨T', L', next⟩
  | retag earlier tags ih =>
      obtain ⟨T, L, safe⟩ := ih
      exact ⟨T, L, safe.retag tags⟩

/-- `_free` of a pointer in use does not fault. -/
theorem Run.freeOrFault {ranges live : List (Nat × Nat)} {s : State} {use : Nat × Nat}
    (run : Run ranges live s) (member : use ∈ live) :
    Mm.freeOrFault s use.1 = some (Mm.free s use.1) := by
  obtain ⟨T, L, safe⟩ := run.safe
  have inUse := safe.inUse use member
  rw [inUse.pointer]
  exact (free_spec safe.inv inUse.order inUse.entry inUse.nonzero).1

/-! ## Safety -/

/-- What the users of the allocator rely on. -/
structure BuddySafe (ranges live : List (Nat × Nat)) (s : State) : Prop where
  disjoint : live.Pairwise fun first second => Disjoint (pagesOf first) (pagesOf second)
  reserved : ∀ use ∈ live, Disjoint (pagesOf use) (reservedPages ranges)
  listed : ∀ use ∈ live, ∀ k b, OnFreeList s k b → Disjoint (pagesOf use) (block b k)
  order : ∀ size, IsLeast {k | size ≤ 2 ^ k * pageSize} (orderOf size)
  served : ∀ size, 1 ≤ size → size ≤ maxAllocSize →
    ((alloc s size).2 ≠ 0 ↔ ∃ i, orderOf size ≤ i ∧ i < maxOrder ∧ s.freeList i ≠ none)
  placed : ∀ size, 1 ≤ size → size ≤ maxAllocSize → (alloc s size).2 ≠ 0 →
    ∃ c, (alloc s size).2 = c * pageSize ∧ 2 ^ orderOf size ∣ c ∧
      (alloc s size).2 + 2 ^ orderOf size * pageSize ≤ memorySize

section Consequences

variable {reserved : Set Nat} {live : List (Nat × Nat)} {s : State} {T : PageTiling}
  {L : Nat → List Nat}

/-- A call of `_alloc` succeeds when a list of sufficient order has a block, and only then. -/
theorem Safe.served (safe : Safe reserved live s T L) {size : Nat} (positive : 1 ≤ size)
    (fits : size ≤ maxAllocSize) :
    (Mm.alloc s size).2 ≠ 0 ↔ ∃ i, orderOf size ≤ i ∧ i < maxOrder ∧ s.freeList i ≠ none := by
  rcases alloc_spec safe.inv positive fits with
    ⟨empty, result⟩ | ⟨i, c, lower, upper, head, _, address, T', L', taken⟩
  · rw [result]
    constructor
    · intro nonzero
      exact absurd rfl nonzero
    · rintro ⟨i, lower, upper, head⟩
      exact absurd (empty i lower upper) head
  · rw [address]
    obtain ⟨nonzero, _⟩ := safe.taken positive fits taken
    constructor
    · intro _
      exact ⟨i, lower, upper, by rw [head]; simp⟩
    · intro _
      exact Nat.mul_ne_zero nonzero (by decide)

theorem Safe.placed (safe : Safe reserved live s T L) {size : Nat} (positive : 1 ≤ size)
    (fits : size ≤ maxAllocSize) (success : (Mm.alloc s size).2 ≠ 0) :
    ∃ c, (Mm.alloc s size).2 = c * pageSize ∧ 2 ^ orderOf size ∣ c ∧
      (Mm.alloc s size).2 + 2 ^ orderOf size * pageSize ≤ memorySize := by
  rcases alloc_spec safe.inv positive fits with
    ⟨_, result⟩ | ⟨i, c, _, _, _, _, address, T', L', taken⟩
  · rw [result] at success
    exact absurd rfl success
  · refine ⟨c, address, T'.aligned taken.order, ?_⟩
    have within := T'.within taken.order
    rw [pageNum_eq] at within
    rw [address, ← Nat.add_mul, show memorySize = pageNum * pageSize by decide]
    exact Nat.mul_le_mul_right pageSize within

theorem Safe.buddySafe {ranges : List (Nat × Nat)} (safe : Safe (reservedPages ranges) live s T L) :
    BuddySafe ranges live s := by
  constructor
  · exact safe.disjoint
  · exact fun use member => (safe.inUse use member).apart
  · intro use member k b listed
    apply ((safe.inUse use member).not_free safe.inv).mono_right
    exact fun x inside => ⟨b, k, safe.inv.lists.onFreeList_iff.mp listed, inside⟩
  · exact order_isLeast
  · exact fun size positive fits => safe.served positive fits
  · exact fun size positive fits success => safe.placed positive fits success

end Consequences

/-- In every reachable state of the allocator blocks in use, free blocks and
reserved pages are apart, and `_alloc` serves a request whenever it can. -/
theorem run_buddySafe {ranges live : List (Nat × Nat)} {s : State} (run : Run ranges live s) :
    BuddySafe ranges live s := by
  obtain ⟨T, L, safe⟩ := run.safe
  exact safe.buddySafe

/-- The boot phase of the witnesses: the first page is reserved. -/
theorem boot_first_page :
    Boot [(0, 0x1000)] (reserve mmInit 0 0x1000) ∧ 0 ∈ reservedPages [(0, 0x1000)] := by
  refine ⟨.reserve .init ⟨by decide, by decide⟩ (fun other impossible => ?_), ?_⟩
  · cases impossible
  · exact ⟨(0, 0x1000), List.mem_cons_self, by decide, by decide⟩

/-- Three allocations, the first of them freed again. -/
def twoBlocks : State :=
  free (alloc (alloc (alloc (reserve mmInit 0 0x1000) 5000).1 4096).1 8192).1 0x2000

theorem run_twoBlocks : Run [(0, 0x1000)] [(0x4000, 8192), (0x1000, 4096)] twoBlocks := by
  have run := (((Run.boot boot_first_page.1 boot_first_page.2).alloc 5000).alloc 4096).alloc 8192
  obtain ⟨first, second, third⟩ : (alloc (reserve mmInit 0 0x1000) 5000).2 = 0x2000 ∧
      (alloc (alloc (reserve mmInit 0 0x1000) 5000).1 4096).2 = 0x1000 ∧
        (alloc (alloc (alloc (reserve mmInit 0 0x1000) 5000).1 4096).1 8192).2 = 0x4000 := by
    decide +kernel
  rw [first, second, third] at run
  have member : (0x2000, 5000) ∈ keep 0x4000 8192 (keep 0x1000 4096 (keep 0x2000 5000 [])) :=
    List.mem_cons_of_mem _ (List.mem_cons_of_mem _ List.mem_cons_self)
  exact run.free member

theorem run_buddySafe_twoBlocks :
    BuddySafe [(0, 0x1000)] [(0x4000, 8192), (0x1000, 4096)] twoBlocks :=
  run_buddySafe run_twoBlocks

/-! ## Full coalescing -/

/-- In every reachable state no two buddies below the top order are both free,
and so any aligned run of free pages can be handed out in one piece. -/
theorem run_coalesced {ranges live : List (Nat × Nat)} {s : State} (run : Run ranges live s) :
    (∀ k b, k < maxOrder - 1 → OnFreeList s k b → ¬ OnFreeList s k (getBuddy b k).toNat) ∧
      ∀ k a, k < maxOrder → 2 ^ k ∣ a → block a k ⊆ freeSet s →
        ∀ size, 1 ≤ size → size ≤ 2 ^ k * pageSize → (alloc s size).2 ≠ 0 := by
  obtain ⟨T, L, safe⟩ := run.safe
  have lists := safe.inv.lists
  constructor
  · intro k b below member
    rw [lists.onFreeList_iff] at member
    rw [lists.onFreeList_iff, getBuddy_eq (T.lt_pageNum (safe.inv.order_of_mem member))
      (lists.bounded member), Int.toNat_natCast]
    exact safe.noBuddies b k below member
  · intro k a bounded aligned covered size positive fits
    rw [lists.freeSet_eq] at covered
    obtain ⟨b, j, listed, larger, _⟩ := run_in_block safe.inv.aligned_of_mem safe.noBuddies
      (Nat.le_of_lt_succ bounded) aligned covered
    have top : 2 ^ k * pageSize ≤ maxAllocSize := by
      rw [show maxAllocSize = 2 ^ topOrder * pageSize by decide]
      exact Nat.mul_le_mul_right _ (Nat.pow_le_pow_right (by decide) (Nat.le_of_lt_succ bounded))
    rw [safe.served positive (fits.trans top)]
    refine ⟨j, ((order_isLeast size).2 fits).trans larger, lists.bounded listed, ?_⟩
    rw [ne_eq, lists.freeList_eq_none (lists.bounded listed)]
    exact List.ne_nil_of_mem listed

theorem run_coalesced_twoBlocks :
    (∀ k b, k < maxOrder - 1 → OnFreeList twoBlocks k b →
        ¬ OnFreeList twoBlocks k (getBuddy b k).toNat) ∧
      ∀ k a, k < maxOrder → 2 ^ k ∣ a → block a k ⊆ freeSet twoBlocks →
        ∀ size, 1 ≤ size → size ≤ 2 ^ k * pageSize → (alloc twoBlocks size).2 ≠ 0 :=
  run_coalesced run_twoBlocks

end OsdiKernel.Mm
