import OsdiKernel.Kmem.Preservation

/-!
# Safety of the whole heap

Any sequence of `alloc` and `free` after boot keeps the heap invariant.  Two
allocations never overlap, no header lies inside an allocation, and `free`
returns every pointer to the allocator that issued it.
-/

namespace OsdiKernel.Kmem

open Mm (pageSize pageNum maxAllocSize keep reservedPages pagesOf OnFreeList)

/-! ## Boot -/

theorem boot_tags {ranges : List (Nat × Nat)} {s : Mm.State} (boot : Mm.Boot ranges s)
    {x : Nat} (inRange : x < pageNum) : s.tags x = -1 := by
  induction boot with
  | init => exact Mm.tags_mmInit inRange
  | reserve _ _ _ ih =>
      rw [Mm.tags_reserve]
      exact ih

section Boot

variable {ranges live pages : List (Nat × Nat)} {h : Heap} {C : Nat → List Nat}

/-- One round of `kmem_cache_init`, for a class without chunks. -/
theorem HeapInv.initCache (inv : HeapInv ranges live h pages C) {i : Nat} (class_ : i < cacheNum)
    (empty : C i = []) {next : Heap} (result : Kmem.initCache h i = some next) :
    ∃ pages' C', HeapInv ranges live next pages' C' ∧
      (C' i).length = chunkNum (chunkSize i) ∧ ∀ c, c ≠ i → C' c = C c := by
  have noHead : (h.kmemCaches i).freeList = none := by
    rw [(inv.lists.list i).head_eq, empty]
    rfl
  have same : ({ h.kmemCaches i with freeList := none } : KmemCache) = h.kmemCaches i := by
    rw [← noHead]
  unfold Kmem.initCache at result
  dsimp only at result
  split at result
  · cases result
  · next success =>
      obtain ⟨page, _, added⟩ := inv.addPage class_ (Nat.le_refl _) success
      have reset : ((({ h with mm := (Mm.alloc h.mm pageSize).1 } : Heap).setCacheOrder
            (Mm.pageIndex (Mm.alloc h.mm pageSize).2).toNat
            ((i : Int) + (minCacheOrder : Nat))).setCache i
              fun c => { c with freeList := none }) =
          ({ h with mm := (Mm.alloc h.mm pageSize).1 } : Heap).setCacheOrder
            (Mm.pageIndex (Mm.alloc h.mm pageSize).2).toNat
            ((i : Int) + (minCacheOrder : Nat)) := by
        unfold Heap.setCache Heap.setCacheOrder
        dsimp only
        rw [same, Function.update_eq_self]
      have size : (({ h with mm := (Mm.alloc h.mm pageSize).1 } : Heap).setCacheOrder
          (Mm.pageIndex (Mm.alloc h.mm pageSize).2).toNat
          ((i : Int) + (minCacheOrder : Nat))).kmemCaches i = h.kmemCaches i := rfl
      rw [reset, size, inv.sizes i class_] at result
      cases result
      refine ⟨_, _, added, ?_, fun c other => Function.update_of_ne other _ _⟩
      rw [Function.update_self, empty, List.append_nil, chunksOf_length]

/-- The number of classes for which `kmem_cache_init` gets a page. -/
def classesReady (h : Heap) (i : Nat) : Nat → Nat
  | 0 => 0
  | left + 1 =>
      match Kmem.initCache h i with
      | none => 0
      | some next => classesReady next (i + 1) left + 1

theorem HeapInv.initCachesFrom (inv : HeapInv ranges live h pages C) {i left : Nat}
    (bounded : i + left ≤ cacheNum) (empty : ∀ c, i ≤ c → C c = []) :
    ∃ pages' C', HeapInv ranges live (Kmem.initCachesFrom h i left) pages' C' ∧
      ∀ c, (C' c).length = if i ≤ c ∧ c < i + classesReady h i left then chunkNum (chunkSize c)
        else (C c).length := by
  induction left generalizing h pages C i with
  | zero => exact ⟨pages, C, inv, fun c => (if_neg (by unfold classesReady; omega)).symm⟩
  | succ left ih =>
      unfold Kmem.initCachesFrom classesReady
      cases result : Kmem.initCache h i with
      | none =>
          dsimp only
          refine ⟨pages, C, inv.failed ?_, fun c => (if_neg (by omega)).symm⟩
          unfold Kmem.initCache at result
          dsimp only at result
          split at result
          · next failure => exact failure
          · cases result
      | some next =>
          obtain ⟨pages', C', after, full, others⟩ :=
            inv.initCache (by omega) (empty i (Nat.le_refl i)) result
          obtain ⟨pages'', C'', done, lengths⟩ := ih after (i := i + 1) (by omega) fun c later =>
            (others c (Nat.ne_of_gt later)).trans (empty c (Nat.le_of_succ_le later))
          refine ⟨pages'', C'', done, fun c => ?_⟩
          dsimp only
          rw [lengths]
          by_cases here : c = i
          · subst here
            rw [if_neg (by omega), if_pos (by omega), full]
          · rw [others c here]
            exact if_congr (by omega) rfl rfl

/-- The number of classes that start with a page. -/
def classesCarved (mm : Mm.State) : Nat :=
  classesReady { uninitialised mm with
    kmemCaches := fun i => if i < cacheNum then ⟨1 <<< (i + 4), none⟩
      else (uninitialised mm).kmemCaches i } 0 cacheNum

/-- The heap after `kmem_cache_init`. -/
theorem kmemCacheInit_inv {mm : Mm.State} (boot : Mm.Boot ranges mm)
    (first : 0 ∈ reservedPages ranges) :
    ∃ pages C, HeapInv ranges [] (kmemCacheInit (uninitialised mm)) pages C ∧
      ∀ c, (C c).length = if c < classesCarved mm then chunkNum (chunkSize c) else 0 := by
  have start : HeapInv ranges [] { uninitialised mm with
      kmemCaches := fun i => if i < cacheNum then ⟨1 <<< (i + 4), none⟩
        else (uninitialised mm).kmemCaches i } [] fun _ => [] := by
    constructor
    · exact ⟨[], .boot boot first, .refl _⟩
    · intro pg impossible
      cases impossible
    · exact fun x inRange _ => boot_tags boot inRange
    · intro c below
      dsimp only
      rw [if_pos below]
      rfl
    · constructor
      · intro c
        have noHead : (if c < cacheNum then (⟨1 <<< (c + 4), none⟩ : KmemCache)
            else (uninitialised mm).kmemCaches c).freeList = none := by
          split <;> rfl
        dsimp only
        rw [noHead]
        exact .nil
      · intro c d e impossible
        cases impossible
    · intro c e impossible
      cases impossible
    · intro use impossible
      cases impossible
    · exact .nil
  obtain ⟨pages, C, inv, lengths⟩ := @HeapInv.initCachesFrom _ _ _ _ _ start 0 cacheNum
    (Nat.le_of_eq (Nat.zero_add cacheNum)) fun _ _ => rfl
  refine ⟨pages, C, inv, fun c => (lengths c).trans ?_⟩
  exact if_congr (by rw [Nat.zero_add]; exact and_iff_right (Nat.zero_le c)) rfl rfl

end Boot

/-! ## Runs -/

/-- The states of the heap, with the pointers in use and their sizes.  The
kernel image up to the top of the boot stack is one of the reserved ranges. -/
inductive Run (layout : Layout) (ranges : List (Nat × Nat)) : List (Nat × Nat) → Heap → Prop
  | boot {mm : Mm.State} (boot : Mm.Boot ranges mm) (first : 0 ∈ reservedPages ranges)
      (image : (imageStart, layout.stackTop) ∈ ranges) :
      Run layout ranges [] (kmemCacheInit (uninitialised mm))
  | alloc {live : List (Nat × Nat)} {h : Heap} (earlier : Run layout ranges live h) (size : Nat) :
      Run layout ranges (keep (alloc h size).2 size live) (alloc h size).1
  | free {live : List (Nat × Nat)} {h : Heap} (earlier : Run layout ranges live h)
      {use : Nat × Nat} (member : use ∈ live) :
      Run layout ranges (live.erase use) (free layout h use.1)
  | freeNull {live : List (Nat × Nat)} {h : Heap} (earlier : Run layout ranges live h) :
      Run layout ranges live (free layout h 0)

section Steps

variable {layout : Layout} {ranges live pages : List (Nat × Nat)} {h : Heap} {C : Nat → List Nat}

theorem kmalloc_eq (h : Heap) {size : Nat} (small : size ≤ maxChunkSize) :
    kmalloc h size =
      let next := if (h.kmemCaches (classOf size)).freeList = none
        then requestPage h (classOf size) else h
      match (next.kmemCaches (classOf size)).freeList with
      | none => (next, 0)
      | some entry => (kmemFreelistPop next (classOf size), entry + entrySize) := by
  obtain ⟨order, class_, _⟩ := getChunkOrder_spec small
  have positive : (1 <<< getChunkOrder size) ≠ 0 := by
    rw [Nat.one_shiftLeft]
    exact Nat.ne_of_gt (Nat.two_pow_pos _)
  have fits : ¬ maxChunkSize < 1 <<< getChunkOrder size := by
    rw [order, Nat.one_shiftLeft]
    have power : 2 ^ (classOf size + 4) ≤ 2 ^ 7 :=
      Nat.pow_le_pow_right (by decide) (by unfold cacheNum at class_; omega)
    exact Nat.not_lt.mpr power
  unfold kmalloc
  dsimp only
  rw [if_neg positive, if_neg fits]
  rfl

theorem HeapInv.alloc (inv : HeapInv ranges live h pages C) (size : Nat) :
    ∃ pages' C', HeapInv ranges (keep (Kmem.alloc h size).2 size live) (Kmem.alloc h size).1
      pages' C' := by
  unfold Kmem.alloc
  by_cases zero : size = 0
  · rw [if_pos zero]
    exact ⟨pages, C, inv⟩
  · rw [if_neg zero]
    by_cases large : maxChunkSize < size
    · rw [if_pos large]
      exact ⟨pages, C, inv.allocLarge large⟩
    · have small : size ≤ maxChunkSize := Nat.le_of_not_lt large
      obtain ⟨_, class_, _⟩ := getChunkOrder_spec small
      rw [if_neg large, kmalloc_eq h small]
      dsimp only
      have refilled : ∃ pages' C', HeapInv ranges live
          (if (h.kmemCaches (classOf size)).freeList = none
            then Kmem.requestPage h (classOf size) else h) pages' C' := by
        split
        · exact inv.requestPage class_
        · exact ⟨pages, C, inv⟩
      obtain ⟨pages', C', next⟩ := refilled
      split
      · exact ⟨pages', C', next⟩
      · next entry head =>
          obtain ⟨rest, _, popped⟩ := next.popChunk (Nat.one_le_iff_ne_zero.mpr zero) small head
          dsimp only
          rw [keep_of_ne (Nat.ne_of_gt (Nat.add_pos_right _ (by decide)))]
          exact ⟨pages', _, popped⟩

/-- An address on a page that is not reserved is outside the image. -/
theorem not_startup (image : (imageStart, layout.stackTop) ∈ ranges) {ptr : Nat}
    (outside : ptr / pageSize ∉ reservedPages ranges) : ¬ layout.startup ptr := by
  rintro ⟨lower, upper⟩
  have start := layout.image
  refine outside ⟨_, image, ?_, ?_⟩
  · exact Nat.lt_of_le_of_lt (Nat.div_mul_le_self ptr pageSize) upper
  · exact Nat.lt_of_le_of_lt (start.trans lower) (Nat.lt_mul_of_div_lt (Nat.lt_succ_self _) (by decide))

theorem index_valid {x : Nat} (inRange : x < pageNum) :
    ¬ ((x : Int) < 0 ∨ (pageNum : Int) ≤ x) := by
  omega

/-- What `free` finds at a pointer to a page in use. -/
theorem HeapInv.page_in_use (inv : HeapInv ranges live h pages C)
    (image : (imageStart, layout.stackTop) ∈ ranges) {use : Nat × Nat} {ptr : Nat}
    (member : use ∈ held live pages) (inside : ptr / pageSize ∈ pagesOf use) :
    ptr ≠ 0 ∧ ¬ layout.startup ptr ∧ ptr / pageSize < pageNum ∧
      Mm.pageIndex ptr = (ptr / pageSize : Nat) := by
  obtain ⟨T, L, safe⟩ := inv.safe
  have inUse := safe.inUse use member
  have outside : ptr / pageSize ∉ reservedPages ranges :=
    Set.disjoint_left.mp inUse.apart inside
  have within := T.within inUse.order
  rw [Mm.pageNum_eq] at within
  have inRange : ptr / pageSize < pageNum := Nat.lt_of_lt_of_le inside.2 within
  have total : Mm.memorySize = pageNum * pageSize := by decide
  refine ⟨?_, not_startup image outside, inRange, Mm.pageIndex_eq ?_⟩
  · rintro rfl
    rw [Nat.zero_div] at outside
    exact outside safe.zero
  · rw [total]
    exact Nat.lt_mul_of_div_lt inRange (by decide)

/-- A large allocation goes back to the buddy allocator. -/
theorem HeapInv.free_large (inv : HeapInv ranges live h pages C)
    (image : (imageStart, layout.stackTop) ∈ ranges) {use : Nat × Nat} (member : use ∈ live)
    (large : maxChunkSize < use.2) :
    Kmem.free layout h use.1 = { h with mm := Mm.free h.mm use.1 } := by
  obtain ⟨T, L, safe⟩ := inv.safe
  have inHeld := @large_mem_held live pages use member large
  obtain ⟨nonzero, outside, inRange, index⟩ :=
    inv.page_in_use image inHeld (DyadicBlock.self_mem_block _ _)
  have apart : ∀ pg ∈ pages, pg.1 ≠ use.1 / pageSize := by
    intro pg inPages same
    have cross := (List.pairwise_append.mp safe.distinct).2.2 use
      (List.mem_filter.mpr ⟨member, by simpa using large⟩) _
      (List.mem_map.mpr ⟨pg, inPages, rfl⟩)
    dsimp only at cross
    rw [Mm.pointer_div] at cross
    exact cross same.symm
  have tag : (h.mm.pageList (use.1 / pageSize)).cacheOrder = -1 := inv.untagged _ inRange apart
  have valid : ¬ (Mm.pageIndex use.1 < 0 ∨ (pageNum : Int) ≤ Mm.pageIndex use.1) := by
    rw [index]
    exact index_valid inRange
  unfold Kmem.free
  rw [if_neg nonzero, if_neg outside, if_neg valid, index, Int.toNat_natCast, tag,
    if_neg (not_not_intro rfl)]

/-- What `free` finds at a chunk in use: its page has the tag of its class. -/
theorem HeapInv.chunk_in_use (inv : HeapInv ranges live h pages C)
    (image : (imageStart, layout.stackTop) ∈ ranges) {use : Nat × Nat} (member : use ∈ live)
    (small : use.2 ≤ maxChunkSize) :
    use.1 ≠ 0 ∧ ¬ layout.startup use.1 ∧
      ¬ (Mm.pageIndex use.1 < 0 ∨ (pageNum : Int) ≤ Mm.pageIndex use.1) ∧
      (h.mm.pageList (Mm.pageIndex use.1).toNat).cacheOrder =
        ((classOf use.2 + minCacheOrder : Nat) : Int) ∧ classOf use.2 < cacheNum := by
  obtain ⟨_, entry, pointer, ⟨page, j, inPages, inPage, place⟩, _⟩ := inv.used use member small
  have onPage : use.1 / pageSize = page := by
    apply chunk_page inPage
    have positive : 0 < chunkSize (classOf use.2) := by
      rw [chunkSize, Nat.one_shiftLeft]
      exact Nat.two_pow_pos _
    rw [pointer, place, Set.mem_Ico, stride]
    omega
  have inside : use.1 / pageSize ∈ pagesOf (page * pageSize, pageSize) := by
    rw [pagesOf_page]
    exact onPage
  obtain ⟨nonzero, outside, inRange, index⟩ :=
    inv.page_in_use image (page_mem_held inPages) inside
  obtain ⟨class_, tag⟩ := inv.tagged _ inPages
  rw [index, Int.toNat_natCast]
  exact ⟨nonzero, outside, index_valid inRange, onPage ▸ tag, class_⟩

/-- The tag of a page of chunks is valid, and gives back the class. -/
theorem tag_valid {c : Nat} (class_ : c < cacheNum) :
    ¬ (((c + minCacheOrder : Nat) : Int) < (minCacheOrder : Nat) ∨
      ((maxCacheOrder : Nat) : Int) < ((c + minCacheOrder : Nat) : Int)) ∧
    (((c + minCacheOrder : Nat) : Int) - (minCacheOrder : Nat)).toNat = c := by
  unfold cacheNum at class_
  unfold minCacheOrder maxCacheOrder
  omega

/-- A chunk goes back to the class that its page is tagged with. -/
theorem HeapInv.kfree_small (inv : HeapInv ranges live h pages C)
    (image : (imageStart, layout.stackTop) ∈ ranges) {use : Nat × Nat} (member : use ∈ live)
    (small : use.2 ≤ maxChunkSize) :
    Kmem.kfree layout h use.1 = kmemFreelistPush h (use.1 - entrySize) (classOf use.2) := by
  obtain ⟨nonzero, outside, _, order, class_⟩ := inv.chunk_in_use image member small
  obtain ⟨known, back⟩ := tag_valid class_
  unfold kfree
  rw [order, if_neg nonzero, if_neg outside]
  dsimp only
  rw [if_neg known, back]

theorem HeapInv.free_small (inv : HeapInv ranges live h pages C)
    (image : (imageStart, layout.stackTop) ∈ ranges) {use : Nat × Nat} (member : use ∈ live)
    (small : use.2 ≤ maxChunkSize) :
    Kmem.free layout h use.1 = kmemFreelistPush h (use.1 - entrySize) (classOf use.2) := by
  obtain ⟨nonzero, outside, valid, order, _⟩ := inv.chunk_in_use image member small
  have tagged : ((classOf use.2 + minCacheOrder : Nat) : Int) ≠ -1 := by
    omega
  unfold Kmem.free
  rw [if_neg nonzero, if_neg outside, if_neg valid, order, if_pos tagged]
  exact inv.kfree_small image member small

theorem HeapInv.release (inv : HeapInv ranges live h pages C)
    (image : (imageStart, layout.stackTop) ∈ ranges) {use : Nat × Nat} (member : use ∈ live) :
    ∃ C', HeapInv ranges (live.erase use) (Kmem.free layout h use.1) pages C' := by
  by_cases large : maxChunkSize < use.2
  · rw [inv.free_large image member large]
    exact ⟨C, inv.freeLarge member large⟩
  · have small := Nat.le_of_not_lt large
    rw [inv.free_small image member small]
    exact ⟨_, inv.pushChunk member small⟩

end Steps

/-- The heap invariant holds throughout every run. -/
theorem Run.inv {layout : Layout} {ranges live : List (Nat × Nat)} {h : Heap}
    (run : Run layout ranges live h) :
    (imageStart, layout.stackTop) ∈ ranges ∧ ∃ pages C, HeapInv ranges live h pages C := by
  induction run with
  | boot boot first image =>
      obtain ⟨pages, C, inv, _⟩ := kmemCacheInit_inv boot first
      exact ⟨image, pages, C, inv⟩
  | alloc earlier size ih =>
      obtain ⟨image, pages, C, inv⟩ := ih
      exact ⟨image, inv.alloc size⟩
  | free earlier member ih =>
      obtain ⟨image, pages, C, inv⟩ := ih
      obtain ⟨C', next⟩ := inv.release image member
      exact ⟨image, pages, C', next⟩
  | freeNull earlier ih => exact ih

/-- Under the heap the buddy allocator makes a run of its own. -/
theorem Run.buddy {layout : Layout} {ranges live : List (Nat × Nat)} {h : Heap}
    (run : Run layout ranges live h) : ∃ uses, Mm.Run ranges uses h.mm := by
  obtain ⟨_, pages, C, inv⟩ := run.inv
  obtain ⟨uses, buddy, _⟩ := inv.blocks
  exact ⟨uses, buddy⟩

/-! ## Safety -/

/-- The bytes of an allocation. -/
def bytesOf (use : Nat × Nat) : Set Nat := Set.Ico use.1 (use.1 + use.2)

/-- The bytes of a set of pages. -/
def bytesIn (pages : Set Nat) : Set Nat := {y | y / pageSize ∈ pages}

/-- A `struct kmem_cache_entry` of a free chunk or of a chunk in use. -/
def IsHeader (live : List (Nat × Nat)) (h : Heap) (entry : Nat) : Prop :=
  (∃ c, c < cacheNum ∧ h.entries.Reaches (h.kmemCaches c).freeList entry) ∨
    ∃ use ∈ live, use.2 ≤ maxChunkSize ∧ use.1 = entry + entrySize

/-- What the users of the heap rely on. -/
structure HeapSafe (layout : Layout) (ranges live : List (Nat × Nat)) (h : Heap) : Prop where
  disjoint : live.Pairwise fun first second => Disjoint (bytesOf first) (bytesOf second)
  headers : ∀ use ∈ live, ∀ entry, IsHeader live h entry →
    Disjoint (bytesOf use) (Set.Ico entry (entry + entrySize))
  listed : ∀ use ∈ live, ∀ k b, OnFreeList h.mm k b →
    Disjoint (bytesOf use) (bytesIn (DyadicBlock.block b k))
  reserved : ∀ use ∈ live, Disjoint (bytesOf use) (bytesIn (reservedPages ranges))
  aligned : ∀ size, 16 ∣ (alloc h size).2
  inUse : ∀ use ∈ live, 16 ∣ use.1
  large : ∀ use ∈ live, maxChunkSize < use.2 →
    free layout h use.1 = { h with mm := Mm.free h.mm use.1 }
  small : ∀ use ∈ live, use.2 ≤ maxChunkSize →
    free layout h use.1 = kmemFreelistPush h (use.1 - entrySize) (classOf use.2)

section Safe

variable {layout : Layout} {ranges live pages : List (Nat × Nat)} {h : Heap} {C : Nat → List Nat}

theorem bytesIn_disjoint {first second : Set Nat} (apart : Disjoint first second) :
    Disjoint (bytesIn first) (bytesIn second) := by
  rw [Set.disjoint_left] at apart ⊢
  exact fun y inFirst inSecond => apart inFirst inSecond

/-- A large allocation stays within the pages of its block. -/
theorem HeapInv.large_bytes (inv : HeapInv ranges live h pages C) {use : Nat × Nat}
    (member : use ∈ live) (large : maxChunkSize < use.2) :
    bytesOf use ⊆ bytesIn (pagesOf use) := by
  obtain ⟨T, L, safe⟩ := inv.safe
  have pointer := (safe.inUse use (large_mem_held member large)).pointer
  have fits := (Mm.order_isLeast use.2).1
  rintro y ⟨lower, upper⟩
  have below : use.1 / pageSize ≤ y / pageSize := Nat.div_le_div_right lower
  refine ⟨below, ?_⟩
  rw [Nat.div_lt_iff_lt_mul (by decide), Nat.add_mul, ← pointer]
  exact Nat.lt_of_lt_of_le upper (Nat.add_le_add_left fits _)

/-- A small allocation is the payload of a chunk. -/
theorem HeapInv.small_bytes (inv : HeapInv ranges live h pages C) {use : Nat × Nat}
    (member : use ∈ live) (small : use.2 ≤ maxChunkSize) :
    ∃ entry, use.1 = entry + entrySize ∧ IsChunk pages entry (classOf use.2) ∧
      bytesOf use ⊆ Set.Ico entry (entry + stride (classOf use.2)) := by
  obtain ⟨_, entry, pointer, chunk, _⟩ := inv.used use member small
  have fits := (getChunkOrder_spec small).2.2
  refine ⟨entry, pointer, chunk, ?_⟩
  rintro y ⟨lower, upper⟩
  rw [Set.mem_Ico, stride]
  omega

/-- The bytes of a chunk belong to a block that the heap holds. -/
theorem chunk_bytes {entry c : Nat} (chunk : IsChunk pages entry c) :
    ∃ pg ∈ pages, Set.Ico entry (entry + stride c) ⊆
      bytesIn (pagesOf (pg.1 * pageSize, pageSize)) := by
  obtain ⟨page, j, member, inPage, rfl⟩ := chunk
  refine ⟨_, member, fun y inside => ?_⟩
  rw [pagesOf_page]
  exact chunk_page inPage inside

/-- Every allocation lies in a block that the heap holds. -/
theorem HeapInv.home (inv : HeapInv ranges live h pages C) {use : Nat × Nat}
    (member : use ∈ live) : ∃ home ∈ held live pages, bytesOf use ⊆ bytesIn (pagesOf home) := by
  by_cases large : maxChunkSize < use.2
  · exact ⟨use, large_mem_held member large, inv.large_bytes member large⟩
  · obtain ⟨entry, _, chunk, inside⟩ := inv.small_bytes member (Nat.le_of_not_lt large)
    obtain ⟨pg, inPages, onPage⟩ := chunk_bytes chunk
    exact ⟨_, page_mem_held inPages, inside.trans onPage⟩

/-- A large allocation has no byte on a page of chunks. -/
theorem HeapInv.large_chunk (inv : HeapInv ranges live h pages C) {use : Nat × Nat}
    (member : use ∈ live) (large : maxChunkSize < use.2) {entry c : Nat}
    (chunk : IsChunk pages entry c) :
    Disjoint (bytesOf use) (Set.Ico entry (entry + stride c)) := by
  obtain ⟨T, L, safe⟩ := inv.safe
  obtain ⟨pg, inPages, onPage⟩ := chunk_bytes chunk
  have cross := (List.pairwise_append.mp safe.disjoint).2.2 use
    (List.mem_filter.mpr ⟨member, by simpa using large⟩) _
    (List.mem_map.mpr ⟨pg, inPages, rfl⟩)
  exact (bytesIn_disjoint cross).mono (inv.large_bytes member large) onPage

/-- A relation holds between all pairs if it holds within two classes and across them. -/
theorem pairwise_of_filter {α : Type} {R : α → α → Prop} (symmetric : ∀ {a b}, R a b → R b a)
    (p : α → Bool) {l : List α} (inside : (l.filter p).Pairwise R)
    (outside : (l.filter fun a => !p a).Pairwise R)
    (across : ∀ a ∈ l, ∀ b ∈ l, p a = true → p b = false → R a b) : l.Pairwise R := by
  have both : (l.filter p ++ l.filter fun a => !p a).Pairwise R := by
    rw [List.pairwise_append]
    refine ⟨inside, outside, fun a inA b inB => ?_⟩
    rw [List.mem_filter] at inA inB
    exact across a inA.1 b inB.1 inA.2 (by simpa using inB.2)
  exact (List.filter_append_perm p l).pairwise both symmetric

theorem HeapInv.disjoint (inv : HeapInv ranges live h pages C) :
    live.Pairwise fun first second => Disjoint (bytesOf first) (bytesOf second) := by
  obtain ⟨T, L, safe⟩ := inv.safe
  apply pairwise_of_filter (fun {_ _} apart => Disjoint.symm apart)
    fun use => decide (maxChunkSize < use.2)
  · apply ((List.pairwise_append.mp safe.disjoint).1).imp_of_mem
    intro first second inFirst inSecond apart
    rw [List.mem_filter, decide_eq_true_iff] at inFirst inSecond
    exact (bytesIn_disjoint apart).mono (inv.large_bytes inFirst.1 inFirst.2)
      (inv.large_bytes inSecond.1 inSecond.2)
  · apply (inv.distinct.filter _).imp_of_mem
    intro first second inFirst inSecond apart
    rw [List.mem_filter, Bool.not_eq_true', decide_eq_false_iff_not, Nat.not_lt]
      at inFirst inSecond
    obtain ⟨entry, pointer, chunk, within⟩ := inv.small_bytes inFirst.1 inFirst.2
    obtain ⟨entry', pointer', chunk', within'⟩ := inv.small_bytes inSecond.1 inSecond.2
    have different : entry ≠ entry' := by
      rintro rfl
      exact apart inFirst.2 inSecond.2 (pointer.trans pointer'.symm)
    exact (chunk.disjoint inv.single chunk' different).mono within within'
  · intro first inFirst second inSecond large small
    rw [decide_eq_true_iff] at large
    rw [decide_eq_false_iff_not, Nat.not_lt] at small
    obtain ⟨entry, _, chunk, within⟩ := inv.small_bytes inSecond small
    exact (inv.large_chunk inFirst large chunk).mono_right within

theorem HeapInv.headers (inv : HeapInv ranges live h pages C) {use : Nat × Nat}
    (member : use ∈ live) {entry : Nat} (header : IsHeader live h entry) :
    Disjoint (bytesOf use) (Set.Ico entry (entry + entrySize)) := by
  have isChunk : ∃ c, IsChunk pages entry c := by
    rcases header with ⟨c, below, reached⟩ | ⟨other, inLive, small, pointer⟩
    · exact ⟨c, inv.free ((inv.lists.list c).mem_iff_reaches.mpr reached)⟩
    · obtain ⟨entry', pointer', chunk, _⟩ := inv.small_bytes inLive small
      have same : entry = entry' := Nat.add_right_cancel (pointer.symm.trans pointer')
      exact ⟨_, same ▸ chunk⟩
  obtain ⟨c, chunk⟩ := isChunk
  have inChunk : Set.Ico entry (entry + entrySize) ⊆ Set.Ico entry (entry + stride c) := by
    apply Set.Ico_subset_Ico_right
    unfold stride
    omega
  by_cases large : maxChunkSize < use.2
  · exact (inv.large_chunk member large chunk).mono_right inChunk
  · obtain ⟨own, pointer, ownChunk, within⟩ := inv.small_bytes member (Nat.le_of_not_lt large)
    by_cases same : own = entry
    · -- the header of the allocation itself comes before its bytes
      rw [Set.disjoint_left]
      rintro y ⟨lower, _⟩ ⟨_, upper⟩
      omega
    · exact (ownChunk.disjoint inv.single chunk same).mono within inChunk

theorem HeapInv.aligned (inv : HeapInv ranges live h pages C) {use : Nat × Nat}
    (member : use ∈ live) : 16 ∣ use.1 := by
  by_cases large : maxChunkSize < use.2
  · obtain ⟨T, L, safe⟩ := inv.safe
    rw [(safe.inUse use (large_mem_held member large)).pointer]
    exact Nat.dvd_mul_left_of_dvd (by decide) _
  · obtain ⟨entry, pointer, chunk, _⟩ := inv.small_bytes member (Nat.le_of_not_lt large)
    rw [pointer]
    exact Nat.dvd_add chunk.aligned (by decide)

theorem HeapInv.heapSafe (inv : HeapInv ranges live h pages C)
    (image : (imageStart, layout.stackTop) ∈ ranges) : HeapSafe layout ranges live h := by
  obtain ⟨T, L, safe⟩ := inv.safe
  constructor
  · exact inv.disjoint
  · exact fun use member entry header => inv.headers member header
  · intro use member k b listed
    obtain ⟨home, inHeld, within⟩ := inv.home member
    have apart := ((safe.inUse home inHeld).not_free safe.inv).mono_right
      fun x inside => ⟨b, k, safe.inv.lists.onFreeList_iff.mp listed, inside⟩
    exact (bytesIn_disjoint apart).mono_left within
  · intro use member
    obtain ⟨home, inHeld, within⟩ := inv.home member
    exact (bytesIn_disjoint (safe.inUse home inHeld).apart).mono_left within
  · intro size
    by_cases failure : (Kmem.alloc h size).2 = 0
    · rw [failure]
      exact Nat.dvd_zero 16
    · obtain ⟨pages', C', next⟩ := inv.alloc size
      rw [keep_of_ne failure] at next
      exact next.aligned List.mem_cons_self
  · exact fun use member => inv.aligned member
  · exact fun use member large => inv.free_large image member large
  · exact fun use member small => inv.free_small image member small

end Safe

/-- In every reachable state of the heap allocations do not overlap each other,
a header, a free block or a reserved page, and every pointer in use goes back
to where it came from. -/
theorem run_heapSafe {layout : Layout} {ranges live : List (Nat × Nat)} {h : Heap}
    (run : Run layout ranges live h) : HeapSafe layout ranges live h := by
  obtain ⟨image, pages, C, inv⟩ := run.inv
  exact inv.heapSafe image

/-! ## The heap for its users -/

section Users

variable {layout : Layout} {ranges live : List (Nat × Nat)} {h : Heap}

/-- A pointer in use is not null, and its allocation is not empty. -/
theorem Run.use_positive (run : Run layout ranges live h) {use : Nat × Nat} (member : use ∈ live) :
    use.1 ≠ 0 ∧ 1 ≤ use.2 := by
  obtain ⟨_, pages, C, inv⟩ := run.inv
  by_cases large : maxChunkSize < use.2
  · obtain ⟨T, L, safe⟩ := inv.safe
    have inUse := safe.inUse use (large_mem_held member large)
    refine ⟨fun null => inUse.nonzero ?_, inUse.size.1⟩
    rw [null]
    exact Nat.zero_div pageSize
  · obtain ⟨positive, entry, pointer, _⟩ := inv.used use member (Nat.le_of_not_lt large)
    refine ⟨fun null => ?_, positive⟩
    rw [null] at pointer
    unfold entrySize at pointer
    omega

theorem Run.apart (run : Run layout ranges live h) {use other : Nat × Nat} (member : use ∈ live)
    (memberOther : other ∈ live) (different : use ≠ other) :
    use.1 + use.2 ≤ other.1 ∨ other.1 + other.2 ≤ use.1 := by
  obtain ⟨_, pages, C, inv⟩ := run.inv
  have symmetric : Std.Symm fun first second : Nat × Nat =>
      Disjoint (bytesOf first) (bytesOf second) := ⟨fun _ _ apart => apart.symm⟩
  have disjoint := inv.disjoint.forall member memberOther different
  have positive := (run.use_positive member).2
  have positiveOther := (run.use_positive memberOther).2
  rw [Set.disjoint_left] at disjoint
  by_contra overlap
  have first : max use.1 other.1 ∈ bytesOf use := by
    rw [bytesOf, Set.mem_Ico]
    omega
  have second : max use.1 other.1 ∈ bytesOf other := by
    rw [bytesOf, Set.mem_Ico]
    omega
  exact disjoint first second

/-- An allocation lies within the memory. -/
theorem Run.within (run : Run layout ranges live h) {use : Nat × Nat} (member : use ∈ live) :
    use.1 + use.2 ≤ Mm.memorySize := by
  obtain ⟨image, pages, C, inv⟩ := run.inv
  obtain ⟨home, inUse, bytes⟩ := inv.home member
  have positive := (run.use_positive member).2
  have last : use.1 + use.2 - 1 ∈ bytesOf use := by
    rw [bytesOf, Set.mem_Ico]
    omega
  have inRange := (inv.page_in_use image inUse (bytes last)).2.2.1
  have below := Nat.lt_mul_of_div_lt inRange (by decide)
  have total : Mm.memorySize = pageNum * pageSize := by decide
  omega

/-- A successful call of `alloc` had a positive size within the limit. -/
theorem alloc_bounds {size : Nat} (success : (alloc h size).2 ≠ 0) :
    1 ≤ size ∧ size ≤ maxAllocSize := by
  unfold alloc at success
  split at success
  · exact absurd rfl success
  · next positive =>
      refine ⟨Nat.one_le_iff_ne_zero.mpr positive, ?_⟩
      split at success
      · refine Nat.le_of_not_lt fun beyond => success ?_
        dsimp only
        rw [Mm.alloc_invalid h.mm (Or.inr beyond)]
      · next small => exact (Nat.le_of_not_lt small).trans (by decide)

/-- A new allocation is none of those in use. -/
theorem Run.fresh (run : Run layout ranges live h) {size : Nat} (success : (Kmem.alloc h size).2 ≠ 0)
    {use : Nat × Nat} (member : use ∈ live) : use.1 ≠ (Kmem.alloc h size).2 := by
  intro same
  have next := run.alloc size
  rw [keep_of_ne success] at next
  obtain ⟨_, pages, C, inv⟩ := next.inv
  have disjoint := (List.pairwise_cons.mp inv.disjoint).1 use member
  have positive := (run.use_positive member).2
  rw [Set.disjoint_left] at disjoint
  apply disjoint (a := use.1)
  · rw [bytesOf, Set.mem_Ico]
    have bounds := alloc_bounds success
    omega
  · rw [bytesOf, Set.mem_Ico]
    omega

end Users

/-- A reserved range lies in memory. -/
theorem Run.valid {layout : Layout} {ranges live : List (Nat × Nat)} {h : Heap}
    (run : Run layout ranges live h) {range : Nat × Nat} (member : range ∈ ranges) :
    Mm.ValidRange range := by
  induction run with
  | boot boot => exact boot.valid member
  | alloc _ _ ih => exact ih
  | free _ _ ih => exact ih
  | freeNull _ ih => exact ih

/-- An image of one page after its start, as the linker script places it. -/
def smallImage : Layout where
  bssEnd := 0x81000
  stackTop := 0x91000
  image := by decide

theorem smallImage_boot :
    Mm.Boot [(imageStart, smallImage.stackTop), (0, 0x1000)]
        (Mm.reserve (Mm.reserve Mm.mmInit 0 0x1000) imageStart smallImage.stackTop) ∧
      0 ∈ reservedPages [(imageStart, smallImage.stackTop), (0, 0x1000)] := by
  refine ⟨.reserve Mm.boot_first_page.1 ⟨by decide, by decide⟩ (fun other member => ?_), ?_⟩
  · rw [List.mem_singleton.mp member]
    exact Or.inr (by decide)
  · exact ⟨(0, 0x1000), List.mem_cons_of_mem _ List.mem_cons_self, by decide, by decide⟩

/-- The heap of a kernel that has just booted from the small image. -/
def bootedHeap : Heap := kmemCacheInit (uninitialised
  (Mm.reserve (Mm.reserve Mm.mmInit 0 0x1000) imageStart smallImage.stackTop))

theorem bootedHeap_run :
    Run smallImage [(imageStart, smallImage.stackTop), (0, 0x1000)] [] bootedHeap :=
  .boot smallImage_boot.1 smallImage_boot.2 List.mem_cons_self

/-- One small and one large allocation after boot. -/
theorem run_heapSafe_two :
    let booted := kmemCacheInit (uninitialised
      (Mm.reserve (Mm.reserve Mm.mmInit 0 0x1000) imageStart smallImage.stackTop))
    HeapSafe smallImage [(imageStart, smallImage.stackTop), (0, 0x1000)]
      [((alloc (alloc booted 20).1 5000).2, 5000), ((alloc booted 20).2, 20)]
      (alloc (alloc booted 20).1 5000).1 := by
  intro booted
  have start : Run smallImage [(imageStart, smallImage.stackTop), (0, 0x1000)] [] booted := bootedHeap_run
  have run := (start.alloc 20).alloc 5000
  rw [keep_of_ne (by decide +kernel : (alloc booted 20).2 ≠ 0),
    keep_of_ne (by decide +kernel : (alloc (alloc booted 20).1 5000).2 ≠ 0)] at run
  exact run_heapSafe run

end OsdiKernel.Kmem
