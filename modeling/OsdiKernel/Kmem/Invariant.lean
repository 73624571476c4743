import OsdiKernel.Kmem.Model
import OsdiKernel.Mm.Conservation
import OsdiKernel.Mm.Tags

/-!
# The invariant of the dynamic allocator

To the buddy allocator a page of chunks is one more block in use.  The heap
invariant lists these pages with their size class; the free lists and the
pointers in use hold chunks of them, no chunk twice.
-/

namespace OsdiKernel.Kmem

open Mm (pageSize pageNum maxAllocSize keep)

/-! ## Size classes -/

def chunkSize (cache : Nat) : Nat := 1 <<< (cache + 4)

/-- The size class that serves a request of at most `MAX_CHUNK_SIZE` bytes. -/
def classOf (size : Nat) : Nat := getChunkOrder size - minCacheOrder

theorem chunkOrderLoop_spec (size : Nat) (fuel order : Nat) (enough : size ≤ 2 ^ (order + fuel)) :
    order ≤ chunkOrderLoop size fuel order ∧ size ≤ 2 ^ chunkOrderLoop size fuel order ∧
      ∀ k, order ≤ k → size ≤ 2 ^ k → chunkOrderLoop size fuel order ≤ k := by
  induction fuel generalizing order with
  | zero => exact ⟨Nat.le_refl _, enough, fun k above _ => above⟩
  | succ fuel ih =>
      unfold chunkOrderLoop
      rw [Nat.one_shiftLeft]
      split
      · next below =>
          obtain ⟨above, fits, least⟩ := ih (order + 1) (by rwa [Nat.add_assoc, Nat.add_comm 1 fuel])
          refine ⟨Nat.le_of_succ_le above, fits, fun k atLeast bound => least k ?_ bound⟩
          rcases Nat.lt_or_eq_of_le atLeast with larger | rfl
          · exact larger
          · exact absurd bound (Nat.not_le_of_lt below)
      · next reached => exact ⟨Nat.le_refl _, Nat.le_of_not_lt reached, fun k above _ => above⟩

/-- A small request has one of the four classes, and its chunks are large enough. -/
theorem getChunkOrder_spec {size : Nat} (small : size ≤ maxChunkSize) :
    getChunkOrder size = classOf size + 4 ∧ classOf size < cacheNum ∧
      size ≤ chunkSize (classOf size) := by
  have enough : size ≤ 2 ^ (4 + size) :=
    (Nat.le_of_lt Nat.lt_two_pow_self).trans (Nat.pow_le_pow_right (by decide) (Nat.le_add_left _ _))
  obtain ⟨above, fits, least⟩ := chunkOrderLoop_spec size size 4 enough
  have atMost := least 7 (by decide) small
  change 4 ≤ getChunkOrder size at above
  change getChunkOrder size ≤ 7 at atMost
  have order : getChunkOrder size = classOf size + 4 := by
    unfold classOf minCacheOrder
    omega
  refine ⟨order, ?_, ?_⟩
  · unfold cacheNum
    omega
  · rw [chunkSize, Nat.one_shiftLeft, ← order]
    exact fits

/-! ## Chunks of tagged pages -/

/-- The distance between two chunks of a class. -/
def stride (cache : Nat) : Nat := chunkSize cache + entrySize

/-- The address of the header of a chunk. -/
def chunkAt (page cache j : Nat) : Nat := page * pageSize + j * stride cache

/-- The header of a chunk of the given class on one of the listed pages. -/
def IsChunk (pages : List (Nat × Nat)) (entry cache : Nat) : Prop :=
  ∃ page j, (page, cache) ∈ pages ∧ j < chunkNum (chunkSize cache) ∧
    entry = chunkAt page cache j

theorem stride_dvd (cache : Nat) : 16 ∣ stride cache := by
  unfold stride chunkSize entrySize
  rw [Nat.one_shiftLeft, Nat.pow_add]
  exact Nat.dvd_add (Nat.dvd_mul_left 16 _) (Nat.dvd_refl 16)

theorem chunk_fits {cache j : Nat} (inPage : j < chunkNum (chunkSize cache)) :
    (j + 1) * stride cache ≤ pageSize := by
  have whole : chunkNum (chunkSize cache) * stride cache ≤ pageSize := Nat.div_mul_le_self _ _
  exact (Nat.mul_le_mul_right _ inPage).trans whole

/-- All bytes of a chunk lie on its page. -/
theorem chunk_page {page cache j y : Nat} (inPage : j < chunkNum (chunkSize cache))
    (inside : y ∈ Set.Ico (chunkAt page cache j) (chunkAt page cache j + stride cache)) :
    y / pageSize = page := by
  have fits := chunk_fits inPage
  obtain ⟨lower, upper⟩ := inside
  unfold chunkAt at lower upper
  rw [Nat.add_mul, Nat.one_mul] at fits
  rw [Nat.div_eq_iff (by decide)]
  omega

theorem chunk_first (page : Nat) {cache j : Nat} (inPage : j < chunkNum (chunkSize cache)) :
    chunkAt page cache j / pageSize = page :=
  chunk_page inPage ⟨Nat.le_refl _, Nat.lt_add_of_pos_right (Nat.add_pos_right _ (by decide))⟩

theorem IsChunk.mono {pages more : List (Nat × Nat)} {entry cache : Nat}
    (chunk : IsChunk pages entry cache) (subset : ∀ pg ∈ pages, pg ∈ more) :
    IsChunk more entry cache := by
  obtain ⟨page, j, member, inPage, same⟩ := chunk
  exact ⟨page, j, subset _ member, inPage, same⟩

theorem IsChunk.aligned {pages : List (Nat × Nat)} {entry cache : Nat}
    (chunk : IsChunk pages entry cache) : 16 ∣ entry := by
  obtain ⟨page, j, _, _, rfl⟩ := chunk
  exact Nat.dvd_add (Nat.dvd_mul_left_of_dvd (by decide) _)
    (Nat.dvd_mul_left_of_dvd (stride_dvd cache) _)

/-- Different chunks of the listed pages do not overlap. -/
theorem IsChunk.disjoint {pages : List (Nat × Nat)} {first second c d : Nat}
    (single : ∀ pg ∈ pages, ∀ other ∈ pages, pg.1 = other.1 → pg = other)
    (chunk : IsChunk pages first c) (other : IsChunk pages second d) (apart : first ≠ second) :
    Disjoint (Set.Ico first (first + stride c)) (Set.Ico second (second + stride d)) := by
  obtain ⟨page, i, member, inPage, rfl⟩ := chunk
  obtain ⟨page', j, member', inPage', rfl⟩ := other
  rw [Set.disjoint_left]
  intro y inFirst inSecond
  have samePage : page = page' := (chunk_page inPage inFirst).symm.trans (chunk_page inPage' inSecond)
  have sameClass := single _ member _ member' samePage
  cases sameClass
  have different : i ≠ j := by
    rintro rfl
    exact apart rfl
  obtain ⟨lower, upper⟩ := inFirst
  obtain ⟨lower', upper'⟩ := inSecond
  unfold chunkAt at lower upper lower' upper'
  rcases Nat.lt_or_gt_of_ne different with before | after
  · have gap : (i + 1) * stride c ≤ j * stride c := Nat.mul_le_mul_right _ before
    rw [Nat.add_mul, Nat.one_mul] at gap
    omega
  · have gap : (j + 1) * stride c ≤ i * stride c := Nat.mul_le_mul_right _ after
    rw [Nat.add_mul, Nat.one_mul] at gap
    omega

/-! ## Lists of free chunks -/

/-- The free lists of the classes, as lists of headers. -/
structure ChunkLists (h : Heap) (C : Nat → List Nat) : Prop where
  list : ∀ c, h.entries.IsList (h.kmemCaches c).freeList (C c)
  disjoint : ∀ {c d e}, e ∈ C c → e ∈ C d → c = d

section ChunkLists

variable {h : Heap} {C : Nat → List Nat} {entry cache : Nat}

theorem kmemFreelistPush_eq (h : Heap) (entry cache : Nat) :
    kmemFreelistPush h entry cache =
      { mm := h.mm
        kmemCaches := Function.update h.kmemCaches cache
          { h.kmemCaches cache with freeList := some entry }
        entries := h.entries.pushFront (h.kmemCaches cache).freeList entry } := by
  unfold kmemFreelistPush Links.pushFront
  dsimp only
  cases head : (h.kmemCaches cache).freeList <;>
    simp only [Heap.setNext, Heap.setCache, Heap.setPrev, Links.writeAt, head]

theorem kmemFreelistPop_eq (h : Heap) (cache entry : Nat)
    (head : (h.kmemCaches cache).freeList = some entry) (first : h.entries.prev entry = none) :
    kmemFreelistPop h cache =
      { mm := h.mm
        kmemCaches := Function.update h.kmemCaches cache
          { h.kmemCaches cache with freeList := h.entries.next entry }
        entries := h.entries.unlink entry } := by
  unfold kmemFreelistPop Links.unlink
  rw [head]
  dsimp only
  rw [first]
  cases later : h.entries.next entry <;>
    simp [Heap.setNext, Heap.setCache, Heap.setPrev, Links.writeAt]

theorem ChunkLists.push (lists : ChunkLists h C) (fresh : ∀ c, entry ∉ C c) :
    ChunkLists (kmemFreelistPush h entry cache)
      (Function.update C cache (entry :: C cache)) := by
  rw [kmemFreelistPush_eq]
  constructor
  · intro c
    by_cases same : c = cache
    · subst same
      simp only [Function.update_self]
      exact (lists.list c).pushFront (fresh c)
    · simp only [Function.update_of_ne same]
      apply (lists.list c).pushFront_other (fresh c)
      intro head atHead inOther
      have inCache : head ∈ C cache := by
        have first := (lists.list cache).head_eq
        rw [atHead] at first
        exact List.mem_of_mem_head? first.symm
      exact same (lists.disjoint inOther inCache)
  · have members : ∀ {c e}, e ∈ Function.update C cache (entry :: C cache) c →
        (e = entry ∧ c = cache) ∨ e ∈ C c := by
      intro c e member
      by_cases same : c = cache
      · subst same
        rw [Function.update_self] at member
        rcases List.mem_cons.mp member with atHead | old
        · exact Or.inl ⟨atHead, rfl⟩
        · exact Or.inr old
      · rw [Function.update_of_ne same] at member
        exact Or.inr member
    intro c d e inC inD
    rcases members inC with ⟨rfl, rfl⟩ | oldC
    · rcases members inD with ⟨_, rfl⟩ | oldD
      · rfl
      · exact absurd oldD (fresh d)
    · rcases members inD with ⟨rfl, rfl⟩ | oldD
      · exact absurd oldC (fresh c)
      · exact lists.disjoint oldC oldD

theorem ChunkLists.pop (lists : ChunkLists h C) {rest : List Nat}
    (nonempty : C cache = entry :: rest) :
    ChunkLists (kmemFreelistPop h cache) (Function.update C cache rest) := by
  have list := lists.list cache
  rw [nonempty] at list
  have head : (h.kmemCaches cache).freeList = some entry := list.head_eq
  have first : h.entries.prev entry = none := by
    rw [head] at list
    exact list.head_prev
  have inCache : entry ∈ C cache := by
    rw [nonempty]
    exact List.mem_cons_self
  rw [kmemFreelistPop_eq h cache entry head first]
  constructor
  · intro c
    by_cases same : c = cache
    · subst same
      simp only [Function.update_self]
      have shorter := list.unlink List.mem_cons_self
      rwa [if_pos head, List.erase_cons_head] at shorter
    · simp only [Function.update_of_ne same]
      apply (lists.list c).unlink_other
      · exact fun inC => same (lists.disjoint inC inCache)
      · intro next forward inC
        have inRest := (list.next_mem List.mem_cons_self forward).1
        rw [← nonempty] at inRest
        exact same (lists.disjoint inC inRest)
      · intro before backward
        rw [first] at backward
        cases backward
  · have subset : ∀ {c e}, e ∈ Function.update C cache rest c → e ∈ C c := by
      intro c e member
      by_cases same : c = cache
      · subst same
        rw [Function.update_self] at member
        rw [nonempty]
        exact List.mem_cons_of_mem entry member
      · rwa [Function.update_of_ne same] at member
    intro c d e inC inD
    exact lists.disjoint (subset inC) (subset inD)

/-- The headers of the first chunks of a page, the last one first. -/
def chunksOf (page cache : Nat) : Nat → List Nat
  | 0 => []
  | count + 1 => chunkAt page cache count :: chunksOf page cache count

theorem mem_chunksOf {page cache count e : Nat} :
    e ∈ chunksOf page cache count ↔ ∃ j, j < count ∧ e = chunkAt page cache j := by
  induction count with
  | zero => simp [chunksOf]
  | succ count ih =>
      rw [chunksOf, List.mem_cons, ih]
      constructor
      · rintro (same | ⟨j, below, same⟩)
        · exact ⟨count, Nat.lt_succ_self count, same⟩
        · exact ⟨j, Nat.lt_succ_of_lt below, same⟩
      · rintro ⟨j, below, same⟩
        rcases Nat.lt_succ_iff_lt_or_eq.mp below with earlier | rfl
        · exact Or.inr ⟨j, earlier, same⟩
        · exact Or.inl same

theorem chunksOf_length (page cache count : Nat) : (chunksOf page cache count).length = count := by
  induction count with
  | zero => rfl
  | succ count ih => rw [chunksOf, List.length_cons, ih]

/-- Cutting a page only changes the lists of free chunks. -/
theorem splitChunks_frame (h : Heap) (cache page size count : Nat) :
    (splitChunks h cache page size count).mm = h.mm ∧
      ∀ c, ((splitChunks h cache page size count).kmemCaches c).cacheSize =
        (h.kmemCaches c).cacheSize := by
  induction count with
  | zero => exact ⟨rfl, fun _ => rfl⟩
  | succ count ih =>
      rw [splitChunks, kmemFreelistPush_eq]
      refine ⟨ih.1, fun c => ?_⟩
      by_cases same : c = cache
      · subst same
        simp only [Function.update_self]
        exact ih.2 c
      · simp only [Function.update_of_ne same]
        exact ih.2 c

theorem ChunkLists.splitChunks (lists : ChunkLists h C) {page count : Nat}
    (fresh : ∀ j c, j < count → chunkAt page cache j ∉ C c) :
    ChunkLists (Kmem.splitChunks h cache (page * pageSize) (chunkSize cache) count)
      (Function.update C cache (chunksOf page cache count ++ C cache)) := by
  induction count with
  | zero =>
      rw [chunksOf, List.nil_append, Function.update_eq_self]
      exact lists
  | succ count ih =>
      have unused : ∀ c, chunkAt page cache count ∉
          Function.update C cache (chunksOf page cache count ++ C cache) c := by
        intro c member
        by_cases same : c = cache
        · subst same
          rw [Function.update_self, List.mem_append] at member
          rcases member with new | old
          · obtain ⟨j, below, equal⟩ := mem_chunksOf.mp new
            have positive : 0 < stride c := Nat.add_pos_right _ (by decide)
            have offsets : count * stride c = j * stride c := Nat.add_left_cancel equal
            have same := Nat.eq_of_mul_eq_mul_right positive offsets
            omega
          · exact fresh count c (Nat.lt_succ_self count) old
        · rw [Function.update_of_ne same] at member
          exact fresh count c (Nat.lt_succ_self count) member
      have pushed : ChunkLists (kmemFreelistPush _ (chunkAt page cache count) cache) _ :=
        (ih fun j c below => fresh j c (Nat.lt_succ_of_lt below)).push unused
      rw [Function.update_idem, Function.update_self] at pushed
      exact pushed

end ChunkLists

end OsdiKernel.Kmem
