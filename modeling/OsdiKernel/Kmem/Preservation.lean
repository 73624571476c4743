import Mathlib.Data.List.Pairwise
import OsdiKernel.Kmem.Invariant

/-!
# Steps of the dynamic allocator

The heap invariant and the elementary steps that keep it: a block taken from
or given back to the buddy allocator, a new page of chunks, and a chunk taken
from or given back to its class.
-/

namespace OsdiKernel.Kmem

open Mm (pageSize pageNum maxAllocSize keep reservedPages pagesOf OnFreeList)

/-! ## The invariant -/

/-- The blocks that the heap holds from the buddy allocator: the large
allocations and the pages of chunks. -/
def held (live pages : List (Nat × Nat)) : List (Nat × Nat) :=
  live.filter (fun use => maxChunkSize < use.2) ++
    pages.map fun pg => (pg.1 * pageSize, pageSize)

/-- A small allocation is the payload of a chunk that is on no list. -/
structure InChunk (pages : List (Nat × Nat)) (C : Nat → List Nat) (use : Nat × Nat) : Prop where
  positive : 1 ≤ use.2
  header : ∃ e, use.1 = e + entrySize ∧ IsChunk pages e (classOf use.2) ∧ ∀ c, e ∉ C c

structure HeapInv (ranges live : List (Nat × Nat)) (h : Heap) (pages : List (Nat × Nat))
    (C : Nat → List Nat) : Prop where
  blocks : ∃ uses, Mm.Run ranges uses h.mm ∧ uses.Perm (held live pages)
  tagged : ∀ pg ∈ pages, pg.2 < cacheNum ∧ h.mm.tags pg.1 = ((pg.2 + minCacheOrder : Nat) : Int)
  untagged : ∀ x, x < pageNum → (∀ pg ∈ pages, pg.1 ≠ x) → h.mm.tags x = -1
  sizes : ∀ c, c < cacheNum → (h.kmemCaches c).cacheSize = chunkSize c
  lists : ChunkLists h C
  free : ∀ {c e}, e ∈ C c → IsChunk pages e c
  used : ∀ use ∈ live, use.2 ≤ maxChunkSize → InChunk pages C use
  distinct : live.Pairwise fun first second =>
    first.2 ≤ maxChunkSize → second.2 ≤ maxChunkSize → first.1 ≠ second.1

section HeapInv

variable {ranges live pages : List (Nat × Nat)} {h : Heap} {C : Nat → List Nat}

theorem safe_perm {reserved : Set Nat} {uses others : List (Nat × Nat)} {s : Mm.State}
    {T : Mm.PageTiling} {L : Nat → List Nat} (safe : Mm.Safe reserved uses s T L)
    (perm : uses.Perm others) : Mm.Safe reserved others s T L where
  inv := safe.inv
  noBuddies := safe.noBuddies
  zero := safe.zero
  off := safe.off
  inUse use member := safe.inUse use (perm.mem_iff.mpr member)
  distinct := perm.pairwise safe.distinct fun {_ _} other => Ne.symm other

/-- The buddy invariant, for the blocks that the heap holds. -/
theorem HeapInv.safe (inv : HeapInv ranges live h pages C) :
    ∃ T L, Mm.Safe (reservedPages ranges) (held live pages) h.mm T L := by
  obtain ⟨uses, run, perm⟩ := inv.blocks
  obtain ⟨T, L, safe⟩ := run.safe
  exact ⟨T, L, safe_perm safe perm⟩

theorem page_mem_held {pg : Nat × Nat} (member : pg ∈ pages) :
    (pg.1 * pageSize, pageSize) ∈ held live pages :=
  List.mem_append_right _ (List.mem_map.mpr ⟨pg, member, rfl⟩)

theorem large_mem_held {use : Nat × Nat} (member : use ∈ live) (large : maxChunkSize < use.2) :
    use ∈ held live pages :=
  List.mem_append_left _ (List.mem_filter.mpr ⟨member, by simpa using large⟩)

/-- A page of chunks is a block of one page. -/
theorem pagesOf_page (page : Nat) : pagesOf (page * pageSize, pageSize) = {page} := by
  have order : Mm.orderOf pageSize = 0 := by decide
  ext x
  unfold pagesOf
  rw [order, Mm.pointer_div]
  exact DyadicBlock.mem_block_zero

/-- The pages of chunks are different pages. -/
theorem HeapInv.single (inv : HeapInv ranges live h pages C) :
    ∀ pg ∈ pages, ∀ other ∈ pages, pg.1 = other.1 → pg = other := by
  obtain ⟨T, L, safe⟩ := inv.safe
  have distinct := List.pairwise_map.mp (List.pairwise_append.mp safe.distinct).2.1
  simp only [Mm.pointer_div] at distinct
  have symmetric : Std.Symm fun pg other : Nat × Nat => pg.1 ≠ other.1 := ⟨fun _ _ => Ne.symm⟩
  intro pg member other memberOther same
  by_contra different
  exact distinct.forall member memberOther different same

/-- A block in use lies in the memory of the allocator. -/
theorem inUse_lt {reserved : Set Nat} {uses : List (Nat × Nat)} {s : Mm.State}
    {T : Mm.PageTiling} {L : Nat → List Nat} (safe : Mm.Safe reserved uses s T L)
    {use : Nat × Nat} (member : use ∈ uses) : use.1 / pageSize < pageNum := by
  have within := T.within (safe.inUse use member).order
  have positive := Nat.two_pow_pos (Mm.orderOf use.2)
  rw [Mm.pageNum_eq] at within
  omega

/-! ## A new page of chunks -/

theorem keep_of_ne {ptr : Nat} (success : ptr ≠ 0) (size : Nat) (uses : List (Nat × Nat)) :
    keep ptr size uses = (ptr, size) :: uses := if_neg success

/-- A page from the buddy allocator, tagged and cut into some of its chunks. -/
theorem HeapInv.addPage (inv : HeapInv ranges live h pages C) {cache count : Nat}
    (class_ : cache < cacheNum) (bounded : count ≤ chunkNum (chunkSize cache))
    (success : (Mm.alloc h.mm pageSize).2 ≠ 0) :
    ∃ page, (Mm.alloc h.mm pageSize).2 = page * pageSize ∧
      HeapInv ranges live
        (splitChunks (({ h with mm := (Mm.alloc h.mm pageSize).1 } : Heap).setCacheOrder
            (Mm.pageIndex (Mm.alloc h.mm pageSize).2).toNat ((cache + minCacheOrder : Nat) : Int))
          cache (Mm.alloc h.mm pageSize).2 (chunkSize cache) count)
        ((page, cache) :: pages)
        (Function.update C cache (chunksOf page cache count ++ C cache)) := by
  obtain ⟨uses, run, perm⟩ := inv.blocks
  have next := run.alloc pageSize
  rw [keep_of_ne success] at next
  obtain ⟨T, L, safe⟩ := next.safe
  have inUse := safe.inUse _ List.mem_cons_self
  have inRange := inUse_lt safe List.mem_cons_self
  have pointer := inUse.pointer
  dsimp only at pointer inRange
  generalize pageEq : (Mm.alloc h.mm pageSize).2 / pageSize = page at *
  have index : (Mm.pageIndex (Mm.alloc h.mm pageSize).2).toNat = page := by
    rw [pointer, Mm.pageIndex_mul inRange, Int.toNat_natCast]
  -- the new page is none of the pages that are in use already
  have apart : ∀ pg ∈ pages, pg.1 ≠ page := by
    intro pg member same
    have distinct := (List.pairwise_cons.mp safe.distinct).1 (pg.1 * pageSize, pageSize)
      (perm.mem_iff.mpr (page_mem_held member))
    dsimp only at distinct
    rw [pageEq, Mm.pointer_div] at distinct
    exact distinct same.symm
  have fresh : ∀ j c, j < chunkNum (chunkSize cache) → chunkAt page cache j ∉ C c := by
    intro j c inPage member
    obtain ⟨other, i, inPages, inOther, same⟩ := inv.free member
    have here := chunk_first page inPage
    rw [same, chunk_first other inOther] at here
    exact apart _ inPages here
  refine ⟨page, pointer, ?_⟩
  rw [index]
  have tags : ∀ x, ((({ h with mm := (Mm.alloc h.mm pageSize).1 } : Heap).setCacheOrder page
      ((cache + minCacheOrder : Nat) : Int)).mm).tags x =
        if x = page then ((cache + minCacheOrder : Nat) : Int) else h.mm.tags x := by
    intro x
    unfold Heap.setCacheOrder
    dsimp only
    rw [Mm.State.modifyPage_cacheOrder, Mm.State.tags_retag, Mm.tags_alloc, Function.update_apply]
  have frame := splitChunks_frame (({ h with mm := (Mm.alloc h.mm pageSize).1 } :
    Heap).setCacheOrder page ((cache + minCacheOrder : Nat) : Int)) cache
      (Mm.alloc h.mm pageSize).2 (chunkSize cache) count
  have members : ∀ {c e}, e ∈ Function.update C cache (chunksOf page cache count ++ C cache) c →
      IsChunk ((page, cache) :: pages) e c := by
    intro c e member
    by_cases same : c = cache
    · subst same
      rw [Function.update_self, List.mem_append] at member
      rcases member with new | old
      · obtain ⟨j, below, rfl⟩ := mem_chunksOf.mp new
        exact ⟨page, j, List.mem_cons_self, Nat.lt_of_lt_of_le below bounded, rfl⟩
      · exact (inv.free old).mono fun pg => List.mem_cons_of_mem _
    · rw [Function.update_of_ne same] at member
      exact (inv.free member).mono fun pg => List.mem_cons_of_mem _
  constructor
  · refine ⟨((Mm.alloc h.mm pageSize).2, pageSize) :: uses, ?_, ?_⟩
    · rw [frame.1]
      exact (next.retag _).congr (Mm.State.modifyPage_cacheOrder _ _ _).symm
    · rw [pointer]
      exact (perm.cons _).trans List.perm_middle.symm
  · intro pg member
    rw [frame.1, tags]
    rcases List.mem_cons.mp member with rfl | old
    · exact ⟨class_, if_pos rfl⟩
    · rw [if_neg (apart pg old)]
      exact inv.tagged pg old
  · intro x inside others
    rw [frame.1, tags, if_neg (Ne.symm (others _ List.mem_cons_self))]
    exact inv.untagged x inside fun pg member => others pg (List.mem_cons_of_mem _ member)
  · intro c below
    rw [frame.2]
    exact inv.sizes c below
  · rw [pointer]
    apply ChunkLists.splitChunks
    · exact ⟨inv.lists.list, inv.lists.disjoint⟩
    · exact fun j c below => fresh j c (Nat.lt_of_lt_of_le below bounded)
  · exact members
  · intro use member small
    obtain ⟨positive, e, pointerE, chunk, off⟩ := inv.used use member small
    refine ⟨positive, e, pointerE, chunk.mono fun pg => List.mem_cons_of_mem _, fun c inC => ?_⟩
    by_cases same : c = cache
    · subst same
      rw [Function.update_self, List.mem_append] at inC
      rcases inC with new | old
      · -- the chunk in use lies on one of the older pages
        obtain ⟨j, below, rfl⟩ := mem_chunksOf.mp new
        obtain ⟨other, i, inPages, inOther, equal⟩ := chunk
        have here := chunk_first page (Nat.lt_of_lt_of_le below bounded)
        rw [equal, chunk_first other inOther] at here
        exact apart _ inPages here
      · exact off c old
    · rw [Function.update_of_ne same] at inC
      exact off c inC
  · exact inv.distinct

/-! ## The buddy allocator underneath -/

/-- A step of the buddy allocator that leaves the tags alone. -/
theorem HeapInv.setMm (inv : HeapInv ranges live h pages C) {mm : Mm.State}
    {live' : List (Nat × Nat)}
    (blocks : ∃ uses, Mm.Run ranges uses mm ∧ uses.Perm (held live' pages))
    (tags : mm.tags = h.mm.tags)
    (small : ∀ use ∈ live', use.2 ≤ maxChunkSize → use ∈ live)
    (distinct : live'.Pairwise fun first second =>
      first.2 ≤ maxChunkSize → second.2 ≤ maxChunkSize → first.1 ≠ second.1) :
    HeapInv ranges live' { h with mm := mm } pages C where
  blocks := blocks
  tagged pg member := by
    rw [tags]
    exact inv.tagged pg member
  untagged x inside others := by
    rw [tags]
    exact inv.untagged x inside others
  sizes := inv.sizes
  lists := ⟨inv.lists.list, inv.lists.disjoint⟩
  free := inv.free
  used use member below := inv.used use (small use member below) below
  distinct := distinct

/-- A failed call of `_alloc`. -/
theorem HeapInv.failed (inv : HeapInv ranges live h pages C) {size : Nat}
    (failure : (Mm.alloc h.mm size).2 = 0) :
    HeapInv ranges live { h with mm := (Mm.alloc h.mm size).1 } pages C := by
  obtain ⟨uses, run, perm⟩ := inv.blocks
  have next := run.alloc size
  rw [keep, if_pos failure] at next
  exact inv.setMm ⟨uses, next, perm⟩ (Mm.tags_alloc _ _) (fun _ member _ => member) inv.distinct

theorem HeapInv.allocLarge (inv : HeapInv ranges live h pages C) {size : Nat}
    (large : maxChunkSize < size) :
    HeapInv ranges (keep (Mm.alloc h.mm size).2 size live)
      { h with mm := (Mm.alloc h.mm size).1 } pages C := by
  by_cases failure : (Mm.alloc h.mm size).2 = 0
  · rw [keep, if_pos failure]
    exact inv.failed failure
  · obtain ⟨uses, run, perm⟩ := inv.blocks
    have next := run.alloc size
    rw [keep_of_ne failure] at next ⊢
    refine inv.setMm ⟨_, next, ?_⟩ (Mm.tags_alloc _ _) ?_ ?_
    · have filtered : held (((Mm.alloc h.mm size).2, size) :: live) pages =
          ((Mm.alloc h.mm size).2, size) :: held live pages := by
        unfold held
        rw [List.filter_cons_of_pos (by simpa using large), List.cons_append]
      rw [filtered]
      exact perm.cons _
    · intro use member small
      rcases List.mem_cons.mp member with rfl | old
      · exact absurd small (Nat.not_le_of_lt large)
      · exact old
    · rw [List.pairwise_cons]
      exact ⟨fun _ _ small => absurd small (Nat.not_le_of_lt large), inv.distinct⟩

theorem HeapInv.freeLarge (inv : HeapInv ranges live h pages C) {use : Nat × Nat}
    (member : use ∈ live) (large : maxChunkSize < use.2) :
    HeapInv ranges (live.erase use) { h with mm := Mm.free h.mm use.1 } pages C := by
  obtain ⟨uses, run, perm⟩ := inv.blocks
  have inUses : use ∈ uses := perm.mem_iff.mpr (large_mem_held member large)
  refine inv.setMm ⟨_, run.free inUses, ?_⟩ (Mm.tags_free _ _) ?_ ?_
  · have filtered := (List.perm_cons_erase member).filter fun use => maxChunkSize < use.2
    rw [List.filter_cons_of_pos (by simpa using large)] at filtered
    have split : (held live pages).Perm (use :: held (live.erase use) pages) :=
      filtered.append_right _
    exact (((List.perm_cons_erase inUses).symm.trans perm).trans split).cons_inv
  · exact fun other inErase _ => List.mem_of_mem_erase inErase
  · exact inv.distinct.sublist List.erase_sublist

/-! ## Chunks -/

/-- A page is added to the class, with all of its chunks but one, unless there is none left. -/
theorem HeapInv.requestPage_cases (inv : HeapInv ranges live h pages C) {cache : Nat}
    (class_ : cache < cacheNum) :
    ((Mm.alloc h.mm pageSize).2 = 0 ∧
        HeapInv ranges live (Kmem.requestPage h cache) pages C) ∨
      (Mm.alloc h.mm pageSize).2 ≠ 0 ∧ ∃ page,
        HeapInv ranges live (Kmem.requestPage h cache) ((page, cache) :: pages)
          (Function.update C cache (chunksOf page cache (chunkNum (chunkSize cache) - 1) ++ C cache)) := by
  unfold Kmem.requestPage
  dsimp only
  split
  · next failure => exact .inl ⟨failure, inv.failed failure⟩
  · next success =>
      have size : ((({ h with mm := (Mm.alloc h.mm pageSize).1 } : Heap).setCacheOrder
          (Mm.pageIndex (Mm.alloc h.mm pageSize).2).toNat
          ((cache : Int) + (minCacheOrder : Nat))).kmemCaches cache).cacheSize = chunkSize cache :=
        inv.sizes cache class_
      rw [size]
      obtain ⟨page, _, added⟩ := inv.addPage class_
        (Nat.sub_le (chunkNum (chunkSize cache)) 1) success
      exact .inr ⟨success, page, added⟩

theorem HeapInv.requestPage (inv : HeapInv ranges live h pages C) {cache : Nat}
    (class_ : cache < cacheNum) :
    ∃ pages' C', HeapInv ranges live (Kmem.requestPage h cache) pages' C' := by
  rcases inv.requestPage_cases class_ with ⟨_, same⟩ | ⟨_, page, added⟩
  · exact ⟨_, _, same⟩
  · exact ⟨_, _, added⟩

/-- Taking the first free chunk of a class. -/
theorem HeapInv.popChunk (inv : HeapInv ranges live h pages C) {size entry : Nat}
    (positive : 1 ≤ size) (small : size ≤ maxChunkSize)
    (head : (h.kmemCaches (classOf size)).freeList = some entry) :
    ∃ rest, C (classOf size) = entry :: rest ∧
      HeapInv ranges ((entry + entrySize, size) :: live) (kmemFreelistPop h (classOf size))
        pages (Function.update C (classOf size) rest) := by
  have list := inv.lists.list (classOf size)
  have first := list.head_eq
  rw [head] at first
  obtain ⟨rest, nonempty⟩ : ∃ rest, C (classOf size) = entry :: rest := by
    cases shape : C (classOf size) with
    | nil =>
        rw [shape] at first
        cases first
    | cons x rest =>
        rw [shape] at first
        cases first
        exact ⟨rest, rfl⟩
  have inClass : entry ∈ C (classOf size) := by
    rw [nonempty]
    exact List.mem_cons_self
  have distinct := list.nodup
  rw [nonempty, List.nodup_cons] at distinct
  have noPrev : h.entries.prev entry = none := by
    rw [head] at list
    exact list.head_prev
  have shape := kmemFreelistPop_eq h (classOf size) entry head noPrev
  have subset : ∀ {c e}, e ∈ Function.update C (classOf size) rest c → e ∈ C c ∧ e ≠ entry := by
    intro c e member
    by_cases same : c = classOf size
    · subst same
      rw [Function.update_self] at member
      refine ⟨?_, fun equal => distinct.1 (equal ▸ member)⟩
      rw [nonempty]
      exact List.mem_cons_of_mem entry member
    · rw [Function.update_of_ne same] at member
      refine ⟨member, ?_⟩
      rintro rfl
      exact same (inv.lists.disjoint member inClass)
  refine ⟨rest, nonempty, ?_, ?_, ?_, ?_, inv.lists.pop nonempty, ?_, ?_, ?_⟩
  · obtain ⟨uses, run, perm⟩ := inv.blocks
    refine ⟨uses, ?_, ?_⟩
    · rw [shape]
      exact run
    · unfold held
      rw [List.filter_cons_of_neg (by simpa using small)]
      exact perm
  · rw [shape]
    exact inv.tagged
  · rw [shape]
    exact inv.untagged
  · intro c below
    rw [shape]
    by_cases same : c = classOf size
    · subst same
      simp only [Function.update_self]
      exact inv.sizes _ below
    · simp only [Function.update_of_ne same]
      exact inv.sizes c below
  · exact fun member => inv.free (subset member).1
  · intro use member below
    rcases List.mem_cons.mp member with rfl | old
    · exact ⟨positive, entry, rfl, inv.free inClass, fun c inC => (subset inC).2 rfl⟩
    · obtain ⟨positiveU, e, pointer, chunk, off⟩ := inv.used use old below
      exact ⟨positiveU, e, pointer, chunk, fun c inC => off c (subset inC).1⟩
  · rw [List.pairwise_cons]
    refine ⟨?_, inv.distinct⟩
    intro use member _ below same
    obtain ⟨_, e, pointer, _, off⟩ := inv.used use member below
    have equal : entry = e := Nat.add_right_cancel (same.trans pointer)
    subst equal
    exact off _ inClass

/-- Giving a chunk back to its class. -/
theorem HeapInv.pushChunk (inv : HeapInv ranges live h pages C) {use : Nat × Nat}
    (member : use ∈ live) (small : use.2 ≤ maxChunkSize) :
    HeapInv ranges (live.erase use)
      (kmemFreelistPush h (use.1 - entrySize) (classOf use.2)) pages
      (Function.update C (classOf use.2) ((use.1 - entrySize) :: C (classOf use.2))) := by
  obtain ⟨_, entry, pointer, chunk, off⟩ := inv.used use member small
  have header : use.1 - entrySize = entry := by
    rw [pointer, Nat.add_sub_cancel]
  have members : ∀ {c e}, e ∈ Function.update C (classOf use.2) (entry :: C (classOf use.2)) c →
      (e = entry ∧ c = classOf use.2) ∨ e ∈ C c := by
    intro c e inC
    by_cases same : c = classOf use.2
    · rw [same, Function.update_self] at inC
      rcases List.mem_cons.mp inC with atHead | old
      · exact Or.inl ⟨atHead, same⟩
      · exact Or.inr (same ▸ old)
    · rw [Function.update_of_ne same] at inC
      exact Or.inr inC
  have shape := kmemFreelistPush_eq h entry (classOf use.2)
  rw [header]
  refine ⟨?_, ?_, ?_, ?_, inv.lists.push off, ?_, ?_, inv.distinct.sublist List.erase_sublist⟩
  · obtain ⟨uses, run, perm⟩ := inv.blocks
    refine ⟨uses, ?_, ?_⟩
    · rw [shape]
      exact run
    · have split := (List.perm_cons_erase member).filter fun use => maxChunkSize < use.2
      rw [List.filter_cons_of_neg (by simpa using small)] at split
      exact perm.trans (split.append_right _)
  · rw [shape]
    exact inv.tagged
  · rw [shape]
    exact inv.untagged
  · intro c below
    rw [shape]
    by_cases same : c = classOf use.2
    · rw [same]
      simp only [Function.update_self]
      exact inv.sizes _ (same ▸ below)
    · simp only [Function.update_of_ne same]
      exact inv.sizes c below
  · intro c e inC
    rcases members inC with ⟨rfl, rfl⟩ | old
    · exact chunk
    · exact inv.free old
  · intro other inErase below
    obtain ⟨positive, e, pointerOther, chunkOther, offOther⟩ :=
      inv.used other (List.mem_of_mem_erase inErase) below
    refine ⟨positive, e, pointerOther, chunkOther, fun c inC => ?_⟩
    rcases members inC with ⟨rfl, _⟩ | old
    · -- two small allocations in use have different headers
      have split := (List.perm_cons_erase member).pairwise inv.distinct
        fun {_ _} apart first second => (apart second first).symm
      exact (List.pairwise_cons.mp split).1 other inErase small below
        (pointer.trans pointerOther.symm)
    · exact offOther c old

end HeapInv

end OsdiKernel.Kmem
