import OsdiKernel.Kmem.Statements

/-!
# Where an interrupted call takes effect

A call that was interrupted takes effect in the one statement that changes the
head of a list.  The heap is at any time the one that whole calls would leave,
but for the backward links, which nothing reads, and for the forward link of the
chunk that the call is about to add or has just removed.
-/

namespace OsdiKernel.Kmem

open Mm (pageSize pageNum pageIndex keep)

/-! ## Heaps that behave alike -/

/-- The heaps differ in backward links, and in the forward link of one header. -/
structure Alike (pending : Option Nat) (h g : Heap) : Prop where
  mm : h.mm = g.mm
  caches : h.kmemCaches = g.kmemCaches
  next : ∀ x, pending ≠ some x → h.entries.next x = g.entries.next x

section Alike

variable {pending : Option Nat} {h g : Heap}

theorem Alike.refl (pending : Option Nat) (h : Heap) : Alike pending h h := ⟨rfl, rfl, fun _ _ => rfl⟩

theorem Alike.weaken (alike : Alike none h g) (pending : Option Nat) : Alike pending h g :=
  { alike with next := fun x _ => alike.next x nofun }

theorem Alike.setNext (alike : Alike pending h g) (entry : Nat) (value : Option Nat) :
    Alike pending (h.setNext entry value) (g.setNext entry value) where
  mm := alike.mm
  caches := alike.caches
  next x other := by
    unfold Heap.setNext
    dsimp only
    by_cases here : x = entry
    · subst here
      rw [Function.update_self, Function.update_self]
    · rw [Function.update_of_ne here, Function.update_of_ne here]
      exact alike.next x other

/-- The link of the pending header may be written. -/
theorem Alike.setPending {entry : Nat} (alike : Alike (some entry) h g) (value : Option Nat) :
    Alike (some entry) (h.setNext entry value) g where
  mm := alike.mm
  caches := alike.caches
  next x other := by
    have here : x ≠ entry := fun same => other (congrArg some same.symm)
    exact (Function.update_of_ne here _ _).trans (alike.next x other)

theorem Alike.setPrev (alike : Alike pending h g) (entry : Nat) (value : Option Nat) :
    Alike pending (h.setPrev entry value) g :=
  ⟨alike.mm, alike.caches, alike.next⟩

theorem Alike.setCache (alike : Alike pending h g) (i : Nat) (f : KmemCache → KmemCache) :
    Alike pending (h.setCache i f) (g.setCache i f) where
  mm := alike.mm
  caches := by
    unfold Heap.setCache
    rw [alike.caches]
  next := alike.next

theorem Alike.setMm (alike : Alike pending h g) (mm : Mm.State) :
    Alike pending { h with mm := mm } { g with mm := mm } :=
  ⟨rfl, alike.caches, alike.next⟩

theorem Alike.setCacheOrder (alike : Alike pending h g) (page : Nat) (order : Int) :
    Alike pending (h.setCacheOrder page order) (g.setCacheOrder page order) where
  mm := by
    unfold Heap.setCacheOrder
    rw [alike.mm]
  caches := alike.caches
  next := alike.next

/-- What a push writes, apart from backward links. -/
theorem push_alike (h : Heap) (entry cache : Nat) :
    Alike none (kmemFreelistPush h entry cache)
      ((h.setNext entry (h.kmemCaches cache).freeList).setCache cache
        fun c => { c with freeList := some entry }) := by
  rw [kmemFreelistPush_eq]
  exact ⟨rfl, rfl, fun _ _ => rfl⟩

/-- What a pop writes, apart from backward links. -/
theorem pop_alike (h : Heap) {cache tmp : Nat} (head : (h.kmemCaches cache).freeList = some tmp) :
    Alike none (kmemFreelistPop h cache)
      ((h.setCache cache fun c => { c with freeList := h.entries.next tmp }).setNext tmp none) := by
  unfold kmemFreelistPop
  rw [head]
  dsimp only
  split
  · exact ⟨rfl, rfl, fun _ _ => rfl⟩
  · exact ⟨rfl, rfl, fun _ _ => rfl⟩

theorem Alike.symm (alike : Alike pending h g) : Alike pending g h :=
  ⟨alike.mm.symm, alike.caches.symm, fun x other => (alike.next x other).symm⟩

theorem Alike.trans {k : Heap} (first : Alike pending h g) (second : Alike pending g k) :
    Alike pending h k :=
  ⟨first.mm.trans second.mm, first.caches.trans second.caches, fun x other =>
    (first.next x other).trans (second.next x other)⟩

theorem Alike.freeList (alike : Alike pending h g) (cache : Nat) :
    (h.kmemCaches cache).freeList = (g.kmemCaches cache).freeList := by
  rw [alike.caches]

/-- Both heaps follow the same steps, but for backward links. -/
theorem Alike.push (alike : Alike pending h g) (entry cache : Nat) :
    Alike pending (kmemFreelistPush h entry cache) (kmemFreelistPush g entry cache) := by
  have written := (alike.setNext entry (g.kmemCaches cache).freeList).setCache cache
    fun c => { c with freeList := some entry }
  have onH := push_alike h entry cache
  rw [alike.freeList cache] at onH
  exact ((onH.weaken pending).trans written).trans ((push_alike g entry cache).weaken pending).symm

theorem Alike.pop (alike : Alike pending h g) {cache tmp : Nat}
    (head : (g.kmemCaches cache).freeList = some tmp) (other : pending ≠ some tmp) :
    Alike pending (kmemFreelistPop h cache) (kmemFreelistPop g cache) := by
  have head' : (h.kmemCaches cache).freeList = some tmp := (alike.freeList cache).trans head
  have written := (alike.setCache cache
    fun c => { c with freeList := g.entries.next tmp }).setNext tmp none
  have onH := pop_alike h head'
  rw [alike.next tmp other] at onH
  exact ((onH.weaken pending).trans written).trans ((pop_alike g head).weaken pending).symm

theorem Alike.splitChunks (alike : Alike pending h g) (cache page size count : Nat) :
    Alike pending (Kmem.splitChunks h cache page size count)
      (Kmem.splitChunks g cache page size count) := by
  induction count with
  | zero => exact alike
  | succ count ih => exact ih.push _ cache

theorem Alike.requestPage (alike : Alike pending h g) (order : Nat) :
    Alike pending (Kmem.requestPage h order) (Kmem.requestPage g order) := by
  unfold Kmem.requestPage
  dsimp only
  rw [alike.mm]
  split
  · exact alike.setMm _
  · have tagged := (alike.setMm (Mm.alloc g.mm pageSize).1).setCacheOrder
      (pageIndex (Mm.alloc g.mm pageSize).2).toNat (order + minCacheOrder)
    have size := congrArg KmemCache.cacheSize (congrFun tagged.caches order)
    rw [size]
    exact tagged.splitChunks order _ _ _

theorem Alike.free (alike : Alike pending h g) (layout : Layout) (ptr : Nat) :
    Alike pending (Kmem.free layout h ptr) (Kmem.free layout g ptr) := by
  unfold Kmem.free kfree
  rw [alike.mm]
  split
  · exact alike
  · split
    · exact alike
    · split
      · exact alike
      · split
        · dsimp only
          split
          · exact alike
          · exact alike.push _ _
        · exact alike.setMm _

end Alike

/-! ## What a call owns -/

section Owned

variable {ranges live live' pages : List (Nat × Nat)} {h : Heap} {C : Nat → List Nat}

theorem HeapInv.perm (inv : HeapInv ranges live h pages C) (same : live.Perm live') :
    HeapInv ranges live' h pages C where
  blocks := by
    obtain ⟨uses, run, perm⟩ := inv.blocks
    exact ⟨uses, run, perm.trans ((same.filter _).append_right _)⟩
  tagged := inv.tagged
  untagged := inv.untagged
  sizes := inv.sizes
  lists := inv.lists
  free := inv.free
  used use member := inv.used use (same.mem_iff.mpr member)
  distinct := same.pairwise inv.distinct fun {_ _} apart small small' => (apart small' small).symm

theorem classOf_chunkSize {cache : Nat} (class_ : cache < cacheNum) :
    classOf (chunkSize cache) = cache ∧ 1 ≤ chunkSize cache ∧ chunkSize cache ≤ maxChunkSize := by
  unfold cacheNum at class_
  match cache, class_ with
  | 0, _ => decide
  | 1, _ => decide
  | 2, _ => decide
  | 3, _ => decide

/-- A chunk that nobody has counts as one more allocation. -/
theorem HeapInv.adopt (inv : HeapInv ranges live h pages C) {entry cache : Nat}
    (class_ : cache < cacheNum) (chunk : IsChunk pages entry cache) (unlisted : ∀ c, entry ∉ C c)
    (unused : ∀ use ∈ live, use.2 ≤ maxChunkSize → use.1 ≠ entry + entrySize) :
    HeapInv ranges ((entry + entrySize, chunkSize cache) :: live) h pages C := by
  obtain ⟨sameClass, positive, small⟩ := classOf_chunkSize class_
  refine { inv with blocks := ?_, used := ?_, distinct := ?_ }
  · obtain ⟨uses, run, perm⟩ := inv.blocks
    refine ⟨uses, run, ?_⟩
    unfold held
    rw [List.filter_cons_of_neg (by simpa using small)]
    exact perm
  · intro use member below
    rcases List.mem_cons.mp member with rfl | old
    · refine ⟨positive, entry, rfl, ?_, unlisted⟩
      rw [sameClass]
      exact chunk
    · exact inv.used use old below
  · rw [List.pairwise_cons]
    exact ⟨fun use member _ below => (unused use member below).symm, inv.distinct⟩

/-- The page that `_alloc` has returned becomes a page of chunks, of which none
is on a list or in use. -/
theorem HeapInv.tagPage {ptr cache : Nat}
    (inv : HeapInv ranges ((ptr, pageSize) :: live) h pages C) (class_ : cache < cacheNum) :
    ∃ page, ptr = page * pageSize ∧
      HeapInv ranges live (h.setCacheOrder (pageIndex ptr).toNat
        ((cache + minCacheOrder : Nat) : Int)) ((page, cache) :: pages) C ∧
      ∀ j, j < chunkNum (chunkSize cache) → (∀ c, chunkAt page cache j ∉ C c) ∧
        ∀ use ∈ live, use.2 ≤ maxChunkSize → use.1 ≠ chunkAt page cache j + entrySize := by
  have large : maxChunkSize < pageSize := by decide
  have split : held ((ptr, pageSize) :: live) pages = (ptr, pageSize) :: held live pages := by
    unfold held
    rw [List.filter_cons_of_pos (by simpa using large), List.cons_append]
  obtain ⟨T, L, safe⟩ := inv.safe
  rw [split] at safe
  have inRange := inUse_lt safe List.mem_cons_self
  have pointer := (safe.inUse _ List.mem_cons_self).pointer
  dsimp only at pointer inRange
  generalize pageEq : ptr / pageSize = page at *
  have index : (pageIndex ptr).toNat = page := by
    rw [pointer, Mm.pageIndex_mul inRange, Int.toNat_natCast]
  have apart : ∀ pg ∈ pages, pg.1 ≠ page := by
    intro pg member same
    have distinct := (List.pairwise_cons.mp safe.distinct).1 (pg.1 * pageSize, pageSize)
      (page_mem_held member)
    dsimp only at distinct
    rw [pageEq, Mm.pointer_div] at distinct
    exact distinct same.symm
  -- a chunk of the new page is no chunk of the older pages
  have foreign : ∀ {e c j}, IsChunk pages e c → j < chunkNum (chunkSize cache) →
      e ≠ chunkAt page cache j := by
    rintro e c j ⟨other, i, inPages, inOther, rfl⟩ inPage same
    have here := chunk_first page inPage
    rw [← same, chunk_first other inOther] at here
    exact apart _ inPages here
  have tags : ∀ x, (h.setCacheOrder page ((cache + minCacheOrder : Nat) : Int)).mm.tags x =
      if x = page then ((cache + minCacheOrder : Nat) : Int) else h.mm.tags x := by
    intro x
    unfold Heap.setCacheOrder
    dsimp only
    rw [Mm.State.modifyPage_cacheOrder, Mm.State.tags_retag, Function.update_apply]
  refine ⟨page, pointer, ?_, fun j inPage => ⟨fun c member => foreign (inv.free member) inPage rfl,
    fun use member small same => ?_⟩⟩
  · rw [index]
    refine ⟨?_, ?_, ?_, inv.sizes, ⟨inv.lists.list, inv.lists.disjoint⟩, ?_, ?_, ?_⟩
    · obtain ⟨uses, run, perm⟩ := inv.blocks
      refine ⟨uses, (run.retag _).congr (Mm.State.modifyPage_cacheOrder _ _ _).symm, ?_⟩
      rw [split, pointer] at perm
      exact perm.trans List.perm_middle.symm
    · intro pg member
      rw [tags]
      rcases List.mem_cons.mp member with rfl | old
      · exact ⟨class_, if_pos rfl⟩
      · rw [if_neg (apart pg old)]
        exact inv.tagged pg old
    · intro x inside others
      rw [tags, if_neg (Ne.symm (others _ List.mem_cons_self))]
      exact inv.untagged x inside fun pg member => others pg (List.mem_cons_of_mem _ member)
    · exact fun member => (inv.free member).mono fun pg => List.mem_cons_of_mem _
    · intro use member small
      obtain ⟨positive, e, pointerE, chunk, off⟩ := inv.used use (List.mem_cons_of_mem _ member) small
      exact ⟨positive, e, pointerE, chunk.mono fun pg => List.mem_cons_of_mem _, off⟩
    · exact (List.pairwise_cons.mp inv.distinct).2
  · obtain ⟨_, e, pointerE, chunk, _⟩ := inv.used use (List.mem_cons_of_mem _ member) small
    exact foreign chunk inPage (Nat.add_right_cancel (pointerE.symm.trans same))

/-- The chunks from one of a page on, as allocations. -/
def chunkUses (page cache : Nat) : Nat → List (Nat × Nat)
  | 0 => []
  | count + 1 => (page + entrySize, chunkSize cache) :: chunkUses (page + stride cache) cache count

theorem chunkAt_succ (page cache j : Nat) :
    chunkAt page cache j + stride cache = chunkAt page cache (j + 1) := by
  unfold chunkAt
  rw [Nat.add_mul, Nat.one_mul, Nat.add_assoc]

theorem mem_chunkUses {page cache i count : Nat} {use : Nat × Nat}
    (member : use ∈ chunkUses (chunkAt page cache i) cache count) :
    ∃ j, i ≤ j ∧ use.1 = chunkAt page cache j + entrySize := by
  induction count generalizing i with
  | zero => cases member
  | succ count ih =>
      rcases List.mem_cons.mp member with rfl | later
      · exact ⟨i, Nat.le_refl i, rfl⟩
      · rw [chunkAt_succ] at later
        obtain ⟨j, above, same⟩ := ih later
        exact ⟨j, Nat.le_of_succ_le above, same⟩

/-- All chunks of a new page count as allocations of the call that cuts it. -/
theorem HeapInv.adoptChunks (inv : HeapInv ranges live h pages C) {page cache i count : Nat}
    (class_ : cache < cacheNum) (onPage : (page, cache) ∈ pages)
    (bounded : i + count ≤ chunkNum (chunkSize cache))
    (new : ∀ j, j < chunkNum (chunkSize cache) → (∀ c, chunkAt page cache j ∉ C c) ∧
      ∀ use ∈ live, use.2 ≤ maxChunkSize → use.1 ≠ chunkAt page cache j + entrySize) :
    HeapInv ranges (chunkUses (chunkAt page cache i) cache count ++ live) h pages C := by
  induction count generalizing i with
  | zero => exact inv
  | succ count ih =>
      have inPage : i < chunkNum (chunkSize cache) := by omega
      have later := ih (i := i + 1) (by omega)
      rw [← chunkAt_succ] at later
      refine later.adopt class_ ⟨page, i, onPage, inPage, rfl⟩ (new i inPage).1 fun use member small => ?_
      rcases List.mem_append.mp member with other | old
      · rw [chunkAt_succ] at other
        obtain ⟨j, above, same⟩ := mem_chunkUses other
        rw [same]
        intro equal
        have offsets : j * stride cache = i * stride cache :=
          Nat.add_left_cancel (Nat.add_right_cancel equal)
        have positive : 0 < stride cache := Nat.add_pos_right _ (by decide)
        have same := Nat.eq_of_mul_eq_mul_right positive offsets
        omega
      · exact (new i inPage).2 use old small

/-- An allocation may count with the whole size of its chunk. -/
theorem HeapInv.resize {ptr size : Nat} (inv : HeapInv ranges ((ptr, size) :: live) h pages C)
    (small : size ≤ maxChunkSize) :
    HeapInv ranges ((ptr, chunkSize (classOf size)) :: live) h pages C := by
  obtain ⟨_, class_, _⟩ := getChunkOrder_spec small
  obtain ⟨sameClass, positive, fits⟩ := classOf_chunkSize class_
  refine { inv with blocks := ?_, used := ?_, distinct := ?_ }
  · obtain ⟨uses, run, perm⟩ := inv.blocks
    refine ⟨uses, run, ?_⟩
    unfold held at perm ⊢
    rw [List.filter_cons_of_neg (by simpa using small)] at perm
    rw [List.filter_cons_of_neg (by simpa using fits)]
    exact perm
  · intro use member below
    rcases List.mem_cons.mp member with rfl | old
    · obtain ⟨_, e, pointer, chunk, off⟩ := inv.used _ List.mem_cons_self small
      refine ⟨positive, e, pointer, ?_, off⟩
      rw [sameClass]
      exact chunk
    · exact inv.used use (List.mem_cons_of_mem _ old) below
  · obtain ⟨first, rest⟩ := List.pairwise_cons.mp inv.distinct
    rw [List.pairwise_cons]
    exact ⟨fun use member _ below => first use member small below, rest⟩

/-- The forward link of a chunk in use does not matter. -/
theorem HeapInv.setNext (inv : HeapInv ranges live h pages C) {entry : Nat}
    (unlisted : ∀ c, entry ∉ C c) (value : Option Nat) :
    HeapInv ranges live (h.setNext entry value) pages C :=
  { inv with
    lists := {
      list := fun c => (inv.lists.list c).congr
        (fun _ member => Function.update_of_ne (ne_of_mem_of_not_mem member (unlisted c)) _ _)
        (fun _ _ => rfl)
      disjoint := inv.lists.disjoint } }

/-- The header of a chunk in use is on no list. -/
theorem HeapInv.unlisted (inv : HeapInv ranges live h pages C) {use : Nat × Nat} {entry : Nat}
    (member : use ∈ live) (small : use.2 ≤ maxChunkSize) (pointer : use.1 = entry + entrySize)
    (c : Nat) : entry ∉ C c := by
  obtain ⟨_, e, pointerE, _, off⟩ := inv.used use member small
  have same : entry = e := Nat.add_right_cancel (pointer.symm.trans pointerE)
  rw [same]
  exact off c

theorem HeapInv.head_unused (inv : HeapInv ranges live h pages C) {use : Nat × Nat} {entry : Nat}
    (member : use ∈ live) (small : use.2 ≤ maxChunkSize) (pointer : use.1 = entry + entrySize)
    (c : Nat) : (h.kmemCaches c).freeList ≠ some entry := by
  intro head
  have first := (inv.lists.list c).head_eq
  rw [head] at first
  exact inv.unlisted member small pointer c (List.mem_of_mem_head? first.symm)

/-- A whole call of `alloc` finds the same in both heaps. -/
theorem HeapInv.alloc_alike {g : Heap} {pending : Option Nat} (inv : HeapInv ranges live g pages C)
    (alike : Alike pending h g) (own : ∀ x, pending = some x →
      ∃ use ∈ live, use.2 ≤ maxChunkSize ∧ use.1 = x + entrySize) (size : Nat) :
    (Kmem.alloc h size).2 = (Kmem.alloc g size).2 ∧
      Alike pending (Kmem.alloc h size).1 (Kmem.alloc g size).1 := by
  unfold Kmem.alloc
  by_cases zero : size = 0
  · rw [if_pos zero, if_pos zero]
    exact ⟨rfl, alike⟩
  · rw [if_neg zero, if_neg zero]
    by_cases large : maxChunkSize < size
    · rw [if_pos large, if_pos large, alike.mm]
      exact ⟨rfl, alike.setMm _⟩
    · have small := Nat.le_of_not_lt large
      have class_ := (getChunkOrder_spec small).2.1
      rw [if_neg large, if_neg large, kmalloc_eq h small, kmalloc_eq g small, alike.freeList]
      dsimp only
      have refilled : ∃ pages' C', HeapInv ranges live
          (if (g.kmemCaches (classOf size)).freeList = none
            then Kmem.requestPage g (classOf size) else g) pages' C' := by
        split
        · exact inv.requestPage class_
        · exact ⟨pages, C, inv⟩
      have alike' : Alike pending (if (g.kmemCaches (classOf size)).freeList = none
            then Kmem.requestPage h (classOf size) else h)
          (if (g.kmemCaches (classOf size)).freeList = none
            then Kmem.requestPage g (classOf size) else g) := by
        split
        · exact alike.requestPage _
        · exact alike
      obtain ⟨pages', C', inv'⟩ := refilled
      rw [alike'.freeList]
      split
      · exact ⟨rfl, alike'⟩
      · next entry head =>
          refine ⟨rfl, alike'.pop head fun isPending => ?_⟩
          obtain ⟨use, member, below, pointer⟩ := own entry isPending
          exact inv'.head_unused member below pointer _ head

end Owned

end OsdiKernel.Kmem
