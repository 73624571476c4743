import OsdiKernel.Kmem.Safety

/-!
# How many chunks there are

A page of chunks stays with its class, and a chunk that is cut from it is on
the free list or in use.  The loop of `request_page` cuts one chunk less from a
page than the loop of `kmem_cache_init`, so every page that is requested later
loses one.
-/

namespace OsdiKernel.Kmem

open Mm (pageSize keep)

/-! ## Runs with their pages -/

/-- The call of `kmalloc` gets a new page for its class. -/
def RefillsPage (h : Heap) (size : Nat) : Prop :=
  size ≤ maxChunkSize ∧ (h.kmemCaches (classOf size)).freeList = none ∧
    (Mm.alloc h.mm pageSize).2 ≠ 0

instance (h : Heap) (size : Nat) : Decidable (RefillsPage h size) := by
  unfold RefillsPage
  infer_instance

/-- The pages that `request_page` has acquired for each class, after a call of `kmalloc`. -/
def afterKmalloc (h : Heap) (size : Nat) (requested : Nat → Nat) : Nat → Nat :=
  if RefillsPage h size then
    Function.update requested (classOf size) (requested (classOf size) + 1)
  else requested

/-- The states of the heap with the pointers in use and, for each class, the
pages that `kmem_cache_init` and that `request_page` have acquired for it.  A
request for no bytes gets a chunk of the first class. -/
inductive Served (layout : Layout) (ranges : List (Nat × Nat)) :
    List (Nat × Nat) → Heap → (Nat → Nat) → (Nat → Nat) → Prop
  | boot {mm : Mm.State} (boot : Mm.Boot ranges mm) (first : 0 ∈ Mm.reservedPages ranges)
      (image : (imageStart, layout.stackTop) ∈ ranges) :
      Served layout ranges [] (kmemCacheInit (uninitialised mm))
        (fun c => if c < classesCarved mm then 1 else 0) fun _ => 0
  | kmalloc {live : List (Nat × Nat)} {h : Heap} {initial requested : Nat → Nat}
      (earlier : Served layout ranges live h initial requested) (size : Nat) :
      Served layout ranges (keep (kmalloc h size).2 (max 1 size) live) (kmalloc h size).1 initial
        (afterKmalloc h size requested)
  | kfree {live : List (Nat × Nat)} {h : Heap} {initial requested : Nat → Nat}
      (earlier : Served layout ranges live h initial requested) {use : Nat × Nat}
      (member : use ∈ live) (small : use.2 ≤ maxChunkSize) :
      Served layout ranges (live.erase use) (kfree layout h use.1) initial requested
  | pageAlloc {live : List (Nat × Nat)} {h : Heap} {initial requested : Nat → Nat}
      (earlier : Served layout ranges live h initial requested) {size : Nat}
      (large : maxChunkSize < size) :
      Served layout ranges (keep (alloc h size).2 size live) (alloc h size).1 initial requested
  | pageFree {live : List (Nat × Nat)} {h : Heap} {initial requested : Nat → Nat}
      (earlier : Served layout ranges live h initial requested) {use : Nat × Nat}
      (member : use ∈ live) (large : maxChunkSize < use.2) :
      Served layout ranges (live.erase use) (free layout h use.1) initial requested

/-- The number of chunks of a class that are in use. -/
def liveChunks (live : List (Nat × Nat)) (c : Nat) : Nat :=
  live.countP fun use => use.2 ≤ maxChunkSize ∧ classOf use.2 = c

/-- The chunks of a class that are free or in use are as many as fit in so many pages. -/
def Conserves (h : Heap) (live : List (Nat × Nat)) (pages c : Nat) : Prop :=
  ∃ free, h.entries.IsList (h.kmemCaches c).freeList free ∧
    free.length + liveChunks live c = pages * chunkNum (chunkSize c)

/-! ## Counting -/

section Live

variable {live : List (Nat × Nat)} {use : Nat × Nat} {ptr size c : Nat}

theorem liveChunks_large (large : maxChunkSize < use.2) :
    liveChunks (use :: live) c = liveChunks live c :=
  List.countP_cons_of_neg (by simpa using fun small => absurd small (Nat.not_le_of_lt large))

theorem liveChunks_small (small : use.2 ≤ maxChunkSize) :
    liveChunks (use :: live) c = liveChunks live c + if classOf use.2 = c then 1 else 0 := by
  unfold liveChunks
  rw [List.countP_cons]
  simp [small]

theorem liveChunks_erase (member : use ∈ live) :
    liveChunks (use :: live.erase use) c = liveChunks live c :=
  (List.perm_cons_erase member).symm.countP_eq _

theorem classOf_max (size : Nat) : classOf (max 1 size) = classOf size := by
  rcases Nat.eq_zero_or_pos size with rfl | positive
  · decide
  · rw [Nat.max_eq_right positive]

end Live

theorem kmalloc_large (h : Heap) {size : Nat} (large : maxChunkSize < size) :
    kmalloc h size = (h, 0) := by
  have enough : size ≤ 2 ^ (4 + size) :=
    (Nat.le_of_lt Nat.lt_two_pow_self).trans (Nat.pow_le_pow_right (by decide) (Nat.le_add_left _ _))
  obtain ⟨_, fits, _⟩ := chunkOrderLoop_spec size size 4 enough
  have tooLarge : maxChunkSize < 1 <<< getChunkOrder size := by
    rw [Nat.one_shiftLeft]
    exact Nat.lt_of_lt_of_le large fits
  unfold kmalloc
  dsimp only
  rw [if_neg (Nat.ne_of_gt (Nat.lt_of_le_of_lt (Nat.zero_le _) tooLarge)), if_pos tooLarge]

/-- The invariant of a run: the heap is in order, and the chunks of every class
are those of its pages, less one for each page that was requested. -/
structure Counts (ranges live : List (Nat × Nat)) (h : Heap) (initial requested : Nat → Nat) :
    Prop where
  inv : ∃ pages C, HeapInv ranges live h pages C ∧ ∀ c, c < cacheNum →
    (C c).length + liveChunks live c + requested c =
      (initial c + requested c) * chunkNum (chunkSize c)

section Steps

variable {layout : Layout} {ranges live : List (Nat × Nat)} {h : Heap} {initial requested : Nat → Nat}

theorem chunkNum_pos {c : Nat} (class_ : c < cacheNum) : 1 ≤ chunkNum (chunkSize c) := by
  have cases_ : c = 0 ∨ c = 1 ∨ c = 2 ∨ c = 3 := by
    unfold cacheNum at class_
    omega
  rcases cases_ with rfl | rfl | rfl | rfl <;> decide

/-- A refill adds the chunks of its page but one. -/
theorem Counts.refill (counts : Counts ranges live h initial requested) {size : Nat}
    (small : size ≤ maxChunkSize) :
    Counts ranges live
      (if (h.kmemCaches (classOf size)).freeList = none then requestPage h (classOf size) else h)
      initial (afterKmalloc h size requested) := by
  obtain ⟨pages, C, inv, counted⟩ := counts.inv
  obtain ⟨_, class_, _⟩ := getChunkOrder_spec small
  unfold afterKmalloc
  by_cases empty : (h.kmemCaches (classOf size)).freeList = none
  · rw [if_pos empty]
    rcases inv.requestPage_cases class_ with ⟨failure, same⟩ | ⟨success, page, added⟩
    · rw [if_neg fun refills : RefillsPage h size => refills.2.2 failure]
      exact ⟨pages, C, same, counted⟩
    · have refills : RefillsPage h size := ⟨small, empty, success⟩
      rw [if_pos refills]
      refine ⟨_, _, added, fun c class_ => ?_⟩
      have before := counted c class_
      by_cases same : c = classOf size
      · subst same
        have positive := chunkNum_pos class_
        have more : (initial (classOf size) + (requested (classOf size) + 1)) *
            chunkNum (chunkSize (classOf size)) = (initial (classOf size) + requested (classOf size)) *
              chunkNum (chunkSize (classOf size)) + chunkNum (chunkSize (classOf size)) :=
          Nat.add_one_mul _ _
        rw [Function.update_self, Function.update_self, List.length_append, chunksOf_length, more,
          ← before]
        omega
      · rw [Function.update_of_ne same, Function.update_of_ne same]
        exact before
  · rw [if_neg empty, if_neg fun refills : RefillsPage h size => empty refills.2.1]
    exact ⟨pages, C, inv, counted⟩

theorem Counts.kmalloc (counts : Counts ranges live h initial requested) (size : Nat) :
    Counts ranges (keep (Kmem.kmalloc h size).2 (max 1 size) live) (Kmem.kmalloc h size).1 initial
      (afterKmalloc h size requested) := by
  by_cases large : maxChunkSize < size
  · rw [kmalloc_large h large]
    unfold afterKmalloc
    rw [if_neg fun refills : RefillsPage h size => Nat.not_le_of_lt large refills.1]
    exact counts
  · have small := Nat.le_of_not_lt large
    obtain ⟨pages, C, inv, counted⟩ := (counts.refill small).inv
    rw [kmalloc_eq h small]
    dsimp only
    split
    · exact ⟨pages, C, inv, counted⟩
    · next entry head =>
        have least : max 1 size ≤ maxChunkSize := Nat.max_le.mpr ⟨by decide, small⟩
        have class_ := classOf_max size
        obtain ⟨rest, nonempty, popped⟩ :=
          inv.popChunk (Nat.le_max_left 1 size) least (by rw [class_]; exact head)
        rw [classOf_max] at nonempty popped
        dsimp only
        rw [keep_of_ne (Nat.ne_of_gt (Nat.add_pos_right _ (by decide)))]
        refine ⟨pages, _, popped, fun c class_ => ?_⟩
        rw [← counted c class_, liveChunks_small least, classOf_max]
        by_cases same : c = classOf size
        · subst same
          rw [Function.update_self, if_pos rfl, nonempty, List.length_cons]
          omega
        · rw [Function.update_of_ne same, if_neg (Ne.symm same)]
          rfl

theorem Counts.kfree (counts : Counts ranges live h initial requested)
    (image : (imageStart, layout.stackTop) ∈ ranges) {use : Nat × Nat} (member : use ∈ live)
    (small : use.2 ≤ maxChunkSize) :
    Counts ranges (live.erase use) (Kmem.kfree layout h use.1) initial requested := by
  obtain ⟨pages, C, inv, counted⟩ := counts.inv
  rw [inv.kfree_small image member small]
  refine ⟨pages, _, inv.pushChunk member small, fun c class_ => ?_⟩
  have before := counted c class_
  rw [← liveChunks_erase member, liveChunks_small small] at before
  by_cases same : c = classOf use.2
  · subst same
    rw [Function.update_self, List.length_cons, ← before, if_pos rfl]
    omega
  · rw [Function.update_of_ne same]
    rw [if_neg (Ne.symm same)] at before
    exact before

theorem Counts.pageAlloc (counts : Counts ranges live h initial requested) {size : Nat}
    (large : maxChunkSize < size) :
    Counts ranges (keep (Kmem.alloc h size).2 size live) (Kmem.alloc h size).1 initial requested := by
  obtain ⟨pages, C, inv, counted⟩ := counts.inv
  unfold Kmem.alloc
  rw [if_neg (by omega), if_pos large]
  refine ⟨pages, C, inv.allocLarge large, fun c class_ => ?_⟩
  have same : liveChunks (keep (Mm.alloc h.mm size).2 size live) c = liveChunks live c := by
    unfold keep
    split
    · rfl
    · exact liveChunks_large large
  dsimp only
  rw [same]
  exact counted c class_

theorem Counts.pageFree (counts : Counts ranges live h initial requested)
    (image : (imageStart, layout.stackTop) ∈ ranges) {use : Nat × Nat} (member : use ∈ live)
    (large : maxChunkSize < use.2) :
    Counts ranges (live.erase use) (Kmem.free layout h use.1) initial requested := by
  obtain ⟨pages, C, inv, counted⟩ := counts.inv
  rw [inv.free_large image member large]
  refine ⟨pages, C, inv.freeLarge member large, fun c class_ => ?_⟩
  rw [← counted c class_, ← liveChunks_erase member, liveChunks_large large]

/-- The chunks are counted right in every state that is reached. -/
theorem Served.counts (served : Served layout ranges live h initial requested) :
    (imageStart, layout.stackTop) ∈ ranges ∧ Counts ranges live h initial requested := by
  induction served with
  | boot boot first image =>
      obtain ⟨pages, C, inv, lengths⟩ := kmemCacheInit_inv boot first
      refine ⟨image, pages, C, inv, fun c _ => ?_⟩
      rw [lengths]
      split
      · exact (Nat.one_mul _).symm
      · exact (Nat.zero_mul _).symm
  | kmalloc earlier size ih => exact ⟨ih.1, ih.2.kmalloc size⟩
  | kfree earlier member small ih => exact ⟨ih.1, ih.2.kfree ih.1 member small⟩
  | pageAlloc earlier large ih => exact ⟨ih.1, ih.2.pageAlloc large⟩
  | pageFree earlier member large ih => exact ⟨ih.1, ih.2.pageFree ih.1 member large⟩

/-- In every run the chunks of a class are as many as fit in its pages, just if
none of these pages was acquired by `request_page`. -/
theorem chunks_conserved_iff (served : Served layout ranges live h initial requested) {c : Nat}
    (class_ : c < cacheNum) :
    Conserves h live (initial c + requested c) c ↔ requested c = 0 := by
  obtain ⟨_, pages, C, inv, counted⟩ := served.counts
  have exact_ := counted c class_
  have list := inv.lists.list c
  constructor
  · rintro ⟨free, isList, conserved⟩
    rw [isList.nodes_unique list] at conserved
    omega
  · intro none_
    refine ⟨C c, list, ?_⟩
    omega

end Steps

/-! ## A class that runs out -/

theorem bootedHeap_served : Served smallImage [(imageStart, smallImage.stackTop), (0, 0x1000)] []
    bootedHeap (fun c => if c < 4 then 1 else 0) fun _ => 0 := by
  have carved : classesCarved (Mm.reserve (Mm.reserve Mm.mmInit 0 0x1000) imageStart
      smallImage.stackTop) = 4 := by decide +kernel
  have served : Served smallImage [(imageStart, smallImage.stackTop), (0, 0x1000)] [] bootedHeap _ _ :=
    .boot smallImage_boot.1 smallImage_boot.2 List.mem_cons_self
  rw [carved] at served
  exact served

/-- Two requests for the largest chunks. -/
def firstLargest : Heap × Nat := kmalloc bootedHeap maxChunkSize

def secondLargest : Heap × Nat := kmalloc firstLargest.1 maxChunkSize

/-- The pages requested meanwhile. -/
def requestedPages : Nat → Nat :=
  afterKmalloc firstLargest.1 maxChunkSize (afterKmalloc bootedHeap maxChunkSize fun _ => 0)

/-- Of two chunks the first is released. -/
theorem served_release {layout : Layout} {ranges : List (Nat × Nat)} {p q size : Nat} {h : Heap}
    {initial requested : Nat → Nat}
    (served : Served layout ranges (keep q size (keep p size [])) h initial requested)
    (first : p ≠ 0) (second : q ≠ 0) (apart : p ≠ q) (small : size ≤ maxChunkSize) :
    Served layout ranges [(q, size)] (kfree layout h p) initial requested := by
  have live : keep q size (keep p size []) = [(q, size), (p, size)] := by
    unfold keep
    rw [if_neg second, if_neg first]
  rw [live] at served
  have released := served.kfree (List.mem_cons_of_mem _ List.mem_cons_self) small
  have erased : [(q, size), (p, size)].erase (p, size) = [(q, size)] := by simp [apart.symm]
  rw [erased] at released
  exact released

theorem releasedLargest_served : Served smallImage [(imageStart, smallImage.stackTop), (0, 0x1000)]
    [(secondLargest.2, maxChunkSize)] (kfree smallImage secondLargest.1 firstLargest.2)
    (fun c => if c < 4 then 1 else 0) requestedPages := by
  obtain ⟨first, second, apart⟩ : firstLargest.2 ≠ 0 ∧ secondLargest.2 ≠ 0 ∧
      firstLargest.2 ≠ secondLargest.2 := by decide +kernel
  have served : Served smallImage [(imageStart, smallImage.stackTop), (0, 0x1000)]
      (keep secondLargest.2 maxChunkSize (keep firstLargest.2 maxChunkSize [])) secondLargest.1
      (fun c => if c < 4 then 1 else 0) requestedPages :=
    (bootedHeap_served.kmalloc maxChunkSize).kmalloc maxChunkSize
  exact served_release served first second apart (Nat.le_refl _)

theorem chunks_conserved_second :
    Conserves (kfree smallImage secondLargest.1 firstLargest.2) [(secondLargest.2, maxChunkSize)] 1 3 := by
  have none_requested : requestedPages 3 = 0 := by decide +kernel
  have conserves := (chunks_conserved_iff releasedLargest_served (by decide)).mpr none_requested
  rw [none_requested] at conserves
  exact conserves

/-- The heap after requests for the largest chunks, with the pages requested for them. -/
def exhaust : Nat → Heap × (Nat → Nat)
  | 0 => (bootedHeap, fun _ => 0)
  | n + 1 =>
      let (h, requested) := exhaust n
      ((kmalloc h maxChunkSize).1, afterKmalloc h maxChunkSize requested)

theorem exhaust_served (n : Nat) : ∃ live, Served smallImage
    [(imageStart, smallImage.stackTop), (0, 0x1000)] live (exhaust n).1
      (fun c => if c < 4 then 1 else 0) (exhaust n).2 := by
  induction n with
  | zero =>
      rw [exhaust]
      dsimp only
      exact ⟨[], bootedHeap_served⟩
  | succ n ih =>
      obtain ⟨live, served⟩ := ih
      rw [exhaust]
      exact ⟨_, served.kmalloc maxChunkSize⟩

/-- A page has room for 28 of the largest chunks, so the 29th requests a new
page, and one chunk of it is lost. -/
theorem requested_page_loses_chunk :
    ∃ layout ranges live h initial requested, Served layout ranges live h initial requested ∧
      3 < cacheNum ∧ ¬ Conserves h live (initial 3 + requested 3) 3 := by
  obtain ⟨live, served⟩ := exhaust_served 29
  have once : (exhaust 29).2 3 = 1 := by decide +kernel
  generalize exhaust 29 = exhausted at *
  obtain ⟨_, pages, C, inv, counted⟩ := served.counts
  refine ⟨_, _, live, _, _, _, served, by decide, ?_⟩
  rintro ⟨free, isList, conserved⟩
  have all := counted 3 (by decide)
  rw [isList.nodes_unique (inv.lists.list 3)] at conserved
  rw [once] at all conserved
  omega

end OsdiKernel.Kmem
