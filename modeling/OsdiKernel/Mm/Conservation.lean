import OsdiKernel.Mm.Safety

/-!
# Allocating and freeing again

A sequence of allocations followed by the release of all the pointers gives
back every page, unless one of the allocations was served from the list of
the top order.  The release then completes a block of that order, which the
merge loop of `_free` puts on no list.
-/

namespace OsdiKernel.Mm

open DyadicBlock Tiling

/-- Calls of `_alloc`, with the pointers they return. -/
def allocAll (s : State) : List Nat → State × List Nat
  | [] => (s, [])
  | size :: rest =>
      let (s, ptr) := alloc s size
      let (s, ptrs) := allocAll s rest
      (s, ptr :: ptrs)

/-- Calls of `_free`. -/
def freeAll (s : State) : List Nat → State
  | [] => s
  | ptr :: rest => freeAll (free s ptr) rest

theorem allocAll_single (s : State) (size : Nat) :
    allocAll s [size] = ((alloc s size).1, [(alloc s size).2]) := rfl

/-- Some list below the top order can serve the request. -/
def ServedBelowTop (s : State) (size : Nat) : Prop :=
  ∃ i, i < maxOrder - 1 ∧ orderOf size ≤ i ∧ s.freeList i ≠ none

/-- Every call of the sequence is served below the top order. -/
def AllServedBelowTop (s : State) : List Nat → Prop
  | [] => True
  | size :: rest => ServedBelowTop s size ∧ AllServedBelowTop (alloc s size).1 rest

/-- The pages of the blocks in use. -/
def usedPages (live : List (Nat × Nat)) : Set Nat := {x | ∃ use ∈ live, x ∈ pagesOf use}

section Conservation

variable {reserved : Set Nat} {live : List (Nat × Nat)} {s : State} {T : PageTiling}
  {L : Nat → List Nat}

theorem usedPages_nil : usedPages [] = ∅ := by
  ext x
  simp [usedPages]

theorem usedPages_cons (use : Nat × Nat) :
    usedPages (use :: live) = pagesOf use ∪ usedPages live := by
  ext x
  simp [usedPages]

theorem usedPages_perm {other : List (Nat × Nat)} (perm : live.Perm other) :
    usedPages live = usedPages other := by
  ext x
  unfold usedPages
  simp only [Set.mem_ofPred_eq, perm.mem_iff]

/-- A whole block of the top order that is free is on the list of the top order. -/
theorem Safe.top_listed (safe : Safe reserved live s T L) {r : Nat} (aligned : 2 ^ topOrder ∣ r)
    (covered : block r topOrder ⊆ freePages L) : r ∈ L topOrder := by
  obtain ⟨b, j, member, larger, nested⟩ := run_in_block safe.inv.aligned_of_mem safe.noBuddies
    (Nat.le_refl topOrder) aligned covered
  have orderB := safe.inv.order_of_mem member
  have same : j = topOrder := Nat.le_antisymm (T.le_top orderB) larger
  subst same
  have atB : r = b := eq_of_mem_block aligned (T.aligned orderB) (self_mem_block r _)
    (nested (self_mem_block r _))
  rwa [atB]

theorem Safe.forget (safe : Safe reserved live s T L) : Safe reserved [] s T L where
  inv := safe.inv
  noBuddies := safe.noBuddies
  zero := safe.zero
  off := safe.off
  inUse use impossible := by cases impossible
  distinct := .nil

/-! ## The allocations -/

/-- What a sequence of successful allocations leaves behind. -/
structure AllTaken (reserved : Set Nat) (live : List (Nat × Nat)) (s : State)
    (L : Nat → List Nat) (sizes : List Nat) (live' : List (Nat × Nat)) (T' : PageTiling)
    (L' : Nat → List Nat) : Prop where
  safe : Safe reserved live' (allocAll s sizes).1 T' L'
  pointers : (live'.map Prod.fst).Perm ((allocAll s sizes).2 ++ live.map Prod.fst)
  pages : freePages L' ∪ usedPages live' = freePages L ∪ usedPages live
  subset : ∀ {r}, r ∈ L' topOrder → r ∈ L topOrder
  kept : AllServedBelowTop s sizes → L' topOrder = L topOrder
  missing : ¬ AllServedBelowTop s sizes → ∃ r, r ∈ L topOrder ∧ r ∉ L' topOrder

/-- One successful allocation: whether it is served below the top order decides
whether the list of the top order changes. -/
theorem Safe.alloc_top (safe : Safe reserved live s T L) {size : Nat} (positive : 1 ≤ size)
    (fits : size ≤ maxAllocSize) (success : (Mm.alloc s size).2 ≠ 0) :
    ∃ T' L', Safe reserved (((Mm.alloc s size).2, size) :: live) (Mm.alloc s size).1 T' L' ∧
      freePages L' ∪ pagesOf ((Mm.alloc s size).2, size) = freePages L ∧
      (∀ {r}, r ∈ L' topOrder → r ∈ L topOrder) ∧
      (ServedBelowTop s size → L' topOrder = L topOrder) ∧
      (¬ ServedBelowTop s size → ∃ r, r ∈ L topOrder ∧ r ∉ L' topOrder) := by
  rcases alloc_spec safe.inv positive fits with
    ⟨_, result⟩ | ⟨i, c, lower, upper, head, empty, address, T', L', taken⟩
  · rw [result] at success
    exact absurd rfl success
  · obtain ⟨_, next⟩ := safe.taken positive fits taken
    have atMost : i ≤ topOrder := Nat.le_of_lt_succ upper
    rw [← address] at next
    refine ⟨T', L', next, ?_, taken.topSubset, ?_, ?_⟩
    · unfold pagesOf
      rw [address, pointer_div, taken.pages, orderOf]
      exact Set.sdiff_union_of_subset taken.inside
    · rintro ⟨j, below, enough, nonempty⟩
      apply taken.top
      rcases Nat.lt_or_ge j i with before | after
      · exact absurd (empty j enough before) nonempty
      · exact Nat.lt_of_le_of_lt after below
    · intro notBelow
      have atTop : i = topOrder := by
        refine Nat.le_antisymm atMost (Nat.le_of_not_lt fun below => notBelow ?_)
        exact ⟨i, below, lower, by rw [head]; simp⟩
      refine ⟨c, ?_, taken.topTaken atTop⟩
      rw [← atTop]
      exact safe.inv.lists.head_mem upper head

theorem Safe.allocAll (safe : Safe reserved live s T L) {sizes : List Nat}
    (valid : ∀ size ∈ sizes, 1 ≤ size ∧ size ≤ maxAllocSize)
    (success : ∀ ptr ∈ (Mm.allocAll s sizes).2, ptr ≠ 0) :
    ∃ live' T' L', AllTaken reserved live s L sizes live' T' L' := by
  induction sizes generalizing live s T L with
  | nil => exact ⟨live, T, L, safe, .refl _, rfl, id, fun _ => rfl, fun no => absurd trivial no⟩
  | cons size rest ih =>
      obtain ⟨positive, fits⟩ := valid size List.mem_cons_self
      obtain ⟨T₁, L₁, next, pages, subset, kept, missing⟩ :=
        safe.alloc_top positive fits (success _ List.mem_cons_self)
      obtain ⟨live', T', L', later⟩ := ih next
        (fun other member => valid other (List.mem_cons_of_mem size member))
        (fun ptr member => success ptr (List.mem_cons_of_mem _ member))
      refine ⟨live', T', L', later.safe, ?_, ?_, fun inTop => subset (later.subset inTop), ?_, ?_⟩
      · exact later.pointers.trans List.perm_middle
      · rw [later.pages, usedPages_cons, ← Set.union_assoc, pages]
      · rintro ⟨first, others⟩
        rw [later.kept others, kept first]
      · intro notAll
        by_cases first : ServedBelowTop s size
        · obtain ⟨r, before, after⟩ := later.missing fun others => notAll ⟨first, others⟩
          exact ⟨r, subset before, after⟩
        · obtain ⟨r, before, after⟩ := missing first
          exact ⟨r, before, fun inTop => after (later.subset inTop)⟩

/-! ## The releases -/

/-- Releasing all blocks in use never changes the list of the top order; and all
their pages come back if every free block of the top order is on that list. -/
theorem Safe.freeAll (safe : Safe reserved live s T L) {order : List Nat}
    (perm : order.Perm (live.map Prod.fst)) :
    ∃ T' L', Safe reserved [] (Mm.freeAll s order) T' L' ∧ L' topOrder = L topOrder ∧
      ((∀ r, 2 ^ topOrder ∣ r → block r topOrder ⊆ freePages L ∪ usedPages live →
          r ∈ L topOrder) →
        freePages L' = freePages L ∪ usedPages live) := by
  induction order generalizing live s T L with
  | nil =>
      have empty : live = [] := List.map_eq_nil_iff.mp perm.nil_eq.symm
      subst empty
      refine ⟨T, L, safe, rfl, fun _ => ?_⟩
      rw [usedPages_nil, Set.union_empty]
  | cons ptr rest ih =>
      obtain ⟨use, member, rfl⟩ := List.mem_map.mp (perm.mem_iff.mp List.mem_cons_self)
      have split := List.perm_cons_erase member
      have rest_perm : rest.Perm ((live.erase use).map Prod.fst) :=
        (perm.trans (split.map Prod.fst)).cons_inv
      obtain ⟨T₁, L₁, released, next⟩ := safe.released member
      obtain ⟨T', L', final, top, restored⟩ := ih next rest_perm
      refine ⟨T', L', final, top.trans released.top, fun listed => ?_⟩
      have whole : freePages L ∪ usedPages live =
          freePages L ∪ pagesOf use ∪ usedPages (live.erase use) := by
        rw [usedPages_perm split, usedPages_cons, Set.union_assoc]
      have pages : freePages L₁ = freePages L ∪ pagesOf use := by
        rcases released.pages with all | ⟨r, aligned, _, inside, subset, _⟩
        · exact all
        · -- the block that would be lost is on the list, but part of it was in use
          exfalso
          have inTop := listed r aligned (subset.trans (by
            rw [whole]
            exact Set.subset_union_left))
          exact Set.disjoint_left.mp ((safe.inUse use member).not_free safe.inv)
            (self_mem_block _ _) ⟨r, topOrder, inTop, inside⟩
      rw [whole, ← pages]
      apply restored
      intro r aligned covered
      rw [released.top]
      apply listed r aligned
      rwa [whole, ← pages]

/-! ## The whole sequence -/

/-- The free pages are the same as before exactly when no allocation of the
sequence took a block of the top order. -/
theorem Safe.restored_iff (safe : Safe reserved live s T L) {sizes order : List Nat}
    (valid : ∀ size ∈ sizes, 1 ≤ size ∧ size ≤ maxAllocSize)
    (success : ∀ ptr ∈ (Mm.allocAll s sizes).2, ptr ≠ 0)
    (perm : order.Perm (Mm.allocAll s sizes).2) :
    freeSet (Mm.freeAll (Mm.allocAll s sizes).1 order) = freeSet s ↔
      AllServedBelowTop s sizes := by
  obtain ⟨live', T₁, L₁, taken⟩ := safe.forget.allocAll valid success
  have pointers := taken.pointers
  rw [List.map_nil, List.append_nil] at pointers
  obtain ⟨T', L', final, top, restored⟩ := taken.safe.freeAll (perm.trans pointers.symm)
  have pages := taken.pages
  rw [usedPages_nil, Set.union_empty] at pages
  rw [final.inv.lists.freeSet_eq, safe.inv.lists.freeSet_eq]
  constructor
  · intro same
    by_contra notAll
    obtain ⟨r, before, after⟩ := taken.missing notAll
    apply after
    rw [← top]
    apply final.top_listed (T.aligned (safe.inv.order_of_mem before))
    rw [same]
    exact fun x inside => ⟨r, topOrder, before, inside⟩
  · intro all
    rw [restored, pages]
    intro r aligned covered
    rw [taken.kept all]
    apply safe.top_listed aligned
    rwa [← pages]

theorem Safe.single_restored_iff (safe : Safe reserved live s T L) {size : Nat}
    (positive : 1 ≤ size) (fits : size ≤ maxAllocSize) (success : (Mm.alloc s size).2 ≠ 0) :
    freeSet (Mm.free (Mm.alloc s size).1 (Mm.alloc s size).2) = freeSet s ↔
      ServedBelowTop s size := by
  have valid : ∀ other ∈ [size], 1 ≤ other ∧ other ≤ maxAllocSize := by
    intro other member
    rw [List.mem_singleton.mp member]
    exact ⟨positive, fits⟩
  have nonzero : ∀ ptr ∈ (Mm.allocAll s [size]).2, ptr ≠ 0 := by
    intro ptr member
    rwa [List.mem_singleton.mp member]
  have both := safe.restored_iff valid nonzero (.refl _)
  simpa only [allocAll_single, Mm.freeAll, AllServedBelowTop, and_true] using both

end Conservation

/-- In every reachable state, a sequence of successful allocations followed by
the release of all pointers in any order restores the free pages if and only
if every one of the allocations is served from a list below the top order. -/
theorem run_conserves_iff {ranges live : List (Nat × Nat)} {s : State} (run : Run ranges live s)
    {sizes order : List Nat} (valid : ∀ size ∈ sizes, 1 ≤ size ∧ size ≤ maxAllocSize)
    (success : ∀ ptr ∈ (allocAll s sizes).2, ptr ≠ 0) (perm : order.Perm (allocAll s sizes).2) :
    freeSet (freeAll (allocAll s sizes).1 order) = freeSet s ↔ AllServedBelowTop s sizes := by
  obtain ⟨T, L, safe⟩ := run.safe
  exact safe.restored_iff valid success perm

/-- Two requests of one page each, released in the order of allocation. -/
theorem run_conserves_two_pages :
    freeSet (freeAll (allocAll (reserve mmInit 0 0x1000) [4096, 100]).1 [0x1000, 0x2000]) =
        freeSet (reserve mmInit 0 0x1000) ↔
      AllServedBelowTop (reserve mmInit 0 0x1000) [4096, 100] := by
  have pointers : (allocAll (reserve mmInit 0 0x1000) [4096, 100]).2 = [0x1000, 0x2000] := by
    decide +kernel
  apply run_conserves_iff (Run.boot boot_first_page.1 boot_first_page.2)
  · decide
  · rw [pointers]
    decide
  · rw [pointers]

/-- A block of the largest size is lost when it is released at once. -/
theorem free_loses_largest_block :
    Run [(0, 0x1000)] [] (reserve mmInit 0 0x1000) ∧ 1 ≤ maxAllocSize ∧
      (alloc (reserve mmInit 0 0x1000) maxAllocSize).2 ≠ 0 ∧
      freeSet (free (alloc (reserve mmInit 0 0x1000) maxAllocSize).1
          (alloc (reserve mmInit 0 0x1000) maxAllocSize).2) ≠
        freeSet (reserve mmInit 0 0x1000) := by
  have run := Run.boot boot_first_page.1 boot_first_page.2
  obtain ⟨T, L, safe⟩ := run.safe
  have success : (alloc (reserve mmInit 0 0x1000) maxAllocSize).2 ≠ 0 := by decide +kernel
  refine ⟨run, by decide, success, fun same => ?_⟩
  obtain ⟨i, below, enough, _⟩ :=
    (safe.single_restored_iff (by decide) (Nat.le_refl _) success).mp same
  have order : orderOf maxAllocSize = maxOrder - 1 := by decide +kernel
  omega

end OsdiKernel.Mm
