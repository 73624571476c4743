import OsdiKernel.Mm.Safety

/-!
# Freeing a block twice

`_free` ignores a pointer whose page has a list entry.  That covers a block
that is still whole, and one that was merged as the lower half.  A block that
was absorbed as the upper half has no entry and the order -1; a second call
does not stop at the guard, and the index of the buddy that it computes from
this order lies far outside of `page_list`, where it reads at once.
-/

namespace OsdiKernel.Mm

/-- The runs from the call that frees the block `use` on, as long as none of
its pages is handed out. -/
inductive Returned (ranges : List (Nat × Nat)) (use : Nat × Nat) :
    List (Nat × Nat) → State → Prop
  | freed {live : List (Nat × Nat)} {s : State} (earlier : Run ranges live s)
      (member : use ∈ live) : Returned ranges use (live.erase use) (free s use.1)
  | alloc {live : List (Nat × Nat)} {s : State} (earlier : Returned ranges use live s) (size : Nat)
      (elsewhere : (alloc s size).2 ≠ 0 →
        Disjoint (pagesOf use) (pagesOf ((alloc s size).2, size))) :
      Returned ranges use (keep (alloc s size).2 size live) (alloc s size).1
  | free {live : List (Nat × Nat)} {s : State} (earlier : Returned ranges use live s)
      {other : Nat × Nat} (member : other ∈ live) :
      Returned ranges use (live.erase other) (free s other.1)
  | retag {live : List (Nat × Nat)} {s : State} (earlier : Returned ranges use live s)
      (tags : Nat → Int) : Returned ranges use live (s.retag tags)

/-! ## The page of the freed pointer -/

/-- What is known of a pointer that was in use. -/
structure PageStart (use : Nat × Nat) : Prop where
  pointer : use.1 = use.1 / pageSize * pageSize
  nonzero : use.1 / pageSize ≠ 0
  inRange : use.1 / pageSize < pageNum

theorem InUse.pageStart {s : State} {T : PageTiling} {reserved : Set Nat} {use : Nat × Nat}
    (inUse : InUse s T reserved use) : PageStart use where
  pointer := inUse.pointer
  nonzero := inUse.nonzero
  inRange := T.lt_pageNum inUse.order

section Safe

variable {reserved : Set Nat} {live : List (Nat × Nat)} {s : State} {T : PageTiling}
  {L : Nat → List Nat} {p : Nat}

/-- An allocation that hands out another block leaves a page retired. -/
theorem Safe.alloc_retired (safe : Safe reserved live s T L) (size : Nat)
    (retired : Retired s T p) (other : (Mm.alloc s size).2 ≠ p * pageSize) :
    ∃ T' L', Safe reserved (keep (Mm.alloc s size).2 size live) (Mm.alloc s size).1 T' L' ∧
      Retired (Mm.alloc s size).1 T' p := by
  by_cases valid : size = 0 ∨ maxAllocSize < size
  · rw [alloc_invalid s valid]
    exact ⟨T, L, safe, retired⟩
  · have positive : 1 ≤ size := by omega
    have fits : size ≤ maxAllocSize := by omega
    rcases alloc_spec safe.inv positive fits with
      ⟨_, result⟩ | ⟨i, c, _, _, _, _, address, T', L', taken⟩
    · rw [result]
      exact ⟨T, L, safe, retired⟩
    · obtain ⟨nonzero, next⟩ := safe.taken positive fits taken
      have apart : p ≠ c := by
        rintro rfl
        exact other address
      refine ⟨T', L', ?_, taken.retired apart retired⟩
      rw [address, keep, if_neg (Nat.mul_ne_zero nonzero (by decide))]
      exact next

end Safe

/-- The page of a freed pointer stays retired until it is handed out. -/
theorem Returned.retired {ranges live : List (Nat × Nat)} {use : Nat × Nat} {s : State}
    (returned : Returned ranges use live s) :
    PageStart use ∧ ∃ T L, Safe (reservedPages ranges) live s T L ∧
      Retired s T (use.1 / pageSize) := by
  induction returned with
  | freed earlier member =>
      obtain ⟨T, L, safe⟩ := earlier.safe
      obtain ⟨T', L', released, next⟩ := safe.released member
      exact ⟨(safe.inUse use member).pageStart, T', L', next, released.retired (Or.inl rfl)⟩
  | @alloc live s earlier size elsewhere ih =>
      obtain ⟨start, T, L, safe, retired⟩ := ih
      have other : (Mm.alloc s size).2 ≠ use.1 / pageSize * pageSize := by
        intro same
        rw [← start.pointer] at same
        have nonzero : (Mm.alloc s size).2 ≠ 0 := by
          rw [same, start.pointer]
          exact Nat.mul_ne_zero start.nonzero (by decide)
        have apart := Set.disjoint_left.mp (elsewhere nonzero)
          (DyadicBlock.self_mem_block (use.1 / pageSize) (orderOf use.2))
        apply apart
        rw [same]
        exact DyadicBlock.self_mem_block _ _
      exact ⟨start, safe.alloc_retired size retired other⟩
  | free earlier member ih =>
      obtain ⟨start, T, L, safe, retired⟩ := ih
      obtain ⟨T', L', released, next⟩ := safe.released member
      exact ⟨start, T', L', next, released.retired (Or.inr retired)⟩
  | retag earlier tags ih =>
      obtain ⟨start, T, L, safe, retired⟩ := ih
      exact ⟨start, T, L, safe.retag tags, retired.congr rfl rfl rfl⟩

/-! ## The second call -/

section Second

variable {s : State} {T : PageTiling} {L : Nat → List Nat} {c k : Nat}

theorem freeOrFault_listed (listed : (s.pageList c).entryInList ≠ none) (inRange : c < pageNum) :
    freeOrFault s (c * pageSize) = some s := by
  unfold freeOrFault
  split
  · rfl
  · dsimp only
    rw [pageIndex_mul inRange, Int.toNat_natCast, if_pos (Or.inr (Or.inr listed))]

/-- A block that is whole may be freed again. -/
theorem freeOrFault_head (inv : Inv s T L) (orderC : T.order c = some k)
    (retired : Retired s T c) (nonzero : c ≠ 0) : freeOrFault s (c * pageSize) = some s := by
  have inRange := T.lt_pageNum orderC
  by_cases unlisted : (s.pageList c).entryInList = none
  · have atTop : k = topOrder := by
      refine Nat.le_antisymm (T.le_top orderC) (Nat.le_of_not_lt fun below => ?_)
      exact retired.head orderC below unlisted
    -- the merge loop has nothing to do for a block of the top order
    have field : (s.pageList c).order = topOrder := by
      rw [inv.order orderC (by simp), atTop]
    rw [freeOrFault_unlisted nonzero inRange unlisted, field]
    rfl
  · exact freeOrFault_listed unlisted inRange

/-- The index of the buddy that `_free` computes for the order -1 is negative. -/
theorem getBuddy_absorbed (inRange : c < pageNum) : getBuddy c (-1) < 0 := by
  have size : pageNum < 2 ^ 31 := by decide
  have sign : (BitVec.ofInt 32 c).msb = false := by
    rw [BitVec.ofInt_natCast, BitVec.msb_eq_false_iff_two_mul_lt, BitVec.toNat_ofNat,
      Nat.mod_eq_of_lt (by omega)]
    omega
  apply BitVec.toInt_neg_of_msb_true
  rw [BitVec.msb_xor, sign]
  decide

/-- A page that was absorbed may not be freed again. -/
theorem freeOrFault_absorbed (nonzero : c ≠ 0) (inRange : c < pageNum)
    (order : (s.pageList c).order = -1) (unlisted : (s.pageList c).entryInList = none) :
    freeOrFault s (c * pageSize) = none := by
  have outside := s.pageAt_of_neg (getBuddy_absorbed inRange)
  rw [freeOrFault_unlisted nonzero inRange unlisted, order]
  change freeLoop s c (getBuddy c (-1)) (-1) 14 = none
  rw [freeLoop, if_pos (by decide), outside]

end Second

/-- A second call of `_free` returns and changes nothing exactly when the freed
block has not been absorbed as the upper half of a larger one. -/
theorem second_free_harmless_iff {ranges live : List (Nat × Nat)} {use : Nat × Nat} {s : State}
    (returned : Returned ranges use live s) :
    freeOrFault s use.1 = some s ↔ (s.pageList (use.1 / pageSize)).order ≠ -1 := by
  obtain ⟨start, T, L, safe, retired⟩ := returned.retired
  have pointer : freeOrFault s use.1 = freeOrFault s (use.1 / pageSize * pageSize) :=
    congrArg (freeOrFault s) start.pointer
  rw [pointer]
  cases found : T.order (use.1 / pageSize) with
  | none =>
      obtain ⟨order, unlisted⟩ := retired.inside found
      rw [freeOrFault_absorbed start.nonzero start.inRange order unlisted]
      constructor
      · intro impossible
        cases impossible
      · intro other
        exact absurd order other
  | some k =>
      constructor
      · intro _
        rw [safe.inv.order found (by simp)]
        omega
      · intro _
        exact freeOrFault_head safe.inv found retired start.nonzero

/-- Three allocations of one page. -/
def onePages : Nat → State
  | 0 => reserve mmInit 0 0x1000
  | count + 1 => (alloc (onePages count) 4096).1

theorem run_onePages :
    Run [(0, 0x1000)] [(0x3000, 4096), (0x2000, 4096), (0x1000, 4096)] (onePages 3) := by
  obtain ⟨first, second, third⟩ : (alloc (onePages 0) 4096).2 = 0x1000 ∧
      (alloc (onePages 1) 4096).2 = 0x2000 ∧ (alloc (onePages 2) 4096).2 = 0x3000 := by
    decide +kernel
  have run₁ := (Run.boot boot_first_page.1 boot_first_page.2).alloc 4096
  change Run _ (keep (alloc (onePages 0) 4096).2 _ _) (onePages 1) at run₁
  have run₂ := run₁.alloc 4096
  change Run _ (keep (alloc (onePages 1) 4096).2 _ _) (onePages 2) at run₂
  have run₃ := run₂.alloc 4096
  change Run _ (keep (alloc (onePages 2) 4096).2 _ _) (onePages 3) at run₃
  rw [first, second, third] at run₃
  exact run₃

/-- The upper neighbour is freed first, so the page is merged as the lower half. -/
theorem second_free_harmless_lower :
    freeOrFault (free (free (onePages 3) 0x3000) 0x2000) 0x2000 =
        some (free (free (onePages 3) 0x3000) 0x2000) ↔
      ((free (free (onePages 3) 0x3000) 0x2000).pageList (0x2000 / pageSize)).order ≠ -1 := by
  have run := run_onePages
  generalize onePages 3 = s at *
  have upper : (0x3000, 4096) ∈ [(0x3000, 4096), (0x2000, 4096), (0x1000, 4096)] := by decide
  have lower : (0x2000, 4096) ∈
      [(0x3000, 4096), (0x2000, 4096), (0x1000, 4096)].erase (0x3000, 4096) := by decide
  exact second_free_harmless_iff (Returned.freed (run.free upper) lower)

/-- A page that merged with its lower neighbour is freed again. -/
theorem second_free_faults_absorbed :
    ∃ live, Returned [(0, 0x1000)] (0x3000, 4096) live
        (free (free (onePages 3) 0x2000) 0x3000) ∧
      freeOrFault (free (free (onePages 3) 0x2000) 0x3000) 0x3000 = none := by
  obtain ⟨order, unlisted⟩ :
      ((free (free (onePages 3) 0x2000) 0x3000).pageList 3).order = -1 ∧
        ((free (free (onePages 3) 0x2000) 0x3000).pageList 3).entryInList = none := by
    decide +kernel
  have run := run_onePages
  generalize onePages 3 = s at *
  have lower : (0x2000, 4096) ∈ [(0x3000, 4096), (0x2000, 4096), (0x1000, 4096)] := by decide
  have upper : (0x3000, 4096) ∈
      [(0x3000, 4096), (0x2000, 4096), (0x1000, 4096)].erase (0x2000, 4096) := by decide
  exact ⟨_, Returned.freed (run.free lower) upper,
    freeOrFault_absorbed (c := 3) (by decide) (by decide) order unlisted⟩

end OsdiKernel.Mm
