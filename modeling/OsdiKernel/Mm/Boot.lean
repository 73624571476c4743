import OsdiKernel.Mm.Reserve

/-!
# The boot phase

`mm_init` followed by any number of reservations.  The source does not check
that the ranges are disjoint.  When they are, the free pages are exactly the
pages that no range meets; when they are not, a later call can make pages free
that an earlier one had reserved.
-/

namespace OsdiKernel.Mm

open DyadicBlock Tiling

/-! ## What the lists say about pages -/

/-- Following the list of an order from its head leads to this entry. -/
def OnFreeList (s : State) (k b : Nat) : Prop := k < maxOrder ∧ s.links.Reaches (s.freeList k) b

/-- The pages covered by the free lists. -/
def freeSet (s : State) : Set Nat := {x | ∃ b k, OnFreeList s k b ∧ x ∈ block b k}

theorem Lists.onFreeList_iff {s : State} {L : Nat → List Nat} (lists : Lists s L) {b k : Nat} :
    OnFreeList s k b ↔ b ∈ L k := by
  constructor
  · rintro ⟨bounded, reached⟩
    exact (lists.list k bounded).mem_iff_reaches.mpr reached
  · intro member
    have bounded := lists.bounded member
    exact ⟨bounded, (lists.list k bounded).mem_iff_reaches.mp member⟩

theorem Lists.freeSet_eq {s : State} {L : Nat → List Nat} (lists : Lists s L) :
    freeSet s = freePages L := by
  unfold freeSet
  simp only [lists.onFreeList_iff]
  rfl

/-- The pages that a byte range meets. -/
def pagesIn (range : Nat × Nat) : Set Nat :=
  {x | x * pageSize < range.2 ∧ range.1 < (x + 1) * pageSize}

theorem pagesIn_eq {range : Nat × Nat} (nonempty : range.1 < range.2) :
    pagesIn range = Set.Icc (firstPage range) (lastPage range) := by
  ext x
  unfold pagesIn firstPage lastPage pageSize
  rw [Set.mem_ofPred_eq, Set.mem_Icc]
  omega

/-! ## Sequences of reservations -/

/-- A byte range that `reserve` may be given. -/
def ValidRange (range : Nat × Nat) : Prop := range.1 < range.2 ∧ range.2 ≤ memorySize

/-- The states after `mm_init` and reservations of the listed ranges, the last one first. -/
inductive Reservations : List (Nat × Nat) → State → Prop
  | init : Reservations [] mmInit
  | reserve {ranges : List (Nat × Nat)} {s : State} (earlier : Reservations ranges s)
      {range : Nat × Nat} (valid : ValidRange range) :
      Reservations (range :: ranges) (reserve s range.1 range.2)

/-- The largest order, from the given one down, whose aligned block around `x`
has that order in the order field of its head. -/
def blockOrderFrom (s : State) (x : Nat) : Nat → Nat
  | 0 => 0
  | k + 1 =>
      if (s.pageList (alignDown x (k + 1))).order = ((k + 1 : Nat) : Int) then k + 1
      else blockOrderFrom s x k

/-- The order of the block around a page, read off the order fields. -/
def blockOrder (s : State) (x : Nat) : Nat := blockOrderFrom s x topOrder

/-- The block around an end page is free, or the range covers it. -/
def EndFits (s : State) (range : Nat × Nat) (x : Nat) : Prop :=
  (s.pageList (alignDown x (blockOrder s x))).entryInList ≠ none ∨
    firstPage range ≤ alignDown x (blockOrder s x) ∧
      alignDown x (blockOrder s x) + 2 ^ blockOrder s x ≤ lastPage range + 1

/-- Both end pages of the range can be split off without harm. -/
def EndsFit (s : State) (range : Nat × Nat) : Prop :=
  EndFits s range (firstPage range) ∧ EndFits s range (lastPage range)

instance (s : State) (range : Nat × Nat) : Decidable (EndsFit s range) := by
  unfold EndsFit EndFits
  infer_instance

theorem blockOrderFrom_eq {s : State} {T : PageTiling} {L : Nat → List Nat} (inv : Inv s T L)
    {x b j k : Nat} (orderB : T.order b = some j) (inside : x ∈ block b j) (bounded : j ≤ k)
    (below : k ≤ topOrder) : blockOrderFrom s x k = j := by
  induction k with
  | zero => exact (Nat.le_zero.mp bounded).symm
  | succ k ih =>
      have inX := mem_block_alignDown x (k + 1)
      have startInRange : alignDown x (k + 1) < pageNum / maxBlockSize * 2 ^ topOrder := by
        have within := T.within orderB
        exact Nat.lt_of_le_of_lt (alignDown_le x (k + 1)) (Nat.lt_of_lt_of_le inside.2 within)
      unfold blockOrderFrom
      rcases Nat.lt_or_eq_of_le bounded with smaller | rfl
      · -- the rounded position starts a block, but not one of this order
        rcases T.run_cases (alignDown_aligned x (k + 1)) startInRange with
          ⟨i, orderHead, _⟩ | ⟨c, i, orderC, larger, nested⟩
        · have field := inv.order orderHead (by simp)
          have otherOrder : ((i : Nat) : Int) ≠ ((k + 1 : Nat) : Int) := by
            intro same
            have equal : i = k + 1 := Int.ofNat.inj same
            subst equal
            have orders := T.order_unique orderHead orderB inX inside
            omega
          rw [field, if_neg otherOrder]
          exact ih (Nat.le_of_lt_succ smaller) (Nat.le_of_succ_le below)
        · have orders := T.order_unique orderC orderB (nested inX) inside
          omega
      · have atB : alignDown x (k + 1) = b := alignDown_of_mem (T.aligned orderB) inside
        rw [atB, inv.order orderB (by simp), if_pos rfl]

/-- The condition on an end page, in terms of the tiling. -/
theorem endFits_iff {s : State} {T : PageTiling} {L : Nat → List Nat} (settled : Settled s T L)
    {range : Nat × Nat} {x : Nat} (inRange : x < pageNum) :
    EndFits s range x ↔ T.around x \ Set.Icc (firstPage range) (lastPage range) ⊆ freePages L := by
  rw [← pageNum_eq] at inRange
  obtain ⟨b, j, orderB, inside⟩ := T.covers inRange
  have order : blockOrder s x = j :=
    blockOrderFrom_eq settled.inv orderB inside (T.le_top orderB) (Nat.le_refl topOrder)
  have head : alignDown x j = b := alignDown_of_mem (T.aligned orderB) inside
  unfold EndFits
  rw [order, head, settled.entry_iff orderB, T.around_eq orderB inside]
  constructor
  · rintro (member | ⟨lower, upper⟩) y ⟨inY, outside⟩
    · exact ⟨b, j, member, inY⟩
    · refine absurd ?_ outside
      rw [mem_block] at inY
      rw [Set.mem_Icc]
      omega
  · intro subset
    by_cases member : b ∈ L j
    · exact Or.inl member
    · have covered : ∀ y, y ∈ block b j → y ∈ Set.Icc (firstPage range) (lastPage range) := by
        intro y inY
        by_contra outside
        exact settled.inv.not_freePage orderB member inY (subset ⟨inY, outside⟩)
      have positive := Nat.two_pow_pos j
      have last : b + 2 ^ j - 1 ∈ block b j := by
        rw [mem_block]
        omega
      have first := covered b (self_mem_block b j)
      have final := covered _ last
      rw [Set.mem_Icc] at first final
      exact Or.inr ⟨first.1, by omega⟩

theorem lastPage_lt {range : Nat × Nat} (valid : ValidRange range) : lastPage range < pageNum := by
  have limit : memorySize = pageNum * pageSize := by decide
  obtain ⟨nonempty, inRange⟩ := valid
  unfold lastPage
  rw [Nat.div_lt_iff_lt_mul (by decide)]
  omega

theorem firstPage_le {range : Nat × Nat} (valid : ValidRange range) :
    firstPage range ≤ lastPage range := Nat.div_le_div_right (Nat.le_sub_one_of_lt valid.1)

/-- One call takes exactly its range away if and only if both of its ends fit. -/
theorem Settled.reserve_iff {s : State} {T : PageTiling} {L : Nat → List Nat}
    (settled : Settled s T L) {range : Nat × Nat} (valid : ValidRange range) :
    freeSet (reserve s range.1 range.2) = freeSet s \ pagesIn range ↔ EndsFit s range := by
  obtain ⟨T', L', reserved⟩ := reserve_spec settled valid.1 valid.2
  have lastIn := lastPage_lt valid
  unfold EndsFit
  rw [reserved.settled.inv.lists.freeSet_eq, settled.inv.lists.freeSet_eq, pagesIn_eq valid.1,
    reserved.pages, endFits_iff settled (Nat.lt_of_le_of_lt (firstPage_le valid) lastIn),
    endFits_iff settled lastIn]
  constructor
  · intro exact_
    constructor
    · rintro x ⟨inside, outside⟩
      exact (exact_ ▸ ⟨Or.inr (Or.inl inside), outside⟩ :
        x ∈ freePages L \ Set.Icc (firstPage range) (lastPage range)).1
    · rintro x ⟨inside, outside⟩
      exact (exact_ ▸ ⟨Or.inr (Or.inr inside), outside⟩ :
        x ∈ freePages L \ Set.Icc (firstPage range) (lastPage range)).1
  · rintro ⟨atFirst, atLast⟩
    ext x
    rw [Set.mem_sdiff, Set.mem_sdiff]
    constructor
    · rintro ⟨free | inside | inside, outside⟩
      · exact ⟨free, outside⟩
      · exact ⟨atFirst ⟨inside, outside⟩, outside⟩
      · exact ⟨atLast ⟨inside, outside⟩, outside⟩
    · exact fun ⟨free, outside⟩ => ⟨Or.inl free, outside⟩

/-- The invariant of the boot phase holds after any reservations, disjoint or not. -/
theorem Reservations.settled {ranges : List (Nat × Nat)} {s : State}
    (run : Reservations ranges s) : ∃ T L, Settled s T L ∧ NoBuddies L := by
  induction run with
  | init => exact ⟨_, _, mmInit_settled, mmInit_noBuddies⟩
  | reserve _ valid ih =>
      obtain ⟨T, L, settled, coalesced⟩ := ih
      obtain ⟨T', L', reserved⟩ := reserve_spec settled valid.1 valid.2
      exact ⟨T', L', reserved.settled, reserved.noBuddies coalesced⟩

/-- Sequences of reservations in which every call finds ends that fit. -/
inductive FittingReservations : List (Nat × Nat) → State → Prop
  | init : FittingReservations [] mmInit
  | reserve {ranges : List (Nat × Nat)} {s : State} (earlier : FittingReservations ranges s)
      {range : Nat × Nat} (valid : ValidRange range) (fits : EndsFit s range) :
      FittingReservations (range :: ranges) (reserve s range.1 range.2)

theorem FittingReservations.reservations {ranges : List (Nat × Nat)} {s : State}
    (run : FittingReservations ranges s) : Reservations ranges s := by
  induction run with
  | init => exact .init
  | reserve _ valid _ ih => exact .reserve ih valid

/-- The pages that some range meets. -/
def reservedPages (ranges : List (Nat × Nat)) : Set Nat := {x | ∃ range ∈ ranges, x ∈ pagesIn range}

theorem reservedPages_cons (range : Nat × Nat) (ranges : List (Nat × Nat)) :
    reservedPages (range :: ranges) = pagesIn range ∪ reservedPages ranges := by
  ext x
  simp [reservedPages]

theorem FittingReservations.freeSet_eq {ranges : List (Nat × Nat)} {s : State}
    (run : FittingReservations ranges s) :
    freeSet s = Set.Iio pageNum \ reservedPages ranges := by
  induction run with
  | init =>
      rw [mmInit_settled.inv.lists.freeSet_eq, mmInit_freePages]
      simp [reservedPages]
  | reserve earlier valid fits ih =>
      obtain ⟨T, L, settled, _⟩ := earlier.reservations.settled
      rw [(settled.reserve_iff valid).mpr fits, ih, reservedPages_cons, Set.sdiff_sdiff,
        Set.union_comm]

/-- After any sequence of reservations, the next call removes exactly its range
if and only if each of its end pages lies in a free block or in a block that
the range covers; and when all calls so far did, no reserved page is free. -/
theorem reserve_removes_range {ranges : List (Nat × Nat)} {s : State}
    (run : Reservations ranges s) :
    (∀ range, ValidRange range →
        (freeSet (reserve s range.1 range.2) = freeSet s \ pagesIn range ↔ EndsFit s range)) ∧
      (FittingReservations ranges s → freeSet s = Set.Iio pageNum \ reservedPages ranges) := by
  constructor
  · intro range valid
    obtain ⟨T, L, settled, _⟩ := run.settled
    exact settled.reserve_iff valid
  · exact fun fitting => fitting.freeSet_eq

theorem reserve_removes_first_page :
    (∀ range, ValidRange range →
        (freeSet (reserve (reserve mmInit 0 0x1000) range.1 range.2) =
          freeSet (reserve mmInit 0 0x1000) \ pagesIn range ↔
            EndsFit (reserve mmInit 0 0x1000) range)) ∧
      (FittingReservations [(0, 0x1000)] (reserve mmInit 0 0x1000) →
        freeSet (reserve mmInit 0 0x1000) = Set.Iio pageNum \ reservedPages [(0, 0x1000)]) :=
  reserve_removes_range (.reserve .init ⟨by decide, by decide⟩)

/-- Reserving one page in the middle of a block that an earlier call has
reserved makes the rest of that block free again. -/
theorem reserve_frees_reserved_page :
    Reservations [(0, 0x8000)] (reserve mmInit 0 0x8000) ∧ ValidRange (0x2000, 0x3000) ∧
      3 ∈ reservedPages [(0, 0x8000)] ∧
      3 ∈ freeSet (reserve (reserve mmInit 0 0x8000) 0x2000 0x3000) ∧
      freeSet (reserve (reserve mmInit 0 0x8000) 0x2000 0x3000) ≠
        freeSet (reserve mmInit 0 0x8000) \ pagesIn (0x2000, 0x3000) := by
  have valid : ValidRange (0, 0x8000) := ⟨by decide, by decide⟩
  have inside : ValidRange (0x2000, 0x3000) := ⟨by decide, by decide⟩
  have run : Reservations [(0, 0x8000)] (reserve mmInit 0 0x8000) := .reserve .init valid
  have head : (reserve (reserve mmInit 0 0x8000) 0x2000 0x3000).freeList 0 = some 3 := by
    decide +kernel
  obtain ⟨T, L, settled, _⟩ := run.settled
  refine ⟨run, inside, ⟨(0, 0x8000), List.mem_cons_self, ?_⟩, ⟨3, 0, ⟨by decide, ?_⟩, ?_⟩, ?_⟩
  · exact ⟨by decide, by decide⟩
  · rw [head]
    exact .here 3
  · exact self_mem_block 3 0
  · intro exact_
    have fits := (settled.reserve_iff inside).mp exact_
    revert fits
    decide +kernel

/-! ## Disjoint ranges -/

/-- The states after reservations of pairwise disjoint ranges. -/
inductive Boot : List (Nat × Nat) → State → Prop
  | init : Boot [] mmInit
  | reserve {ranges : List (Nat × Nat)} {s : State} (earlier : Boot ranges s)
      {range : Nat × Nat} (valid : ValidRange range)
      (apart : ∀ other ∈ ranges, range.2 ≤ other.1 ∨ other.2 ≤ range.1) :
      Boot (range :: ranges) (reserve s range.1 range.2)

theorem Boot.valid {ranges : List (Nat × Nat)} {s : State} (boot : Boot ranges s) {range : Nat × Nat}
    (member : range ∈ ranges) : ValidRange range := by
  induction boot with
  | init => cases member
  | reserve earlier valid apart ih =>
      rcases List.mem_cons.mp member with rfl | older
      · exact valid
      · exact ih older

/-- Every page that is at the end of some range is a block of its own. -/
def EndsSingle (T : PageTiling) (ranges : List (Nat × Nat)) : Prop :=
  ∀ range ∈ ranges, T.order (firstPage range) = some 0 ∧ T.order (lastPage range) = some 0

/-- A page that two disjoint ranges share is at the end of both. -/
theorem shared_page {range other : Nat × Nat} {x : Nat}
    (apart : range.2 ≤ other.1 ∨ other.2 ≤ range.1) (inside : x ∈ pagesIn range)
    (inOther : x ∈ pagesIn other) : x = firstPage other ∨ x = lastPage other := by
  obtain ⟨before, after⟩ := inside
  obtain ⟨beforeOther, afterOther⟩ := inOther
  unfold firstPage lastPage
  unfold pageSize at *
  rcases apart with left | right
  · left
    omega
  · right
    omega

/-- An end page of a range that is disjoint from all earlier ones fits. -/
theorem Settled.endFits {s : State} {T : PageTiling} {L : Nat → List Nat}
    (settled : Settled s T L) {ranges : List (Nat × Nat)}
    (free : freePages L = Set.Iio pageNum \ reservedPages ranges) (single : EndsSingle T ranges)
    {range : Nat × Nat} (valid : ValidRange range)
    (apart : ∀ other ∈ ranges, range.2 ≤ other.1 ∨ other.2 ≤ range.1) {x : Nat}
    (inside : x ∈ pagesIn range) : EndFits s range x := by
  have bounds := inside
  rw [pagesIn_eq valid.1] at bounds
  have inRange : x < pageNum := Nat.lt_of_le_of_lt bounds.2 (lastPage_lt valid)
  rw [endFits_iff settled inRange]
  by_cases taken : x ∈ reservedPages ranges
  · obtain ⟨other, member, inOther⟩ := taken
    have alone : T.order x = some 0 := by
      rcases shared_page (apart other member) inside inOther with rfl | rfl
      · exact (single other member).1
      · exact (single other member).2
    rw [T.around_zero alone]
    rintro y ⟨rfl, outside⟩
    exact absurd bounds outside
  · have listed : x ∈ freePages L := by
      rw [free]
      exact ⟨inRange, taken⟩
    obtain ⟨b, k, member, inB⟩ := listed
    rw [T.around_eq (settled.inv.order_of_mem member) inB]
    exact fun y both => ⟨b, k, member, both.1⟩

theorem Boot.fitting {ranges : List (Nat × Nat)} {s : State} (boot : Boot ranges s) :
    FittingReservations ranges s ∧ ∃ T L, Settled s T L ∧ NoBuddies L ∧ EndsSingle T ranges := by
  induction boot with
  | init =>
      refine ⟨.init, _, _, mmInit_settled, mmInit_noBuddies, ?_⟩
      intro range impossible
      cases impossible
  | @reserve ranges s earlier range valid apart ih =>
      obtain ⟨fitting, T, L, settled, coalesced, single⟩ := ih
      have free : freePages L = Set.Iio pageNum \ reservedPages ranges := by
        rw [← settled.inv.lists.freeSet_eq]
        exact fitting.freeSet_eq
      have atFirst : firstPage range ∈ pagesIn range := by
        rw [pagesIn_eq valid.1]
        exact ⟨Nat.le_refl _, firstPage_le valid⟩
      have atLast : lastPage range ∈ pagesIn range := by
        rw [pagesIn_eq valid.1]
        exact ⟨firstPage_le valid, Nat.le_refl _⟩
      have fits : EndsFit s range :=
        ⟨settled.endFits free single valid apart atFirst,
          settled.endFits free single valid apart atLast⟩
      obtain ⟨T', L', reserved⟩ := reserve_spec settled valid.1 valid.2
      refine ⟨.reserve fitting valid fits, T', L', reserved.settled,
        reserved.noBuddies coalesced, ?_⟩
      intro other member
      rcases List.mem_cons.mp member with rfl | old
      · exact ⟨reserved.first, reserved.last⟩
      · exact ⟨reserved.finer.single (single other old).1,
          reserved.finer.single (single other old).2⟩

end OsdiKernel.Mm
