import Mathlib.Order.Bounds.Basic
import OsdiKernel.Mm.Invariant

/-!
# What one call of `_alloc` does

The block at the head of the first non-empty list of sufficient order is taken
in hand, halved until it has the wanted order, and recorded as in use.
-/

namespace OsdiKernel.Mm

open DyadicBlock

/-! ## The order of a request -/

theorem getOrderLoop_spec (size : Nat) (fuel order : Nat) (enough : size ≤ 2 ^ (order + fuel))
    (smaller : ∀ j, j < order → 2 ^ j < size) :
    size ≤ 2 ^ getOrderLoop size fuel order ∧
      ∀ j, j < getOrderLoop size fuel order → 2 ^ j < size := by
  induction fuel generalizing order with
  | zero => exact ⟨enough, smaller⟩
  | succ fuel ih =>
      unfold getOrderLoop
      rw [Nat.one_shiftLeft]
      split
      · next below =>
          apply ih
          · rwa [Nat.add_assoc, Nat.add_comm 1 fuel]
          · intro j before
            rcases Nat.lt_succ_iff_lt_or_eq.mp before with earlier | same
            · exact smaller j earlier
            · exact same ▸ below
      · next reached => exact ⟨Nat.le_of_not_lt reached, smaller⟩

theorem getOrder_isLeast (size : Nat) :
    IsLeast {k | size / pageSize ≤ 2 ^ k} (getOrder size) := by
  have spec := getOrderLoop_spec (size / pageSize) (size / pageSize) 0
    (by rw [Nat.zero_add]; exact Nat.le_of_lt Nat.lt_two_pow_self)
    (fun j impossible => absurd impossible (Nat.not_lt_zero j))
  refine ⟨spec.1, fun k bound => Nat.le_of_not_lt fun below => ?_⟩
  exact absurd bound (Nat.not_le_of_lt (spec.2 k below))

/-- A size fits in a number of pages exactly when its rounding does. -/
theorem round_le_iff (size pages : Nat) : round size / pageSize ≤ pages ↔ size ≤ pages * pageSize := by
  unfold round pageSize
  split <;> omega

/-- The order of a request is the least one whose blocks are large enough. -/
theorem order_isLeast (size : Nat) :
    IsLeast {k | size ≤ 2 ^ k * pageSize} (getOrder (round size)) := by
  simpa only [round_le_iff] using getOrder_isLeast (round size)

theorem order_le_top {size : Nat} (fits : size ≤ maxAllocSize) :
    getOrder (round size) ≤ topOrder := by
  apply (order_isLeast size).2
  change size ≤ 2 ^ topOrder * pageSize
  rwa [show 2 ^ topOrder * pageSize = maxAllocSize by decide]

/-! ## Frames -/

/-- Outside a set of pages neither the tiling nor the entry fields have changed. -/
structure Agree (region : Set Nat) (s : State) (T : PageTiling) (s' : State) (T' : PageTiling) :
    Prop where
  order : ∀ {b}, b ∉ region → T'.order b = T.order b
  entry : ∀ {b}, b ∉ region → (s'.pageList b).entryInList = (s.pageList b).entryInList

theorem Agree.refl (region : Set Nat) (s : State) (T : PageTiling) : Agree region s T s T :=
  ⟨fun _ => rfl, fun _ => rfl⟩

theorem Agree.trans {region : Set Nat} {s s' s'' : State} {T T' T'' : PageTiling}
    (first : Agree region s T s' T') (second : Agree region s' T' s'' T'') :
    Agree region s T s'' T'' :=
  ⟨fun outside => (second.order outside).trans (first.order outside),
    fun outside => (second.entry outside).trans (first.entry outside)⟩

theorem Agree.mono {region larger : Set Nat} {s s' : State} {T T' : PageTiling}
    (agree : Agree region s T s' T') (subset : region ⊆ larger) : Agree larger s T s' T' :=
  ⟨fun outside => agree.order fun inside => outside (subset inside),
    fun outside => agree.entry fun inside => outside (subset inside)⟩

/-! ## Pages whose block is not in use -/

/-- The page starts a block that is on a list or has the top order, or it starts
none since a merge and carries the marks that the merge left. -/
structure Retired (s : State) (T : PageTiling) (p : Nat) : Prop where
  inside : T.order p = none → (s.pageList p).order = -1 ∧ (s.pageList p).entryInList = none
  head : ∀ {k}, T.order p = some k → k < topOrder → (s.pageList p).entryInList ≠ none

section Retired

variable {s s' : State} {T T' : PageTiling} {p k : Nat}

theorem Retired.congr (retired : Retired s T p) (tiling : T'.order p = T.order p)
    (order : (s'.pageList p).order = (s.pageList p).order)
    (entry : (s'.pageList p).entryInList = (s.pageList p).entryInList) : Retired s' T' p where
  inside none := by
    rw [order, entry]
    exact retired.inside (tiling.symm.trans none)
  head found below := by
    rw [entry]
    exact retired.head (tiling.symm.trans found) below

/-- Whatever starts a block and has a list entry is retired. -/
theorem Retired.of_entry (found : T.order p = some k)
    (entry : (s.pageList p).entryInList ≠ none) : Retired s T p where
  inside none := by
    rw [found] at none
    cases none
  head _ _ := entry

end Retired

/-! ## Halving the block in hand -/

/-- A block `c` of order `i` in hand has been cut down to order `o`. -/
structure Carved (s : State) (T : PageTiling) (L : Nat → List Nat) (c i o : Nat)
    (s' : State) (T' : PageTiling) (L' : Nat → List Nat) : Prop where
  inv : InvExcept s' T' L' (some c)
  order : T'.order c = some o
  idx : (s'.pageList c).idx = c
  pages : freePages L' ∪ block c o = freePages L ∪ block c i
  agree : Agree (block c i) s T s' T'
  noBuddies : NoBuddies L → NoBuddies L'
  above : ∀ j, i ≤ j → L' j = L j
  retired : ∀ {p}, p ≠ c → Retired s T p → Retired s' T' p

/-- One round of the inner loop of `_alloc` halves the block in hand. -/
theorem carve_step {s : State} {T : PageTiling} {L : Nat → List Nat} {c i : Nat}
    (inv : InvExcept s T L (some c)) (whole : T.order c = some (i + 1))
    (idxC : (s.pageList c).idx = c) :
    Carved s T L c (i + 1) i (enlist s (c + 2 ^ i) i) (T.split c i whole)
      (addBlock L (c + 2 ^ i) i) := by
  have alignedC := T.aligned whole
  have upperIn : c + 2 ^ i ∈ block c (i + 1) := by
    rw [block_succ]
    exact Or.inr (self_mem_block _ i)
  constructor
  · exact inv.splitUpper whole
  · exact T.split_order_lower whole
  · rw [(enlist_of_ne (InvExcept.upper_ne c i).symm).1]
    exact idxC
  · rw [freePages_addBlock, block_succ, Set.union_assoc, Set.union_comm (block _ _)]
  · constructor
    · intro b outside
      apply T.split_order_of_ne whole
      · exact fun same => outside (same ▸ self_mem_block c (i + 1))
      · exact fun same => outside (same ▸ upperIn)
    · intro b outside
      have other : b ≠ c + 2 ^ i := fun same => outside (same ▸ upperIn)
      exact (enlist_of_ne other).2.2
  · intro coalesced
    apply coalesced.add (aligned_upper alignedC)
    intro _
    rw [← buddy_of_aligned alignedC, buddy_buddy]
    exact inv.inHand rfl i
  · intro j above
    exact Function.update_of_ne (by omega) _ _
  · intro p notLower retired
    by_cases atUpper : p = c + 2 ^ i
    · subst atUpper
      apply Retired.of_entry (T.split_order_upper whole)
      rw [enlist_self.2.2]
      exact Option.some_ne_none _
    · obtain ⟨_, order, entry⟩ := enlist_of_ne (s := s) (k := i) atUpper
      exact retired.congr (T.split_order_of_ne whole notLower atUpper) order entry

theorem splitDown_step {s : State} {c o i : Nat} (larger : o < i + 1) (bounded : i < maxOrder)
    (idxC : (s.pageList c).idx = c) :
    splitDown s c o (i + 1) = splitDown (enlist s (c + 2 ^ i) i) c o i := by
  have idxNew : ((addToFreeList (s.modifyPage (c + 2 ^ i)
      fun page => { page with idx := c + 2 ^ i }) (some (c + 2 ^ i)) i).pageList
        (c + 2 ^ i)).idx = c + 2 ^ i := by
    rw [addToFreeList_eq _ _ bounded, State.relink_idx, State.modifyPage_self]
  rw [splitDown, if_pos larger]
  dsimp only
  rw [Nat.one_shiftLeft, idxC, idxNew, enlist_eq_alloc bounded]

/-- The inner loop of `_alloc` cuts the block in hand down to the wanted order. -/
theorem splitDown_carved {s : State} {T : PageTiling} {L : Nat → List Nat} {c i o : Nat}
    (inv : InvExcept s T L (some c)) (orderC : T.order c = some i)
    (idxC : (s.pageList c).idx = c) (wanted : o ≤ i) :
    ∃ T' L', Carved s T L c i o (splitDown s c o i) T' L' := by
  induction i generalizing s T L with
  | zero =>
      have same : o = 0 := Nat.le_zero.mp wanted
      subst same
      exact ⟨T, L, inv, orderC, idxC, rfl, Agree.refl _ _ _, id, fun _ _ => rfl, fun _ => id⟩
  | succ i ih =>
      rcases Nat.lt_or_eq_of_le wanted with larger | same
      · have bounded : i < maxOrder := by
          have top := T.le_top orderC
          have limit := topOrder_lt
          omega
        have first := carve_step inv orderC idxC
        obtain ⟨T', L', rest⟩ := ih first.inv first.order first.idx (Nat.le_of_lt_succ larger)
        rw [splitDown_step larger bounded idxC]
        refine ⟨T', L', rest.inv, rest.order, rest.idx, rest.pages.trans first.pages, ?_,
          fun coalesced => rest.noBuddies (first.noBuddies coalesced), fun j above => ?_,
          fun other retired => rest.retired other (first.retired other retired)⟩
        · exact first.agree.trans (rest.agree.mono (block_mono c (Nat.le_succ i)))
        · rw [rest.above j (Nat.le_of_succ_le above), first.above j above]
      · subst same
        rw [splitDown, if_neg (Nat.lt_irrefl _)]
        exact ⟨T, L, inv, orderC, idxC, rfl, Agree.refl _ _ _, id, fun _ _ => rfl, fun _ => id⟩

/-! ## One call -/

/-- The block `c` of order `o`, cut from a block of order `i`, has been handed out. -/
structure Taken (s : State) (T : PageTiling) (L : Nat → List Nat) (c i o : Nat)
    (s' : State) (T' : PageTiling) (L' : Nat → List Nat) : Prop where
  inv : Inv s' T' L'
  order : T'.order c = some o
  entry : (s'.pageList c).entryInList = none
  inside : block c o ⊆ freePages L
  pages : freePages L' = freePages L \ block c o
  agree : Agree (block c i) s T s' T'
  noBuddies : NoBuddies L → NoBuddies L'
  region : block c i ⊆ freePages L
  top : i < topOrder → L' topOrder = L topOrder
  topTaken : i = topOrder → c ∉ L' topOrder
  topSubset : ∀ {b}, b ∈ L' topOrder → b ∈ L topOrder
  retired : ∀ {p}, p ≠ c → Retired s T p → Retired s' T' p

/-- The body of the outer loop of `_alloc` cuts the block and records it as in use. -/
theorem takeBlock_eq {s : State} {c i o : Nat}
    (idxC : ((splitDown (rmFromFreeList s (some c) i) c o i).pageList c).idx = c) :
    takeBlock s o i c =
      (settle (splitDown (rmFromFreeList s (some c) i) c o i) c o, c * pageSize) := by
  unfold takeBlock settle
  dsimp only
  rw [idxC, State.modifyPage_self, State.modifyPage_self, Prod.mk.injEq]
  constructor
  · rw [State.modifyPage, State.modifyPage, State.modifyPage, State.mk.injEq]
    refine ⟨rfl, funext fun j => ?_⟩
    by_cases same : j = c
    · subst same
      simp
    · simp [same]
  · change memoryStart + ((splitDown _ c o i).pageList c).idx * pageSize = _
    rw [idxC, memoryStart, Nat.zero_add]

theorem takeBlock_taken {s : State} {T : PageTiling} {L : Nat → List Nat} {c i o : Nat}
    (inv : Inv s T L) (head : s.freeList i = some c) (bounded : i < maxOrder) (wanted : o ≤ i) :
    (takeBlock s o i c).2 = c * pageSize ∧
      ∃ T' L', Taken s T L c i o (takeBlock s o i c).1 T' L' := by
  have member := inv.lists.head_mem bounded head
  have lifted := inv.lift member
  have shape := rmFromFreeList_eq s c bounded (inv.lists.head_prev bounded)
  have idxC : ((rmFromFreeList s (some c) i).pageList c).idx = c := by
    rw [shape, State.relink_idx]
    exact (inv.listed member).2.2
  obtain ⟨T', L', carved⟩ := splitDown_carved lifted (inv.order_of_mem member) idxC wanted
  have settled := carved.inv.settle carved.order
  have within : block c o ⊆ block c i := block_mono c wanted
  have free : block c i ⊆ freePages L := fun x inside => ⟨c, i, member, inside⟩
  have apart : ∀ x, x ∈ block c o → x ∉ freePages L' := fun x inside =>
    carved.inv.not_freePage carved.order (carved.inv.inHand rfl o) inside
  rw [takeBlock_eq carved.idx]
  refine ⟨rfl, T', L', ?_⟩
  constructor
  · exact settled
  · exact carved.order
  · unfold settle
    rw [State.modifyPage_self]
  · exact within.trans free
  · ext x
    have both := Set.ext_iff.mp carved.pages x
    rw [inv.freePages_eraseBlock member] at both
    simp only [Set.mem_union, Set.mem_sdiff] at both ⊢
    constructor
    · intro still
      refine ⟨?_, fun inside => apart x inside still⟩
      rcases both.mp (Or.inl still) with ⟨old, _⟩ | inRegion
      · exact old
      · exact free inRegion
    · rintro ⟨old, outside⟩
      by_cases inRegion : x ∈ block c i
      · exact (both.mpr (Or.inr inRegion)).resolve_right outside
      · exact (both.mpr (Or.inl ⟨old, inRegion⟩)).resolve_right outside
  · refine ⟨fun outside => carved.agree.order outside, fun {b} outside => ?_⟩
    have other : b ≠ c := fun same => outside (same ▸ self_mem_block c i)
    unfold settle
    rw [State.modifyPage_of_ne _ _ _ other, carved.agree.entry outside, shape,
      State.relink_entryInList]
  · intro coalesced
    exact carved.noBuddies (coalesced.subset mem_of_mem_eraseBlock)
  · exact free
  · intro below
    rw [carved.above topOrder (Nat.le_of_lt below)]
    exact Function.update_of_ne (Nat.ne_of_gt below) _ _
  · intro same still
    rw [carved.above topOrder (Nat.le_of_eq same)] at still
    exact inv.erase_not_mem member topOrder still
  · intro b still
    have atMost : i ≤ topOrder := T.le_top (inv.order_of_mem member)
    rw [carved.above topOrder atMost] at still
    exact mem_of_mem_eraseBlock still
  · intro p other retired
    have lifted : Retired (rmFromFreeList s (some c) i) T p := by
      apply retired.congr rfl
      · rw [shape, State.relink_order]
      · rw [shape, State.relink_entryInList]
    have settledAt : (settle (splitDown (rmFromFreeList s (some c) i) c o i) c o).pageList p =
        (splitDown (rmFromFreeList s (some c) i) c o i).pageList p :=
      State.modifyPage_of_ne _ _ _ other
    apply (carved.retired other lifted).congr rfl
    · rw [settledAt]
    · rw [settledAt]

/-- The outer loop of `_alloc` takes the head of the first non-empty list. -/
theorem allocLoop_spec (s : State) (order left i : Nat) :
    ((∀ j, i ≤ j → j < i + left → s.freeList j = none) ∧
        allocLoop s order left i = (s, 0)) ∨
      ∃ j c, i ≤ j ∧ j < i + left ∧ s.freeList j = some c ∧
        (∀ l, i ≤ l → l < j → s.freeList l = none) ∧
        allocLoop s order left i = takeBlock s order j c := by
  induction left generalizing i with
  | zero =>
      refine Or.inl ⟨fun j lower upper => ?_, rfl⟩
      omega
  | succ left ih =>
      unfold allocLoop
      cases head : s.freeList i with
      | some c =>
          refine Or.inr ⟨i, c, Nat.le_refl i, by omega, head, fun l lower upper => ?_, rfl⟩
          omega
      | none =>
          rcases ih (i + 1) with ⟨empty, result⟩ | ⟨j, c, lower, upper, found, empty, result⟩
          · refine Or.inl ⟨fun j lower upper => ?_, result⟩
            rcases Nat.eq_or_lt_of_le lower with same | later
            · exact same ▸ head
            · exact empty j later (by omega)
          · refine Or.inr ⟨j, c, by omega, by omega, found, fun l lower' upper' => ?_, result⟩
            rcases Nat.eq_or_lt_of_le lower' with same | later
            · exact same ▸ head
            · exact empty l later upper'

/-- `_alloc` fails without effect when no list of sufficient order has a block,
and otherwise hands out the first block of the first such list. -/
theorem alloc_spec {s : State} {T : PageTiling} {L : Nat → List Nat} (inv : Inv s T L)
    {size : Nat} (positive : 1 ≤ size) (fits : size ≤ maxAllocSize) :
    ((∀ j, getOrder (round size) ≤ j → j < maxOrder → s.freeList j = none) ∧
        alloc s size = (s, 0)) ∨
      ∃ i c, getOrder (round size) ≤ i ∧ i < maxOrder ∧ s.freeList i = some c ∧
        (∀ j, getOrder (round size) ≤ j → j < i → s.freeList j = none) ∧
        (alloc s size).2 = c * pageSize ∧
        ∃ T' L', Taken s T L c i (getOrder (round size)) (alloc s size).1 T' L' := by
  have valid : ¬ (size = 0 ∨ maxAllocSize < size) := by omega
  have limit : getOrder (round size) + (maxOrder - getOrder (round size)) = maxOrder := by
    have bounded := Nat.lt_of_le_of_lt (order_le_top fits) topOrder_lt
    omega
  unfold alloc
  rw [if_neg valid]
  rcases allocLoop_spec s (getOrder (round size)) (maxOrder - getOrder (round size))
    (getOrder (round size)) with ⟨empty, result⟩ | ⟨i, c, lower, upper, head, empty, result⟩
  · rw [limit] at empty
    exact Or.inl ⟨empty, result⟩
  · rw [limit] at upper
    obtain ⟨address, T', L', taken⟩ := takeBlock_taken inv head upper lower
    dsimp only
    rw [result]
    exact Or.inr ⟨i, c, lower, upper, head, empty, address, T', L', taken⟩

end OsdiKernel.Mm
