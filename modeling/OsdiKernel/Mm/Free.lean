import OsdiKernel.Mm.Alloc

/-!
# What one call of `_free` does

The block is merged with its buddy as long as the buddy is free and whole, and
the result goes back on a list, unless it has reached the top order: then the
loop ends without putting it anywhere.
-/

namespace OsdiKernel.Mm

open DyadicBlock

/-! ## Merging the block in hand with its buddy -/

/-- For the pages and the orders of blocks, the machine word holds the buddy. -/
theorem getBuddy_eq {c k : Nat} (inRange : c < pageNum) (bounded : k < maxOrder) :
    getBuddy c k = buddy c k := by
  have limit : maxOrder = 14 := rfl
  have size : pageNum < 2 ^ 31 := by decide
  have small : ((k : Int) % 32).toNat = k := by omega
  have power : 2 ^ k < 2 ^ 31 := Nat.pow_lt_pow_right (by decide) (by omega)
  have shifted : (1#32 <<< k).toNat = 2 ^ k := by
    rw [BitVec.toNat_shiftLeft, Nat.shiftLeft_eq, BitVec.toNat_ofNat]
    omega
  have word : (BitVec.ofInt 32 c ^^^ 1#32 <<< k).toNat = buddy c k := by
    rw [BitVec.toNat_xor, shifted, BitVec.ofInt_natCast, BitVec.toNat_ofNat,
      Nat.mod_eq_of_lt (by omega), buddy, Nat.one_shiftLeft]
  have positive : buddy c k < 2 ^ 31 := by
    rw [buddy, Nat.one_shiftLeft]
    exact Nat.xor_lt_two_pow (inRange.trans size) power
  rw [getBuddy, small, BitVec.toInt_eq_toNat_of_lt, word]
  omega

theorem State.pageAt_natCast (s : State) {i : Nat} (inRange : i < pageNum) :
    s.pageAt i = some (s.pageList i) :=
  if_pos ⟨Int.natCast_nonneg i, Int.ofNat_lt.mpr inRange⟩

theorem State.pageAt_of_neg (s : State) {i : Int} (negative : i < 0) : s.pageAt i = none :=
  if_neg fun within => Int.not_lt.mpr within.1 negative

theorem PageTiling.lt_pageNum {T : PageTiling} {c k : Nat} (orderC : T.order c = some k) :
    c < pageNum := by
  have within := T.within orderC
  have positive := Nat.two_pow_pos k
  rw [pageNum_eq] at within
  omega

/-- The block in hand and its listed buddy become one block in hand. -/
structure Merged (s : State) (T : PageTiling) (L : Nat → List Nat) (c k : Nat)
    (s' : State) (T' : PageTiling) (L' : Nat → List Nat) : Prop where
  inv : InvExcept s' T' L' (some (parent c k))
  order : T'.order (parent c k) = some (k + 1)
  field : (s'.pageList (parent c k)).order = (k + 1 : Nat)
  pages : freePages L' ∪ block (parent c k) (k + 1) = freePages L ∪ block c k
  agree : Agree (freePages L ∪ block c k) s T s' T'
  noBuddies : NoBuddies L → NoBuddies L'
  top : L' topOrder = L topOrder
  retired : ∀ {p}, p = c ∨ Retired s T p → p = parent c k ∨ Retired s' T' p

/-- The two halves of the parent, as `_free` sorts them. -/
theorem sort_halves {c k : Nat} (aligned : 2 ^ k ∣ c) :
    (if c < buddy c k then c else buddy c k) = parent c k ∧
      (if buddy c k < c then c else buddy c k) = parent c k + 2 ^ k := by
  have positive : 0 < 2 ^ k := Nat.two_pow_pos k
  rcases buddy_cases aligned with ⟨lower, upper⟩ | ⟨upper, lower⟩
  · rw [if_pos (by omega), if_neg (by omega)]
    exact ⟨lower, upper⟩
  · rw [if_neg (by omega), if_pos (by omega)]
    exact ⟨lower, upper⟩

/-- Apart from its last two writes, a merge leaves the other entries as `rm_from_free_list` does. -/
theorem mergeBuddy_of_ne {s : State} {b c k : Nat} (aligned : 2 ^ k ∣ c) (notLower : b ≠ parent c k)
    (notUpper : b ≠ parent c k + 2 ^ k) :
    (mergeBuddy s c (buddy c k) (buddy c k) k).pageList b =
      (rmFromFreeList s (some (buddy c k)) k).pageList b := by
  unfold mergeBuddy
  dsimp only
  rw [(sort_halves aligned).1, (sort_halves aligned).2, State.modifyPage_of_ne _ _ _ notUpper,
    State.modifyPage_of_ne _ _ _ notUpper, State.modifyPage_of_ne _ _ _ notLower]

/-- The last two writes of a merge are the marks of the upper half. -/
theorem mergeBuddy_upper {s : State} {c k : Nat} (aligned : 2 ^ k ∣ c) :
    ((mergeBuddy s c (buddy c k) (buddy c k) k).pageList (parent c k + 2 ^ k)).order = -1 ∧
      ((mergeBuddy s c (buddy c k) (buddy c k) k).pageList
        (parent c k + 2 ^ k)).entryInList = none := by
  unfold mergeBuddy
  dsimp only
  rw [(sort_halves aligned).2, State.modifyPage_self, State.modifyPage_self]
  exact ⟨rfl, rfl⟩

/-- The entries that are not halves of the parent are not the block in hand or its buddy. -/
theorem ne_of_ne_halves {b c k : Nat} (aligned : 2 ^ k ∣ c) (notLower : b ≠ parent c k)
    (notUpper : b ≠ parent c k + 2 ^ k) : b ≠ c ∧ b ≠ buddy c k := by
  rcases buddy_cases aligned with ⟨lower, upper⟩ | ⟨upper, lower⟩
  · exact ⟨fun same => notLower (same.trans lower), fun same => notUpper (same.trans upper)⟩
  · exact ⟨fun same => notUpper (same.trans upper), fun same => notLower (same.trans lower)⟩

/-- A merge moves list pointers and heads like `rm_from_free_list`. -/
theorem Lists.mergeBuddy {s : State} {L : Nat → List Nat} {c k : Nat} (lists : Lists s L)
    (listed : buddy c k ∈ L k) :
    Lists (mergeBuddy s c (buddy c k) (buddy c k) k) (eraseBlock L (buddy c k) k) := by
  apply (lists.unlink listed).congr
  · unfold Mm.mergeBuddy
    dsimp only
    rw [State.links_modifyPage, State.links_modifyPage, State.links_modifyPage] <;>
      exact fun _ => rfl
  · rfl

theorem merge_step {s : State} {T : PageTiling} {L : Nat → List Nat} {c k : Nat}
    (inv : InvExcept s T L (some c)) (orderC : T.order c = some k) (below : k < topOrder)
    (listed : buddy c k ∈ L k) :
    ∃ T' L', Merged s T L c k (mergeBuddy s c (buddy c k) (buddy c k) k) T' L' := by
  have alignedC := T.aligned orderC
  have orderBuddy := inv.order_of_mem listed
  have halves := block_parent alignedC
  have bounded := inv.lists.bounded listed
  have upperNe := InvExcept.upper_ne (parent c k) k
  have shape := rmFromFreeList_eq s (buddy c k) bounded (inv.lists.head_prev bounded)
  -- the two halves of the parent are the block in hand and its buddy
  have both : ∀ {P : Nat → Prop}, P c → P (buddy c k) →
      P (parent c k) ∧ P (parent c k + 2 ^ k) := by
    intro P atC atBuddy
    rcases buddy_cases alignedC with ⟨lower, upper⟩ | ⟨upper, lower⟩
    · exact ⟨lower ▸ atC, upper ▸ atBuddy⟩
    · exact ⟨lower ▸ atBuddy, upper ▸ atC⟩
  have either : ∀ {b}, b ≠ parent c k → b ≠ parent c k + 2 ^ k → b ≠ c ∧ b ≠ buddy c k :=
    fun notLower notUpper => ne_of_ne_halves alignedC notLower notUpper
  obtain ⟨orderLower, orderUpper⟩ := both (P := fun b => T.order b = some k) orderC orderBuddy
  have orders : ∀ {b}, b ≠ parent c k + 2 ^ k → b ≠ parent c k →
      (T.merge (parent c k) k (parent_aligned c k) below orderLower orderUpper).order b =
        T.order b := by
    intro b notUpper notLower
    change Function.update (Function.update T.order _ _) _ none b = _
    rw [Function.update_of_ne notUpper, Function.update_of_ne notLower]
  have atParent : (T.merge (parent c k) k (parent_aligned c k) below orderLower orderUpper).order
      (parent c k) = some (k + 1) := by
    change Function.update (Function.update T.order _ _) _ none _ = _
    rw [Function.update_of_ne upperNe.symm, Function.update_self]
  have atUpper : (T.merge (parent c k) k (parent_aligned c k) below orderLower orderUpper).order
      (parent c k + 2 ^ k) = none := Function.update_self _ _ _
  -- the fields after all writes
  have fields : ∀ {b}, b ≠ parent c k → b ≠ parent c k + 2 ^ k →
      (mergeBuddy s c (buddy c k) (buddy c k) k).pageList b =
        (rmFromFreeList s (some (buddy c k)) k).pageList b :=
    fun notLower notUpper => mergeBuddy_of_ne alignedC notLower notUpper
  have apart : ∀ {i b}, b ∈ eraseBlock L (buddy c k) k i →
      b ≠ parent c k ∧ b ≠ parent c k + 2 ^ k := by
    intro i b member
    exact both (P := fun d => b ≠ d)
      (fun same => inv.inHand rfl i (same ▸ mem_of_mem_eraseBlock member))
      (fun same => inv.erase_not_mem listed i (same ▸ member))
  refine ⟨T.merge (parent c k) k (parent_aligned c k) below orderLower orderUpper,
    eraseBlock L (buddy c k) k, ?_, atParent, ?_, ?_, ?_, ?_, ?_, ?_⟩
  · constructor
    · exact inv.lists.mergeBuddy listed
    · intro i b member
      obtain ⟨notLower, notUpper⟩ := apart member
      rw [orders notUpper notLower, fields notLower notUpper, shape, State.relink_entryInList,
        State.relink_idx]
      exact inv.listed (mem_of_mem_eraseBlock member)
    · intro b i orderB notHand
      have notLower : b ≠ parent c k := fun same => notHand (congrArg some same.symm)
      have notUpper : b ≠ parent c k + 2 ^ k := by
        intro same
        rw [same, atUpper] at orderB
        cases orderB
      rw [orders notUpper notLower] at orderB
      rw [fields notLower notUpper, shape, State.relink_order]
      exact inv.order orderB fun same =>
        (either notLower notUpper).1 (Option.some.inj same).symm
    · intro b i orderB notHand belowI entry
      have notLower : b ≠ parent c k := fun same => notHand (congrArg some same.symm)
      have notUpper : b ≠ parent c k + 2 ^ k := by
        intro same
        rw [same, atUpper] at orderB
        cases orderB
      rw [orders notUpper notLower] at orderB
      rw [fields notLower notUpper, shape, State.relink_entryInList] at entry
      rw [mem_eraseBlock_of_ne (either notLower notUpper).2]
      exact inv.entry orderB
        (fun same => (either notLower notUpper).1 (Option.some.inj same).symm) belowI entry
    · intro b same i member
      cases same
      exact (apart member).1 rfl
  · unfold mergeBuddy
    dsimp only
    rw [(sort_halves alignedC).1, (sort_halves alignedC).2,
      State.modifyPage_of_ne _ _ _ upperNe.symm, State.modifyPage_of_ne _ _ _ upperNe.symm,
      State.modifyPage_self]
    rfl
  · rw [inv.freePages_eraseBlock listed, halves]
    ext x
    have free : x ∈ block (buddy c k) k → x ∈ freePages L := fun inside => ⟨_, k, listed, inside⟩
    simp only [Set.mem_union, Set.mem_sdiff]
    by_cases inBuddy : x ∈ block (buddy c k) k
    · simp [inBuddy, free inBuddy]
    · simp [inBuddy]
  · have changed := both (P := fun b => b ∈ freePages L ∪ block c k)
      (Or.inr (self_mem_block c k)) (Or.inl ⟨_, k, listed, self_mem_block _ k⟩)
    have untouched : ∀ {b}, b ∉ freePages L ∪ block c k →
        b ≠ parent c k ∧ b ≠ parent c k + 2 ^ k := by
      intro b outside
      constructor
      · rintro rfl
        exact outside changed.1
      · rintro rfl
        exact outside changed.2
    constructor
    · intro b outside
      exact orders (untouched outside).2 (untouched outside).1
    · intro b outside
      rw [fields (untouched outside).1 (untouched outside).2, shape, State.relink_entryInList]
  · exact fun coalesced => coalesced.subset mem_of_mem_eraseBlock
  · exact Function.update_of_ne (Nat.ne_of_gt below) _ _
  · intro p known
    by_cases atLower : p = parent c k
    · exact Or.inl atLower
    · by_cases atUpper' : p = parent c k + 2 ^ k
      · subst atUpper'
        refine Or.inr ⟨fun _ => mergeBuddy_upper alignedC, fun found => ?_⟩
        rw [atUpper] at found
        cases found
      · have retired := known.resolve_left (either atLower atUpper').1
        refine Or.inr (retired.congr (orders atUpper' atLower) ?_ ?_)
        · rw [fields atLower atUpper', shape, State.relink_order]
        · rw [fields atLower atUpper', shape, State.relink_entryInList]

/-! ## The merge loop -/

/-- The pages `region` came back, all of them or all but one block of the top order. -/
structure Released (s : State) (T : PageTiling) (L : Nat → List Nat) (c : Nat) (region : Set Nat)
    (s' : State) (T' : PageTiling) (L' : Nat → List Nat) : Prop where
  inv : Inv s' T' L'
  pages : freePages L' = region ∨ ∃ r, 2 ^ topOrder ∣ r ∧ r < pageNum ∧ c ∈ block r topOrder ∧
    block r topOrder ⊆ region ∧ freePages L' = region \ block r topOrder
  agree : Agree region s T s' T'
  noBuddies : NoBuddies L → NoBuddies L'
  top : L' topOrder = L topOrder
  retired : ∀ {p}, p = c ∨ Retired s T p → Retired s' T' p

/-- The branch of the merge loop that puts the block in hand on its list. -/
theorem putBack_released {s : State} {T : PageTiling} {L : Nat → List Nat} {c k : Nat}
    (inv : InvExcept s T L (some c)) (orderC : T.order c = some k) (below : k < topOrder)
    (buddyOff : buddy c k ∉ L k) :
    Released s T L c (freePages L ∪ block c k) (putBack s c k) T (addBlock L c k) := by
  rw [enlist_eq_putBack (Nat.lt_trans below topOrder_lt)]
  constructor
  · exact inv.enlistHand orderC
  · exact Or.inl freePages_addBlock
  · refine ⟨fun _ => rfl, fun {b} outside => ?_⟩
    have other : b ≠ c := by
      rintro rfl
      exact outside (Or.inr (self_mem_block b k))
    exact (enlist_of_ne other).2.2
  · exact fun coalesced => coalesced.add (T.aligned orderC) fun _ => buddyOff
  · exact Function.update_of_ne (Nat.ne_of_gt below) _ _
  · intro p known
    by_cases atC : p = c
    · subst atC
      apply Retired.of_entry orderC
      rw [enlist_self.2.2]
      exact Option.some_ne_none _
    · obtain ⟨_, order, entry⟩ := enlist_of_ne (s := s) (k := k) atC
      exact (known.resolve_left atC).congr rfl order entry

/-- A block of the top order in hand is dropped. -/
theorem drop_released {s : State} {T : PageTiling} {L : Nat → List Nat} {c : Nat}
    (inv : InvExcept s T L (some c)) (orderC : T.order c = some topOrder)
    (field : (s.pageList c).order = topOrder) :
    Released s T L c (freePages L ∪ block c topOrder) s T L := by
  constructor
  · constructor
    · exact inv.lists
    · exact inv.listed
    · intro b i orderB _
      by_cases atC : b = c
      · subst atC
        rw [orderC] at orderB
        cases orderB
        exact field
      · exact inv.order orderB fun same => atC (Option.some.inj same).symm
    · intro b i orderB _ below entry
      refine inv.entry orderB (fun same => ?_) below entry
      cases same
      rw [orderC] at orderB
      cases orderB
      exact Nat.lt_irrefl _ below
    · intro b impossible
      cases impossible
  · refine Or.inr ⟨c, T.aligned orderC, ?_, self_mem_block c topOrder,
      Set.subset_union_right, ?_⟩
    · have within := T.within orderC
      have positive := Nat.two_pow_pos topOrder
      rw [pageNum_eq] at within
      omega
    · ext x
      have apart := fun inside : x ∈ block c topOrder =>
        inv.not_freePage orderC (inv.inHand rfl topOrder) inside
      rw [Set.mem_sdiff, Set.mem_union]
      constructor
      · exact fun free => ⟨Or.inl free, fun inside => apart inside free⟩
      · rintro ⟨free | inside, outside⟩
        · exact free
        · exact absurd inside outside
  · exact Agree.refl _ _ _
  · exact id
  · rfl
  · rintro p (rfl | retired)
    · refine ⟨fun none => ?_, fun found below => ?_⟩
      · rw [orderC] at none
        cases none
      · rw [orderC] at found
        cases found
        exact absurd below (Nat.lt_irrefl _)
    · exact retired

/-- One round of the merge loop below the top order: the buddy is listed and the
block is merged with it, or it is not and the block goes back on its list. -/
theorem freeLoop_cases {s : State} {T : PageTiling} {L : Nat → List Nat} {c k : Nat} (left : Nat)
    (inv : InvExcept s T L (some c)) (orderC : T.order c = some k)
    (field : (s.pageList c).order = k) (below : k < topOrder) :
    (buddy c k ∉ L k ∧ freeLoop s c (buddy c k) k (left + 1) = some (putBack s c k)) ∨
      (buddy c k ∈ L k ∧ freeLoop s c (buddy c k) k (left + 1) =
        freeLoop (mergeBuddy s c (buddy c k) (buddy c k) k) (parent c k)
          (buddy (parent c k) (k + 1)) (k + 1 : Nat) left) := by
  have guard : (k : Int) < (maxOrder : Int) - 1 := by
    have top : topOrder = maxOrder - 1 := rfl
    have limit := topOrder_lt
    omega
  have apart : buddy c k ≠ c := buddy_ne (T.aligned orderC)
  have notHand : some c ≠ some (buddy c k) := fun same => apart (Option.some.inj same).symm
  obtain ⟨j, orderBuddy, _⟩ := T.buddy_order orderC below
  rw [freeLoop, if_pos guard, s.pageAt_natCast (T.lt_pageNum orderBuddy)]
  dsimp only
  cases entry : (s.pageList (buddy c k)).entryInList with
  | none =>
      refine Or.inl ⟨fun member => ?_, rfl⟩
      have listed := (inv.listed member).2.1
      rw [entry] at listed
      cases listed
  | some buddyEntry =>
      dsimp only
      split
      · next sameOrder =>
          have fieldBuddy := inv.order orderBuddy notHand
          rw [sameOrder, field] at fieldBuddy
          have same : k = j := Int.ofNat.inj fieldBuddy
          subst same
          have listed := inv.entry orderBuddy notHand below (by rw [entry]; simp)
          have atBuddy := (inv.listed listed).2.1
          rw [entry] at atBuddy
          cases atBuddy
          have next : getBuddy (parent c k) ((k : Int) + 1) = buddy (parent c k) (k + 1) :=
            getBuddy_eq (Nat.lt_of_le_of_lt (Nat.sub_le c _) (T.lt_pageNum orderC))
              (Nat.lt_of_le_of_lt below topOrder_lt)
          rw [Int.toNat_natCast, (sort_halves (T.aligned orderC)).1, next]
          exact Or.inr ⟨listed, rfl⟩
      · next otherOrder =>
          refine Or.inl ⟨fun member => otherOrder ?_, rfl⟩
          rw [field]
          exact inv.order (inv.order_of_mem member) notHand

theorem freeLoop_released {s : State} {T : PageTiling} {L : Nat → List Nat} {c k left : Nat}
    (inv : InvExcept s T L (some c)) (orderC : T.order c = some k)
    (field : (s.pageList c).order = k) (fuel : k + left = topOrder) :
    ∃ s' T' L', freeLoop s c (buddy c k) k left = some s' ∧
      Released s T L c (freePages L ∪ block c k) s' T' L' := by
  induction left generalizing s T L c k with
  | zero =>
      have atTop : k = topOrder := fuel
      subst atTop
      exact ⟨s, T, L, rfl, drop_released inv orderC field⟩
  | succ left ih =>
      have below : k < topOrder := by omega
      rcases freeLoop_cases left inv orderC field below with ⟨absent, result⟩ | ⟨listed, result⟩
      · rw [result]
        exact ⟨_, T, _, rfl, putBack_released inv orderC below absent⟩
      · obtain ⟨T₁, L₁, merged⟩ := merge_step inv orderC below listed
        obtain ⟨s', T', L', ended, rest⟩ := ih merged.inv merged.order merged.field (by omega)
        rw [merged.pages] at rest
        rw [result]
        refine ⟨s', T', L', ended, rest.inv, ?_, merged.agree.trans rest.agree,
          fun coalesced => rest.noBuddies (merged.noBuddies coalesced),
          rest.top.trans merged.top, fun known => rest.retired (merged.retired known)⟩
        rcases rest.pages with all | ⟨r, alignedR, inRange, inside, subset, lost⟩
        · exact Or.inl all
        · refine Or.inr ⟨r, alignedR, inRange, ?_, subset, lost⟩
          -- the block that is lost contains the parent, hence `c`
          have nested := block_subset_of_mem alignedR (parent_aligned c k) below inside
            (self_mem_block _ (k + 1))
          apply nested
          rw [block_parent (T.aligned orderC)]
          exact Or.inl (self_mem_block c k)

/-! ## One call -/

theorem pageIndex_eq {ptr : Nat} (inRange : ptr < memorySize) :
    pageIndex ptr = (ptr / pageSize : Nat) := by
  have bound : memorySize = 0x3C000000 := rfl
  have difference : Int.bmod ((ptr : Int) - (memoryStart : Nat)) (2 ^ 64) = ptr := by
    unfold memoryStart
    rw [Int.bmod_eq_of_le] <;> omega
  have quotient : Int.tdiv (ptr : Int) (pageSize : Nat) = ((ptr / pageSize : Nat) : Int) := by
    unfold pageSize
    rw [Int.tdiv_eq_ediv_of_nonneg] <;> omega
  unfold pageIndex
  rw [difference, quotient]
  unfold pageSize
  rw [Int.bmod_eq_of_le] <;> omega

theorem pageIndex_mul {c : Nat} (inRange : c < pageNum) : pageIndex (c * pageSize) = c := by
  have bound : memorySize = pageNum * pageSize := by decide
  rw [pageIndex_eq, Nat.mul_div_cancel c (by decide)]
  rw [bound]
  exact Nat.mul_lt_mul_of_pos_right inRange (by decide)

/-- A call of `_free` that passes the guard enters the merge loop. -/
theorem freeOrFault_unlisted {s : State} {c : Nat} (nonzero : c ≠ 0) (inRange : c < pageNum)
    (unlisted : (s.pageList c).entryInList = none) :
    freeOrFault s (c * pageSize) =
      freeLoop s c (getBuddy c (s.pageList c).order) (s.pageList c).order
        ((maxOrder : Int) - 1 - (s.pageList c).order).toNat := by
  have guard : ¬ ((c : Int) < 0 ∨ (pageNum : Int) ≤ c ∨
      (s.pageList (c : Int).toNat).entryInList ≠ none) := by
    rw [Int.toNat_natCast, unlisted]
    simp only [ne_eq, not_true_eq_false, or_false]
    omega
  unfold freeOrFault
  rw [if_neg (Nat.mul_ne_zero nonzero (by decide))]
  dsimp only
  rw [pageIndex_mul inRange, if_neg guard, Int.toNat_natCast]

/-- A block with a null entry field is on no list. -/
theorem InvExcept.absent_of_null {s : State} {T : PageTiling} {L : Nat → List Nat}
    {hand : Option Nat} {c : Nat} (inv : InvExcept s T L hand)
    (null : (s.pageList c).entryInList = none) (i : Nat) : c ∉ L i := by
  intro member
  have listed := (inv.listed member).2.1
  rw [null] at listed
  cases listed

/-- `_free` of a block in use is the merge loop from its order to the top order. -/
theorem freeOrFault_inUse {s : State} {T : PageTiling} {L : Nat → List Nat} {c k : Nat}
    (inv : Inv s T L) (orderC : T.order c = some k) (taken : (s.pageList c).entryInList = none)
    (nonzero : c ≠ 0) :
    freeOrFault s (c * pageSize) = freeLoop s c (buddy c k) k (topOrder - k) := by
  have inRange := T.lt_pageNum orderC
  have field : (s.pageList c).order = k := inv.order orderC (by simp)
  have bounded : k < maxOrder := Nat.lt_of_le_of_lt (T.le_top orderC) topOrder_lt
  have fuel : ((maxOrder : Int) - 1 - k).toNat = topOrder - k := by
    have top : topOrder = maxOrder - 1 := rfl
    omega
  rw [freeOrFault_unlisted nonzero inRange taken, field, getBuddy_eq inRange bounded, fuel]

theorem free_of_some {s s' : State} {ptr : Nat} (freed : freeOrFault s ptr = some s') :
    free s ptr = s' := by
  rw [free, freed, Option.getD_some]

/-- Freeing a block that is in use does not fault.  It gives back its pages, or
loses a whole block of the top order that became free with them. -/
theorem free_spec {s : State} {T : PageTiling} {L : Nat → List Nat} {c k : Nat}
    (inv : Inv s T L) (orderC : T.order c = some k) (taken : (s.pageList c).entryInList = none)
    (nonzero : c ≠ 0) :
    freeOrFault s (c * pageSize) = some (free s (c * pageSize)) ∧
      ∃ T' L', Released s T L c (freePages L ∪ block c k) (free s (c * pageSize)) T' L' := by
  obtain ⟨s', T', L', ended, released⟩ := freeLoop_released (inv.hold (inv.absent_of_null taken))
    orderC (inv.order orderC (by simp)) (Nat.add_sub_cancel' (T.le_top orderC))
  rw [← freeOrFault_inUse inv orderC taken nonzero] at ended
  rw [free_of_some ended]
  exact ⟨ended, T', L', released⟩

end OsdiKernel.Mm
