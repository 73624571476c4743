import OsdiKernel.Mm.Free

/-!
# What `mm_init` and one call of `reserve` do

During the boot phase blocks are only split, so every position that does not
start a block still has the fields that `mm_init` cleared.  A reservation
splits the blocks around its two end pages down to single pages, whether they
are free or not, and then takes every block of the range off its list.
-/

namespace OsdiKernel.Mm

open DyadicBlock Tiling

/-- The invariant of the boot phase: entry fields and lists agree at every order. -/
structure Settled (s : State) (T : PageTiling) (L : Nat → List Nat) : Prop where
  inv : Inv s T L
  top : ∀ {b}, T.order b = some topOrder → (s.pageList b).entryInList ≠ none → b ∈ L topOrder

theorem Settled.entry_iff {s : State} {T : PageTiling} {L : Nat → List Nat} {b k : Nat}
    (settled : Settled s T L) (orderB : T.order b = some k) :
    (s.pageList b).entryInList ≠ none ↔ b ∈ L k := by
  constructor
  · intro entry
    rcases Nat.lt_or_eq_of_le (T.le_top orderB) with below | same
    · exact settled.inv.entry orderB (by simp) below entry
    · subst same
      exact settled.top orderB entry
  · intro member
    rw [(settled.inv.listed member).2.1]
    simp

/-! ## Initialisation -/

/-- Write the `cache_order` fields, which the page allocator never reads. -/
def State.retag (s : State) (tags : Nat → Int) : State where
  freeList := s.freeList
  pageList i := { s.pageList i with cacheOrder := tags i }

theorem InvExcept.retag {s : State} {T : PageTiling} {L : Nat → List Nat} {hand : Option Nat}
    (inv : InvExcept s T L hand) (tags : Nat → Int) : InvExcept (s.retag tags) T L hand where
  lists := inv.lists.congr rfl rfl
  listed := inv.listed
  order := inv.order
  entry := inv.entry
  inHand := inv.inHand

/-- The heads of the first blocks of the top order, the last one first. -/
def topHeads : Nat → List Nat
  | 0 => []
  | count + 1 => count * maxBlockSize :: topHeads count

theorem mem_topHeads {count b : Nat} :
    b ∈ topHeads count ↔ ∃ i, i < count ∧ b = i * maxBlockSize := by
  induction count with
  | zero => simp [topHeads]
  | succ count ih =>
      rw [topHeads, List.mem_cons, ih]
      constructor
      · rintro (same | ⟨i, below, same⟩)
        · exact ⟨count, Nat.lt_succ_self count, same⟩
        · exact ⟨i, Nat.lt_succ_of_lt below, same⟩
      · rintro ⟨i, below, same⟩
        rcases Nat.lt_succ_iff_lt_or_eq.mp below with earlier | last
        · exact Or.inr ⟨i, earlier, same⟩
        · exact Or.inl (last ▸ same)

/-- The lists after the first iterations of the loop of `mm_init`. -/
def initLists (count : Nat) : Nat → List Nat :=
  Function.update (fun _ => []) topOrder (topHeads count)

theorem mem_initLists {count b k : Nat} :
    b ∈ initLists count k ↔ k = topOrder ∧ b ∈ topHeads count := by
  unfold initLists
  by_cases same : k = topOrder
  · subst same
    simp
  · simp [same]

theorem initBlock_eq (s : State) (i : Nat) : initBlock s i = enlist s i topOrder :=
  enlist_eq_alloc topOrder_lt

theorem initBlocks_lists (count : Nat) :
    Lists (initBlocks count) (initLists count) ∧
      ∀ {b}, b ∈ topHeads count → ((initBlocks count).pageList b).idx = b ∧
        ((initBlocks count).pageList b).order = topOrder ∧
        ((initBlocks count).pageList b).entryInList = some b := by
  induction count with
  | zero =>
      refine ⟨⟨?_, ?_, ?_, ?_⟩, ?_⟩
      · intro k x member
        simp [mem_initLists, topHeads] at member
      · intro k _
        have empty : initLists 0 k = [] := by
          rw [List.eq_nil_iff_forall_not_mem]
          simp [mem_initLists, topHeads]
        rw [empty]
        exact .nil
      · intro j k x member
        simp [mem_initLists, topHeads] at member
      · exact fun _ _ => ⟨rfl, rfl⟩
      · intro b member
        simp [topHeads] at member
  | succ count ih =>
      have fresh : count * maxBlockSize ∉ topHeads count := by
        rw [mem_topHeads]
        rintro ⟨i, below, same⟩
        have equal : count = i := Nat.eq_of_mul_eq_mul_right (by decide) same
        omega
      have lists : initLists (count + 1) =
          addBlock (initLists count) (count * maxBlockSize) topOrder := by
        unfold addBlock initLists
        rw [Function.update_idem, Function.update_self, topHeads]
      rw [initBlocks, initBlock_eq, lists]
      refine ⟨ih.1.enlist topOrder_lt ?_, ?_⟩
      · intro j member
        exact fresh (mem_initLists.mp member).2
      · intro b member
        rw [topHeads, List.mem_cons] at member
        rcases member with rfl | earlier
        · exact enlist_self
        · have other : b ≠ count * maxBlockSize := fun same => fresh (same ▸ earlier)
          obtain ⟨idxB, orderB, entryB⟩ := ih.2 earlier
          obtain ⟨idxKept, orderKept, entryKept⟩ :=
            enlist_of_ne (s := initBlocks count) (k := topOrder) other
          exact ⟨idxKept.trans idxB, orderKept.trans orderB, entryKept.trans entryB⟩

/-- The tiling of memory after `mm_init`. -/
def initTiling : PageTiling := uniform topOrder (pageNum / maxBlockSize)

theorem initTiling_order {b k : Nat} (found : initTiling.order b = some k) :
    k = topOrder ∧ b ∈ topHeads (pageNum / maxBlockSize) := by
  obtain ⟨top, aligned, inRange⟩ := uniform_order_eq found
  obtain ⟨i, rfl⟩ := aligned
  refine ⟨top, mem_topHeads.mpr ⟨i, ?_, Nat.mul_comm _ _⟩⟩
  rw [Nat.mul_comm] at inRange
  exact Nat.lt_of_mul_lt_mul_right inRange

theorem initTiling_of_mem {b : Nat} (member : b ∈ topHeads (pageNum / maxBlockSize)) :
    initTiling.order b = some topOrder := by
  obtain ⟨i, below, rfl⟩ := mem_topHeads.mp member
  exact uniform_order (Nat.dvd_mul_left _ _) (Nat.mul_lt_mul_of_pos_right below (by decide))

theorem mmInit_settled :
    Settled mmInit initTiling (initLists (pageNum / maxBlockSize)) := by
  obtain ⟨lists, fields⟩ := initBlocks_lists (pageNum / maxBlockSize)
  have retagged : mmInit = (initBlocks (pageNum / maxBlockSize)).retag fun i =>
      if i < pageNum then -1 else
        ((initBlocks (pageNum / maxBlockSize)).pageList i).cacheOrder := by
    unfold mmInit State.retag
    rw [State.mk.injEq]
    refine ⟨rfl, funext fun i => ?_⟩
    by_cases inRange : i < pageNum <;> simp [inRange]
  rw [retagged]
  constructor
  · apply InvExcept.retag
    constructor
    · exact lists
    · intro k b member
      obtain ⟨rfl, inHeads⟩ := mem_initLists.mp member
      obtain ⟨idxB, _, entryB⟩ := fields inHeads
      exact ⟨initTiling_of_mem inHeads, entryB, idxB⟩
    · intro b k orderB _
      obtain ⟨rfl, inHeads⟩ := initTiling_order orderB
      exact (fields inHeads).2.1
    · intro b k orderB _ below _
      obtain ⟨rfl, _⟩ := initTiling_order orderB
      exact absurd below (Nat.lt_irrefl _)
    · intro b impossible
      cases impossible
  · intro b orderB _
    exact mem_initLists.mpr ⟨rfl, (initTiling_order orderB).2⟩

/-- After `mm_init` every page is free. -/
theorem mmInit_freePages : freePages (initLists (pageNum / maxBlockSize)) = Set.Iio pageNum := by
  ext x
  rw [mem_freePages, Set.mem_Iio]
  constructor
  · rintro ⟨b, k, member, inside⟩
    obtain ⟨rfl, inHeads⟩ := mem_initLists.mp member
    have within := initTiling.within (initTiling_of_mem inHeads)
    rw [pageNum_eq] at within
    exact Nat.lt_of_lt_of_le inside.2 within
  · intro inRange
    rw [← pageNum_eq] at inRange
    obtain ⟨b, k, orderB, inside⟩ := initTiling.covers inRange
    obtain ⟨rfl, inHeads⟩ := initTiling_order orderB
    exact ⟨b, topOrder, mem_initLists.mpr ⟨rfl, inHeads⟩, inside⟩

theorem mmInit_noBuddies : NoBuddies (initLists (pageNum / maxBlockSize)) := by
  intro b k below member
  rw [(mem_initLists.mp member).1] at below
  exact absurd below (Nat.lt_irrefl _)

/-! ## Splitting one block -/

section Split

variable {s : State} {T : PageTiling} {L : Nat → List Nat} {b c k : Nat}

theorem eraseBlock_of_absent (absent : c ∉ L k) : eraseBlock L c k = L := by
  unfold eraseBlock
  rw [List.erase_of_not_mem absent, Function.update_eq_self]

/-- Mark a block as off the lists and take it off its list, if it is on it. -/
def withdraw (s : State) (c k : Nat) : State :=
  (rmFromFreeList s (some c) k).modifyPage c fun page => { page with entryInList := none }

theorem withdraw_fields (bounded : k < maxOrder)
    (headPrev : s.freeList k = some c → s.links.prev c = none) :
    ((withdraw s c k).pageList b).idx = (s.pageList b).idx ∧
      ((withdraw s c k).pageList b).order = (s.pageList b).order ∧
      ((withdraw s c k).pageList b).entryInList =
        if b = c then none else (s.pageList b).entryInList := by
  unfold withdraw
  rw [rmFromFreeList_eq s c bounded headPrev, State.modifyPage_pageList]
  split <;> exact ⟨rfl, rfl, rfl⟩

/-- Withdrawing a block of the tiling, listed or not, keeps the invariant. -/
theorem Settled.withdraw (settled : Settled s T L) (orderC : T.order c = some k) :
    Settled (Mm.withdraw s c k) T (eraseBlock L c k) ∧ ∀ i, c ∉ eraseBlock L c k i := by
  have inv := settled.inv
  have bounded : k < maxOrder := Nat.lt_of_le_of_lt (T.le_top orderC) topOrder_lt
  have fields := fun b =>
    withdraw_fields (s := s) (b := b) (c := c) bounded (inv.lists.head_prev bounded)
  have lists : Lists (rmFromFreeList s (some c) k) (eraseBlock L c k) := by
    by_cases member : c ∈ L k
    · exact inv.lists.unlink member
    · rw [eraseBlock_of_absent member,
        inv.lists.rm_absent bounded (inv.off_lists orderC member)]
      exact inv.lists
  have absent : ∀ i, c ∉ eraseBlock L c k i := by
    by_cases member : c ∈ L k
    · exact inv.erase_not_mem member
    · rw [eraseBlock_of_absent member]
      exact inv.off_lists orderC member
  refine ⟨⟨⟨?_, ?_, ?_, ?_, ?_⟩, ?_⟩, absent⟩
  · apply lists.congr
    · exact State.links_modifyPage _ _ _ (fun _ => rfl) (fun _ => rfl)
    · rfl
  · intro i b member
    have other : b ≠ c := by
      rintro rfl
      exact absent i member
    rw [(fields b).1, (fields b).2.2, if_neg other]
    exact inv.listed (mem_of_mem_eraseBlock member)
  · intro b i orderB _
    rw [(fields b).2.1]
    exact inv.order orderB (by simp)
  · intro b i orderB _ below entry
    rw [(fields b).2.2] at entry
    have other : b ≠ c := by
      rintro rfl
      simp at entry
    rw [if_neg other] at entry
    exact (mem_eraseBlock_of_ne other).mpr (inv.entry orderB (by simp) below entry)
  · intro b impossible
    cases impossible
  · intro b orderB entry
    rw [(fields b).2.2] at entry
    have other : b ≠ c := by
      rintro rfl
      simp at entry
    rw [if_neg other] at entry
    exact (mem_eraseBlock_of_ne other).mpr (settled.top orderB entry)

/-- Whether the block was listed or not, its pages are not free afterwards. -/
theorem Settled.freePages_withdraw (settled : Settled s T L) (orderC : T.order c = some k) :
    freePages (eraseBlock L c k) = freePages L \ block c k := by
  by_cases member : c ∈ L k
  · exact settled.inv.freePages_eraseBlock member
  · rw [eraseBlock_of_absent member]
    ext x
    rw [Set.mem_sdiff]
    constructor
    · exact fun free => ⟨free, fun inside => settled.inv.not_freePage orderC member inside free⟩
    · exact fun both => both.1

theorem split_eq (inRange : c < pageNum) (bounded : k + 1 < maxOrder) :
    split s c (k + 1) =
      enlist (enlist (withdraw s c (k + 1 : Nat)) c k) (buddy c k) k := by
  unfold split
  rw [if_neg (Nat.not_le_of_lt bounded)]
  dsimp only
  rw [Nat.add_sub_cancel, getBuddy_eq inRange (Nat.lt_of_succ_lt bounded), Int.toNat_natCast,
    enlist_eq_split (Nat.lt_of_succ_lt bounded), enlist_eq_split (Nat.lt_of_succ_lt bounded)]
  rfl

/-- The lists after a split. -/
def splitLists (L : Nat → List Nat) (c k : Nat) : Nat → List Nat :=
  addBlock (addBlock (eraseBlock L c (k + 1)) c k) (c + 2 ^ k) k

theorem Settled.split (settled : Settled s T L) (whole : T.order c = some (k + 1)) :
    Settled (Mm.split s c (k + 1)) (T.split c k whole) (splitLists L c k) := by
  have bounded : k + 1 < maxOrder := Nat.lt_of_le_of_lt (T.le_top whole) topOrder_lt
  have below : k < topOrder := T.le_top whole
  obtain ⟨withdrawn, absent⟩ := settled.withdraw whole
  have held := withdrawn.inv.hold absent
  rw [split_eq (T.lt_pageNum whole) bounded, buddy_of_aligned (T.aligned whole)]
  constructor
  · exact (held.splitLower whole).enlistHand (T.split_order_upper whole)
  · intro b orderB entry
    have notLower : b ≠ c := by
      rintro rfl
      rw [T.split_order_lower whole] at orderB
      cases orderB
      exact Nat.lt_irrefl _ below
    have notUpper : b ≠ c + 2 ^ k := by
      rintro rfl
      rw [T.split_order_upper whole] at orderB
      cases orderB
      exact Nat.lt_irrefl _ below
    rw [T.split_order_of_ne whole notLower notUpper] at orderB
    rw [(enlist_of_ne notUpper).2.2, (enlist_of_ne notLower).2.2] at entry
    exact mem_addBlock.mpr (Or.inr (mem_addBlock.mpr (Or.inr (withdrawn.top orderB entry))))

/-- A split makes all pages of its block free, also when they were reserved. -/
theorem Settled.freePages_split (settled : Settled s T L) (whole : T.order c = some (k + 1)) :
    freePages (splitLists L c k) = freePages L ∪ block c (k + 1) := by
  unfold splitLists
  rw [freePages_addBlock, freePages_addBlock, settled.freePages_withdraw whole, Set.union_assoc,
    ← block_succ, Set.sdiff_union_self]

end Split

/-! ## Splitting down to the end pages -/

/-- Two listed buddies can only be halves of a block around one of the end pages. -/
def NearlyCoalesced (lo hi : Nat) (L : Nat → List Nat) : Prop :=
  ∀ b k, k < topOrder → b ∈ L k → buddy b k ∈ L k →
    lo ∈ block (parent b k) (k + 1) ∨ hi ∈ block (parent b k) (k + 1)

/-- Some of the blocks around the end pages have been split. -/
structure Refined (lo hi : Nat) (T : PageTiling) (L : Nat → List Nat)
    (s' : State) (T' : PageTiling) (L' : Nat → List Nat) : Prop where
  settled : Settled s' T' L'
  finer : Finer T T'
  pages : freePages L' ∪ (T'.around lo ∪ T'.around hi) =
    freePages L ∪ (T.around lo ∪ T.around hi)
  nearly : NearlyCoalesced lo hi L → NearlyCoalesced lo hi L'

theorem Refined.trans {lo hi : Nat} {T T' T'' : PageTiling} {L L' L'' : Nat → List Nat}
    {s' s'' : State} (first : Refined lo hi T L s' T' L')
    (second : Refined lo hi T' L' s'' T'' L'') : Refined lo hi T L s'' T'' L'' where
  settled := second.settled
  finer := first.finer.trans second.finer
  pages := second.pages.trans first.pages
  nearly := fun coalesced => second.nearly (first.nearly coalesced)

theorem NearlyCoalesced.split {lo hi c k : Nat} {L : Nat → List Nat}
    (nearly : NearlyCoalesced lo hi L) (aligned : 2 ^ (k + 1) ∣ c)
    (target : lo ∈ block c (k + 1) ∨ hi ∈ block c (k + 1)) :
    NearlyCoalesced lo hi (splitLists L c k) := by
  have upper := buddy_of_aligned aligned
  have atLower : parent c k = c := alignDown_of_mem aligned (self_mem_block c (k + 1))
  have atUpper : parent (c + 2 ^ k) k = c := by
    rw [← upper, parent_buddy (aligned_of_succ aligned), atLower]
  have members : ∀ {b j}, b ∈ splitLists L c k j →
      (b = c + 2 ^ k ∧ j = k) ∨ (b = c ∧ j = k) ∨ b ∈ L j := by
    intro b j member
    rcases mem_addBlock.mp member with atTop | member
    · exact Or.inl atTop
    · rcases mem_addBlock.mp member with atBottom | old
      · exact Or.inr (Or.inl atBottom)
      · exact Or.inr (Or.inr (mem_of_mem_eraseBlock old))
  intro b j below member other
  rcases members member with ⟨rfl, rfl⟩ | ⟨rfl, rfl⟩ | old
  · rwa [atUpper]
  · rwa [atLower]
  · rcases members other with ⟨same, rfl⟩ | ⟨same, rfl⟩ | oldBuddy
    · -- the buddy of the upper half is the lower half
      have lower : b = c := by rw [← buddy_buddy b j, same, ← upper, buddy_buddy]
      rwa [lower, atLower]
    · have atB : b = c + 2 ^ j := by rw [← buddy_buddy b j, same, upper]
      rwa [atB, atUpper]
    · exact nearly b j below old oldBuddy

theorem Settled.refine {s : State} {T : PageTiling} {L : Nat → List Nat} {lo hi c k : Nat}
    (settled : Settled s T L) (whole : T.order c = some (k + 1))
    (target : lo ∈ block c (k + 1) ∨ hi ∈ block c (k + 1)) :
    Refined lo hi T L (Mm.split s c (k + 1)) (T.split c k whole) (splitLists L c k) where
  settled := settled.split whole
  finer := T.split_finer whole
  pages := by
    -- a position inside the block gets one half around it, all others keep theirs
    have piece : ∀ x, x ∈ block c (k + 1) ∧ T.around x = block c (k + 1) ∧
        (T.split c k whole).around x ⊆ block c (k + 1) ∨
          (T.split c k whole).around x = T.around x := by
      intro x
      by_cases inside : x ∈ block c (k + 1)
      · exact Or.inl ⟨inside, T.around_eq whole inside, T.split_around_subset whole inside⟩
      · exact Or.inr (T.split_around_of_not_mem whole inside)
    have present : block c (k + 1) ⊆ T.around lo ∪ T.around hi := by
      rcases target with atLo | atHi
      · rw [T.around_eq whole atLo]
        exact Set.subset_union_left
      · rw [T.around_eq whole atHi]
        exact Set.subset_union_right
    rw [settled.freePages_split whole]
    apply Set.Subset.antisymm
    · apply Set.union_subset
      · apply Set.union_subset
        · exact Set.subset_union_left
        · exact present.trans Set.subset_union_right
      · apply Set.union_subset
        · exact (T.split_finer whole lo).trans
            (Set.subset_union_left.trans Set.subset_union_right)
        · exact (T.split_finer whole hi).trans
            (Set.subset_union_right.trans Set.subset_union_right)
    · have kept : ∀ x, T.around x ⊆ block c (k + 1) ∪ (T.split c k whole).around x := by
        intro x
        rcases piece x with ⟨_, same, _⟩ | same
        · rw [same]
          exact Set.subset_union_left
        · rw [same]
          exact Set.subset_union_right
      rintro x (free | atLo | atHi)
      · exact Or.inl (Or.inl free)
      · rcases kept lo atLo with inside | inside
        · exact Or.inl (Or.inr inside)
        · exact Or.inr (Or.inl inside)
      · rcases kept hi atHi with inside | inside
        · exact Or.inl (Or.inr inside)
        · exact Or.inr (Or.inr inside)
  nearly coalesced := coalesced.split (T.aligned whole) target

/-- The block around a position has at most the given order. -/
def AtMost (T : PageTiling) (x k : Nat) : Prop :=
  ∀ b j, T.order b = some j → x ∈ block b j → j ≤ k

theorem AtMost.finer {T T' : PageTiling} {x k : Nat} (small : AtMost T x k)
    (inRange : x < pageNum) (finer : Finer T T') : AtMost T' x k := by
  intro c j orderC inC
  rw [← pageNum_eq] at inRange
  obtain ⟨b, i, orderB, inB⟩ := T.covers inRange
  exact (finer.order_le orderB orderC inB inC).trans (small b i orderB inB)

/-- Blocks around one of two positions are split, one after the other. -/
inductive Splits (lo hi : Nat) : State → PageTiling → (Nat → List Nat) →
    State → PageTiling → (Nat → List Nat) → Prop where
  | nothing {s : State} {T : PageTiling} {L : Nat → List Nat} : Splits lo hi s T L s T L
  | split {s s' : State} {T T' : PageTiling} {L L' : Nat → List Nat} {c k : Nat}
      (settled : Settled s T L) (whole : T.order c = some (k + 1))
      (target : lo ∈ block c (k + 1) ∨ hi ∈ block c (k + 1))
      (rest : Splits lo hi (Mm.split s c (k + 1)) (T.split c k whole) (splitLists L c k) s' T' L') :
      Splits lo hi s T L s' T' L'

theorem Splits.trans {lo hi : Nat} {s s' s'' : State} {T T' T'' : PageTiling}
    {L L' L'' : Nat → List Nat} (first : Splits lo hi s T L s' T' L')
    (second : Splits lo hi s' T' L' s'' T'' L'') : Splits lo hi s T L s'' T'' L'' := by
  induction first with
  | nothing => exact second
  | split settled whole target _ ih => exact .split settled whole target (ih second)

theorem Splits.refined {lo hi : Nat} {s s' : State} {T T' : PageTiling} {L L' : Nat → List Nat}
    (splits : Splits lo hi s T L s' T' L') (settled : Settled s T L) :
    Refined lo hi T L s' T' L' := by
  induction splits with
  | nothing => exact ⟨settled, Finer.refl _, rfl, id⟩
  | split settled whole target _ ih =>
      have first := settled.refine whole target
      exact first.trans (ih first.settled)

/-- One step of the first loop of `reserve` splits the block around its page,
unless that block is smaller already. -/
theorem splitAt_cases {s : State} {T : PageTiling} {L : Nat → List Nat} {x k : Nat}
    (settled : Settled s T L) (inRange : x < pageNum) (small : AtMost T x (k + 1)) :
    (T.order (alignDown x (k + 1)) = some (k + 1) ∧
        splitAt s x (k + 1) = Mm.split s (alignDown x (k + 1)) (k + 1)) ∨
      (AtMost T x k ∧ splitAt s x (k + 1) = s) := by
  have startInRange : alignDown x (k + 1) < pageNum / maxBlockSize * 2 ^ topOrder := by
    rw [pageNum_eq]
    exact Nat.lt_of_le_of_lt (alignDown_le x (k + 1)) inRange
  have inside := mem_block_alignDown x (k + 1)
  -- the rounded position starts a block, for a larger block would contain `x`
  have head : ∃ j, T.order (alignDown x (k + 1)) = some j ∧ j ≤ k + 1 := by
    rcases T.run_cases (alignDown_aligned x (k + 1)) startInRange with
      found | ⟨b, j, orderB, larger, nested⟩
    · exact found
    · exact absurd (small b j orderB (nested inside)) (Nat.not_le_of_lt larger)
  obtain ⟨j, orderHead, atMost⟩ := head
  have field := settled.inv.order orderHead (by simp)
  have shape : splitAt s x (k + 1) =
      if (s.pageList (alignDown x (k + 1))).order = ((k + 1 : Nat) : Int)
        then Mm.split s (alignDown x (k + 1)) (k + 1) else s := rfl
  rw [shape, field]
  by_cases whole : j = k + 1
  · subst whole
    exact Or.inl ⟨orderHead, if_pos rfl⟩
  · have otherField : ((j : Nat) : Int) ≠ ((k + 1 : Nat) : Int) :=
      fun same => whole (Int.ofNat.inj same)
    refine Or.inr ⟨fun b i orderB inB => ?_, if_neg otherField⟩
    have bound := small b i orderB inB
    have notWhole : i ≠ k + 1 := by
      rintro rfl
      rw [eq_of_mem_block (T.aligned orderB) (alignDown_aligned x (k + 1)) inB inside,
        orderHead] at orderB
      exact whole (Option.some.inj orderB)
    omega

theorem splitAt_splits {s : State} {T : PageTiling} {L : Nat → List Nat} {x k : Nat}
    (lo hi : Nat) (settled : Settled s T L) (end_ : x = lo ∨ x = hi) (inRange : x < pageNum)
    (small : AtMost T x (k + 1)) :
    ∃ T' L', Splits lo hi s T L (splitAt s x (k + 1)) T' L' ∧ AtMost T' x k := by
  have inside := mem_block_alignDown x (k + 1)
  rcases splitAt_cases settled inRange small with ⟨whole, result⟩ | ⟨smaller, result⟩
  · rw [result]
    refine ⟨_, _, .split settled whole ?_ .nothing, ?_⟩
    · rcases end_ with rfl | rfl
      · exact Or.inl inside
      · exact Or.inr inside
    · intro b i orderB inB
      obtain ⟨c, orderC, inC, _⟩ := T.split_half whole inside
      exact Nat.le_of_eq (Tiling.order_unique _ orderC orderB inC inB)
  · rw [result]
    exact ⟨T, L, .nothing, smaller⟩

/-- The first loop of `reserve` leaves both end pages as single pages. -/
theorem splitEnds_splits {s : State} {T : PageTiling} {L : Nat → List Nat} {lo hi k : Nat}
    (settled : Settled s T L) (loInRange : lo < pageNum) (hiInRange : hi < pageNum)
    (smallLo : AtMost T lo k) (smallHi : AtMost T hi k) :
    ∃ T' L', Splits lo hi s T L (splitEnds lo hi k s) T' L' ∧ AtMost T' lo 0 ∧ AtMost T' hi 0 := by
  induction k generalizing s T L with
  | zero => exact ⟨T, L, .nothing, smallLo, smallHi⟩
  | succ k ih =>
      unfold splitEnds
      dsimp only
      obtain ⟨T₁, L₁, first, fineLo⟩ :=
        splitAt_splits lo hi settled (Or.inl rfl) loInRange smallLo
      have settled₁ := (first.refined settled).settled
      have smallHi₁ := smallHi.finer hiInRange (first.refined settled).finer
      split
      · next same =>
          -- both ends lie in the same aligned block, which has just been split
          have fineHi : AtMost T₁ hi k := by
            intro b j orderB inB
            have bound := smallHi₁ b j orderB inB
            refine Nat.le_of_lt_succ (Nat.lt_of_le_of_ne bound ?_)
            rintro rfl
            have start : alignDown lo (k + 1) = b := by
              rw [show alignDown lo (k + 1) = alignDown hi (k + 1) from same]
              exact alignDown_of_mem (T₁.aligned orderB) inB
            have inLo : lo ∈ block b (k + 1) := start ▸ mem_block_alignDown lo (k + 1)
            exact absurd (fineLo b (k + 1) orderB inLo) (Nat.not_succ_le_self k)
          obtain ⟨T', L', rest, ends⟩ := ih settled₁ fineLo fineHi
          exact ⟨T', L', first.trans rest, ends⟩
      · obtain ⟨T₂, L₂, second, fineHi⟩ :=
          splitAt_splits lo hi settled₁ (Or.inr rfl) hiInRange smallHi₁
        have refined₂ := second.refined settled₁
        obtain ⟨T', L', rest, ends⟩ := ih refined₂.settled
          (fineLo.finer loInRange refined₂.finer) fineHi
        exact ⟨T', L', (first.trans second).trans rest, ends⟩

theorem AtMost.single {T : PageTiling} {x : Nat} (small : AtMost T x 0) (inRange : x < pageNum) :
    T.order x = some 0 := by
  rw [← pageNum_eq] at inRange
  obtain ⟨b, j, orderB, inside⟩ := T.covers inRange
  have zero : j = 0 := Nat.le_zero.mp (small b j orderB inside)
  subst zero
  rw [mem_block_zero.mp inside]
  exact orderB

/-! ## Taking the range off the lists -/

/-- The free pages lose exactly the pages of the range. -/
structure Removed (lo hi : Nat) (T : PageTiling) (L : Nat → List Nat) (s' : State)
    (L' : Nat → List Nat) : Prop where
  settled : Settled s' T L'
  pages : freePages L' = freePages L \ Set.Icc lo hi
  subset : ∀ {b k}, b ∈ L' k → b ∈ L k

theorem Removed.nothing {s : State} {T : PageTiling} {L : Nat → List Nat} {lo hi : Nat}
    (settled : Settled s T L) (empty : hi < lo) : Removed lo hi T L s L := by
  refine ⟨settled, ?_, id⟩
  rw [Set.Icc_eq_empty (Nat.not_le_of_lt empty), Set.sdiff_empty]

/-- A block that starts in the range ends in it, when the range ends with a single page. -/
theorem block_subset_range {T : PageTiling} {i hi j : Nat} (single : T.order hi = some 0)
    (orderI : T.order i = some j) (before : i ≤ hi) : i + 2 ^ j ≤ hi + 1 := by
  rcases Nat.lt_or_ge hi (i + 2 ^ j) with inside | after
  · have same := T.unique orderI single ⟨before, inside⟩ (self_mem_block hi 0)
    subst same
    rw [single] at orderI
    cases orderI
    exact Nat.le_refl _
  · exact Nat.le_succ_of_le after

/-- One round of the second loop of `reserve` withdraws one block, listed or not. -/
theorem reserveLoop_step {s : State} {T : PageTiling} {L : Nat → List Nat} {i hi j : Nat}
    (left : Nat) (settled : Settled s T L) (orderI : T.order i = some j) (before : i ≤ hi) :
    reserveLoop hi (left + 1) s i = reserveLoop hi left (withdraw s i j) (i + 2 ^ j) := by
  have inv := settled.inv
  have bounded : j < maxOrder := Nat.lt_of_le_of_lt (T.le_top orderI) topOrder_lt
  have field : (s.pageList i).order = j := inv.order orderI (by simp)
  have fields := withdraw_fields (s := s) (b := i) (c := i) bounded (inv.lists.head_prev bounded)
  have shape : (if (s.pageList i).entryInList ≠ none then
      (rmFromFreeList s (some i) (s.pageList i).order).modifyPage i
        fun page => { page with entryInList := none } else s) = withdraw s i j := by
    split
    · rw [field]
      rfl
    · next entry =>
        have notListed : i ∉ L j := fun member => entry ((settled.entry_iff orderI).mpr member)
        unfold withdraw
        rw [inv.lists.rm_absent bounded (inv.off_lists orderI notListed)]
        have kept : (fun page : PageInfo => { page with entryInList := none })
            (s.pageList i) = s.pageList i := by
          have none_ : (s.pageList i).entryInList = none := not_ne_iff.mp entry
          rw [PageInfo.ext_iff]
          simp [none_]
        unfold State.modifyPage
        rw [kept, Function.update_eq_self]
  have stride : (1 <<< (((withdraw s i j).pageList i).order % 32).toNat) = 2 ^ j := by
    have small : ((j : Int) % 32).toNat = j := by
      have limit : maxOrder = 14 := rfl
      omega
    rw [fields.2.1, field, small, Nat.one_shiftLeft]
  rw [reserveLoop, if_pos before]
  dsimp only
  rw [shape, stride]

/-- The end of a block before the end page is where the next block starts. -/
theorem next_in_range {T : PageTiling} {i hi j : Nat} (orderI : T.order i = some j)
    (hiInRange : hi < pageNum) (later : i + 2 ^ j ≤ hi) : ∃ k, T.order (i + 2 ^ j) = some k := by
  apply T.next_head orderI
  rw [pageNum_eq]
  exact Nat.lt_of_le_of_lt later hiInRange

/-- The second loop of `reserve` takes every block from here to the end page off its list. -/
theorem reserveLoop_removed {s : State} {T : PageTiling} {L : Nat → List Nat} {i hi left : Nat}
    (settled : Settled s T L) (single : T.order hi = some 0) (hiInRange : hi < pageNum)
    (head : i ≤ hi → ∃ j, T.order i = some j) (fuel : hi + 1 - i ≤ left) :
    ∃ L', Removed i hi T L (reserveLoop hi left s i) L' := by
  induction left generalizing s L i with
  | zero => exact ⟨L, Removed.nothing settled (by omega)⟩
  | succ left ih =>
      rcases Nat.lt_or_ge hi i with past | before
      · rw [reserveLoop, if_neg (Nat.not_le_of_lt past)]
        exact ⟨L, Removed.nothing settled past⟩
      · obtain ⟨j, orderI⟩ := head before
        have within := block_subset_range single orderI before
        have positive := Nat.two_pow_pos j
        obtain ⟨withdrawn, _⟩ := settled.withdraw orderI
        rw [reserveLoop_step left settled orderI before]
        obtain ⟨L', rest⟩ := ih withdrawn (next_in_range orderI hiInRange) (by omega)
        refine ⟨L', rest.settled, ?_, fun member => mem_of_mem_eraseBlock (rest.subset member)⟩
        rw [rest.pages, settled.freePages_withdraw orderI, Set.sdiff_sdiff]
        congr 1
        ext x
        rw [Set.mem_union, mem_block, Set.mem_Icc, Set.mem_Icc]
        omega

/-! ## One call -/

/-- The effect of a reservation of the pages from `lo` to `hi`.  The blocks
around the two end pages become free, and then the range is taken away. -/
structure Reserved (lo hi : Nat) (T : PageTiling) (L : Nat → List Nat)
    (s' : State) (T' : PageTiling) (L' : Nat → List Nat) : Prop where
  settled : Settled s' T' L'
  pages : freePages L' = (freePages L ∪ (T.around lo ∪ T.around hi)) \ Set.Icc lo hi
  finer : Finer T T'
  first : T'.order lo = some 0
  last : T'.order hi = some 0
  noBuddies : NoBuddies L → NoBuddies L'

theorem pageIndexUnsigned_eq {addr : Nat} (inRange : addr < memorySize) :
    pageIndexUnsigned addr = addr / pageSize := by
  have limit : memorySize = 0x3C000000 := rfl
  have quotient : Int.tdiv ((addr : Int) - (memoryStart : Nat)) (pageSize : Nat) =
      ((addr / pageSize : Nat) : Int) := by
    unfold memoryStart pageSize
    rw [Int.tdiv_eq_ediv_of_nonneg] <;> omega
  unfold pageIndexUnsigned
  rw [quotient]
  unfold pageSize
  omega

/-- The first page of a byte range. -/
def firstPage (range : Nat × Nat) : Nat := range.1 / pageSize

/-- The last page of a non-empty byte range. -/
def lastPage (range : Nat × Nat) : Nat := (range.2 - 1) / pageSize

/-- The pages from the first to the last one of the range are split off and withdrawn. -/
theorem reserve_eq (s : State) {start end_ : Nat} (nonempty : start < end_)
    (inRange : end_ ≤ memorySize) :
    reserve s start end_ =
      reserveLoop (lastPage (start, end_)) (lastPage (start, end_) + 1 - firstPage (start, end_))
        (splitEnds (firstPage (start, end_)) (lastPage (start, end_)) topOrder s)
        (firstPage (start, end_)) := by
  have lastIndex : pageIndexUnsigned ((end_ : Int) - 1) = (end_ - 1) / pageSize := by
    rw [show (end_ : Int) - 1 = ((end_ - 1 : Nat) : Int) by omega]
    exact pageIndexUnsigned_eq (by omega)
  unfold reserve firstPage lastPage
  dsimp only
  rw [pageIndexUnsigned_eq (by omega), lastIndex]
  rfl

theorem AtMost.top (T : PageTiling) (x : Nat) : AtMost T x topOrder :=
  fun _ _ orderB _ => T.le_top orderB

theorem reserve_spec {s : State} {T : PageTiling} {L : Nat → List Nat} {start end_ : Nat}
    (settled : Settled s T L) (nonempty : start < end_) (inRange : end_ ≤ memorySize) :
    ∃ T' L', Reserved (firstPage (start, end_)) (lastPage (start, end_)) T L
      (reserve s start end_) T' L' := by
  have limit : memorySize = pageNum * pageSize := by decide
  have ordered : firstPage (start, end_) ≤ lastPage (start, end_) :=
    Nat.div_le_div_right (Nat.le_sub_one_of_lt nonempty)
  have hiInRange : lastPage (start, end_) < pageNum := by
    unfold lastPage
    rw [Nat.div_lt_iff_lt_mul (by decide)]
    omega
  have loInRange := Nat.lt_of_le_of_lt ordered hiInRange
  rw [reserve_eq s nonempty inRange]
  generalize firstPage (start, end_) = lo at *
  generalize lastPage (start, end_) = hi at *
  obtain ⟨T', L₁, splits, fineLo, fineHi⟩ :=
    splitEnds_splits settled loInRange hiInRange (AtMost.top T lo) (AtMost.top T hi)
  have refined := splits.refined settled
  have first := fineLo.single loInRange
  have last := fineHi.single hiInRange
  obtain ⟨L', removed⟩ := reserveLoop_removed refined.settled last hiInRange
    (fun _ => ⟨0, first⟩) (Nat.le_refl _)
  have gone : ∀ x, lo ≤ x → x ≤ hi → x ∉ freePages L' := by
    intro x lower upper free
    rw [removed.pages] at free
    exact free.2 ⟨lower, upper⟩
  refine ⟨T', L', removed.settled, ?_, refined.finer, first, last, ?_⟩
  · rw [removed.pages]
    have both := Set.ext_iff.mp refined.pages
    rw [T'.around_zero first, T'.around_zero last] at both
    ext x
    have atX := both x
    simp only [Set.mem_union, Set.mem_singleton_iff, Set.mem_sdiff, Set.mem_Icc] at atX ⊢
    rw [← atX]
    constructor
    · exact fun ⟨free, outside⟩ => ⟨Or.inl free, outside⟩
    · rintro ⟨free | rfl | rfl, outside⟩
      · exact ⟨free, outside⟩
      · exact absurd ⟨Nat.le_refl x, ordered⟩ outside
      · exact absurd ⟨ordered, Nat.le_refl x⟩ outside
  · intro coalesced b k below member other
    have alignedB := removed.settled.inv.aligned_of_mem member
    have nearly := refined.nearly (fun c j belowJ first second => absurd second (coalesced c j belowJ first))
    have covered : block (parent b k) (k + 1) ⊆ freePages L' := by
      rw [block_parent alignedB]
      rintro x (inB | inBuddy)
      · exact ⟨b, k, member, inB⟩
      · exact ⟨buddy b k, k, other, inBuddy⟩
    rcases nearly b k below (removed.subset member) (removed.subset other) with atLo | atHi
    · exact gone lo (Nat.le_refl lo) ordered (covered atLo)
    · exact gone hi ordered (Nat.le_refl hi) (covered atHi)

end OsdiKernel.Mm
