import OsdiKernel.Mm.Edits

/-!
# The shape of the free lists

An entry of `page_list` is marked as listed when its `entry_in_list` is not
null.  The callers of the list functions write that field before or after the
list operation, for entries that change their order in between.  Still, when no
block is in hand, the marked entries are those on the lists, up to blocks of the
top order that `_free` has dropped.
-/

namespace OsdiKernel.Mm

open DyadicBlock Tiling Relation

/-! ## The marks -/

/-- Every marked entry is on a list, in hand, or of the top order. -/
def Accounted (desk : State × Option Nat) : Prop :=
  ∀ x, (desk.1.pageList x).entryInList ≠ none → desk.2 ≠ some x →
    (∃ k, OnFreeList desk.1 k x) ∨ (desk.1.pageList x).order = topOrder

/-- The entry is as marked as before, and on every list on which it was before. -/
structure SameMark (s : State) (L : Nat → List Nat) (s' : State) (L' : Nat → List Nat) (x : Nat) :
    Prop where
  order : (s'.pageList x).order = (s.pageList x).order
  entry : (s'.pageList x).entryInList = (s.pageList x).entryInList
  listed : ∀ {k}, x ∈ L k → x ∈ L' k

section Accounted

variable {s s' : State} {T : PageTiling} {L L' : Nat → List Nat} {hand hand' : Option Nat}
  {c k : Nat}

/-- Only the entries whose mark an edit changes have to be looked at. -/
theorem Accounted.of_sameMark (accounted : Accounted (s, hand)) (lists : Lists s L)
    (lists' : Lists s' L')
    (change : ∀ x, hand' ≠ some x → (s'.pageList x).entryInList ≠ none →
      (∃ k, x ∈ L' k) ∨ (s'.pageList x).order = topOrder ∨
        (hand ≠ some x ∧ SameMark s L s' L' x)) :
    Accounted (s', hand') := by
  intro x marked notHand
  rcases change x notHand marked with ⟨k, member⟩ | top | ⟨notOld, same⟩
  · exact Or.inl ⟨k, lists'.onFreeList_iff.mpr member⟩
  · exact Or.inr top
  · rcases accounted x (same.entry ▸ marked) notOld with ⟨k, listed⟩ | top
    · exact Or.inl ⟨k, lists'.onFreeList_iff.mpr (same.listed (lists.onFreeList_iff.mp listed))⟩
    · exact Or.inr (same.order.trans top)

theorem Accounted.enlist (accounted : Accounted (s, hand)) (lists : Lists s L)
    (bounded : k < maxOrder) (fresh : ∀ j, c ∉ L j)
    (released : ∀ x, x ≠ c → hand' ≠ some x → hand ≠ some x) :
    Accounted (enlist s c k, hand') := by
  apply accounted.of_sameMark lists (lists.enlist bounded fresh)
  intro x notHand _
  by_cases atC : x = c
  · exact Or.inl ⟨k, mem_addBlock.mpr (Or.inl ⟨atC, rfl⟩)⟩
  · obtain ⟨_, order, entry⟩ := enlist_of_ne (s := s) (k := k) atC
    exact Or.inr (Or.inr ⟨released x atC notHand, order, entry,
      fun member => mem_addBlock.mpr (Or.inr member)⟩)

/-- Every edit keeps the account of the marked entries. -/
theorem Edit.accounted {desk desk' : State × Option Nat} (edit : Edit desk desk')
    (accounted : Accounted desk) : Accounted desk' := by
  cases edit with
  | @lift s T L c k inv member =>
      have bounded := inv.lists.bounded member
      have shape := rmFromFreeList_eq s c bounded (inv.lists.head_prev bounded)
      apply accounted.of_sameMark inv.lists (inv.lists.unlink member)
      intro x notHand _
      have other : x ≠ c := fun same => notHand (congrArg some same.symm)
      refine Or.inr (Or.inr ⟨Option.some_ne_none x |>.symm, ?_, ?_, (mem_eraseBlock_of_ne other).mpr⟩)
      · rw [shape, State.relink_order]
      · rw [shape, State.relink_entryInList]
  | hold inv null =>
      intro x marked _
      exact accounted x marked (Option.some_ne_none x).symm
  | upper inv whole =>
      have bounded := Nat.lt_of_succ_lt (Nat.lt_of_le_of_lt (Tiling.le_top _ whole) topOrder_lt)
      exact accounted.enlist inv.lists bounded (inv.upper_absent whole) fun _ _ => id
  | lower inv whole =>
      have bounded := Nat.lt_of_succ_lt (Nat.lt_of_le_of_lt (Tiling.le_top _ whole) topOrder_lt)
      exact accounted.enlist inv.lists bounded (inv.inHand rfl)
        fun x other _ same => other (Option.some.inj same).symm
  | @merge s T L c k inv orderC listed =>
      have aligned := T.aligned orderC
      have bounded := inv.lists.bounded listed
      have shape := rmFromFreeList_eq s (buddy c k) bounded (inv.lists.head_prev bounded)
      apply accounted.of_sameMark inv.lists (inv.lists.mergeBuddy listed)
      intro x notHand marked
      have notLower : x ≠ parent c k := fun same => notHand (congrArg some same.symm)
      have notUpper : x ≠ parent c k + 2 ^ k := by
        rintro rfl
        exact marked (mergeBuddy_upper aligned).2
      obtain ⟨notC, notBuddy⟩ := ne_of_ne_halves aligned notLower notUpper
      refine Or.inr (Or.inr ⟨fun same => notC (Option.some.inj same).symm, ?_, ?_,
        (mem_eraseBlock_of_ne notBuddy).mpr⟩)
      · rw [mergeBuddy_of_ne aligned notLower notUpper, shape, State.relink_order]
      · rw [mergeBuddy_of_ne aligned notLower notUpper, shape, State.relink_entryInList]
  | @settle s T L c k inv orderC =>
      apply accounted.of_sameMark inv.lists (inv.settle orderC).lists
      intro x _ marked
      have other : x ≠ c := by
        rintro rfl
        unfold Mm.settle at marked
        rw [State.modifyPage_self] at marked
        exact marked rfl
      have same : (Mm.settle s c k).pageList x = s.pageList x := State.modifyPage_of_ne s c _ other
      exact Or.inr (Or.inr ⟨fun inHand => other (Option.some.inj inHand).symm,
        congrArg _ same, congrArg _ same, id⟩)
  | @enlist s T L c k inv orderC =>
      have bounded := Nat.lt_of_le_of_lt (T.le_top orderC) topOrder_lt
      exact accounted.enlist inv.lists bounded (inv.inHand rfl)
        fun x other _ same => other (Option.some.inj same).symm
  | @drop s T L c inv field =>
      intro x marked _
      by_cases atC : x = c
      · exact Or.inr (atC ▸ field)
      · exact accounted x marked fun same => atC (Option.some.inj same).symm
  | @withdraw s T L c k settled orderC =>
      have lists := settled.inv.lists
      have bounded := Nat.lt_of_le_of_lt (T.le_top orderC) topOrder_lt
      apply accounted.of_sameMark lists (settled.withdraw orderC).1.inv.lists
      intro x _ marked
      obtain ⟨_, order, entry⟩ :=
        withdraw_fields (s := s) (b := x) (c := c) bounded (lists.head_prev bounded)
      have other : x ≠ c := by
        rintro rfl
        rw [if_pos rfl] at entry
        exact marked entry
      rw [if_neg other] at entry
      exact Or.inr (Or.inr ⟨(Option.some_ne_none x).symm, order, entry,
        (mem_eraseBlock_of_ne other).mpr⟩)

theorem Edits.accounted {desk desk' : State × Option Nat} (edits : Edits desk desk')
    (accounted : Accounted desk) : Accounted desk' := by
  induction edits with
  | refl => exact accounted
  | tail _ edit ih => exact edit.accounted ih

end Accounted

/-- The entries that `mm_init` marks are the heads of the blocks. -/
theorem initBlocks_marked {count x : Nat}
    (marked : ((initBlocks count).pageList x).entryInList ≠ none) : x ∈ topHeads count := by
  induction count with
  | zero => exact absurd rfl marked
  | succ count ih =>
      rw [initBlocks, initBlock_eq] at marked
      rw [topHeads, List.mem_cons]
      by_cases atNew : x = count * maxBlockSize
      · exact Or.inl atNew
      · rw [(enlist_of_ne atNew).2.2] at marked
        exact Or.inr (ih marked)

theorem mmInit_accounted : Accounted (mmInit, none) := by
  intro x marked _
  have kept : (mmInit.pageList x).entryInList =
      ((initBlocks (pageNum / maxBlockSize)).pageList x).entryInList := by
    unfold mmInit
    dsimp only
    split <;> rfl
  have member := initBlocks_marked (kept ▸ marked)
  exact Or.inl ⟨topOrder, mmInit_settled.inv.lists.onFreeList_iff.mpr
    (mem_initLists.mpr ⟨rfl, member⟩)⟩

theorem Boot.accounted {ranges : List (Nat × Nat)} {s : State} (boot : Boot ranges s) :
    Accounted (s, none) := by
  induction boot with
  | init => exact mmInit_accounted
  | reserve earlier valid _ ih =>
      obtain ⟨_, T, L, settled, _⟩ := earlier.fitting
      exact (reserve_edits settled valid).accounted ih

/-! ## Runs -/

/-- The states after the boot phase, calls of `_alloc`, and calls of `_free` on
pointers in use, whether or not the first page is reserved. -/
inductive Reached (ranges : List (Nat × Nat)) : List (Nat × Nat) → State → Prop
  | boot {s : State} (boot : Boot ranges s) : Reached ranges [] s
  | alloc {live : List (Nat × Nat)} {s : State} (earlier : Reached ranges live s) (size : Nat) :
      Reached ranges (keep (alloc s size).2 size live) (alloc s size).1
  | free {live : List (Nat × Nat)} {s : State} (earlier : Reached ranges live s)
      {use : Nat × Nat} (member : use ∈ live) : Reached ranges (live.erase use) (free s use.1)

section Held

variable {live : List (Nat × Nat)} {s : State} {T : PageTiling} {L : Nat → List Nat}

/-- Without reserved pages `_alloc` may hand out page zero, whose address is the null pointer. -/
theorem Held.alloc (held : Held ∅ live s T L) (size : Nat) :
    ∃ T' L', Held ∅ (keep (Mm.alloc s size).2 size live) (Mm.alloc s size).1 T' L' := by
  by_cases valid : size = 0 ∨ maxAllocSize < size
  · rw [alloc_invalid s valid]
    exact ⟨T, L, held⟩
  · have positive : 1 ≤ size := by omega
    have fits : size ≤ maxAllocSize := by omega
    rcases alloc_spec held.inv positive fits with
      ⟨_, result⟩ | ⟨i, c, _, _, _, _, address, T', L', taken⟩
    · rw [result]
      exact ⟨T, L, held⟩
    · obtain ⟨unlisted, listed⟩ := held.taken positive fits taken
      refine ⟨T', L', ?_⟩
      rw [address]
      by_cases null : c = 0
      · rw [null, Nat.zero_mul, keep, if_pos rfl]
        exact unlisted
      · rw [keep, if_neg (Nat.mul_ne_zero null (by decide))]
        exact listed null

theorem Held.free_edits (held : Held ∅ live s T L) {use : Nat × Nat} (member : use ∈ live) :
    Edits (s, none) (Mm.free s use.1, none) := by
  have inUse := held.inUse use member
  rw [inUse.pointer]
  exact Mm.free_edits held.inv inUse.order inUse.entry inUse.nonzero

end Held

theorem Reached.held {ranges live : List (Nat × Nat)} {s : State} (reached : Reached ranges live s) :
    (∃ T L, Held ∅ live s T L) ∧ Accounted (s, none) := by
  induction reached with
  | boot boot =>
      obtain ⟨_, T, L, settled, _⟩ := boot.fitting
      refine ⟨⟨T, L, settled.inv, Set.disjoint_empty _, ?_, .nil⟩, boot.accounted⟩
      intro use impossible
      cases impossible
  | alloc _ size ih =>
      obtain ⟨⟨T, L, held⟩, accounted⟩ := ih
      exact ⟨held.alloc size, (alloc_edits held.inv size).accounted accounted⟩
  | free _ member ih =>
      obtain ⟨⟨T, L, held⟩, accounted⟩ := ih
      obtain ⟨T', L', _, next⟩ := held.released member
      exact ⟨⟨T', L', next⟩, (held.free_edits member).accounted accounted⟩

/-! ## The lists -/

/-- Walking `next` from the head of an order visits the listed entries and ends,
`prev` leads back along the walk, and the entries describe themselves. -/
structure ListShape (s : State) (k : Nat) (nodes : List Nat) : Prop where
  walk : s.links.IsList (s.freeList k) nodes
  distinct : nodes.Nodup
  inRange : ∀ x ∈ nodes, x < pageNum
  order : ∀ x ∈ nodes, (s.pageList x).order = k
  idx : ∀ x ∈ nodes, (s.pageList x).idx = x
  entry : ∀ x ∈ nodes, (s.pageList x).entryInList = some x

theorem InvExcept.listShape {s : State} {T : PageTiling} {L : Nat → List Nat} (inv : Inv s T L)
    {k : Nat} (bounded : k < maxOrder) : ListShape s k (L k) where
  walk := inv.lists.list k bounded
  distinct := (inv.lists.list k bounded).nodup
  inRange x member := by
    have within := T.within (inv.order_of_mem member)
    have positive := Nat.two_pow_pos k
    rw [pageNum_eq] at within
    omega
  order x member := inv.order (inv.order_of_mem member) (by simp)
  idx x member := (inv.listed member).2.2
  entry x member := (inv.listed member).2.1

/-- Below the top order an entry is marked just when it is on the list of its order. -/
theorem Accounted.marked_iff {s : State} {T : PageTiling} {L : Nat → List Nat}
    (accounted : Accounted (s, none)) (inv : Inv s T L) {k x : Nat} (below : k < topOrder) :
    x ∈ L k ↔ (s.pageList x).order = k ∧ (s.pageList x).entryInList ≠ none := by
  have shape := inv.listShape (Nat.lt_trans below topOrder_lt)
  constructor
  · intro member
    rw [shape.entry x member]
    exact ⟨shape.order x member, Option.some_ne_none x⟩
  · rintro ⟨order, marked⟩
    rcases accounted x marked (Option.some_ne_none x).symm with ⟨j, listed⟩ | top
    · have member := inv.lists.onFreeList_iff.mp listed
      have same := inv.order (inv.order_of_mem member) (by simp)
      rw [order] at same
      rwa [Int.ofNat.inj same]
    · rw [order] at top
      exact absurd (Int.ofNat.inj top) (Nat.ne_of_lt below)

/-- In every reachable state each free list is a doubly linked list of entries of
its order.  Below the top order it has all the marked entries of that order. -/
theorem reached_listShape {ranges live : List (Nat × Nat)} {s : State}
    (reached : Reached ranges live s) {k : Nat} (bounded : k < maxOrder) :
    ∃ nodes, ListShape s k nodes ∧ (k < maxOrder - 1 → ∀ x, x < pageNum →
      (x ∈ nodes ↔ (s.pageList x).order = k ∧ (s.pageList x).entryInList ≠ none)) := by
  obtain ⟨⟨T, L, held⟩, accounted⟩ := reached.held
  exact ⟨L k, held.inv.listShape bounded, fun below x _ => accounted.marked_iff held.inv below⟩

/-- The first call of `_alloc`, when nothing is reserved. -/
theorem reached_listShape_fresh :
    ∃ nodes, ListShape (alloc mmInit 5000).1 1 nodes ∧ (1 < maxOrder - 1 → ∀ x, x < pageNum →
      (x ∈ nodes ↔ ((alloc mmInit 5000).1.pageList x).order = (1 : Nat) ∧
        ((alloc mmInit 5000).1.pageList x).entryInList ≠ none)) :=
  reached_listShape (.alloc (.boot .init) 5000) (by decide)

end OsdiKernel.Mm
