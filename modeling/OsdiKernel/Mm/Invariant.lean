import Mathlib.Data.Set.BooleanAlgebra
import Mathlib.Order.CompletePartialOrder
import OsdiKernel.Lib.Tiling
import OsdiKernel.Mm.FreeList

/-!
# The invariant of the buddy allocator

The order fields at block heads describe a tiling of memory, and the free
lists hold blocks of that tiling.  While a block is taken apart or merged, the
fields of its head are out of date; such a block is in hand, and the invariant
says nothing about its order and entry fields.  Only heads of blocks are ever
consulted, so stale fields inside a block do no harm.
-/

namespace OsdiKernel.Mm

open DyadicBlock

def topOrder : Nat := maxOrder - 1

abbrev PageTiling : Type := Tiling topOrder (pageNum / maxBlockSize)

theorem pageNum_eq : pageNum / maxBlockSize * 2 ^ topOrder = pageNum := by decide

theorem topOrder_lt : topOrder < maxOrder := by decide

/-- The invariant, except for the order and entry fields of the block in hand. -/
structure InvExcept (s : State) (T : PageTiling) (L : Nat → List Nat) (hand : Option Nat) :
    Prop where
  lists : Lists s L
  listed : ∀ {k b}, b ∈ L k →
    T.order b = some k ∧ (s.pageList b).entryInList = some b ∧ (s.pageList b).idx = b
  order : ∀ {b k}, T.order b = some k → hand ≠ some b → (s.pageList b).order = k
  entry : ∀ {b k}, T.order b = some k → hand ≠ some b → k < topOrder →
    (s.pageList b).entryInList ≠ none → b ∈ L k
  inHand : ∀ {b}, hand = some b → ∀ k, b ∉ L k

/-- The invariant between calls. -/
abbrev Inv (s : State) (T : PageTiling) (L : Nat → List Nat) : Prop := InvExcept s T L none

/-- The pages covered by the blocks on the lists. -/
def freePages (L : Nat → List Nat) : Set Nat := coverage fun b k => b ∈ L k

/-- No two buddies below the top order are both on a list. -/
def NoBuddies (L : Nat → List Nat) : Prop := Coalesced topOrder fun b k => b ∈ L k

theorem mem_freePages {L : Nat → List Nat} {x : Nat} :
    x ∈ freePages L ↔ ∃ b k, b ∈ L k ∧ x ∈ block b k := Iff.rfl

/-! ## Adding one block to a list, or taking one away -/

/-- The lists with one more block. -/
def addBlock (L : Nat → List Nat) (c k : Nat) : Nat → List Nat :=
  Function.update L k (c :: L k)

/-- The lists with one block less. -/
def eraseBlock (L : Nat → List Nat) (c k : Nat) : Nat → List Nat :=
  Function.update L k ((L k).erase c)

section Blocks

variable {L : Nat → List Nat} {b c j k : Nat}

@[simp] theorem mem_addBlock : b ∈ addBlock L c k j ↔ (b = c ∧ j = k) ∨ b ∈ L j := by
  unfold addBlock
  by_cases same : j = k
  · subst same
    simp
  · simp [same]

theorem mem_of_mem_eraseBlock (member : b ∈ eraseBlock L c k j) : b ∈ L j := by
  unfold eraseBlock at member
  by_cases same : j = k
  · subst same
    rw [Function.update_self] at member
    exact List.mem_of_mem_erase member
  · rwa [Function.update_of_ne same] at member

theorem mem_eraseBlock_of_ne (other : b ≠ c) : b ∈ eraseBlock L c k j ↔ b ∈ L j := by
  constructor
  · exact mem_of_mem_eraseBlock
  · intro member
    unfold eraseBlock
    by_cases same : j = k
    · subst same
      rw [Function.update_self]
      exact (List.mem_erase_of_ne other).mpr member
    · rwa [Function.update_of_ne same]

theorem freePages_addBlock : freePages (addBlock L c k) = freePages L ∪ block c k := by
  ext x
  simp only [Set.mem_union, mem_freePages, mem_addBlock]
  constructor
  · rintro ⟨b, j, ⟨rfl, rfl⟩ | old, inside⟩
    · exact Or.inr inside
    · exact Or.inl ⟨b, j, old, inside⟩
  · rintro (⟨b, j, old, inside⟩ | inside)
    · exact ⟨b, j, Or.inr old, inside⟩
    · exact ⟨c, k, Or.inl ⟨rfl, rfl⟩, inside⟩

theorem NoBuddies.add (coalesced : NoBuddies L) (aligned : 2 ^ k ∣ c)
    (buddyOff : k < topOrder → buddy c k ∉ L k) : NoBuddies (addBlock L c k) := by
  intro b j below member
  change ¬ buddy b j ∈ addBlock L c k j
  rw [mem_addBlock]
  rcases mem_addBlock.mp member with ⟨rfl, rfl⟩ | old
  · rintro (⟨same, _⟩ | other)
    · exact buddy_ne aligned same
    · exact buddyOff below other
  · rintro (⟨same, rfl⟩ | other)
    · refine buddyOff below ?_
      rw [← same, buddy_buddy]
      exact old
    · exact coalesced b j below old other

theorem NoBuddies.subset {M : Nat → List Nat} (coalesced : NoBuddies L)
    (subset : ∀ {j b}, b ∈ M j → b ∈ L j) : NoBuddies M :=
  fun b j below member other => coalesced b j below (subset member) (subset other)

end Blocks

namespace InvExcept

variable {s : State} {T : PageTiling} {L : Nat → List Nat} {hand : Option Nat} {b c j k : Nat}

theorem order_of_mem (inv : InvExcept s T L hand) (member : b ∈ L k) : T.order b = some k :=
  (inv.listed member).1

theorem aligned_of_mem (inv : InvExcept s T L hand) (member : b ∈ L k) : 2 ^ k ∣ b :=
  T.aligned (inv.order_of_mem member)

/-- A block of the tiling that is on no list has no free page. -/
theorem not_freePage (inv : InvExcept s T L hand) (orderC : T.order c = some k)
    (absent : c ∉ L k) {x : Nat} (inside : x ∈ block c k) : x ∉ freePages L := by
  rintro ⟨b, j, member, inB⟩
  have orderB := inv.order_of_mem member
  have same := T.unique orderB orderC inB inside
  subst same
  rw [orderB] at orderC
  cases orderC
  exact absent member

theorem off_lists (inv : InvExcept s T L hand) (orderC : T.order c = some k) (absent : c ∉ L k)
    (i : Nat) : c ∉ L i := by
  intro member
  have orderI := inv.order_of_mem member
  rw [orderC] at orderI
  cases orderI
  exact absent member

theorem erase_not_mem (inv : InvExcept s T L hand) (member : c ∈ L k) (i : Nat) :
    c ∉ eraseBlock L c k i := by
  intro still
  have same : i = k := inv.lists.disjoint (mem_of_mem_eraseBlock still) member
  subst same
  have distinct := (inv.lists.list i (inv.lists.bounded member)).nodup
  unfold eraseBlock at still
  rw [Function.update_self] at still
  exact (distinct.mem_erase_iff.mp still).1 rfl

/-- Taking a block off its list removes exactly its pages from the free pages. -/
theorem freePages_eraseBlock (inv : InvExcept s T L hand) (member : c ∈ L k) :
    freePages (eraseBlock L c k) = freePages L \ block c k := by
  have orderC := inv.order_of_mem member
  ext x
  rw [Set.mem_sdiff, mem_freePages, mem_freePages]
  constructor
  · rintro ⟨b, j, still, inside⟩
    have old := mem_of_mem_eraseBlock still
    refine ⟨⟨b, j, old, inside⟩, fun inC => ?_⟩
    have same := T.unique (inv.order_of_mem old) orderC inside inC
    subst same
    exact inv.erase_not_mem member j still
  · rintro ⟨⟨b, j, old, inside⟩, outside⟩
    have other : b ≠ c := by
      intro same
      subst same
      have orderB := inv.order_of_mem old
      rw [orderC] at orderB
      cases orderB
      exact outside inside
    exact ⟨b, j, (mem_eraseBlock_of_ne other).mpr old, inside⟩

/-! ## Moving one block between the lists and the hand -/

/-- Taking a block off its list leaves it in hand. -/
theorem lift (inv : Inv s T L) (member : c ∈ L k) :
    InvExcept (rmFromFreeList s (some c) k) T (eraseBlock L c k) (some c) := by
  have bounded := inv.lists.bounded member
  have shape := rmFromFreeList_eq s c bounded (inv.lists.head_prev bounded)
  constructor
  · exact inv.lists.unlink member
  · intro i b still
    have old := inv.listed (mem_of_mem_eraseBlock still)
    rw [shape, State.relink_entryInList, State.relink_idx]
    exact old
  · intro b i orderB notHand
    rw [shape, State.relink_order]
    exact inv.order orderB (by simp)
  · intro b i orderB notHand below entry
    rw [shape, State.relink_entryInList] at entry
    have other : b ≠ c := fun same => notHand (congrArg some same.symm)
    exact (mem_eraseBlock_of_ne other).mpr (inv.entry orderB (by simp) below entry)
  · intro b same i
    cases same
    exact inv.erase_not_mem member i

/-- A block that is on no list may be taken in hand as it is. -/
theorem hold (inv : Inv s T L) (absent : ∀ i, c ∉ L i) : InvExcept s T L (some c) where
  lists := inv.lists
  listed := inv.listed
  order orderB _ := inv.order orderB (by simp)
  entry orderB _ := inv.entry orderB (by simp)
  inHand same i := by
    cases same
    exact absent i

end InvExcept

/-- Put a block on a list and bring the fields of its head up to date. -/
def enlist (s : State) (c k : Nat) : State :=
  (s.relink (s.links.pushFront (s.freeList k) c)
    (Function.update s.freeList k (some c))).modifyPage c
      fun page => { page with idx := c, order := k, entryInList := some c }

/-- Record that a block is in use. -/
def settle (s : State) (c k : Nat) : State :=
  s.modifyPage c fun page => { page with order := k, entryInList := none }

section Enlist

variable {s : State} {b c k : Nat}

theorem enlist_of_ne (other : b ≠ c) :
    ((enlist s c k).pageList b).idx = (s.pageList b).idx ∧
      ((enlist s c k).pageList b).order = (s.pageList b).order ∧
      ((enlist s c k).pageList b).entryInList = (s.pageList b).entryInList := by
  unfold enlist
  rw [State.modifyPage_of_ne _ _ _ other]
  exact ⟨rfl, rfl, rfl⟩

theorem enlist_self :
    ((enlist s c k).pageList c).idx = c ∧ ((enlist s c k).pageList c).order = k ∧
      ((enlist s c k).pageList c).entryInList = some c := by
  unfold enlist
  rw [State.modifyPage_self]
  exact ⟨rfl, rfl, rfl⟩

theorem links_setIdx : (s.modifyPage c fun page => { page with idx := c }).links = s.links :=
  State.links_modifyPage _ _ _ (fun _ => rfl) (fun _ => rfl)

/-- The writes of `_alloc` that put the upper half of a block on a list. -/
theorem enlist_eq_alloc (bounded : k < maxOrder) :
    ((addToFreeList (s.modifyPage c fun page => { page with idx := c }) (some c) k).modifyPage c
      fun page => { page with order := k }).modifyPage c
        (fun page => { page with entryInList := some c }) = enlist s c k := by
  rw [addToFreeList_eq _ _ bounded, links_setIdx]
  unfold enlist
  rw [State.modifyPage, State.modifyPage, State.modifyPage, State.mk.injEq]
  refine ⟨rfl, funext fun i => ?_⟩
  by_cases same : i = c
  · subst same
    simp [State.relink]
  · simp [State.relink, same, State.modifyPage_of_ne]

/-- The writes of `_free` that put a block back. -/
theorem enlist_eq_putBack (bounded : k < maxOrder) : putBack s c k = enlist s c k := by
  unfold putBack
  dsimp only
  rw [addToFreeList_eq _ _ bounded, links_setIdx]
  unfold enlist
  rw [State.modifyPage, State.modifyPage, State.modifyPage, State.mk.injEq]
  refine ⟨rfl, funext fun i => ?_⟩
  by_cases same : i = c
  · subst same
    simp [State.relink]
  · simp [State.relink, same, State.modifyPage_of_ne]

/-- The writes of `split` that put one half of a block on a list. -/
theorem enlist_eq_split (bounded : k < maxOrder) :
    (addToFreeList ((s.modifyPage c fun page => { page with idx := c }).modifyPage c
      fun page => { page with order := k }) (some c) k).modifyPage c
        (fun page => { page with entryInList := some c }) = enlist s c k := by
  have sameLinks : ((s.modifyPage c fun page => { page with idx := c }).modifyPage c
      fun page => { page with order := (k : Int) }).links = s.links := by
    rw [State.links_modifyPage, links_setIdx]
    · exact fun _ => rfl
    · exact fun _ => rfl
  rw [addToFreeList_eq _ _ bounded, sameLinks]
  unfold enlist
  rw [State.modifyPage, State.modifyPage, State.mk.injEq]
  refine ⟨rfl, funext fun i => ?_⟩
  by_cases same : i = c
  · subst same
    simp [State.relink]
  · simp [State.relink, same, State.modifyPage_of_ne]

theorem Lists.enlist {L : Nat → List Nat} (lists : Lists s L) (bounded : k < maxOrder)
    (fresh : ∀ j, c ∉ L j) : Lists (enlist s c k) (addBlock L c k) := by
  have pushed := lists.push bounded fresh
  rw [addToFreeList_eq s c bounded] at pushed
  apply pushed.congr
  · exact State.links_modifyPage _ _ _ (fun _ => rfl) (fun _ => rfl)
  · rfl

end Enlist

namespace InvExcept

variable {s : State} {T T' : PageTiling} {L : Nat → List Nat} {hand hand' : Option Nat}
  {b c j k : Nat}

/-- Putting a block on a list, possibly while the tiling and the hand change. -/
theorem enlist (inv : InvExcept s T L hand) (bounded : k < maxOrder) (absent : ∀ i, c ∉ L i)
    (placed : T'.order c = some k)
    (kept : ∀ b j, T'.order b = some j → b ≠ c → hand' ≠ some b →
      T.order b = some j ∧ hand ≠ some b)
    (still : ∀ b j, b ∈ L j → T'.order b = some j)
    (out : ∀ b, hand' = some b → b ≠ c ∧ ∀ i, b ∉ L i) :
    InvExcept (enlist s c k) T' (addBlock L c k) hand' := by
  constructor
  · exact inv.lists.enlist bounded absent
  · intro i b member
    rcases mem_addBlock.mp member with ⟨rfl, rfl⟩ | old
    · exact ⟨placed, enlist_self.2.2, enlist_self.1⟩
    · have other : b ≠ c := fun same => absent i (same ▸ old)
      obtain ⟨_, entryB, idxB⟩ := inv.listed old
      obtain ⟨idxKept, _, entryKept⟩ := enlist_of_ne (s := s) (k := k) other
      exact ⟨still b i old, entryKept.trans entryB, idxKept.trans idxB⟩
  · intro b i orderB notHand
    by_cases atC : b = c
    · subst atC
      rw [placed] at orderB
      cases orderB
      exact enlist_self.2.1
    · obtain ⟨old, notOld⟩ := kept b i orderB atC notHand
      exact (enlist_of_ne atC).2.1.trans (inv.order old notOld)
  · intro b i orderB notHand below entry
    rw [mem_addBlock]
    by_cases atC : b = c
    · subst atC
      rw [placed] at orderB
      cases orderB
      exact Or.inl ⟨rfl, rfl⟩
    · obtain ⟨old, notOld⟩ := kept b i orderB atC notHand
      rw [(enlist_of_ne atC).2.2] at entry
      exact Or.inr (inv.entry old notOld below entry)
  · intro b same i
    rw [mem_addBlock]
    rintro (⟨atC, _⟩ | member)
    · exact (out b same).1 atC
    · exact (out b same).2 i member

/-- A block in hand goes on the list of its order. -/
theorem enlistHand (inv : InvExcept s T L (some c)) (orderC : T.order c = some k) :
    Inv (Mm.enlist s c k) T (addBlock L c k) := by
  have bounded : k < maxOrder := Nat.lt_of_le_of_lt (T.le_top orderC) topOrder_lt
  apply inv.enlist bounded (inv.inHand rfl) orderC
  · intro b j orderB other _
    exact ⟨orderB, fun same => other (Option.some.inj same).symm⟩
  · intro b j member
    exact inv.order_of_mem member
  · intro b impossible
    cases impossible

theorem upper_ne (c k : Nat) : c + 2 ^ k ≠ c := by
  have positive := Nat.two_pow_pos k
  omega

/-- The position of an upper half starts no block before the split. -/
theorem upper_order (whole : T.order c = some (k + 1)) : T.order (c + 2 ^ k) = none := by
  cases found : T.order (c + 2 ^ k) with
  | none => rfl
  | some j =>
      exfalso
      have inside : c + 2 ^ k ∈ block c (k + 1) := by
        rw [block_succ]
        exact Or.inr (self_mem_block _ k)
      exact upper_ne c k (T.unique found whole (self_mem_block _ j) inside)

theorem upper_absent (inv : InvExcept s T L hand) (whole : T.order c = some (k + 1)) (i : Nat) :
    c + 2 ^ k ∉ L i := by
  intro member
  have orderUpper := inv.order_of_mem member
  rw [upper_order whole] at orderUpper
  cases orderUpper

/-- Halving the block in hand: the upper half goes on a list. -/
theorem splitUpper (inv : InvExcept s T L (some c)) (whole : T.order c = some (k + 1)) :
    InvExcept (Mm.enlist s (c + 2 ^ k) k) (T.split c k whole) (addBlock L (c + 2 ^ k) k)
      (some c) := by
  have bounded : k < maxOrder := by
    have top := T.le_top whole
    have limit := topOrder_lt
    omega
  apply inv.enlist bounded (inv.upper_absent whole) (T.split_order_upper whole)
  · intro b j orderB notUpper notHand
    have notLower : b ≠ c := fun same => notHand (congrArg some same.symm)
    rw [T.split_order_of_ne whole notLower notUpper] at orderB
    exact ⟨orderB, notHand⟩
  · intro b j member
    have notLower : b ≠ c := fun same => inv.inHand rfl j (same ▸ member)
    have notUpper : b ≠ c + 2 ^ k := fun same => inv.upper_absent whole j (same ▸ member)
    rw [T.split_order_of_ne whole notLower notUpper]
    exact inv.order_of_mem member
  · intro b same
    cases same
    exact ⟨(upper_ne c k).symm, inv.inHand rfl⟩

/-- Halving the block in hand: the lower half goes on a list, the upper half is in hand. -/
theorem splitLower (inv : InvExcept s T L (some c)) (whole : T.order c = some (k + 1)) :
    InvExcept (Mm.enlist s c k) (T.split c k whole) (addBlock L c k) (some (c + 2 ^ k)) := by
  have bounded : k < maxOrder := by
    have top := T.le_top whole
    have limit := topOrder_lt
    omega
  apply inv.enlist bounded (inv.inHand rfl) (T.split_order_lower whole)
  · intro b j orderB notLower notHand
    have notUpper : b ≠ c + 2 ^ k := fun same => notHand (congrArg some same.symm)
    rw [T.split_order_of_ne whole notLower notUpper] at orderB
    exact ⟨orderB, fun same => notLower (Option.some.inj same).symm⟩
  · intro b j member
    have notLower : b ≠ c := fun same => inv.inHand rfl j (same ▸ member)
    have notUpper : b ≠ c + 2 ^ k := fun same => inv.upper_absent whole j (same ▸ member)
    rw [T.split_order_of_ne whole notLower notUpper]
    exact inv.order_of_mem member
  · intro b same
    cases same
    exact ⟨upper_ne c k, inv.upper_absent whole⟩

/-- A block in hand is recorded as in use. -/
theorem settle (inv : InvExcept s T L (some c)) (orderC : T.order c = some k) :
    Inv (Mm.settle s c k) T L := by
  have other : ∀ {b}, b ≠ c → (Mm.settle s c k).pageList b = s.pageList b :=
    fun different => State.modifyPage_of_ne s c _ different
  have self : (Mm.settle s c k).pageList c =
      { s.pageList c with order := k, entryInList := none } := State.modifyPage_self s c _
  constructor
  · exact inv.lists.congr (State.links_modifyPage _ _ _ (fun _ => rfl) (fun _ => rfl)) rfl
  · intro i b member
    rw [other (fun same => inv.inHand rfl i (same ▸ member))]
    exact inv.listed member
  · intro b i orderB _
    by_cases atC : b = c
    · subst atC
      rw [orderC] at orderB
      cases orderB
      rw [self]
    · rw [other atC]
      exact inv.order orderB fun same => atC (Option.some.inj same).symm
  · intro b i orderB _ below entry
    by_cases atC : b = c
    · subst atC
      rw [self] at entry
      exact absurd rfl entry
    · rw [other atC] at entry
      exact inv.entry orderB (fun same => atC (Option.some.inj same).symm) below entry
  · intro b impossible
    cases impossible

end InvExcept

end OsdiKernel.Mm
