import Mathlib.Logic.Function.Basic
import OsdiKernel.Lib.Dyadic

/-!
# Tilings by dyadic blocks

A tiling cuts `count` blocks of order `top` into smaller dyadic blocks.  It is
stored as the order at the first position of each block, so that a block is
split or two buddies are merged by changing one or two entries.  The proofs
that the blocks are aligned, in range and disjoint, and that they cover every
position, travel with the tiling.
-/

namespace OsdiKernel

open DyadicBlock

/-- A partition of `count * 2 ^ top` positions into dyadic blocks. -/
structure Tiling (top count : Nat) where
  order : Nat → Option Nat
  le_top : ∀ {b k}, order b = some k → k ≤ top
  aligned : ∀ {b k}, order b = some k → 2 ^ k ∣ b
  within : ∀ {b k}, order b = some k → b + 2 ^ k ≤ count * 2 ^ top
  covers : ∀ {x}, x < count * 2 ^ top → ∃ b k, order b = some k ∧ x ∈ block b k
  unique : ∀ {b c j k x}, order b = some k → order c = some j →
    x ∈ block b k → x ∈ block c j → b = c

namespace Tiling

variable {top count : Nat}

/-! ## Aligned runs against the blocks of a tiling -/

/-- An aligned run that starts in range ends in range. -/
theorem run_within {a k : Nat} (bounded : k ≤ top) (aligned : 2 ^ k ∣ a)
    (inRange : a < count * 2 ^ top) : a + 2 ^ k ≤ count * 2 ^ top := by
  obtain ⟨m, rfl⟩ := aligned
  have whole : count * 2 ^ top = 2 ^ k * (count * 2 ^ (top - k)) := by
    rw [Nat.mul_left_comm, ← Nat.pow_add, Nat.add_sub_cancel' bounded]
  rw [whole] at inRange ⊢
  rw [← Nat.mul_succ]
  exact Nat.mul_le_mul_left _ (Nat.lt_of_mul_lt_mul_left inRange)

/-- An aligned run either starts with a block no larger than itself or lies
inside one larger block. -/
theorem run_cases (T : Tiling top count) {a k : Nat} (aligned : 2 ^ k ∣ a)
    (inRange : a < count * 2 ^ top) :
    (∃ j, T.order a = some j ∧ j ≤ k) ∨
      ∃ b j, T.order b = some j ∧ k < j ∧ block a k ⊆ block b j := by
  obtain ⟨b, j, orderB, inside⟩ := T.covers inRange
  rcases Nat.lt_or_ge k j with larger | smaller
  · exact Or.inr ⟨b, j, orderB, larger,
      block_subset_of_mem (T.aligned orderB) aligned (Nat.le_of_lt larger) inside
        (self_mem_block a k)⟩
  · have nested := block_subset_of_mem aligned (T.aligned orderB) smaller
      (self_mem_block a k) inside
    have same : a = b := Nat.le_antisymm (nested (self_mem_block b j)).1 inside.1
    exact Or.inl ⟨j, same ▸ orderB, smaller⟩

theorem order_unique (T : Tiling top count) {b c j k x : Nat} (orderB : T.order b = some k)
    (orderC : T.order c = some j) (inB : x ∈ block b k) (inC : x ∈ block c j) : j = k := by
  have same := T.unique orderB orderC inB inC
  rw [same, orderC] at orderB
  exact Option.some.inj orderB

/-- The buddy of a block below the top order starts a block that is no larger. -/
theorem buddy_order (T : Tiling top count) {b k : Nat} (orderB : T.order b = some k)
    (below : k < top) : ∃ j, T.order (buddy b k) = some j ∧ j ≤ k := by
  have alignedB := T.aligned orderB
  have inParent : buddy b k ∈ block (parent b k) (k + 1) := by
    rw [block_parent alignedB]
    exact Or.inr (self_mem_block _ k)
  have parentInRange : parent b k < count * 2 ^ top := by
    have lower := alignDown_le b (k + 1)
    have upper := T.within orderB
    have positive := Nat.two_pow_pos k
    exact Nat.lt_of_le_of_lt lower (by omega)
  have inRange : buddy b k < count * 2 ^ top :=
    Nat.lt_of_lt_of_le inParent.2 (run_within below (parent_aligned b k) parentInRange)
  rcases T.run_cases (buddy_aligned alignedB) inRange with found | ⟨c, j, orderC, larger, nested⟩
  · exact found
  · -- a larger block around the buddy would swallow the parent, hence `b` itself
    have parentNested := block_subset_of_mem (T.aligned orderC) (parent_aligned b k) larger
      (nested (self_mem_block _ k)) inParent
    have inC : b ∈ block c j := parentNested (by
      rw [block_parent alignedB]
      exact Or.inl (self_mem_block b k))
    have same := T.order_unique orderB orderC (self_mem_block b k) inC
    omega

/-- The position after a block starts the next block, or ends the range. -/
theorem next_head (T : Tiling top count) {b k : Nat} (orderB : T.order b = some k)
    (inRange : b + 2 ^ k < count * 2 ^ top) : ∃ j, T.order (b + 2 ^ k) = some j := by
  obtain ⟨c, j, orderC, inside⟩ := T.covers inRange
  have positive : 0 < 2 ^ k := Nat.two_pow_pos k
  rcases Nat.lt_or_ge c (b + 2 ^ k) with before | after
  · exfalso
    -- the last position of the first block would lie in both blocks
    rw [mem_block] at inside
    rcases Nat.lt_or_ge c b with left | right
    · have meet : b ∈ block c j := ⟨Nat.le_of_lt left, by omega⟩
      have same := T.unique orderB orderC (self_mem_block b k) meet
      omega
    · have meet : c ∈ block b k := ⟨right, before⟩
      have same := T.unique orderB orderC meet (self_mem_block c j)
      subst same
      rw [orderB] at orderC
      have equal := Option.some.inj orderC
      subst equal
      omega
  · have same : c = b + 2 ^ k := Nat.le_antisymm inside.1 after
    exact ⟨j, same ▸ orderC⟩

/-! ## The uniform tiling, splitting and merging -/

/-- The tiling that consists of blocks of the top order only. -/
def uniform (top count : Nat) : Tiling top count where
  order b := if 2 ^ top ∣ b ∧ b < count * 2 ^ top then some top else none
  le_top {b k} found := by
    split at found
    · exact Nat.le_of_eq (Option.some.inj found).symm
    · cases found
  aligned {b k} found := by
    split at found
    · next inside =>
        cases found
        exact inside.1
    · cases found
  within {b k} found := by
    split at found
    · next inside =>
        cases found
        exact run_within (Nat.le_refl _) inside.1 inside.2
    · cases found
  covers {x} inRange := by
    refine ⟨alignDown x top, top, ?_, mem_block_alignDown x top⟩
    rw [if_pos ⟨alignDown_aligned x top, Nat.lt_of_le_of_lt (alignDown_le x top) inRange⟩]
  unique {b c j k x} foundB foundC inB inC := by
    split at foundB
    · next insideB =>
        split at foundC
        · next insideC =>
            cases foundB
            cases foundC
            exact eq_of_mem_block insideB.1 insideC.1 inB inC
        · cases foundC
    · cases foundB

theorem uniform_order {b : Nat} (aligned : 2 ^ top ∣ b) (inRange : b < count * 2 ^ top) :
    (uniform top count).order b = some top := if_pos ⟨aligned, inRange⟩

theorem uniform_order_eq {b k : Nat} (found : (uniform top count).order b = some k) :
    k = top ∧ 2 ^ top ∣ b ∧ b < count * 2 ^ top := by
  unfold uniform at found
  dsimp only at found
  split at found
  · next inside => exact ⟨(Option.some.inj found).symm, inside⟩
  · cases found

/-- Two updates of an order table, read back at a block of the new table. -/
theorem update_cases {order : Nat → Option Nat} {b c d j : Nat} {e f : Option Nat}
    (found : Function.update (Function.update order b e) c f d = some j) :
    (d = c ∧ f = some j) ∨ (d ≠ c ∧ d = b ∧ e = some j) ∨ (d ≠ c ∧ d ≠ b ∧ order d = some j) := by
  by_cases atC : d = c
  · subst atC
    rw [Function.update_self] at found
    exact Or.inl ⟨rfl, found⟩
  · rw [Function.update_of_ne atC] at found
    by_cases atB : d = b
    · subst atB
      rw [Function.update_self] at found
      exact Or.inr (Or.inl ⟨atC, rfl, found⟩)
    · rw [Function.update_of_ne atB] at found
      exact Or.inr (Or.inr ⟨atC, atB, found⟩)

/-- Replace a block of order `k + 1` by its two halves. -/
def split (T : Tiling top count) (b k : Nat) (whole : T.order b = some (k + 1)) :
    Tiling top count where
  order := Function.update (Function.update T.order b (some k)) (b + 2 ^ k) (some k)
  le_top {d j} found := by
    have bound := T.le_top whole
    rcases update_cases found with ⟨_, same⟩ | ⟨_, _, same⟩ | ⟨_, _, old⟩
    · cases same
      omega
    · cases same
      omega
    · exact T.le_top old
  aligned {d j} found := by
    have alignedB := T.aligned whole
    rcases update_cases found with ⟨at_, same⟩ | ⟨_, at_, same⟩ | ⟨_, _, old⟩
    · cases same
      exact at_ ▸ aligned_upper alignedB
    · cases same
      exact at_ ▸ aligned_of_succ alignedB
    · exact T.aligned old
  within {d j} found := by
    have bound := T.within whole
    have twice := Nat.pow_succ 2 k
    rcases update_cases found with ⟨at_, same⟩ | ⟨_, at_, same⟩ | ⟨_, _, old⟩
    · cases same
      omega
    · cases same
      omega
    · exact T.within old
  covers {x} inRange := by
    obtain ⟨d, j, orderD, inside⟩ := T.covers inRange
    have apart : b ≠ b + 2 ^ k := Nat.ne_of_lt (Nat.lt_add_of_pos_right (Nat.two_pow_pos k))
    by_cases atB : d = b
    · subst atB
      rw [whole] at orderD
      cases orderD
      rw [block_succ] at inside
      rcases inside with lower | upper
      · exact ⟨d, k, by rw [Function.update_of_ne apart, Function.update_self], lower⟩
      · exact ⟨d + 2 ^ k, k, Function.update_self _ _ _, upper⟩
    · have notUpper : d ≠ b + 2 ^ k := by
        intro at_
        subst at_
        have meet : b + 2 ^ k ∈ block b (k + 1) := by
          rw [block_succ]
          exact Or.inr (self_mem_block _ k)
        exact atB (T.unique whole orderD meet (self_mem_block _ j)).symm
      exact ⟨d, j, by rw [Function.update_of_ne notUpper, Function.update_of_ne atB, orderD],
        inside⟩
  unique {d c j i x} foundD foundC inD inC := by
    have lowerIn : block b k ⊆ block b (k + 1) := block_mono b (Nat.le_succ k)
    have upperIn : block (b + 2 ^ k) k ⊆ block b (k + 1) := by
      rw [block_succ]
      exact Set.subset_union_right
    rcases update_cases foundD with ⟨atD, same⟩ | ⟨_, atD, same⟩ | ⟨notUpperD, notLowerD, oldD⟩ <;>
    rcases update_cases foundC with ⟨atC, same'⟩ | ⟨_, atC, same'⟩ | ⟨notUpperC, notLowerC, oldC⟩
    · rw [atD, atC]
    · cases same
      cases same'
      subst atD
      subst atC
      rw [mem_block] at inD inC
      omega
    · cases same
      subst atD
      exact absurd (T.unique whole oldC (upperIn inD) inC).symm notLowerC
    · cases same
      cases same'
      subst atD
      subst atC
      rw [mem_block] at inD inC
      omega
    · rw [atD, atC]
    · cases same
      subst atD
      exact absurd (T.unique whole oldC (lowerIn inD) inC).symm notLowerC
    · cases same'
      subst atC
      exact absurd (T.unique whole oldD (upperIn inC) inD).symm notLowerD
    · cases same'
      subst atC
      exact absurd (T.unique whole oldD (lowerIn inC) inD).symm notLowerD
    · exact T.unique oldD oldC inD inC

/-- Replace the two halves of a block of order `k + 1` by the block itself. -/
def merge (T : Tiling top count) (b k : Nat) (aligned : 2 ^ (k + 1) ∣ b) (below : k < top)
    (lower : T.order b = some k) (upper : T.order (b + 2 ^ k) = some k) : Tiling top count where
  order := Function.update (Function.update T.order b (some (k + 1))) (b + 2 ^ k) none
  le_top {d j} found := by
    rcases update_cases found with ⟨_, same⟩ | ⟨_, _, same⟩ | ⟨_, _, old⟩
    · cases same
    · cases same
      exact below
    · exact T.le_top old
  aligned {d j} found := by
    rcases update_cases found with ⟨_, same⟩ | ⟨_, at_, same⟩ | ⟨_, _, old⟩
    · cases same
    · cases same
      exact at_ ▸ aligned
    · exact T.aligned old
  within {d j} found := by
    have bound := T.within upper
    have twice := Nat.pow_succ 2 k
    rcases update_cases found with ⟨_, same⟩ | ⟨_, at_, same⟩ | ⟨_, _, old⟩
    · cases same
    · cases same
      omega
    · exact T.within old
  covers {x} inRange := by
    obtain ⟨d, j, orderD, inside⟩ := T.covers inRange
    have apart : b ≠ b + 2 ^ k := Nat.ne_of_lt (Nat.lt_add_of_pos_right (Nat.two_pow_pos k))
    have merged : Function.update (Function.update T.order b (some (k + 1))) (b + 2 ^ k) none b =
        some (k + 1) := by rw [Function.update_of_ne apart, Function.update_self]
    by_cases atUpper : d = b + 2 ^ k
    · subst atUpper
      rw [upper] at orderD
      cases orderD
      exact ⟨b, k + 1, merged, by rw [block_succ]; exact Or.inr inside⟩
    · by_cases atLower : d = b
      · subst atLower
        rw [lower] at orderD
        cases orderD
        exact ⟨d, k + 1, merged, block_mono d (Nat.le_succ k) inside⟩
      · exact ⟨d, j, by rw [Function.update_of_ne atUpper, Function.update_of_ne atLower, orderD],
          inside⟩
  unique {d c j i x} foundD foundC inD inC := by
    have halves : ∀ {e l}, T.order e = some l → e ≠ b → e ≠ b + 2 ^ k → x ∈ block e l →
        x ∉ block b (k + 1) := by
      intro e l orderE notLower notUpper inE inWhole
      rw [block_succ] at inWhole
      rcases inWhole with inLower | inUpper
      · exact notLower (T.unique orderE lower inE inLower)
      · exact notUpper (T.unique orderE upper inE inUpper)
    rcases update_cases foundD with ⟨_, same⟩ | ⟨_, atD, same⟩ | ⟨notUpperD, notLowerD, oldD⟩ <;>
    rcases update_cases foundC with ⟨_, same'⟩ | ⟨_, atC, same'⟩ | ⟨notUpperC, notLowerC, oldC⟩
    · cases same
    · cases same
    · cases same
    · cases same'
    · rw [atD, atC]
    · cases same
      subst atD
      exact absurd inD (halves oldC notLowerC notUpperC inC)
    · cases same'
    · cases same'
      subst atC
      exact absurd inC (halves oldD notLowerD notUpperD inD)
    · exact T.unique oldD oldC inD inC

/-! ## The block around a position -/

/-- The positions of the block that contains `x`. -/
def around (T : Tiling top count) (x : Nat) : Set Nat :=
  {y | ∃ b k, T.order b = some k ∧ x ∈ block b k ∧ y ∈ block b k}

theorem around_eq (T : Tiling top count) {b k x : Nat} (orderB : T.order b = some k)
    (inside : x ∈ block b k) : T.around x = block b k := by
  ext y
  constructor
  · rintro ⟨c, j, orderC, inC, other⟩
    have same := T.unique orderB orderC inside inC
    subst same
    rw [orderB] at orderC
    cases orderC
    exact other
  · exact fun other => ⟨b, k, orderB, inside, other⟩

theorem around_zero (T : Tiling top count) {x : Nat} (single : T.order x = some 0) :
    T.around x = {x} := by
  rw [T.around_eq single (self_mem_block x 0)]
  ext y
  exact mem_block_zero

/-- Every block of the second tiling lies in a block of the first. -/
def Finer (T T' : Tiling top count) : Prop := ∀ x, T'.around x ⊆ T.around x

theorem Finer.refl (T : Tiling top count) : Finer T T := fun _ _ => id

theorem Finer.trans {T T' T'' : Tiling top count} (first : Finer T T') (second : Finer T' T'') :
    Finer T T'' := fun x => (second x).trans (first x)

/-- Inside a block there are only blocks of smaller order. -/
theorem Finer.order_le {T T' : Tiling top count} (finer : Finer T T') {b c j k x : Nat}
    (orderB : T.order b = some k) (orderC : T'.order c = some j) (inB : x ∈ block b k)
    (inC : x ∈ block c j) : j ≤ k := by
  have nested := finer x
  rw [T.around_eq orderB inB, T'.around_eq orderC inC] at nested
  have first := nested (self_mem_block c j)
  have last : c + 2 ^ j - 1 ∈ block b k := by
    apply nested
    have positive := Nat.two_pow_pos j
    rw [mem_block]
    omega
  have shorter : 2 ^ j ≤ 2 ^ k := by
    rw [mem_block] at first last
    omega
  exact (Nat.pow_le_pow_iff_right (by decide)).mp shorter

/-- Single positions stay single. -/
theorem Finer.single {T T' : Tiling top count} (finer : Finer T T') {x : Nat}
    (single : T.order x = some 0) : T'.order x = some 0 := by
  have inRange : x < count * 2 ^ top := by
    have within := T.within single
    omega
  obtain ⟨c, j, orderC, inside⟩ := T'.covers inRange
  have small := finer.order_le single orderC (self_mem_block x 0) inside
  have zero : j = 0 := Nat.le_zero.mp small
  subst zero
  rw [mem_block_zero.mp inside]
  exact orderC

section Split

variable (T : Tiling top count) {b k : Nat} (whole : T.order b = some (k + 1))

theorem split_order_upper : (T.split b k whole).order (b + 2 ^ k) = some k :=
  Function.update_self _ _ _

theorem split_order_lower : (T.split b k whole).order b = some k := by
  have apart : b ≠ b + 2 ^ k := Nat.ne_of_lt (Nat.lt_add_of_pos_right (Nat.two_pow_pos k))
  change Function.update (Function.update T.order b (some k)) (b + 2 ^ k) (some k) b = _
  rw [Function.update_of_ne apart, Function.update_self]

theorem split_order_of_ne {c : Nat} (notLower : c ≠ b) (notUpper : c ≠ b + 2 ^ k) :
    (T.split b k whole).order c = T.order c := by
  change Function.update (Function.update T.order b (some k)) (b + 2 ^ k) (some k) c = _
  rw [Function.update_of_ne notUpper, Function.update_of_ne notLower]

/-- A split changes nothing outside the block that is split. -/
theorem split_around_of_not_mem {x : Nat} (outside : x ∉ block b (k + 1)) :
    (T.split b k whole).around x = T.around x := by
  have halves := block_succ b k
  have notLower : ∀ {c j}, x ∈ block c j → (T.split b k whole).order c = some j →
      T.order c = some j ∧ c ≠ b ∧ c ≠ b + 2 ^ k := by
    intro c j inside found
    rcases update_cases found with ⟨at_, same⟩ | ⟨_, at_, same⟩ | ⟨notUpper, notLower, old⟩
    · cases same
      subst at_
      exact absurd (halves ▸ Or.inr inside) outside
    · cases same
      subst at_
      exact absurd (halves ▸ Or.inl inside) outside
    · exact ⟨old, notLower, notUpper⟩
  ext y
  constructor
  · rintro ⟨c, j, orderC, inside, other⟩
    exact ⟨c, j, (notLower inside orderC).1, inside, other⟩
  · rintro ⟨c, j, orderC, inside, other⟩
    refine ⟨c, j, ?_, inside, other⟩
    have atLower : c ≠ b := by
      rintro rfl
      rw [whole] at orderC
      cases orderC
      exact outside inside
    have atUpper : c ≠ b + 2 ^ k := by
      rintro rfl
      have meet : b + 2 ^ k ∈ block b (k + 1) := by
        rw [halves]
        exact Or.inr (self_mem_block _ k)
      exact atLower (T.unique orderC whole (self_mem_block _ j) meet)
    rw [T.split_order_of_ne whole atLower atUpper]
    exact orderC

/-- Inside the block that is split the position keeps one half around it. -/
theorem split_half {x : Nat} (inside : x ∈ block b (k + 1)) :
    ∃ c, (T.split b k whole).order c = some k ∧ x ∈ block c k ∧
      block c k ⊆ block b (k + 1) := by
  rw [block_succ] at inside ⊢
  rcases inside with lower | upper
  · exact ⟨b, T.split_order_lower whole, lower, Set.subset_union_left⟩
  · exact ⟨b + 2 ^ k, T.split_order_upper whole, upper, Set.subset_union_right⟩

theorem split_around_subset {x : Nat} (inside : x ∈ block b (k + 1)) :
    (T.split b k whole).around x ⊆ block b (k + 1) := by
  obtain ⟨c, orderC, inC, nested⟩ := T.split_half whole inside
  rw [(T.split b k whole).around_eq orderC inC]
  exact nested

theorem split_finer : Finer T (T.split b k whole) := by
  intro x
  by_cases inside : x ∈ block b (k + 1)
  · rw [T.around_eq whole inside]
    exact T.split_around_subset whole inside
  · rw [T.split_around_of_not_mem whole inside]

end Split

end Tiling

/-! ## Sets of blocks without buddies -/

/-- The positions covered by a set of blocks. -/
def coverage (blocks : Nat → Nat → Prop) : Set Nat :=
  {x | ∃ b k, blocks b k ∧ x ∈ block b k}

/-- No two buddies below the top order belong to the set. -/
def Coalesced (top : Nat) (blocks : Nat → Nat → Prop) : Prop :=
  ∀ b k, k < top → blocks b k → ¬ blocks (buddy b k) k

/-- In a coalesced set of aligned blocks a covered aligned run lies in one block. -/
theorem run_in_block {top : Nat} {blocks : Nat → Nat → Prop}
    (aligned : ∀ {b k}, blocks b k → 2 ^ k ∣ b) (coalesced : Coalesced top blocks)
    {k : Nat} (bounded : k ≤ top) {a : Nat} (alignedA : 2 ^ k ∣ a)
    (covered : block a k ⊆ coverage blocks) :
    ∃ b j, blocks b j ∧ k ≤ j ∧ block a k ⊆ block b j := by
  induction k generalizing a with
  | zero =>
      obtain ⟨b, j, member, inside⟩ := covered (self_mem_block a 0)
      refine ⟨b, j, member, Nat.zero_le j, fun x inA => ?_⟩
      exact (mem_block_zero.mp inA) ▸ inside
  | succ k ih =>
      have halves := block_succ a k
      have alignedLower := aligned_of_succ alignedA
      have alignedUpper := aligned_upper alignedA
      obtain ⟨b, j, memberB, orderB, lowerIn⟩ := ih (Nat.le_of_succ_le bounded) alignedLower
        (fun x inside => covered (halves ▸ Or.inl inside))
      obtain ⟨c, i, memberC, orderC, upperIn⟩ := ih (Nat.le_of_succ_le bounded) alignedUpper
        (fun x inside => covered (halves ▸ Or.inr inside))
      rcases Nat.lt_or_eq_of_le orderB with larger | sameB
      · exact ⟨b, j, memberB, larger, block_subset_of_mem (aligned memberB) alignedA larger
          (lowerIn (self_mem_block a k)) (self_mem_block a (k + 1))⟩
      rcases Nat.lt_or_eq_of_le orderC with larger | sameC
      · refine ⟨c, i, memberC, larger, block_subset_of_mem (aligned memberC) alignedA larger
          (upperIn (self_mem_block _ k)) ?_⟩
        rw [halves]
        exact Or.inr (self_mem_block _ k)
      · -- both halves are blocks of order `k`, hence buddies in the set
        subst sameB
        subst sameC
        have atLower := eq_of_mem_block (aligned memberB) alignedLower
          (lowerIn (self_mem_block a k)) (self_mem_block a k)
        have atUpper := eq_of_mem_block (aligned memberC) alignedUpper
          (upperIn (self_mem_block _ k)) (self_mem_block _ k)
        subst atLower
        rw [atUpper, ← buddy_of_aligned alignedA] at memberC
        exact absurd memberC (coalesced b k bounded memberB)

end OsdiKernel
