import Mathlib.Data.Nat.Bitwise
import Mathlib.Order.Interval.Set.Basic

/-!
# Dyadic blocks

A dyadic block of order `k` is a run of `2 ^ k` consecutive positions whose
first position is a multiple of `2 ^ k`.  Two such blocks are nested or
disjoint, and every block of order `k` has exactly one buddy, found by flipping
bit `k` of its first position.
-/

namespace OsdiKernel.DyadicBlock

/-- The `2 ^ k` consecutive positions that start at `b`. -/
def block (b k : Nat) : Set Nat := Set.Ico b (b + 2 ^ k)

/-- The other half of the block of order `k + 1` around a block of order `k`. -/
def buddy (b k : Nat) : Nat := b ^^^ (1 <<< k)

/-- The first position of the aligned block of order `k` that contains `x`. -/
def alignDown (x k : Nat) : Nat := x - (x &&& (1 <<< k) - 1)

/-- The first position of the block of order `k + 1` around a block of order `k`. -/
def parent (b k : Nat) : Nat := alignDown b (k + 1)

/-! ## Membership and nesting -/

theorem mem_block {b k x : Nat} : x ∈ block b k ↔ b ≤ x ∧ x < b + 2 ^ k := Iff.rfl

theorem self_mem_block (b k : Nat) : b ∈ block b k :=
  ⟨Nat.le_refl b, Nat.lt_add_of_pos_right (Nat.two_pow_pos k)⟩

@[simp] theorem mem_block_zero {b x : Nat} : x ∈ block b 0 ↔ x = b := by
  rw [mem_block, Nat.pow_zero]
  omega

/-- The positions of an aligned block are those with the same quotient. -/
theorem mem_block_iff_div {b k x : Nat} (aligned : 2 ^ k ∣ b) :
    x ∈ block b k ↔ x / 2 ^ k = b / 2 ^ k := by
  obtain ⟨m, rfl⟩ := aligned
  have positive : 0 < 2 ^ k := Nat.two_pow_pos k
  rw [mem_block, Nat.mul_div_cancel_left m positive, Nat.div_eq_iff positive, Nat.mul_comm]
  omega

theorem div_two_pow_of_le {x j k : Nat} (ordered : j ≤ k) :
    x / 2 ^ k = x / 2 ^ j / 2 ^ (k - j) := by
  rw [Nat.div_div_eq_div_mul, ← Nat.pow_add, Nat.add_sub_cancel' ordered]

/-- Of two aligned blocks that meet, the one of smaller order lies in the other. -/
theorem block_subset_of_mem {b c j k x : Nat} (alignedB : 2 ^ k ∣ b) (alignedC : 2 ^ j ∣ c)
    (ordered : j ≤ k) (inB : x ∈ block b k) (inC : x ∈ block c j) : block c j ⊆ block b k := by
  intro y inCy
  rw [mem_block_iff_div alignedB] at inB ⊢
  rw [mem_block_iff_div alignedC] at inC inCy
  rw [div_two_pow_of_le ordered, inCy, ← inC, ← div_two_pow_of_le ordered, inB]

/-- Aligned blocks of one order that meet are the same block. -/
theorem eq_of_mem_block {b c k x : Nat} (alignedB : 2 ^ k ∣ b) (alignedC : 2 ^ k ∣ c)
    (inB : x ∈ block b k) (inC : x ∈ block c k) : b = c := by
  rw [mem_block_iff_div alignedB] at inB
  rw [mem_block_iff_div alignedC] at inC
  rw [← Nat.div_mul_cancel alignedB, ← Nat.div_mul_cancel alignedC, ← inB, ← inC]

theorem block_succ (b k : Nat) : block b (k + 1) = block b k ∪ block (b + 2 ^ k) k := by
  ext x
  have twice := Nat.pow_succ 2 k
  simp only [Set.mem_union, mem_block]
  omega

theorem block_mono (b : Nat) {j k : Nat} (ordered : j ≤ k) : block b j ⊆ block b k := by
  intro x inside
  have grows : 2 ^ j ≤ 2 ^ k := Nat.pow_le_pow_right (by decide) ordered
  rw [mem_block] at inside ⊢
  omega

theorem aligned_of_succ {b k : Nat} (aligned : 2 ^ (k + 1) ∣ b) : 2 ^ k ∣ b :=
  Nat.dvd_trans (Nat.pow_dvd_pow 2 (Nat.le_succ k)) aligned

theorem aligned_upper {b k : Nat} (aligned : 2 ^ (k + 1) ∣ b) : 2 ^ k ∣ b + 2 ^ k :=
  Nat.dvd_add (aligned_of_succ aligned) (Nat.dvd_refl _)

/-! ## Rounding down -/

theorem alignDown_eq (x k : Nat) : alignDown x k = x / 2 ^ k * 2 ^ k := by
  have split := Nat.div_add_mod' x (2 ^ k)
  rw [alignDown, Nat.one_shiftLeft, Nat.and_two_pow_sub_one_eq_mod]
  omega

theorem alignDown_aligned (x k : Nat) : 2 ^ k ∣ alignDown x k := by
  rw [alignDown_eq]
  exact Nat.dvd_mul_left _ _

theorem mem_block_alignDown (x k : Nat) : x ∈ block (alignDown x k) k := by
  rw [mem_block_iff_div (alignDown_aligned x k), alignDown_eq,
    Nat.mul_div_cancel _ (Nat.two_pow_pos k)]

theorem alignDown_le (x k : Nat) : alignDown x k ≤ x := (mem_block_alignDown x k).1

@[simp] theorem alignDown_zero (x : Nat) : alignDown x 0 = x :=
  (mem_block_zero.mp (mem_block_alignDown x 0)).symm

/-- An aligned block is found by rounding down any of its positions. -/
theorem alignDown_of_mem {b k x : Nat} (aligned : 2 ^ k ∣ b) (inside : x ∈ block b k) :
    alignDown x k = b :=
  eq_of_mem_block (alignDown_aligned x k) aligned (mem_block_alignDown x k) inside

/-! ## Buddies -/

theorem buddy_eq_mul (m k : Nat) : buddy (2 ^ k * m) k = 2 ^ k * (m ^^^ 1) := by
  rw [buddy, Nat.mul_comm, ← Nat.shiftLeft_eq, ← Nat.shiftLeft_xor_distrib,
    Nat.shiftLeft_eq, Nat.mul_comm]

/-- A block is the lower or the upper half of its parent, and its buddy is the other half. -/
theorem buddy_cases {b k : Nat} (aligned : 2 ^ k ∣ b) :
    (b = parent b k ∧ buddy b k = parent b k + 2 ^ k) ∨
      (b = parent b k + 2 ^ k ∧ buddy b k = parent b k) := by
  obtain ⟨m, rfl⟩ := aligned
  have quotient : 2 ^ k * m / 2 ^ (k + 1) = m / 2 := by
    rw [Nat.pow_succ, Nat.mul_div_mul_left _ _ (Nat.two_pow_pos k)]
  have parentEq : parent (2 ^ k * m) k = 2 ^ k * (2 * (m / 2)) := by
    rw [parent, alignDown_eq, quotient, Nat.pow_succ, Nat.mul_comm, Nat.mul_assoc]
  rw [buddy_eq_mul, parentEq]
  rcases Nat.even_or_odd m with even | odd
  · have halved : 2 * (m / 2) = m := Nat.two_mul_div_two_of_even even
    rw [Nat.xor_one_of_even even, halved]
    exact Or.inl ⟨rfl, Nat.mul_succ _ _⟩
  · have halved : 2 * (m / 2) + 1 = m := Nat.two_mul_div_two_add_one_of_odd odd
    rw [Nat.xor_one_of_odd odd]
    refine Or.inr ⟨?_, ?_⟩
    · rw [← Nat.mul_succ, Nat.succ_eq_add_one, halved]
    · rw [← Nat.eq_sub_of_add_eq halved]

theorem buddy_aligned {b k : Nat} (aligned : 2 ^ k ∣ b) : 2 ^ k ∣ buddy b k := by
  have parentAligned : 2 ^ (k + 1) ∣ parent b k := alignDown_aligned b (k + 1)
  rcases buddy_cases aligned with ⟨_, upper⟩ | ⟨_, lower⟩
  · exact upper ▸ aligned_upper parentAligned
  · exact lower ▸ aligned_of_succ parentAligned

@[simp] theorem buddy_buddy (b k : Nat) : buddy (buddy b k) k = b := by
  simp [buddy]

theorem buddy_ne {b k : Nat} (aligned : 2 ^ k ∣ b) : buddy b k ≠ b := by
  have positive : 0 < 2 ^ k := Nat.two_pow_pos k
  rcases buddy_cases aligned with ⟨lower, upper⟩ | ⟨upper, lower⟩ <;> omega

theorem parent_aligned (b k : Nat) : 2 ^ (k + 1) ∣ parent b k := alignDown_aligned b (k + 1)

theorem block_parent {b k : Nat} (aligned : 2 ^ k ∣ b) :
    block (parent b k) (k + 1) = block b k ∪ block (buddy b k) k := by
  rw [block_succ]
  rcases buddy_cases aligned with ⟨lower, upper⟩ | ⟨upper, lower⟩
  · rw [upper, ← lower]
  · rw [lower, ← upper, Set.union_comm]

theorem min_buddy {b k : Nat} (aligned : 2 ^ k ∣ b) : min b (buddy b k) = parent b k := by
  rcases buddy_cases aligned with ⟨lower, upper⟩ | ⟨upper, lower⟩ <;> omega

theorem parent_buddy {b k : Nat} (aligned : 2 ^ k ∣ b) : parent (buddy b k) k = parent b k := by
  rw [← min_buddy (buddy_aligned aligned), buddy_buddy, min_comm, min_buddy aligned]

/-- The upper half of an aligned block is the buddy of its lower half. -/
theorem buddy_of_aligned {b k : Nat} (aligned : 2 ^ (k + 1) ∣ b) : buddy b k = b + 2 ^ k := by
  have same : parent b k = b := alignDown_of_mem aligned (self_mem_block b (k + 1))
  have positive : 0 < 2 ^ k := Nat.two_pow_pos k
  rcases buddy_cases (aligned_of_succ aligned) with ⟨_, upper⟩ | ⟨upper, _⟩ <;> omega

end OsdiKernel.DyadicBlock
