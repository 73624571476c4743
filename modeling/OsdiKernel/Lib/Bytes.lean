import Mathlib.Data.BitVec
import OsdiKernel.Lib.ByteFile

/-!
# Lists of values in memory

A list is stored from an address on when the cells from there hold its values
in order.  Words of four bytes are stored in either order of their bytes.
-/

namespace OsdiKernel

variable {β : Type}

/-- The cells from `p` on hold the listed values. -/
def Stored (m : Nat → β) (p : Nat) : List β → Prop
  | [] => True
  | b :: rest => m p = b ∧ Stored m (p + 1) rest

namespace Stored

variable {m m' : Nat → β} {p q : Nat} {values rest : List β}

theorem append_iff : Stored m p (values ++ rest) ↔
    Stored m p values ∧ Stored m (p + values.length) rest := by
  induction values generalizing p with
  | nil => simp [Stored]
  | cons b values ih =>
      simp only [List.cons_append, Stored, ih, List.length_cons, and_assoc]
      rw [Nat.add_assoc, Nat.add_comm 1]

theorem left (stored : Stored m p (values ++ rest)) : Stored m p values :=
  (append_iff.mp stored).1

theorem right (stored : Stored m p (values ++ rest)) : Stored m (p + values.length) rest :=
  (append_iff.mp stored).2

/-- The value of each cell. -/
theorem iff_cell : Stored m p values ↔ ∀ i b, values[i]? = some b → m (p + i) = b := by
  induction values generalizing p with
  | nil => simp [Stored]
  | cons b values ih =>
      simp only [Stored, ih]
      constructor
      · rintro ⟨first, later⟩ i c found
        cases i with
        | zero => exact first.trans (Option.some.inj found)
        | succ i =>
            rw [← Nat.add_assoc, Nat.add_right_comm]
            exact later i c found
      · intro cells
        refine ⟨cells 0 b rfl, fun i c found => ?_⟩
        rw [Nat.add_right_comm, Nat.add_assoc]
        exact cells (i + 1) c found

theorem cell {i : Nat} {b : β} (stored : Stored m p values) (found : values[i]? = some b) :
    m (p + i) = b := iff_cell.mp stored i b found

/-- Only the cells of the list matter, wherever they are. -/
theorem congr (stored : Stored m p values)
    (same : ∀ i, i < values.length → m' (q + i) = m (p + i)) : Stored m' q values := by
  refine iff_cell.mpr fun i b found => ?_
  obtain ⟨inside, _⟩ := List.getElem?_eq_some_iff.mp found
  exact (same i inside).trans (stored.cell found)

/-- Two lists of one length that are stored at one address are the same. -/
theorem unique {other : List β} (stored : Stored m p values) (again : Stored m p other)
    (lengths : values.length = other.length) : values = other := by
  induction values generalizing p other with
  | nil => exact (List.length_eq_zero_iff.mp lengths.symm).symm
  | cons b values ih =>
      cases other with
      | nil => cases lengths
      | cons c other =>
          rw [← stored.1, ← again.1, ih stored.2 again.2 (Nat.succ.inj lengths)]

/-- A memory that holds a list. -/
theorem getD (values : List β) (default : β) : Stored (fun a => values.getD a default) 0 values :=
  iff_cell.mpr fun i b found => by rw [Nat.zero_add, List.getD_eq_getElem?_getD, found, Option.getD_some]

/-- What a loop has stored. -/
theorem storeLoop {dest n : Nat} {source : Nat → β} (within : values.length ≤ n)
    (same : ∀ i b, values[i]? = some b → source i = b) :
    Stored (storeLoop m dest source n) dest values := by
  refine iff_cell.mpr fun i b found => ?_
  obtain ⟨inside, _⟩ := List.getElem?_eq_some_iff.mp found
  rw [storeLoop_apply, if_pos ⟨Nat.le_add_right _ _, by omega⟩, Nat.add_sub_cancel_left]
  exact same i b found

/-- A copy to other cells. -/
theorem copyLoop {dest : Nat} (stored : Stored m p values)
    (apart : dest + values.length ≤ p ∨ p + values.length ≤ dest) :
    Stored (copyLoop m dest p values.length) dest values := by
  refine stored.congr fun i inside => ?_
  rw [copyLoop_apply _ _ _ _ _ apart, if_pos ⟨Nat.le_add_right _ _, by omega⟩,
    Nat.add_sub_cancel_left]

end Stored

/-! ## Words -/

/-- The word with these bytes, the least significant one first. -/
def word (b₀ b₁ b₂ b₃ : UInt8) : BitVec 32 :=
  b₃.toBitVec ++ b₂.toBitVec ++ b₁.toBitVec ++ b₀.toBitVec

/-- A word in memory, whose least significant byte has the lowest address. -/
def loadWord (m : Nat → UInt8) (p : Nat) : BitVec 32 := word (m p) (m (p + 1)) (m (p + 2)) (m (p + 3))

/-- The bytes of a word, the least significant one first. -/
def littleEndian (w : BitVec 32) : List UInt8 :=
  [⟨w.extractLsb' 0 8⟩, ⟨w.extractLsb' 8 8⟩, ⟨w.extractLsb' 16 8⟩, ⟨w.extractLsb' 24 8⟩]

/-- The bytes of a word, the most significant one first. -/
def bigEndian (w : BitVec 32) : List UInt8 := (littleEndian w).reverse

section Words

variable {b₀ b₁ b₂ b₃ : UInt8}

/-- The bits of a word are those of its bytes. -/
theorem getLsbD_word (i : Nat) : (word b₀ b₁ b₂ b₃).getLsbD i =
    if i < 8 then b₀.toBitVec.getLsbD i
    else if i < 16 then b₁.toBitVec.getLsbD (i - 8)
    else if i < 24 then b₂.toBitVec.getLsbD (i - 16)
    else b₃.toBitVec.getLsbD (i - 24) := by
  unfold word
  simp only [BitVec.getLsbD_append, Nat.sub_sub]
  by_cases first : i < 8
  · simp only [if_pos first]
  by_cases second : i < 16
  · simp only [if_neg first, if_pos second, show i - 8 < 8 by omega, if_true]
  by_cases third : i < 24
  · simp only [if_neg first, if_neg second, if_pos third, show ¬ i - 8 < 8 by omega,
      show i - (8 + 8) < 8 by omega, if_true, if_false]
  · simp only [if_neg first, if_neg second, if_neg third, show ¬ i - 8 < 8 by omega,
      show ¬ i - (8 + 8) < 8 by omega, if_false]

/-- A word is made of its bytes. -/
theorem word_littleEndian (w : BitVec 32) :
    word ⟨w.extractLsb' 0 8⟩ ⟨w.extractLsb' 8 8⟩ ⟨w.extractLsb' 16 8⟩ ⟨w.extractLsb' 24 8⟩ = w := by
  refine BitVec.eq_of_getLsbD_eq fun i inside => ?_
  rw [getLsbD_word]
  simp only [BitVec.getLsbD_extractLsb', Nat.zero_add]
  split
  · next first => simp [first]
  · next first =>
      split
      · next second => simp [show i - 8 < 8 by omega, show 8 + (i - 8) = i by omega]
      · next second =>
          split
          · next third => simp [show i - 16 < 8 by omega, show 16 + (i - 16) = i by omega]
          · next third => simp [show i - 24 < 8 by omega, show 24 + (i - 24) = i by omega]

/-- A word that is put together with shifts. -/
theorem word_of_shifts :
    0 ||| b₀.toBitVec.setWidth 32 <<< (0 * 8) ||| b₁.toBitVec.setWidth 32 <<< (1 * 8) |||
      b₂.toBitVec.setWidth 32 <<< (2 * 8) ||| b₃.toBitVec.setWidth 32 <<< (3 * 8) =
        word b₀ b₁ b₂ b₃ := by
  have beyond : ∀ (b : UInt8) i, 8 ≤ i → b.toBitVec.getLsbD i = false :=
    fun b i large => BitVec.getLsbD_of_ge _ _ large
  refine BitVec.eq_of_getLsbD_eq fun i inside => ?_
  rw [getLsbD_word]
  simp only [BitVec.getLsbD_or, BitVec.getLsbD_shiftLeft, BitVec.getLsbD_setWidth]
  split
  · next first => simp [first, inside, show i < 16 by omega, show i < 24 by omega]
  · next first =>
      split
      · next second =>
          simp [first, inside, second, show i < 24 by omega, beyond b₀ i (by omega),
            show i - 8 < 32 by omega]
      · next second =>
          split
          · next third =>
              simp [first, second, third, inside, beyond b₀ i (by omega),
                beyond b₁ (i - 8) (by omega), show i - 16 < 32 by omega]
          · next third =>
              simp [first, second, third, inside, beyond b₀ i (by omega),
                beyond b₁ (i - 8) (by omega), beyond b₂ (i - 16) (by omega),
                show i - 24 < 32 by omega]

/-- The bytes of a word are those that it is made of. -/
theorem littleEndian_word : littleEndian (word b₀ b₁ b₂ b₃) = [b₀, b₁, b₂, b₃] := by
  have piece : ∀ (k : Nat) (b : UInt8),
      (∀ i, i < 8 → (word b₀ b₁ b₂ b₃).getLsbD (k + i) = b.toBitVec.getLsbD i) →
        (⟨(word b₀ b₁ b₂ b₃).extractLsb' k 8⟩ : UInt8) = b := by
    intro k b bits
    refine congrArg UInt8.ofBitVec (BitVec.eq_of_getLsbD_eq fun i inside => ?_)
    rw [BitVec.getLsbD_extractLsb', bits i inside]
    simp [inside]
  unfold littleEndian
  rw [piece 0 b₀, piece 8 b₁, piece 16 b₂, piece 24 b₃]
  · intro i inside
    rw [getLsbD_word, if_neg (by omega), if_neg (by omega), if_neg (by omega),
      Nat.add_sub_cancel_left]
  · intro i inside
    rw [getLsbD_word, if_neg (by omega), if_neg (by omega), if_pos (by omega),
      Nat.add_sub_cancel_left]
  · intro i inside
    rw [getLsbD_word, if_neg (by omega), if_pos (by omega), Nat.add_sub_cancel_left]
  · intro i inside
    rw [getLsbD_word, if_pos (by omega), Nat.zero_add]

end Words

/-! ## Words of eight bytes -/

/-- A word of eight bytes in memory, the least significant byte first. -/
def loadDouble (m : Nat → UInt8) (p : Nat) : BitVec 64 := loadWord m (p + 4) ++ loadWord m p

/-- The bytes of the word, the least significant one first. -/
def doubleBytes (w : BitVec 64) : List UInt8 :=
  littleEndian (w.extractLsb' 0 32) ++ littleEndian (w.extractLsb' 32 32)

def storeDouble (m : Nat → UInt8) (p : Nat) (w : BitVec 64) : Nat → UInt8 :=
  storeLoop m p (fun i => (doubleBytes w).getD i 0) 8

section Doubles

variable {m m' : Nat → UInt8} {p q a : Nat} {w : BitVec 64}

/-- A load depends on eight bytes, wherever they are. -/
theorem loadDouble_congr (same : ∀ i, i < 8 → m' (q + i) = m (p + i)) :
    loadDouble m' q = loadDouble m p := by
  have bytes : ∀ i j, i + j < 8 → m' (q + i + j) = m (p + i + j) := by
    intro i j inside
    rw [Nat.add_assoc, Nat.add_assoc]
    exact same (i + j) inside
  have first : m' q = m p := same 0 (by decide)
  unfold loadDouble loadWord
  rw [bytes 4 1 (by decide), bytes 4 2 (by decide), bytes 4 3 (by decide), first,
    same 1 (by decide), same 2 (by decide), same 3 (by decide), same 4 (by decide)]

theorem storeDouble_apart (apart : a < p ∨ p + 8 ≤ a) : storeDouble m p w a = m a := by
  unfold storeDouble
  rw [storeLoop_apply, if_neg (by omega)]

theorem storeDouble_apply {i : Nat} (inside : i < 8) :
    storeDouble m p w (p + i) = (doubleBytes w).getD i 0 := by
  unfold storeDouble
  rw [storeLoop_apply, if_pos (by omega), Nat.add_sub_cancel_left]

/-- What was stored is loaded. -/
theorem loadDouble_storeDouble : loadDouble (storeDouble m p w) p = w := by
  have bytes : ∀ i j, i + j < 8 →
      storeDouble m p w (p + i + j) = (doubleBytes w).getD (i + j) 0 := by
    intro i j inside
    rw [Nat.add_assoc]
    exact storeDouble_apply inside
  have low : loadWord (storeDouble m p w) p = w.extractLsb' 0 32 := by
    have first : storeDouble m p w p = (doubleBytes w).getD 0 0 := bytes 0 0 (by decide)
    unfold loadWord
    rw [first, bytes 0 1 (by decide), bytes 0 2 (by decide), bytes 0 3 (by decide)]
    exact word_littleEndian _
  have high : loadWord (storeDouble m p w) (p + 4) = w.extractLsb' 32 32 := by
    have first : storeDouble m p w (p + 4) = (doubleBytes w).getD 4 0 := bytes 4 0 (by decide)
    unfold loadWord
    rw [first, bytes 4 1 (by decide), bytes 4 2 (by decide), bytes 4 3 (by decide)]
    exact word_littleEndian _
  unfold loadDouble
  rw [low, high]
  refine BitVec.eq_of_getLsbD_eq fun i inside => ?_
  rw [BitVec.getLsbD_append, BitVec.getLsbD_extractLsb', BitVec.getLsbD_extractLsb']
  split
  · next first => simp [first]
  · next later => simp [show i - 32 < 32 by omega, show 32 + (i - 32) = i by omega]

theorem loadDouble_storeDouble_apart (apart : q + 8 ≤ p ∨ p + 8 ≤ q) :
    loadDouble (storeDouble m p w) q = loadDouble m q :=
  loadDouble_congr fun _ _ => storeDouble_apart (by omega)

end Doubles

end OsdiKernel
