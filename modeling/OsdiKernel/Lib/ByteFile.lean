import Mathlib.Logic.Function.Basic
import Mathlib.Order.Interval.Set.Basic

/-!
# Byte files and their buffers

An abstract file has a size and remembers, for every position, the value last
written there, if any.  A buffer in memory represents the file when it holds
all these values.  Storing through the buffer, moving it and writing elsewhere
are the three things that happen to a representation.
-/

namespace OsdiKernel

variable {β : Type}

/-! ## Copy loops -/

/-- Store the first `n` values of `values` from `dest` on, in ascending order. -/
def storeLoop (m : Nat → β) (dest : Nat) (values : Nat → β) : Nat → Nat → β
  | 0 => m
  | n + 1 => storeLoop (Function.update m dest (values 0)) (dest + 1) (fun i => values (i + 1)) n

/-- Copy `n` cells from `src` to `dest`, in ascending order. -/
def copyLoop (m : Nat → β) (dest src : Nat) : Nat → Nat → β
  | 0 => m
  | n + 1 => copyLoop (Function.update m dest (m src)) (dest + 1) (src + 1) n

theorem storeLoop_apply (m : Nat → β) (dest : Nat) (values : Nat → β) (n y : Nat) :
    storeLoop m dest values n y =
      if dest ≤ y ∧ y < dest + n then values (y - dest) else m y := by
  induction n generalizing m dest values with
  | zero =>
      rw [if_neg (by omega)]
      rfl
  | succ n ih =>
      rw [storeLoop, ih]
      by_cases first : y = dest
      · subst first
        rw [if_neg (by omega), if_pos (by omega), Function.update_self, Nat.sub_self]
      · by_cases inside : dest + 1 ≤ y ∧ y < dest + 1 + n
        · rw [if_pos inside, if_pos (by omega)]
          congr 1
          omega
        · rw [if_neg inside, if_neg (by omega), Function.update_of_ne first]

/-- Between ranges that do not overlap the loop copies the original values. -/
theorem copyLoop_apply (m : Nat → β) (dest src n y : Nat)
    (apart : dest + n ≤ src ∨ src + n ≤ dest) :
    copyLoop m dest src n y =
      if dest ≤ y ∧ y < dest + n then m (src + (y - dest)) else m y := by
  induction n generalizing m dest src with
  | zero =>
      rw [if_neg (by omega)]
      rfl
  | succ n ih =>
      rw [copyLoop, ih _ _ _ (by omega)]
      by_cases first : y = dest
      · subst first
        rw [if_neg (by omega), if_pos (by omega), Function.update_self, Nat.sub_self, Nat.add_zero]
      · by_cases inside : dest + 1 ≤ y ∧ y < dest + 1 + n
        · have other : src + 1 + (y - (dest + 1)) ≠ dest := by omega
          rw [if_pos inside, if_pos (by omega), Function.update_of_ne other]
          congr 1
          omega
        · rw [if_neg inside, if_neg (by omega), Function.update_of_ne first]

/-! ## Files -/

/-- A file of bytes, some of which were never written. -/
@[ext] structure ByteFile (β : Type) where
  size : Nat
  written : Nat → Option β

namespace ByteFile

def empty : ByteFile β where
  size := 0
  written _ := none

/-- Write the first `len` values at a position. -/
def write (f : ByteFile β) (pos : Nat) (values : Nat → β) (len : Nat) : ByteFile β where
  size := max f.size (pos + len)
  written i := if pos ≤ i ∧ i < pos + len then some (values (i - pos)) else f.written i

variable {f : ByteFile β} {pos len i : Nat} {values : Nat → β}

theorem write_inside (inside : pos ≤ i ∧ i < pos + len) :
    (f.write pos values len).written i = some (values (i - pos)) := if_pos inside

theorem write_outside (outside : ¬ (pos ≤ i ∧ i < pos + len)) :
    (f.write pos values len).written i = f.written i := if_neg outside

end ByteFile

/-- The cells from `base` on hold every value that was written to the file. -/
structure Represents (m : Nat → β) (base : Nat) (f : ByteFile β) : Prop where
  within : ∀ {i b}, f.written i = some b → i < f.size
  value : ∀ {i b}, f.written i = some b → m (base + i) = b

namespace Represents

variable {m m' : Nat → β} {base base' : Nat} {f : ByteFile β}

theorem empty (m : Nat → β) (base : Nat) : Represents m base ByteFile.empty where
  within impossible := by cases impossible
  value impossible := by cases impossible

/-- Changes outside the cells of the file do not matter. -/
theorem frame (rep : Represents m base f)
    (same : ∀ i, i < f.size → m' (base + i) = m (base + i)) : Represents m' base f where
  within := rep.within
  value found := (same _ (rep.within found)).trans (rep.value found)

/-- Storing through the buffer is a write to the file. -/
theorem store (rep : Represents m base f) (pos : Nat) (values : Nat → β) (len : Nat) :
    Represents (storeLoop m (base + pos) values len) base (f.write pos values len) where
  within {i b} found := by
    by_cases inside : pos ≤ i ∧ i < pos + len
    · exact Nat.lt_of_lt_of_le inside.2 (Nat.le_max_right _ _)
    · rw [ByteFile.write_outside inside] at found
      exact Nat.lt_of_lt_of_le (rep.within found) (Nat.le_max_left _ _)
  value {i b} found := by
    rw [storeLoop_apply]
    by_cases inside : pos ≤ i ∧ i < pos + len
    · rw [ByteFile.write_inside inside] at found
      rw [if_pos (by omega), Nat.add_sub_add_left]
      exact Option.some.inj found
    · rw [ByteFile.write_outside inside] at found
      rw [if_neg (by omega)]
      exact rep.value found

/-- Copying the cells of the file moves its representation. -/
theorem copy (rep : Represents m base f)
    (apart : base' + f.size ≤ base ∨ base + f.size ≤ base') :
    Represents (copyLoop m base' base f.size) base' f where
  within := rep.within
  value {i b} found := by
    have inside := rep.within found
    rw [copyLoop_apply m base' base f.size (base' + i) apart, if_pos (by omega),
      Nat.add_sub_cancel_left]
    exact rep.value found

end Represents

end OsdiKernel
