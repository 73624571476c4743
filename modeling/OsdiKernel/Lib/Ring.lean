import Mathlib.Data.List.Basic
import Mathlib.Data.Nat.ModEq
import Mathlib.Logic.Function.Basic

/-!
# Ring buffers

An array with an index at which elements are added and an index at which they
are taken.  Both wrap around at the end of the array.  One slot stays unused, so
that a full ring is not taken for an empty one.
-/

namespace OsdiKernel

/-- A ring in an array of `size` cells. -/
structure Ring (α : Type) (size : Nat) where
  cells : Nat → α
  head : Nat
  tail : Nat

namespace Ring

variable {α : Type} {size : Nat}

/-- The `n` elements from an index on. -/
def collect (size : Nat) (cells : Nat → α) : Nat → Nat → List α
  | _, 0 => []
  | i, n + 1 => cells i :: collect size cells ((i + 1) % size) n

/-- The number of elements. -/
def held (r : Ring α size) : Nat := (r.head + size - r.tail) % size

/-- The elements in order; the next to be taken is the first. -/
def items (r : Ring α size) : List α := collect size r.cells r.tail r.held

/-- The indices are inside the array. -/
structure InRange (r : Ring α size) : Prop where
  head : r.head < size
  tail : r.tail < size

/-- An element is stored at the head. -/
def push (r : Ring α size) (a : α) : Ring α size :=
  { r with cells := Function.update r.cells r.head a, head := (r.head + 1) % size }

/-- The two halves of `push`. -/
def write (r : Ring α size) (a : α) : Ring α size := { r with cells := Function.update r.cells r.head a }
def advance (r : Ring α size) : Ring α size := { r with head := (r.head + 1) % size }

/-- The element at the tail is given up. -/
def pop (r : Ring α size) : Ring α size := { r with tail := (r.tail + 1) % size }

/-- The elements are added one after the other. -/
def pushAll (r : Ring α size) (values : List α) : Ring α size := values.foldl push r

section Collect

variable {cells cells' : Nat → α} {i n : Nat}

theorem collect_length (cells : Nat → α) (i n : Nat) : (collect size cells i n).length = n := by
  induction n generalizing i with
  | zero => rfl
  | succ n ih => simp [collect, ih]

/-- The element behind the first `n`. -/
theorem collect_succ (inside : i < size) :
    collect size cells i (n + 1) = collect size cells i n ++ [cells ((i + n) % size)] := by
  induction n generalizing i with
  | zero => simp [collect, Nat.mod_eq_of_lt inside]
  | succ n ih =>
      have wrap : ((i + 1) % size + n) % size = (i + (n + 1)) % size := by
        rw [Nat.mod_add_mod, Nat.add_right_comm, Nat.add_assoc]
      have step := ih (Nat.mod_lt (i + 1) (Nat.zero_lt_of_lt inside))
      simp only [collect, List.cons_append, wrap] at step ⊢
      exact congrArg (cells i :: ·) step

/-- Only the cells of the elements matter. -/
theorem collect_congr (inside : i < size) (same : ∀ j < n, cells' ((i + j) % size) = cells ((i + j) % size)) :
    collect size cells' i n = collect size cells i n := by
  induction n generalizing i with
  | zero => rfl
  | succ n ih =>
      have first : cells' i = cells i := by simpa [Nat.mod_eq_of_lt inside] using same 0 (Nat.succ_pos n)
      refine congrArg₂ List.cons first (ih (Nat.mod_lt _ (Nat.zero_lt_of_lt inside)) fun j below => ?_)
      have wrap : ((i + 1) % size + j) % size = (i + (j + 1)) % size := by
        rw [Nat.mod_add_mod, Nat.add_right_comm, Nat.add_assoc]
      simpa [wrap] using same (j + 1) (Nat.succ_lt_succ below)

end Collect

section Operations

variable {r : Ring α size} {a : α}

@[simp] theorem push_tail (r : Ring α size) (a : α) : (r.push a).tail = r.tail := rfl

@[simp] theorem pop_head (r : Ring α size) : r.pop.head = r.head := rfl

theorem items_length (r : Ring α size) : r.items.length = r.held := collect_length _ _ _

theorem held_lt (inRange : r.InRange) : r.held < size :=
  Nat.mod_lt _ (Nat.zero_lt_of_lt inRange.head)

theorem InRange.push (inRange : r.InRange) (a : α) : (r.push a).InRange :=
  ⟨Nat.mod_lt _ (Nat.zero_lt_of_lt inRange.head), inRange.tail⟩

theorem InRange.pop (inRange : r.InRange) : r.pop.InRange :=
  ⟨inRange.head, Nat.mod_lt _ (Nat.zero_lt_of_lt inRange.head)⟩

/-- How far the head is before the tail, without a remainder. -/
theorem held_eq (inRange : r.InRange) :
    r.held = if r.tail ≤ r.head then r.head - r.tail else r.head + size - r.tail := by
  have head := inRange.head
  have tail := inRange.tail
  unfold held
  split
  · rw [show r.head + size - r.tail = r.head - r.tail + size by omega, Nat.add_mod_right]
    exact Nat.mod_eq_of_lt (by omega)
  · exact Nat.mod_eq_of_lt (by omega)

/-- The next index, without a remainder. -/
theorem next_eq {i : Nat} (inside : i < size) : (i + 1) % size = if i + 1 = size then 0 else i + 1 := by
  split
  next last => rw [last, Nat.mod_self]
  next before => exact Nat.mod_eq_of_lt (by omega)

theorem empty_iff (inRange : r.InRange) : r.head = r.tail ↔ r.held = 0 := by
  have head := inRange.head
  have tail := inRange.tail
  rw [held_eq inRange]
  split <;> omega

theorem full_iff (inRange : r.InRange) : (r.head + 1) % size = r.tail ↔ r.held + 1 = size := by
  have head := inRange.head
  have tail := inRange.tail
  rw [held_eq inRange, next_eq inRange.head]
  split <;> split <;> omega

/-- One slot is free just when two steps of the head lead to the tail. -/
theorem last_iff (inRange : r.InRange) (room : r.held + 1 ≠ size) :
    (r.head + 2) % size = r.tail ↔ r.held + 2 = size := by
  have head := inRange.head
  have tail := inRange.tail
  have again : (r.head + 2) % size = ((r.head + 1) % size + 1) % size := by rw [Nat.mod_add_mod]
  rw [again, next_eq (Nat.mod_lt _ (Nat.zero_lt_of_lt head)), next_eq head]
  rw [held_eq inRange] at room ⊢
  split at room <;> split <;> split at * <;> omega

theorem held_push (inRange : r.InRange) (room : r.held + 1 < size) : (r.push a).held = r.held + 1 := by
  have head := inRange.head
  have tail := inRange.tail
  rw [held_eq (inRange.push a)]
  rw [held_eq inRange] at room ⊢
  simp only [push, next_eq head]
  split at room <;> split <;> split at * <;> omega

theorem held_pop (inRange : r.InRange) (some_ : r.held ≠ 0) : r.pop.held + 1 = r.held := by
  have head := inRange.head
  have tail := inRange.tail
  rw [held_eq inRange.pop]
  rw [held_eq inRange] at some_ ⊢
  simp only [pop, next_eq tail]
  split at some_ <;> split <;> split at * <;> omega

/-- The head is behind the last element. -/
theorem head_eq (inRange : r.InRange) : r.head = (r.tail + r.held) % size := by
  have head := inRange.head
  have tail := inRange.tail
  rw [held_eq inRange]
  split
  next ahead => rw [Nat.add_sub_cancel' ahead, Nat.mod_eq_of_lt head]
  next behind =>
      rw [show r.tail + (r.head + size - r.tail) = r.head + size by omega, Nat.add_mod_right,
        Nat.mod_eq_of_lt head]

/-- A new element is not stored over another. -/
theorem push_kept {i : Nat} (inRange : r.InRange) (below : i < r.held) (a : α) :
    (r.push a).cells ((r.tail + i) % size) = r.cells ((r.tail + i) % size) := by
  refine Function.update_of_ne (fun same => ?_) _ _
  rw [head_eq inRange] at same
  have offsets : Nat.ModEq size i r.held := Nat.ModEq.add_left_cancel' r.tail same
  exact Nat.ne_of_lt below (offsets.eq_of_lt_of_lt (below.trans (held_lt inRange)) (held_lt inRange))

/-- A new element becomes the last one. -/
theorem items_push (inRange : r.InRange) (room : r.held + 1 < size) : (r.push a).items = r.items ++ [a] := by
  have kept : collect size (Function.update r.cells r.head a) r.tail r.held = r.items :=
    collect_congr inRange.tail fun i below => push_kept inRange below a
  calc (r.push a).items
      = collect size (Function.update r.cells r.head a) r.tail (r.held + 1) := by
        rw [items, held_push inRange room]; rfl
    _ = r.items ++ [a] := by
        rw [collect_succ inRange.tail, kept, ← head_eq inRange, Function.update_self]

/-- A cell beyond the elements. -/
theorem items_write (inRange : r.InRange) (a : α) : (r.write a).items = r.items :=
  collect_congr inRange.tail fun _ below => push_kept inRange below a

/-- The head moves past a cell that has been written. -/
theorem advance_eq (written : r.cells r.head = a) : r.advance = r.push a := by
  unfold advance push
  rw [← written, Function.update_eq_self]

@[simp] theorem write_advance (r : Ring α size) (a : α) : (r.write a).advance = r.push a := rfl

theorem InRange.write (inRange : r.InRange) (a : α) : (r.write a).InRange := ⟨inRange.head, inRange.tail⟩

theorem InRange.advance (inRange : r.InRange) : r.advance.InRange :=
  ⟨Nat.mod_lt _ (Nat.zero_lt_of_lt inRange.head), inRange.tail⟩

/-- The first element is taken. -/
theorem items_pop (inRange : r.InRange) (some_ : r.held ≠ 0) : r.items = r.cells r.tail :: r.pop.items := by
  rw [items, ← held_pop inRange some_]
  rfl

theorem InRange.pushAll (inRange : r.InRange) (values : List α) : (r.pushAll values).InRange := by
  induction values generalizing r with
  | nil => exact inRange
  | cons a values ih => exact ih (inRange.push a)

theorem pushAll_tail (r : Ring α size) (values : List α) : (r.pushAll values).tail = r.tail := by
  induction values generalizing r with
  | nil => rfl
  | cons a values ih => exact ih (r.push a)

theorem pushAll_append (r : Ring α size) (values rest : List α) :
    r.pushAll (values ++ rest) = (r.pushAll values).pushAll rest := List.foldl_append

/-- The head moves also where there is no room. -/
theorem pushAll_head (inRange : r.InRange) (values : List α) :
    (r.pushAll values).head = (r.head + values.length) % size := by
  induction values generalizing r with
  | nil => exact (Nat.mod_eq_of_lt inRange.head).symm
  | cons a values ih =>
      have later : ((r.push a).pushAll values).head = ((r.head + 1) % size + values.length) % size :=
        ih (inRange.push a)
      rw [Nat.mod_add_mod, Nat.add_right_comm] at later
      exact later

/-- With room for all the new elements, they are added in order. -/
theorem items_pushAll {values : List α} (inRange : r.InRange) (room : r.held + values.length < size) :
    (r.pushAll values).items = r.items ++ values := by
  induction values generalizing r with
  | nil => simp [pushAll]
  | cons a values ih =>
      have slot : r.held + 1 < size := by
        simp only [List.length_cons] at room
        omega
      have later : ((r.push a).pushAll values).items = (r.push a).items ++ values := by
        refine ih (inRange.push a) ?_
        simp only [List.length_cons] at room
        rw [held_push inRange slot]
        omega
      rw [items_push inRange slot, List.append_assoc] at later
      exact later

theorem items_empty (empty : r.held = 0) : r.items = [] := by
  rw [items, empty]
  rfl

end Operations

end Ring

end OsdiKernel
