import OsdiKernel.Tmpfs.Safety

/-!
# The loop that doubles the capacity

A capacity is a power of two, and doubling the largest one that a `size_t` can
hold gives zero, which stays zero.  The loop ends just for sizes up to that
power; whatever lies behind it makes the write run forever.
-/

namespace OsdiKernel.Tmpfs

open Kmem (Heap Layout)

/-! ## The loop -/

section Loop

variable {required capacity : Nat}

/-- What the capacity can be after any number of rounds. -/
def PowerOrZero (capacity : Nat) : Prop := capacity = 0 ∨ ∃ e, e ≤ 63 ∧ capacity = 2 ^ e

theorem PowerOrZero.double (power : PowerOrZero capacity) :
    PowerOrZero (capacity * 2 % 2 ^ 64) := by
  rcases power with rfl | ⟨e, small, rfl⟩
  · exact .inl rfl
  · rw [← Nat.pow_succ]
    rcases Nat.lt_or_eq_of_le small with below | rfl
    · exact .inr ⟨e + 1, below, Nat.mod_eq_of_lt (Nat.pow_lt_pow_right (by decide) (by omega))⟩
    · exact .inl (Nat.mod_self _)

theorem PowerOrZero.le (power : PowerOrZero capacity) : capacity ≤ 2 ^ 63 := by
  rcases power with rfl | ⟨e, small, rfl⟩
  · exact Nat.zero_le _
  · exact Nat.pow_le_pow_right (by decide) small

/-- No number of rounds reaches a size above the largest power of two. -/
theorem growLoop_diverges (power : PowerOrZero capacity) (large : 2 ^ 63 < required) (fuel : Nat) :
    growLoop required fuel capacity = none := by
  induction fuel generalizing capacity with
  | zero => rfl
  | succ fuel ih =>
      rw [growLoop, if_pos (Nat.lt_of_le_of_lt power.le large)]
      exact ih power.double

end Loop

/-! ## The write -/

/-- The capacity is a power of two, and a multiple of the first one. -/
def CapacityOk (capacity : Nat) : Prop := ∃ k, k ≤ 51 ∧ capacity = defaultFileSize * 2 ^ k

theorem CapacityOk.power {capacity : Nat} (ok : CapacityOk capacity) :
    ∃ e, e ≤ 63 ∧ capacity = 2 ^ e := by
  obtain ⟨k, small, rfl⟩ := ok
  refine ⟨12 + k, by omega, ?_⟩
  rw [Nat.pow_add]
  rfl

/-- The call returns `len`, or it fails with `ENOMEM_VFS` and writes nothing. -/
def Completes (layout : Layout) (m : Machine) (target : Option Nat) (buf : Nat → UInt8) (len : Nat) :
    Prop :=
  ∃ m' result, tmpfsWrite layout m target (some buf) len = some (m', result) ∧
    (result = len ∨ result = enomem ∧ ∃ heap, m' = { m with heap := heap })

section Write

variable {layout : Layout} {m : Machine} {target : Option Nat} {f n len : Nat} {buf : Nat → UInt8}

/-- A successful allocation is no larger than `MAX_ALLOC_SIZE`. -/
theorem alloc_limit {h : Heap} {size : Nat} (success : (Kmem.alloc h size).2 ≠ 0) :
    0 < size ∧ size ≤ Mm.maxAllocSize := by
  unfold Kmem.alloc at success
  split at success
  · exact absurd rfl success
  · next positive =>
      refine ⟨Nat.pos_of_ne_zero positive, ?_⟩
      split at success
      · by_contra large
        dsimp only at success
        rw [Mm.alloc_invalid _ (.inr (Nat.lt_of_not_le large))] at success
        exact success rfl
      · next small => exact Nat.le_trans (Nat.le_of_not_lt small) (by decide)

/-- The buffer is large enough, or it is replaced by one that can be allocated, or
that fails; the loop may also not end. -/
theorem reallocate_cases {required : Nat} (ok : CapacityOk (m.nodes n).capacity) :
    (required ≤ (m.nodes n).capacity ∧ reallocate layout m n required = some (m, 0)) ∨
    ((m.nodes n).capacity < required ∧ required ≤ Mm.maxAllocSize ∧
      ∃ m', reallocate layout m n required = some (m', 0)) ∨
    ((m.nodes n).capacity < required ∧ required ≤ 2 ^ 63 ∧
      ∃ heap, reallocate layout m n required = some ({ m with heap := heap }, enomem)) ∨
    (2 ^ 63 < required ∧ reallocate layout m n required = none ∧
      ∀ fuel, growLoop required fuel (m.nodes n).capacity = none) := by
  obtain ⟨e, small, power⟩ := ok.power
  have positive : 0 < (m.nodes n).capacity := power ▸ Nat.two_pow_pos e
  unfold reallocate
  by_cases enough : required ≤ (m.nodes n).capacity
  · exact .inl ⟨enough, if_neg (Nat.not_lt.mpr enough)⟩
  · have below := Nat.lt_of_not_le enough
    rw [if_pos below, if_pos positive]
    by_cases reachable : required ≤ 2 ^ 63
    · obtain ⟨e', _, atMost, ends, reached⟩ :=
        growLoop_power reachable small (by omega : 63 < e + 65)
      rw [← power] at ends
      rw [ends]
      dsimp only
      rw [if_pos (Nat.lt_of_lt_of_le below reached)]
      by_cases failure : (Kmem.alloc m.heap (2 ^ e' % 2 ^ 32)).2 = 0
      · rw [if_pos failure]
        exact .inr (.inr (.inl ⟨below, reachable, _, rfl⟩))
      · obtain ⟨nonzero, limit⟩ := alloc_limit failure
        rw [power_mod] at nonzero limit
        rw [if_neg failure]
        split at nonzero
        · next narrow =>
            rw [if_pos narrow] at limit
            exact .inr (.inl ⟨below, Nat.le_trans reached limit, _, rfl⟩)
        · exact absurd nonzero (Nat.lt_irrefl 0)
    · have large := Nat.lt_of_not_le reachable
      have diverges := growLoop_diverges (.inr ⟨e, small, power⟩) large
      rw [diverges]
      exact .inr (.inr (.inr ⟨large, rfl, diverges⟩))

theorem tmpfsWrite_eq (isOpen : m.internal target = some (f, n)) (regular : (m.nodes n).type = .file)
    (positive : 1 ≤ len) :
    tmpfsWrite layout m target (some buf) len =
      match reallocate layout m n (((m.files f).fPos + len) % 2 ^ 64) with
      | none => none
      | some (m, result) =>
          if result ≠ 0 then some (m, result) else some (writeBuffer m f n buf len, toInt len) := by
  unfold tmpfsWrite
  rw [isOpen]
  have nonempty : ¬ len = 0 := by omega
  exact (if_neg nonempty).trans (if_neg (not_not_intro regular))

/-- Behind the largest power of two nothing can be written. -/
theorem tmpfsWrite_diverges (isOpen : m.internal target = some (f, n))
    (regular : (m.nodes n).type = .file) (capacity : CapacityOk (m.nodes n).capacity)
    (large : 2 ^ 63 < (m.files f).fPos + len) (noWrap : (m.files f).fPos + len < 2 ^ 64)
    (positive : 1 ≤ len) : tmpfsWrite layout m target (some buf) len = none := by
  obtain ⟨e, small, power⟩ := capacity.power
  have most : (m.nodes n).capacity ≤ 2 ^ 63 := power ▸ Nat.pow_le_pow_right (by decide) small
  rw [tmpfsWrite_eq isOpen regular positive, Nat.mod_eq_of_lt noWrap]
  unfold reallocate
  rw [if_pos (by omega), if_pos (power ▸ Nat.two_pow_pos e), growLoop_diverges (.inr ⟨e, small, power⟩) large]

/-- Storing moves the handle. -/
theorem writeBuffer_moves (buf : Nat → UInt8) (positive : 1 ≤ len)
    (bounded : (m.files f).fPos + len < 2 ^ 64) (heap : Heap) :
    writeBuffer m f n buf len ≠ { m with heap := heap } := by
  intro kept
  have moved := congrArg (fun m : Machine => (m.files f).fPos) kept
  unfold writeBuffer Machine.memcpyFrom Machine.setPos Machine.setNode at moved
  dsimp only at moved
  split at moved <;>
  · simp only [Function.update_self] at moved
    omega

/-- The return value is `len` just for lengths that an `int` can hold. -/
theorem toInt_eq_iff (narrow : len < 2 ^ 32) : toInt len = len ↔ len < 2 ^ 31 := by
  constructor
  · intro same
    have bound := Int.bmod_lt (x := (len : Int)) (by decide : 0 < 2 ^ 32)
    unfold toInt at same
    omega
  · exact toInt_of_small

/-- The loop of a write of fewer than `2 ^ 32` bytes at a position below `2 ^ 63`
ends just if position and length do not exceed `2 ^ 63`.  The call then returns
the length or fails, unless it stores more bytes than an `int` can count. -/
theorem tmpfsWrite_completes_iff (buf : Nat → UInt8) (isOpen : m.internal target = some (f, n))
    (regular : (m.nodes n).type = .file) (capacity : CapacityOk (m.nodes n).capacity)
    (position : (m.files f).fPos < 2 ^ 63) (positive : 1 ≤ len) (narrow : len < 2 ^ 32) :
    ((m.files f).fPos + len ≤ 2 ^ 63 ↔ tmpfsWrite layout m target (some buf) len ≠ none) ∧
    (¬ (m.files f).fPos + len ≤ 2 ^ 63 →
      ∀ fuel, growLoop ((m.files f).fPos + len) fuel (m.nodes n).capacity = none) ∧
    (Completes layout m target buf len ↔ (m.files f).fPos + len ≤ 2 ^ 63 ∧
      (len < 2 ^ 31 ∨ (m.nodes n).capacity < (m.files f).fPos + len)) := by
  have noWrap : ((m.files f).fPos + len) % 2 ^ 64 = (m.files f).fPos + len :=
    Nat.mod_eq_of_lt (by omega)
  have atMost : (m.nodes n).capacity ≤ 2 ^ 63 := by
    obtain ⟨e, small, power⟩ := capacity.power
    exact power ▸ Nat.pow_le_pow_right (by decide) small
  unfold Completes
  rw [tmpfsWrite_eq isOpen regular positive, noWrap]
  rcases @reallocate_cases layout m n ((m.files f).fPos + len) capacity with
    ⟨enough, result⟩ | ⟨below, limit, m', result⟩ | ⟨below, reachable, heap, result⟩ |
      ⟨large, result, diverges⟩
  · have reachable : (m.files f).fPos + len ≤ 2 ^ 63 := Nat.le_trans enough atMost
    rw [result]
    refine ⟨iff_of_true reachable (by simp), fun impossible => absurd reachable impossible, ?_⟩
    rw [and_iff_right reachable, or_iff_left (Nat.not_lt.mpr enough), ← toInt_eq_iff narrow]
    dsimp only
    rw [if_neg (not_not_intro rfl)]
    constructor
    · rintro ⟨m', _, same, returned | ⟨failed, heap, kept⟩⟩
      · cases same
        exact returned
      · cases same
        exact absurd kept (writeBuffer_moves buf positive (by omega) heap)
    · exact fun returned => ⟨_, _, rfl, .inl returned⟩
  · have short : len < 2 ^ 31 := by
      have small : Mm.maxAllocSize < 2 ^ 31 := by decide
      omega
    have reachable : (m.files f).fPos + len ≤ 2 ^ 63 := by
      have small : Mm.maxAllocSize < 2 ^ 63 := by decide
      omega
    rw [result]
    refine ⟨iff_of_true reachable (by simp), fun impossible => absurd reachable impossible, ?_⟩
    exact iff_of_true ⟨_, _, rfl, .inl (toInt_of_small short)⟩ ⟨reachable, .inl short⟩
  · rw [result]
    refine ⟨iff_of_true reachable (by simp [enomem]), fun impossible => absurd reachable impossible, ?_⟩
    exact iff_of_true ⟨_, _, rfl, .inr ⟨rfl, heap, rfl⟩⟩ ⟨reachable, .inr below⟩
  · have never : ¬ (m.files f).fPos + len ≤ 2 ^ 63 := Nat.not_le.mpr large
    rw [result]
    refine ⟨iff_of_false never (by simp), fun _ => diverges, iff_of_false ?_ fun both => never both.1⟩
    rintro ⟨_, _, impossible, _⟩
    cases impossible

end Write

/-- The file of `oneFile`, open at a position. -/
def openAt (offset : Int) : Machine :=
  (tmpfsLseek64 (tmpfsOpen oneFile (some 0) (some 0)).1 (some 0) offset 0).1

theorem openAt_run {offset : Int} (long : offset < 2 ^ 63) :
    Run Kmem.smallImage [(Kmem.imageStart, Kmem.smallImage.stackTop), (0, 0x1000)]
      [bufferOf (created bootedMachine) firstNode, (firstNode, nodeSize)] (openAt offset)
      (Function.update (fun _ => none) firstNode (some ByteFile.empty)) :=
  .seek (oneFile_run.openFile 0 0) long

/-- A write of one byte to the empty file completes. -/
theorem tmpfsWrite_completes_byte :
    Completes Kmem.smallImage (openAt 0) (some 0) (fun _ => 7) 1 := by
  obtain ⟨isOpen, regular, capacity, position⟩ : (openAt 0).internal (some 0) = some (0, firstNode) ∧
      ((openAt 0).nodes firstNode).type = .file ∧ ((openAt 0).nodes firstNode).capacity = 4096 ∧
      ((openAt 0).files 0).fPos = 0 := by decide +kernel
  obtain ⟨_, _, completes⟩ := @tmpfsWrite_completes_iff Kmem.smallImage _ _ _ _ _ (fun _ => 7) isOpen
    regular ⟨0, by decide, capacity⟩ (by rw [position]; decide) (by decide : 1 ≤ 1) (by decide)
  rw [position] at completes
  exact completes.mpr ⟨by decide, .inl (by decide)⟩

/-- After a seek to the largest position, a write of two bytes doubles the capacity forever. -/
theorem write_after_seek_hangs :
    ∃ live m A f n, Run Kmem.smallImage
        [(Kmem.imageStart, Kmem.smallImage.stackTop), (0, 0x1000)] live m A ∧
      m.internal (some f) = some (f, n) ∧ (m.nodes n).type = .file ∧
      CapacityOk (m.nodes n).capacity ∧ (m.files f).fPos < 2 ^ 63 ∧
      (∀ buf, tmpfsWrite Kmem.smallImage m (some f) (some buf) 2 = none) ∧
      ∀ fuel, growLoop ((m.files f).fPos + 2) fuel (m.nodes n).capacity = none := by
  obtain ⟨isOpen, regular, capacity, position⟩ :
      (openAt (2 ^ 63 - 1)).internal (some 0) = some (0, firstNode) ∧
      ((openAt (2 ^ 63 - 1)).nodes firstNode).type = .file ∧
      ((openAt (2 ^ 63 - 1)).nodes firstNode).capacity = 4096 ∧
      ((openAt (2 ^ 63 - 1)).files 0).fPos = 2 ^ 63 - 1 := by decide +kernel
  have run := @openAt_run (2 ^ 63 - 1) (by decide)
  generalize openAt (2 ^ 63 - 1) = m at *
  have diverges : ∀ fuel, growLoop ((m.files 0).fPos + 2) fuel (m.nodes firstNode).capacity = none := by
    rw [position, capacity]
    exact growLoop_diverges (.inr ⟨12, by decide, rfl⟩) (by decide)
  refine ⟨_, m, _, 0, firstNode, run, isOpen, regular, ⟨0, by decide, capacity⟩,
    by rw [position]; decide, fun buf => ?_, diverges⟩
  exact tmpfsWrite_diverges isOpen regular ⟨0, by decide, capacity⟩ (by rw [position]; decide)
    (by rw [position]; decide) (by decide)

end OsdiKernel.Tmpfs
