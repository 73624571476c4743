import OsdiKernel.Tmpfs.Termination

/-!
# Reads near the end of a file

Both file systems clip a read at the size of the file when position and length
together exceed it.  The sum is a `size_t`: where it wraps, nothing is clipped,
and the length that is passed on as an `unsigned int` and returned as an `int`
is the one of the caller.
-/

namespace OsdiKernel.Tmpfs

/-! ## The length of a read -/

/-- The value of `readable_len`. -/
def readableLen (size fPos len : Nat) : Nat :=
  if size < (fPos + len) % 2 ^ 64 then size - fPos else len

/-- A read at a position copies bytes of the file, no more than were asked for,
returns their number and moves by it. -/
structure ReadsWithin (content : Nat → UInt8) (size fPos len : Nat) (result : Int)
    (bytes : List UInt8) (fPos' : Nat) : Prop where
  copies : ∀ i b, bytes[i]? = some b → fPos + i < size ∧ b = content (fPos + i)
  returns : result = bytes.length
  atMost : bytes.length ≤ len
  left : bytes.length ≤ size - fPos
  advances : fPos' = fPos + bytes.length

/-- The end of the read does not wrap, and its length fits in an `int`. -/
def ReadFits (size fPos len : Nat) : Prop :=
  len = 0 ∨ size ≤ fPos ∨ fPos + len < 2 ^ 64 ∧ min len (size - fPos) < 2 ^ 31

section Numbers

variable {size fPos len : Nat} {content : Nat → UInt8}

theorem readableLen_min (noWrap : fPos + len < 2 ^ 64) :
    readableLen size fPos len = min len (size - fPos) := by
  unfold readableLen
  rw [Nat.mod_eq_of_lt noWrap]
  split <;> omega

/-- A sum that wraps is below the position, so nothing is clipped. -/
theorem readableLen_wrapped (before : fPos < size) (word : len < 2 ^ 64)
    (wraps : ¬ fPos + len < 2 ^ 64) :
    readableLen size fPos len = len ∧ (fPos + len) % 2 ^ 64 < fPos := by
  have below : (fPos + len) % 2 ^ 64 < fPos := by omega
  exact ⟨if_neg (by omega), below⟩

theorem ReadsWithin.nothing : ReadsWithin content size fPos len 0 [] fPos where
  copies i b impossible := by cases impossible
  returns := rfl
  atMost := Nat.zero_le _
  left := Nat.zero_le _
  advances := rfl

/-- The copy of `readable_len` bytes, with all its conversions. -/
theorem readsWithin_iff (content : Nat → UInt8) (nonzero : len ≠ 0) (before : fPos < size) (word : len < 2 ^ 64) :
    ReadsWithin content size fPos len (toInt (readableLen size fPos len))
        ((List.range (readableLen size fPos len % 2 ^ 32)).map fun i => content (fPos + i))
        ((fPos + readableLen size fPos len) % 2 ^ 64) ↔ ReadFits size fPos len := by
  have fits : ReadFits size fPos len ↔ fPos + len < 2 ^ 64 ∧ min len (size - fPos) < 2 ^ 31 := by
    unfold ReadFits
    rw [or_iff_right nonzero, or_iff_right (Nat.not_le.mpr before)]
  rw [fits]
  by_cases noWrap : fPos + len < 2 ^ 64
  · rw [and_iff_right noWrap, readableLen_min noWrap]
    generalize counted : min len (size - fPos) = count
    have position : (fPos + count) % 2 ^ 64 = fPos + count := Nat.mod_eq_of_lt (by omega)
    rw [position]
    constructor
    · intro within
      have advances := within.advances
      have returns := within.returns
      rw [List.length_map, List.length_range] at advances returns
      have same : count % 2 ^ 32 = count := by omega
      rw [same] at returns
      exact (toInt_eq_iff (by omega)).mp returns
    · intro small
      rw [Nat.mod_eq_of_lt (by omega : count < 2 ^ 32), toInt_of_small small]
      constructor
      · intro i b copied
        rw [List.getElem?_map] at copied
        obtain ⟨j, inRange, rfl⟩ := Option.map_eq_some_iff.mp copied
        obtain ⟨below, rfl⟩ := List.getElem?_eq_some_iff.mp inRange
        rw [List.length_range] at below
        rw [List.getElem_range]
        exact ⟨by omega, rfl⟩
      all_goals
        simp only [List.length_map, List.length_range]
      all_goals omega
  · refine iff_of_false (fun within => ?_) fun both => noWrap both.1
    obtain ⟨whole, below⟩ := readableLen_wrapped before word noWrap
    have advances := within.advances
    rw [whole] at advances
    omega

end Numbers

/-! ## Files of tmpfs -/

section Files

variable {m : Machine} {target : Option Nat} {f n len : Nat}

theorem tmpfsRead_eq (isOpen : m.internal target = some (f, n)) (regular : (m.nodes n).type = .file) :
    tmpfsRead m target true len =
      if len = 0 ∨ (m.nodes n).size ≤ (m.files f).fPos then (m, 0, [])
      else
        let readable := readableLen (m.nodes n).size (m.files f).fPos len
        let (m, bytes) := m.memcpyTo ((m.nodes n).data + (m.files f).fPos) readable
        (m.setPos f (((m.files f).fPos + readable) % 2 ^ 64), toInt readable, bytes) := by
  unfold tmpfsRead
  rw [isOpen]
  dsimp only
  rw [if_neg (not_not_intro regular)]
  by_cases zero : len = 0
  · rw [if_pos zero, if_pos (.inl zero)]
  · by_cases atEnd : (m.nodes n).size ≤ (m.files f).fPos
    · rw [if_neg zero, if_pos atEnd, if_pos (.inr atEnd)]
    · rw [if_neg zero, if_neg atEnd, if_neg (not_or_intro zero atEnd)]
      rfl

theorem tmpfsRead_within_iff (isOpen : m.internal target = some (f, n))
    (regular : (m.nodes n).type = .file) (word : len < 2 ^ 64) :
    ReadsWithin (fun i => m.bytes ((m.nodes n).data + i)) (m.nodes n).size (m.files f).fPos len
        (tmpfsRead m target true len).2.1 (tmpfsRead m target true len).2.2
        ((tmpfsRead m target true len).1.files f).fPos ↔
      ReadFits (m.nodes n).size (m.files f).fPos len := by
  rw [tmpfsRead_eq isOpen regular]
  split
  · next nothing => exact iff_of_true (.nothing) (nothing.imp_right .inl)
  · next something =>
      obtain ⟨nonzero, before⟩ := not_or.mp something
      refine Iff.trans (iff_of_eq ?_) (readsWithin_iff (fun i => m.bytes ((m.nodes n).data + i))
        nonzero (Nat.lt_of_not_le before) word)
      unfold Machine.memcpyTo Machine.setPos
      simp only [Function.update_self, Nat.add_assoc]

end Files

/-! ## A file of two bytes -/

/-- The file of `openAt` after a write of two bytes. -/
def twoBytes : Machine × Int :=
  (tmpfsWrite Kmem.smallImage (openAt 0) (some 0) (some fun _ => 7) 2).get (by decide +kernel)

/-- The same with the position behind the first byte. -/
def behindFirst : Machine := (tmpfsLseek64 twoBytes.1 (some 0) 1 0).1

theorem behindFirst_run :
    ∃ live A, Run Kmem.smallImage [(Kmem.imageStart, Kmem.smallImage.stackTop), (0, 0x1000)] live
      behindFirst A := by
  have written : tmpfsWrite Kmem.smallImage (openAt 0) (some 0) (some fun _ => 7) 2 =
      some twoBytes := (Option.some_get _).symm
  have bounded : ((openAt 0).files 0).fPos + 2 < 2 ^ 63 := by decide +kernel
  have run := @openAt_run 0 (by decide)
  unfold behindFirst
  generalize openAt 0 = m at *
  generalize twoBytes = after at *
  exact ⟨_, _, (run.write bounded written).seek (by decide)⟩

theorem behindFirst_file :
    behindFirst.internal (some 0) = some (0, firstNode) ∧
      (behindFirst.nodes firstNode).type = .file ∧ (behindFirst.nodes firstNode).size = 2 ∧
      (behindFirst.files 0).fPos = 1 := by decide +kernel

end OsdiKernel.Tmpfs
