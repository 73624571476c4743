import OsdiKernel.Fs.System
import OsdiKernel.Sched.Descriptors

/-!
# Seeking

A position is a `size_t` and an offset is a `long`.  Their sum is taken modulo
`2 ^ 64` and read as a `long`, which is the exact sum, or else negative, as
long as positions and sizes stay below `2 ^ 63`.
-/

namespace OsdiKernel.Sched

open Fs (State File einval)

variable {H : Type}

/-! ## The functions on words -/

/-- The `switch` on `whence`; a `size_t` plus a `long` is a `size_t`. -/
def newPosition (fPos size : Nat) (offset : BitVec 64) (whence : Int) : Option (BitVec 64) :=
  if whence = 0 then some offset
  else if whence = 1 then some (BitVec.ofNat 64 fPos + offset)
  else if whence = 2 then some (BitVec.ofNat 64 size + offset)
  else none

/-- The common body of `tmpfs_lseek64` and `initramfs_lseek64`. -/
def seekNode (s : State H) (file : Option Nat) (offset : BitVec 64) (whence : Int) : State H × Int :=
  match file with
  | none => (s, einval)
  | some f =>
      match (s.files f).vnode.bind fun v => (s.vnodes v).internal with
      | none => (s, einval)
      | some n =>
          if (s.nodes n).type ≠ .file then (s, einval)
          else
            match newPosition (s.files f).fPos (s.nodes n).size offset whence with
            | none => (s, einval)
            | some newPos =>
                if newPos.toInt < 0 then (s, einval)
                else (s.setFile f { s.files f with fPos := newPos.toNat }, newPos.toInt)

def tmpfsLseek64 (s : State H) (file : Option Nat) (offset : BitVec 64) (whence : Int) :
    State H × Int :=
  seekNode s file offset whence

def initramfsLseek64 (s : State H) (file : Option Nat) (offset : BitVec 64) (whence : Int) :
    State H × Int :=
  seekNode s file offset whence

/-! ## Sums of words -/

section Sums

variable {base fPos size : Nat} {offset : BitVec 64} {whence : Int}

/-- The sum as a `long`. -/
theorem sum_toInt (base : Nat) (offset : BitVec 64) :
    (BitVec.ofNat 64 base + offset).toInt = Int.bmod (base + offset.toInt) (2 ^ 64) := by
  rw [BitVec.toInt_add, BitVec.toInt_ofNat', Int.bmod_add_bmod]

/-- A sum that fits is exact, and every other sum is negative. -/
theorem sum_exact (below : base < 2 ^ 63) :
    (BitVec.ofNat 64 base + offset).toInt =
      if (base : Int) + offset.toInt < 2 ^ 63 then base + offset.toInt
      else base + offset.toInt - 2 ^ 64 := by
  have least := BitVec.le_toInt offset
  have greatest := @BitVec.toInt_lt 64 offset
  rw [sum_toInt]
  generalize offset.toInt = o at *
  split
  · exact Int.bmod_eq_of_le (by omega) (by omega)
  · rw [Int.bmod_def]
    omega

/-- A word that is not negative as a `long` is the same as a `size_t`. -/
theorem toNat_of_nonneg {word : BitVec 64} (nonneg : ¬ word.toInt < 0) :
    word.toNat = word.toInt.toNat := by
  rw [BitVec.toInt_eq_toNat_cond] at nonneg ⊢
  have bound := word.isLt
  split at nonneg <;> split <;> omega

/-- The words of the code are the integers of `seekTarget`. -/
theorem newPosition_toInt (fPos size : Nat) (offset : BitVec 64) (whence : Int) :
    (newPosition fPos size offset whence).map BitVec.toInt =
      Tmpfs.seekTarget fPos size offset.toInt whence := by
  unfold newPosition Tmpfs.seekTarget
  split
  · rfl
  · split
    · exact congrArg some (sum_toInt fPos offset)
    · split
      · exact congrArg some (sum_toInt size offset)
      · rfl

end Sums

/-! ## The exact position -/

/-- Where an offset is counted from. -/
def seekBase (fPos size : Nat) (whence : Int) : Option Nat :=
  if whence = 0 then some 0
  else if whence = 1 then some fPos
  else if whence = 2 then some size
  else none

/-- The sum of the base and the offset, if it is a position below `2 ^ 63`. -/
def exactPosition (fPos size : Nat) (offset whence : Int) : Option Nat :=
  (seekBase fPos size whence).bind fun base =>
    if 0 ≤ base + offset ∧ base + offset < 2 ^ 63 then some (base + offset).toNat else none

section Exact

variable {fPos size : Nat} {offset : BitVec 64} {whence : Int}

theorem exactPosition_lt {pos : Nat} {offset : Int}
    (exact_ : exactPosition fPos size offset whence = some pos) : pos < 2 ^ 63 := by
  obtain ⟨base, _, fits⟩ := Option.bind_eq_some_iff.mp exact_
  split at fits
  · cases fits
    omega
  · cases fits

/-- The new position of the code is the sum of a base and the offset. -/
theorem newPosition_sum (offset : BitVec 64) (whence : Int) :
    newPosition fPos size offset whence =
      (seekBase fPos size whence).map fun base => BitVec.ofNat 64 base + offset := by
  unfold newPosition seekBase
  split
  · exact congrArg some (BitVec.zero_add offset).symm
  · split
    · rfl
    · split <;> rfl

/-- What the code accepts as a new position is the exact one. -/
theorem newPosition_exact (position : fPos < 2 ^ 63) (length : size < 2 ^ 63) :
    ((newPosition fPos size offset whence).bind fun newPos =>
        if newPos.toInt < 0 then none else some newPos.toNat) =
      exactPosition fPos size offset.toInt whence := by
  rw [newPosition_sum]
  unfold exactPosition
  cases isBase : seekBase fPos size whence with
  | none => rfl
  | some base =>
      have below : base < 2 ^ 63 := by
        unfold seekBase at isBase
        split at isBase
        · cases isBase
          decide
        · split at isBase
          · cases isBase
            exact position
          · split at isBase
            · cases isBase
              exact length
            · cases isBase
      have sum := @sum_exact _ offset below
      have greatest := @BitVec.toInt_lt 64 offset
      rw [Option.map_some, Option.bind_some, Option.bind_some]
      split
      · next negative =>
          rw [if_neg]
          rintro ⟨nonneg, fits⟩
          rw [sum, if_pos fits] at negative
          omega
      · next nonneg =>
          rw [toNat_of_nonneg nonneg]
          rw [sum] at nonneg ⊢
          split at nonneg
          · next fits => rw [if_pos fits, if_pos ⟨by omega, fits⟩]
          · omega

/-- A seek in a regular file. -/
theorem seekNode_exact {s : State H} {f v n : Nat} (isVnode : (s.files f).vnode = some v)
    (internal : (s.vnodes v).internal = some n) (regular : (s.nodes n).type = .file)
    (position : (s.files f).fPos < 2 ^ 63) (length : (s.nodes n).size < 2 ^ 63) :
    seekNode s (some f) offset whence =
      match exactPosition (s.files f).fPos (s.nodes n).size offset.toInt whence with
      | some pos => (s.setFile f { s.files f with fPos := pos }, (pos : Int))
      | none => (s, einval) := by
  rw [← newPosition_exact position length]
  unfold seekNode
  dsimp only
  rw [isVnode, Option.bind_some, internal]
  dsimp only
  rw [if_neg (not_not_intro regular)]
  cases newPosition (s.files f).fPos (s.nodes n).size offset whence with
  | none => rfl
  | some newPos =>
      dsimp only [Option.bind_some]
      by_cases negative : newPos.toInt < 0
      · rw [if_pos negative, if_pos negative]
      · have same : (newPos.toNat : Int) = newPos.toInt := by
          rw [toNat_of_nonneg negative]
          omega
        rw [if_neg negative, if_neg negative, ← same]

end Exact

/-! ## Both file systems -/

/-- Positions stay below `2 ^ 63`. -/
def PositionsOk (s : State H) : Prop := ∀ f, (s.files f).fPos < 2 ^ 63

theorem PositionsOk.setFile {s : State H} (ok : PositionsOk s) {f : Nat} {file : File}
    (below : file.fPos < 2 ^ 63) : PositionsOk (s.setFile f file) := by
  intro f'
  change (Function.update s.files f file f').fPos < 2 ^ 63
  by_cases same : f' = f
  · rw [same, Function.update_self]
    exact below
  · rw [Function.update_of_ne same]
    exact ok f'

/-- The functions agree with the ones that the system calls use. -/
theorem nodeLseek64_eq (s : State H) (f : Nat) (offset : BitVec 64) (whence : Int) :
    nodeLseek64 s f offset.toInt whence = seekNode s (some f) offset whence := by
  unfold nodeLseek64 seekNode moveTo
  dsimp only
  cases (s.files f).vnode.bind fun v => (s.vnodes v).internal with
  | none => rfl
  | some n =>
      dsimp only
      by_cases regular : (s.nodes n).type = .file
      · rw [if_neg (not_not_intro regular), if_neg (not_not_intro regular), ← newPosition_toInt]
        cases newPosition (s.files f).fPos (s.nodes n).size offset whence with
        | none => rfl
        | some newPos =>
            dsimp only [Option.map_some]
            split
            · rfl
            · next nonneg => rw [toNat_of_nonneg nonneg]
      · rw [if_pos regular, if_pos regular]

/-- The two implementations agree.  On a regular file with a position and a size
below `2 ^ 63` they move to the exact sum of base and offset and return it, if it
is a position below `2 ^ 63`; otherwise they change nothing and return an error. -/
theorem seek_exact :
    (∀ (s : State H) file offset whence,
      tmpfsLseek64 s file offset whence = initramfsLseek64 s file offset whence) ∧
    ∀ (s : State H) f v n offset whence, (s.files f).vnode = some v →
      (s.vnodes v).internal = some n → (s.nodes n).type = .file →
      (s.files f).fPos < 2 ^ 63 → (s.nodes n).size < 2 ^ 63 →
        (tmpfsLseek64 s (some f) offset whence =
          match exactPosition (s.files f).fPos (s.nodes n).size offset.toInt whence with
          | some pos => (s.setFile f { s.files f with fPos := pos }, (pos : Int))
          | none => (s, einval)) ∧
        (PositionsOk s → PositionsOk (tmpfsLseek64 s (some f) offset whence).1) := by
  refine ⟨fun s file offset whence => rfl, ?_⟩
  intro s f v n offset whence isVnode internal regular position length
  have exact_ := @seekNode_exact H offset whence s f v n isVnode internal regular position length
  refine ⟨exact_, fun ok => ?_⟩
  unfold tmpfsLseek64
  rw [exact_]
  split
  · next pos found => exact ok.setFile (exactPosition_lt found)
  · exact ok

/-- A machine with one open file of ten bytes. -/
def oneOpenFile : State Unit where
  vnodes _ := ⟨none, some .tmpfs, some .tmpfs, some 0, none, false⟩
  nodes _ := ⟨[], .file, none, none, 10, 4096, fun _ => none, 0⟩
  mounts _ := ⟨none⟩
  rootfs := none
  heap := ()
  files _ := ⟨some 0, 3, some .tmpfs, 0⟩
  filesystems := []

theorem seek_exact_back :
    (tmpfsLseek64 oneOpenFile (some 0) (-5) 2).2 = 5 ∧
      PositionsOk (tmpfsLseek64 oneOpenFile (some 0) (-5) 2).1 := by
  obtain ⟨moved, kept⟩ := seek_exact.2 oneOpenFile 0 0 0 (-5) 2 rfl rfl rfl (by decide) (by decide)
  refine ⟨?_, kept fun _ => (by decide : 3 < 2 ^ 63)⟩
  rw [moved]
  decide

end OsdiKernel.Sched
