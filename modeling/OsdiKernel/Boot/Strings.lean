import Mathlib.Tactic.IntervalCases
import OsdiKernel.Lib.Bytes

/-!
# Strings and numbers

The functions of `string.c` and `utils.c` that the readers of the device tree
and of the initial archive use.  A pointer is the sequence of the characters
from it on, or an address in memory.  An `unsigned int` is a word of 32 bits.
-/

namespace OsdiKernel.Boot

/-- No loop over memory takes more rounds. -/
def addressSpace : Nat := 2 ^ 64

/-! ## Strings -/

/-- The loop of `strcmp`. -/
def strcmpLoop (s1 s2 : Nat → UInt8) : Nat → Nat → Option Int
  | 0, _ => none
  | fuel + 1, i =>
      if s1 i ≠ 0 ∧ s2 i ≠ 0 ∧ s1 i = s2 i then strcmpLoop s1 s2 fuel (i + 1)
      else some ((s1 i).toNat - (s2 i).toNat)

def strcmp (s1 s2 : Nat → UInt8) : Option Int := strcmpLoop s1 s2 addressSpace 0

/-- The loop of `strlen`, which counts with an `unsigned int`. -/
def strlenLoop (s : Nat → UInt8) : Nat → Nat → BitVec 32 → Option (BitVec 32)
  | 0, _, _ => none
  | fuel + 1, i, len => if s i ≠ 0 then strlenLoop s fuel (i + 1) (len + 1) else some len

def strlen (s : Nat → UInt8) : Option (BitVec 32) := strlenLoop s addressSpace 0 0

/-- A loop over the characters before the null character. -/
def textLoop (s : Nat → UInt8) : Nat → Nat → Option (List UInt8)
  | 0, _ => none
  | fuel + 1, i => if s i ≠ 0 then (textLoop s fuel (i + 1)).map (s i :: ·) else some []

/-- The characters of a string. -/
def textOf (s : Nat → UInt8) : Option (List UInt8) := textLoop s addressSpace 0

/-- A text without a null character is stored with one behind it. -/
structure IsString (s : Nat → UInt8) (text : List UInt8) : Prop where
  stored : Stored s 0 (text ++ [0])
  proper : 0 ∉ text
  short : text.length < addressSpace

/-- The characters from an address on. -/
def from_ (m : Nat → UInt8) (p : Nat) : Nat → UInt8 := fun i => m (p + i)

section Strings

variable {s s1 s2 m : Nat → UInt8} {text first second : List UInt8} {i p fuel : Nat}

theorem isString_from (stored : Stored m p (text ++ [0])) (proper : 0 ∉ text)
    (short : text.length < addressSpace) : IsString (from_ m p) text :=
  ⟨stored.congr fun i _ => congrArg m (congrArg (p + ·) (Nat.zero_add i)), proper, short⟩

theorem strcmpLoop_eq (stored : Stored s1 i (first ++ [0])) (proper : 0 ∉ first)
    (stored' : Stored s2 i (second ++ [0])) (proper' : 0 ∉ second) (enough : first.length < fuel) :
    ∃ r, strcmpLoop s1 s2 fuel i = some r ∧ (r = 0 ↔ first = second) := by
  induction first generalizing second i fuel with
  | nil =>
      obtain ⟨fuel, rfl⟩ := Nat.exists_eq_succ_of_ne_zero (Nat.ne_of_gt enough)
      have ends : s1 i = 0 := stored.1
      refine ⟨_, if_neg fun goes => goes.1 ends, ?_⟩
      cases second with
      | nil =>
          have ends' : s2 i = 0 := stored'.1
          simp [ends, ends']
      | cons c second =>
          have notNull : c ≠ 0 := fun null => proper' (null ▸ List.mem_cons_self)
          have goes : s2 i = c := stored'.1
          have positive : c.toNat ≠ 0 := fun null => notNull (UInt8.toNat_inj.mp null)
          simp [ends, goes]
          omega
  | cons c first ih =>
      obtain ⟨fuel, rfl⟩ := Nat.exists_eq_succ_of_ne_zero (Nat.ne_of_gt (Nat.zero_lt_of_lt enough))
      have goes : s1 i = c := stored.1
      have notNull : c ≠ 0 := fun null => proper (null ▸ List.mem_cons_self)
      cases second with
      | nil =>
          have ends : s2 i = 0 := stored'.1
          have positive : c.toNat ≠ 0 := fun null => notNull (UInt8.toNat_inj.mp null)
          refine ⟨_, if_neg fun goes => goes.2.1 ends, ?_⟩
          simp [ends, goes]
          omega
      | cons d second =>
          have goes' : s2 i = d := stored'.1
          have notNull' : d ≠ 0 := fun null => proper' (null ▸ List.mem_cons_self)
          by_cases same : c = d
          · subst same
            obtain ⟨r, result, equal⟩ := ih stored.2 (fun null => proper (List.mem_cons_of_mem _ null))
              stored'.2 (fun null => proper' (List.mem_cons_of_mem _ null))
              (Nat.lt_of_succ_lt_succ enough)
            refine ⟨r, ?_, by simpa using equal⟩
            rw [strcmpLoop, if_pos ⟨goes ▸ notNull, goes' ▸ notNull, goes.trans goes'.symm⟩]
            exact result
          · have differ : c.toNat ≠ d.toNat := fun equal => same (UInt8.toNat_inj.mp equal)
            refine ⟨_, if_neg fun goes_ => same (goes ▸ goes' ▸ goes_.2.2), ?_⟩
            simp [goes, goes', same]
            omega

/-- The result is zero just for equal strings. -/
theorem strcmp_eq (isFirst : IsString s1 first) (isSecond : IsString s2 second) :
    ∃ r, strcmp s1 s2 = some r ∧ (r = 0 ↔ first = second) :=
  strcmpLoop_eq isFirst.stored isFirst.proper isSecond.stored isSecond.proper isFirst.short

theorem strlenLoop_eq {len : BitVec 32} (stored : Stored s i (text ++ [0])) (proper : 0 ∉ text)
    (enough : text.length < fuel) :
    strlenLoop s fuel i len = some (len + BitVec.ofNat 32 text.length) := by
  induction text generalizing i fuel len with
  | nil =>
      obtain ⟨fuel, rfl⟩ := Nat.exists_eq_succ_of_ne_zero (Nat.ne_of_gt enough)
      have ends : s i = 0 := stored.1
      simp [strlenLoop, ends]
  | cons c text ih =>
      obtain ⟨fuel, rfl⟩ := Nat.exists_eq_succ_of_ne_zero (Nat.ne_of_gt (Nat.zero_lt_of_lt enough))
      have goes : s i = c := stored.1
      have notNull : c ≠ 0 := fun null => proper (null ▸ List.mem_cons_self)
      rw [strlenLoop, if_pos (goes ▸ notNull),
        ih stored.2 (fun null => proper (List.mem_cons_of_mem _ null)) (Nat.lt_of_succ_lt_succ enough),
        List.length_cons, BitVec.ofNat_add, BitVec.add_assoc, BitVec.add_comm 1]
      rfl

theorem strlen_eq (isString : IsString s text) :
    strlen s = some (BitVec.ofNat 32 text.length) := by
  have result := @strlenLoop_eq s text 0 addressSpace 0 isString.stored isString.proper isString.short
  rwa [zero_add] at result

theorem textLoop_eq (stored : Stored s i (text ++ [0])) (proper : 0 ∉ text)
    (enough : text.length < fuel) : textLoop s fuel i = some text := by
  induction text generalizing i fuel with
  | nil =>
      obtain ⟨fuel, rfl⟩ := Nat.exists_eq_succ_of_ne_zero (Nat.ne_of_gt enough)
      have ends : s i = 0 := stored.1
      simp [textLoop, ends]
  | cons c text ih =>
      obtain ⟨fuel, rfl⟩ := Nat.exists_eq_succ_of_ne_zero (Nat.ne_of_gt (Nat.zero_lt_of_lt enough))
      have goes : s i = c := stored.1
      have notNull : c ≠ 0 := fun null => proper (null ▸ List.mem_cons_self)
      have rest := ih stored.2 (fun null => proper (List.mem_cons_of_mem _ null))
        (Nat.lt_of_succ_lt_succ enough)
      simp [textLoop, goes, notNull, rest]

theorem textOf_eq (isString : IsString s text) : textOf s = some text :=
  textLoop_eq isString.stored isString.proper isString.short

end Strings

/-! ## Numbers -/

def align (n alignment : BitVec 32) : BitVec 32 := (n + alignment - 1) &&& ~~~(alignment - 1)

def be2leU32 (be : BitVec 32) : BitVec 32 :=
  ((be &&& 0xFF) <<< 24) ||| ((be &&& 0xFF00) <<< 8) ||| ((be &&& 0xFF0000) >>> 8) |||
    ((be &&& 0xFF000000) >>> 24)

/-- The value of a digit; other characters count as zero. -/
def hexValue (c : UInt8) : BitVec 32 :=
  if 48 ≤ c ∧ c ≤ 57 then (c.toBitVec.setWidth 32) - 48
  else if 97 ≤ c ∧ c ≤ 102 then (c.toBitVec.setWidth 32) - 97 + 10
  else if 65 ≤ c ∧ c ≤ 70 then (c.toBitVec.setWidth 32) - 65 + 10
  else 0

/-- The loop of `hex_to_uint`. -/
def hexToUintLoop (hexStr : Nat → UInt8) : Nat → Nat → BitVec 32 → BitVec 32
  | 0, _, result => result
  | len + 1, i, result => hexToUintLoop hexStr len (i + 1) ((result <<< 4) + hexValue (hexStr i))

def hexToUint (hexStr : Nat → UInt8) (len : Nat) : BitVec 32 := hexToUintLoop hexStr len 0 0

/-- The next multiple of four. -/
def padded (n : Nat) : Nat := (n + 3) / 4 * 4

theorem align_four {n : BitVec 32} (short : n.toNat + 3 < 2 ^ 32) : (align n 4).toNat = padded n.toNat := by
  have sum : (n + 4 - 1).toNat = n.toNat + 3 := by
    have four : n + 4 - 1 = n + 3 := by
      rw [add_sub_assoc]
      rfl
    rw [four, BitVec.toNat_add, Nat.mod_eq_of_lt]
    · rfl
    · exact short
  have cleared : ∀ x : BitVec 32, x &&& ~~~(4 - 1 : BitVec 32) = (x >>> 2) <<< 2 := by
    intro x
    refine BitVec.eq_of_getLsbD_eq fun i inside => ?_
    have bit : (~~~(4 - 1 : BitVec 32)).getLsbD i = decide (2 ≤ i) := by
      revert inside i
      decide
    rw [BitVec.getLsbD_and, bit, BitVec.getLsbD_shiftLeft, BitVec.getLsbD_ushiftRight]
    by_cases low : 2 ≤ i
    · simp [low, inside, show ¬ i < 2 by omega, Nat.add_sub_of_le low]
    · simp [low, show i < 2 by omega]
  unfold align padded
  rw [cleared, BitVec.toNat_shiftLeft, BitVec.toNat_ushiftRight, sum, Nat.shiftRight_eq_div_pow,
    Nat.shiftLeft_eq, Nat.mod_eq_of_lt]
  omega

/-- A load of a big-endian word gives its bytes in the wrong order. -/
theorem be2leU32_word (b₀ b₁ b₂ b₃ : UInt8) : be2leU32 (word b₃ b₂ b₁ b₀) = word b₀ b₁ b₂ b₃ := by
  refine BitVec.eq_of_getLsbD_eq fun i inside => ?_
  unfold be2leU32
  simp only [BitVec.getLsbD_or, BitVec.getLsbD_shiftLeft, BitVec.getLsbD_ushiftRight,
    BitVec.getLsbD_and, getLsbD_word]
  interval_cases i <;> simp

theorem be2leU32_loadWord {m : Nat → UInt8} {p : Nat} {w : BitVec 32}
    (stored : Stored m p (bigEndian w)) : be2leU32 (loadWord m p) = w := by
  obtain ⟨h₃, h₂, h₁, h₀, _⟩ := stored
  unfold loadWord
  rw [h₃, h₂, h₁, h₀, be2leU32_word, word_littleEndian]

end OsdiKernel.Boot
