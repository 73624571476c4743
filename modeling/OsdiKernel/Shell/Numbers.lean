import Mathlib.Data.BitVec
import Mathlib.Data.Nat.Digits.Lemmas
import Mathlib.Tactic.IntervalCases
import Mathlib.Tactic.LinearCombination
import OsdiKernel.Boot.Strings

/-!
# Decimal numbers

`itoa` writes the digits of a number from the last to the first and turns them
around.  `atoi` takes every character for a digit, a sign too.
-/

namespace OsdiKernel.Shell

open Boot (addressSpace IsString)

def zero : UInt8 := 0x30
def minus : UInt8 := 0x2d

/-- The first loop of `itoa`. -/
def digitLoop : Nat → BitVec 32 → (Nat → UInt8) → Nat → Option ((Nat → UInt8) × Nat)
  | 0, _, _, _ => none
  | fuel + 1, num, buffer, i =>
      if 0 < num.toInt then
        let digit : UInt8 := ⟨(num.srem 10 + 48).setWidth 8⟩
        digitLoop fuel (num.sdiv 10) (Function.update buffer i digit) (i + 1)
      else some (buffer, i)

/-- One round of the second loop. -/
def exchange (i : Nat) (buffer : Nat → UInt8) (j : Nat) : Nat → UInt8 :=
  Function.update (Function.update buffer j (buffer (i - j - 1))) (i - j - 1) (buffer j)

def turnAround (i : Nat) (buffer : Nat → UInt8) : Nat → UInt8 := (List.range (i / 2)).foldl (exchange i) buffer

/-- The digits and the sign, in the order in which they are found. -/
def putDigits (buffer : Nat → UInt8) (isNegative : Bool) (num : BitVec 32) : Option ((Nat → UInt8) × Nat) :=
  if num = 0 then some (Function.update buffer 0 zero, 1)
  else do
    let (buffer, i) ← digitLoop addressSpace num buffer 0
    if isNegative then some (Function.update buffer i minus, i + 1) else some (buffer, i)

/-- The buffer is static; an index from 12 on is behind it. -/
def itoa (buffer : Nat → UInt8) (num : BitVec 32) : Option (Nat → UInt8) := do
  let isNegative := decide (num.toInt < 0)
  let (buffer, i) ← putDigits buffer isNegative (if isNegative then -num else num)
  return turnAround i (Function.update buffer i 0)

/-- The loop of `atoi`. -/
def atoiLoop (str : Nat → UInt8) : Nat → Nat → BitVec 32 → Option (BitVec 32)
  | 0, _, _ => none
  | fuel + 1, i, result =>
      if str i ≠ 0 then atoiLoop str fuel (i + 1) (result * 10 + (str i).toBitVec.setWidth 32 - 48)
      else some result

def atoi (str : Nat → UInt8) : Option (BitVec 32) := atoiLoop str addressSpace 0 0

/-! ## Decimal representation -/

def digit (d : Nat) : UInt8 := UInt8.ofNat (48 + d)

/-- The digits of a number, the last one first. -/
def lastFirst (m : Nat) : List UInt8 := (Nat.digits 10 m).map digit

/-- The canonical representation: no leading zeros, and a sign for a negative number only. -/
def decimal (n : Int) : List UInt8 :=
  (if n < 0 then [minus] else []) ++ if n = 0 then [zero] else (lastFirst n.natAbs).reverse

/-- The number is written as it should be, inside the buffer, and read back. -/
def RoundTrip (buffer : Nat → UInt8) (num : BitVec 32) : Prop :=
  ∃ str, itoa buffer num = some str ∧ IsString str (decimal num.toInt) ∧
    (decimal num.toInt).length + 1 ≤ 12 ∧ (∀ i, 12 ≤ i → str i = buffer i) ∧ atoi str = some num

section Writing

variable {buffer : Nat → UInt8} {num : BitVec 32} {m i n fuel : Nat} {text : List UInt8}

theorem toInt_ofNat (small : m < 2 ^ 31) : (BitVec.ofNat 32 m).toInt = m := by
  rw [BitVec.toInt_eq_toNat_cond, BitVec.toNat_ofNat, Nat.mod_eq_of_lt (by omega), if_pos (by omega)]

theorem msb_ofNat (small : m < 2 ^ 31) : (BitVec.ofNat 32 m).msb = false := by
  rw [BitVec.msb_eq_false_iff_two_mul_lt, BitVec.toNat_ofNat]
  omega

theorem sdiv_ten (small : m < 2 ^ 31) : (BitVec.ofNat 32 m).sdiv 10 = BitVec.ofNat 32 (m / 10) := by
  have positive : (10 : BitVec 32).msb = false := rfl
  simp only [BitVec.sdiv_eq, msb_ofNat small, positive, BitVec.udiv_eq]
  refine BitVec.eq_of_toNat_eq ?_
  have ten : (10 : BitVec 32).toNat = 10 := rfl
  rw [BitVec.toNat_udiv, BitVec.toNat_ofNat, BitVec.toNat_ofNat, ten]
  omega

theorem srem_ten (small : m < 2 ^ 31) : (BitVec.ofNat 32 m).srem 10 = BitVec.ofNat 32 (m % 10) := by
  have positive : (10 : BitVec 32).msb = false := rfl
  simp only [BitVec.srem_eq, msb_ofNat small, positive]
  refine BitVec.eq_of_toNat_eq ?_
  have ten : (10 : BitVec 32).toNat = 10 := rfl
  rw [BitVec.toNat_umod, BitVec.toNat_ofNat, BitVec.toNat_ofNat, ten]
  omega

theorem digit_eq {d : Nat} (small : d < 10) :
    (⟨(BitVec.ofNat 32 d + 48).setWidth 8⟩ : UInt8) = digit d := by
  interval_cases d <;> rfl

theorem lastFirst_succ (positive : 0 < m) : lastFirst m = digit (m % 10) :: lastFirst (m / 10) := by
  rw [lastFirst, Nat.digits_def' (by decide) positive]
  rfl

/-- The digits are stored one after the other. -/
theorem digitLoop_eq (buffer : Nat → UInt8) (small : m < 2 ^ 31) (enough : m < fuel) :
    ∃ b, digitLoop fuel (BitVec.ofNat 32 m) buffer i = some (b, i + (lastFirst m).length) ∧
      Stored b i (lastFirst m) ∧ ∀ a, a < i ∨ i + (lastFirst m).length ≤ a → b a = buffer a := by
  induction fuel generalizing m buffer i with
  | zero => cases enough
  | succ fuel ih =>
      rw [digitLoop, toInt_ofNat small]
      by_cases positive : 0 < m
      · obtain ⟨b, runs, stored, frame⟩ := ih (m := m / 10) (i := i + 1)
          (Function.update buffer i (digit (m % 10))) (by omega) (by omega)
        have first := lastFirst_succ positive
        refine ⟨b, ?_, ?_, fun a outside => ?_⟩
        · rw [if_pos (by omega), sdiv_ten small, srem_ten small]
          simp only [digit_eq (Nat.mod_lt m (by decide : 0 < 10)), runs, first, List.length_cons]
          rw [Nat.add_assoc, Nat.add_comm 1]
        · rw [first]
          exact ⟨(frame i (.inl (Nat.lt_succ_self i))).trans (Function.update_self ..), stored⟩
        · rw [first, List.length_cons] at outside
          exact (frame a (by omega)).trans (Function.update_of_ne (by omega) _ _)
      · obtain rfl : m = 0 := by omega
        exact ⟨buffer, by simp [lastFirst], trivial, fun _ _ => rfl⟩

/-- After some rounds the outer parts are turned around. -/
theorem turnAround_apply (half : 2 * n ≤ i) (buffer : Nat → UInt8) (a : Nat) :
    (List.range n).foldl (exchange i) buffer a =
      if a < n ∨ i - n ≤ a ∧ a < i then buffer (i - 1 - a) else buffer a := by
  induction n generalizing a with
  | zero => simp
  | succ n ih =>
      rw [List.range_succ, List.foldl_append]
      simp only [List.foldl_cons, List.foldl_nil, exchange, Function.update_apply]
      have ih := ih (by omega)
      rw [ih, ih, ih]
      grind

theorem turnAround_frame {a : Nat} (behind : i ≤ a) (buffer : Nat → UInt8) : turnAround i buffer a = buffer a := by
  rw [turnAround, turnAround_apply (by omega), if_neg (by omega)]

theorem turnAround_stored (stored : Stored buffer 0 (text ++ [0])) :
    Stored (turnAround text.length buffer) 0 (text.reverse ++ [0]) := by
  refine Stored.append_iff.mpr ⟨Stored.iff_cell.mpr fun k c found => ?_, ?_, trivial⟩
  · have inside : k < text.length := by simpa using (List.getElem?_eq_some_iff.mp found).1
    rw [List.getElem?_reverse inside] at found
    have cell := stored.left.cell found
    rw [Nat.zero_add] at cell ⊢
    rw [turnAround, turnAround_apply (by omega)]
    split
    next => exact cell
    next middle =>
        -- The middle character of an odd number of them stays.
        rwa [show text.length - 1 - k = k by omega] at cell
  · rw [List.length_reverse, Nat.zero_add, turnAround_frame (Nat.le_refl _)]
    simpa using stored.right.1

/-- What is in the buffer before it is turned around. -/
def written (isNegative : Bool) (n : BitVec 32) : List UInt8 :=
  if n = 0 then [zero] else lastFirst n.toInt.toNat ++ if isNegative then [minus] else []

/-- A loop over a number that is not positive does nothing. -/
theorem digitLoop_all (num : BitVec 32) (buffer : Nat → UInt8) :
    ∃ b, digitLoop addressSpace num buffer 0 = some (b, (lastFirst num.toInt.toNat).length) ∧
      Stored b 0 (lastFirst num.toInt.toNat) ∧ ∀ a, (lastFirst num.toInt.toNat).length ≤ a → b a = buffer a := by
  by_cases positive : 0 < num.toInt
  · have small : num.toInt.toNat < 2 ^ 31 := by
      have bound := @BitVec.two_mul_toInt_lt 32 num
      omega
    have enough : num.toInt.toNat < addressSpace := Nat.lt_trans small (by decide)
    have same : BitVec.ofNat 32 num.toInt.toNat = num := by
      refine BitVec.eq_of_toInt_eq ?_
      rw [toInt_ofNat small]
      omega
    obtain ⟨b, runs, stored, frame⟩ := digitLoop_eq (i := 0) buffer small enough
    rw [same, Nat.zero_add] at runs
    exact ⟨b, runs, stored, fun a behind => frame a (.inr (by omega))⟩
  · have none_ : num.toInt.toNat = 0 := by omega
    refine ⟨buffer, ?_, by simp [none_, lastFirst, Stored], fun _ _ => rfl⟩
    rw [none_]
    exact if_neg positive

theorem putDigits_eq (buffer : Nat → UInt8) (isNegative : Bool) (num : BitVec 32) :
    ∃ b, putDigits buffer isNegative num = some (b, (written isNegative num).length) ∧
      Stored b 0 (written isNegative num) ∧ ∀ a, (written isNegative num).length ≤ a → b a = buffer a := by
  unfold putDigits written
  by_cases null : num = 0
  · refine ⟨Function.update buffer 0 zero, by simp [null], by simp [null, Stored], fun a behind => ?_⟩
    simp only [null, if_true, List.length_singleton] at behind
    exact Function.update_of_ne (by omega) _ _
  · obtain ⟨b, runs, stored, frame⟩ := digitLoop_all num buffer
    simp only [if_neg null, runs, Option.bind_eq_bind, Option.bind_some]
    cases isNegative with
    | false => exact ⟨b, by simp, by simpa using stored, fun a behind => frame a (by simpa using behind)⟩
    | true =>
        refine ⟨Function.update b (lastFirst num.toInt.toNat).length minus, by simp, ?_, fun a behind => ?_⟩
        · refine Stored.append_iff.mpr ⟨stored.congr fun k inside => Function.update_of_ne (by omega) _ _, ?_, trivial⟩
          rw [Nat.zero_add]
          exact Function.update_self ..
        · simp only [if_true, List.length_append, List.length_singleton] at behind
          exact (Function.update_of_ne (by omega) _ _).trans (frame a (by omega))

/-- The string that is returned. -/
def itoaText (num : BitVec 32) : List UInt8 :=
  let isNegative := decide (num.toInt < 0)
  (written isNegative (if isNegative then -num else num)).reverse

theorem itoa_eq (buffer : Nat → UInt8) (num : BitVec 32) :
    ∃ str, itoa buffer num = some str ∧ Stored str 0 (itoaText num ++ [0]) ∧
      ∀ a, (itoaText num).length < a → str a = buffer a := by
  obtain ⟨b, runs, stored, frame⟩ :=
    putDigits_eq buffer (decide (num.toInt < 0)) (if decide (num.toInt < 0) then -num else num)
  have length : (itoaText num).length = (written (decide (num.toInt < 0))
    (if decide (num.toInt < 0) then -num else num)).length := List.length_reverse
  have returns : itoa buffer num =
      some (turnAround (itoaText num).length (Function.update b (itoaText num).length 0)) := by
    unfold itoa
    simp only [runs, Option.bind_eq_bind, Option.bind_some, Option.pure_def, length]
  rw [← length] at frame
  refine ⟨_, returns, ?_, fun a behind => ?_⟩
  · rw [length]
    refine turnAround_stored (Stored.append_iff.mpr ⟨stored.congr fun k inside => ?_, ?_, trivial⟩)
    · exact Function.update_of_ne (by omega) _ _
    · rw [Nat.zero_add]
      exact Function.update_self ..
  · rw [turnAround_frame (Nat.le_of_lt behind), Function.update_of_ne (Nat.ne_of_gt behind),
      frame a (Nat.le_of_lt behind)]

end Writing

/-! ## Reading -/

section Reading

variable {str : Nat → UInt8} {text : List UInt8} {i fuel m : Nat} {result num : BitVec 32}

/-- One round of `atoi`. -/
def atoiStep (result : BitVec 32) (c : UInt8) : BitVec 32 := result * 10 + c.toBitVec.setWidth 32 - 48

theorem atoiLoop_eq (stored : Stored str i (text ++ [0])) (proper : 0 ∉ text) (enough : text.length < fuel) :
    atoiLoop str fuel i result = some (text.foldl atoiStep result) := by
  induction text generalizing i fuel result with
  | nil =>
      obtain ⟨fuel, rfl⟩ := Nat.exists_eq_succ_of_ne_zero (Nat.ne_of_gt enough)
      have ends : str i = 0 := stored.1
      simp [atoiLoop, ends]
  | cons c text ih =>
      obtain ⟨fuel, rfl⟩ := Nat.exists_eq_succ_of_ne_zero (Nat.ne_of_gt (Nat.zero_lt_of_lt enough))
      simp only [List.mem_cons, not_or] at proper
      have first : str i = c := stored.1
      have notNull : str i ≠ 0 := first ▸ Ne.symm proper.1
      rw [atoiLoop, if_pos notNull, first]
      exact ih stored.2 proper.2 (Nat.lt_of_succ_lt_succ enough)

theorem atoiStep_digit {d : Nat} (small : d < 10) (result : BitVec 32) :
    atoiStep result (digit d) = result * 10 + BitVec.ofNat 32 d := by
  have value : (digit d).toBitVec.setWidth 32 = BitVec.ofNat 32 d + 48 := by interval_cases d <;> rfl
  rw [atoiStep, value]
  ring

/-- Digits are read behind whatever was read before them. -/
theorem foldl_lastFirst (m : Nat) (result : BitVec 32) :
    (lastFirst m).reverse.foldl atoiStep result =
      result * 10 ^ (lastFirst m).length + BitVec.ofNat 32 m := by
  induction m using Nat.strong_induction_on with
  | _ m ih =>
      by_cases positive : 0 < m
      · have split : BitVec.ofNat 32 m = BitVec.ofNat 32 (m / 10) * 10 + BitVec.ofNat 32 (m % 10) := by
          rw [show (10 : BitVec 32) = BitVec.ofNat 32 10 from rfl, ← BitVec.ofNat_mul, ← BitVec.ofNat_add,
            Nat.div_add_mod']
        rw [lastFirst_succ positive, List.reverse_cons, List.foldl_append, ih (m / 10) (by omega), List.foldl_cons,
          List.foldl_nil, atoiStep_digit (Nat.mod_lt m (by decide)), List.length_cons]
        rw [split]
        ring
      · obtain rfl : m = 0 := by omega
        simp [lastFirst]

theorem lastFirst_proper (m : Nat) : ∀ c ∈ lastFirst m, c ≠ 0 := by
  intro c mem
  obtain ⟨d, isDigit, rfl⟩ := List.mem_map.mp mem
  have small : d < 10 := Nat.digits_lt_base (by decide) isDigit
  interval_cases d <;> decide

/-- The length by the size of the number. -/
theorem lastFirst_bounds (positive : 0 < m) : 10 ^ (lastFirst m).length ≤ 10 * m ∧ m < 10 ^ (lastFirst m).length := by
  rw [lastFirst, List.length_map]
  exact ⟨Nat.base_pow_length_digits_le 10 m (by decide) (Nat.ne_of_gt positive), Nat.lt_base_pow_length_digits (by decide)⟩

theorem lastFirst_length_le (small : m ≤ 2 ^ 31) : (lastFirst m).length ≤ 10 := by
  by_contra long
  obtain rfl | positive := Nat.eq_zero_or_pos m
  · simp [lastFirst] at long
  · have large := Nat.pow_le_pow_right (by decide : 0 < 10) (Nat.lt_of_not_le long)
    have bounds := lastFirst_bounds positive
    have fits := large.trans bounds.1
    norm_num at fits
    omega

theorem decimal_proper (n : Int) : 0 ∉ decimal n := by
  intro null
  have other := lastFirst_proper n.natAbs 0
  have sign : (0 : UInt8) ≠ minus := by decide
  have digit_ : (0 : UInt8) ≠ zero := by decide
  unfold decimal at null
  split at null <;> split at null <;> simp_all

theorem decimal_length_le {n : Int} (small : n.natAbs ≤ 2 ^ 31) : (decimal n).length ≤ 11 := by
  have length := lastFirst_length_le small
  unfold decimal
  split <;> split <;> simp <;> omega

/-- The sign is read as a digit of value -3. -/
theorem foldl_decimal (n : Int) : (decimal n).foldl atoiStep 0 =
    if n < 0 then -3 * 10 ^ (lastFirst n.natAbs).length + BitVec.ofNat 32 n.natAbs else BitVec.ofNat 32 n.natAbs := by
  have sign : atoiStep 0 minus = -3 := rfl
  unfold decimal
  split
  next negative =>
      rw [if_neg (Int.ne_of_lt negative), List.singleton_append, List.foldl_cons, sign, foldl_lastFirst]
  next =>
      rw [List.nil_append]
      split
      next null => simp [null, atoiStep, zero]
      next => rw [foldl_lastFirst, zero_mul, zero_add]

/-- The one negative number for which the wrong digit does not matter. -/
theorem minus_iff (positive : 0 < m) (small : m < 2 ^ 31) :
    -3 * 10 ^ (lastFirst m).length + BitVec.ofNat 32 m = -BitVec.ofNat 32 m ↔ m = 2115098112 := by
  have bounds := lastFirst_bounds positive
  have short := lastFirst_length_le (Nat.le_of_lt small)
  have twice : -3 * 10 ^ (lastFirst m).length + BitVec.ofNat 32 m = -BitVec.ofNat 32 m ↔
      2 * m % 2 ^ 32 = 3 * 10 ^ (lastFirst m).length % 2 ^ 32 := by
    rw [← BitVec.toNat_ofNat, ← BitVec.toNat_ofNat, BitVec.toNat_inj]
    simp only [← BitVec.natCast_eq_ofNat, Nat.cast_mul, Nat.cast_pow, Nat.cast_ofNat]
    exact ⟨fun same => by linear_combination same, fun same => by linear_combination same⟩
  rw [twice]
  generalize (lastFirst m).length = k at bounds short
  interval_cases k <;> omega

theorem toInt_bounds (num : BitVec 32) : -2 ^ 31 ≤ num.toInt ∧ num.toInt < 2 ^ 31 :=
  ⟨BitVec.le_toInt num, BitVec.toInt_lt⟩

theorem itoaText_eq (regular : num.toInt ≠ -2 ^ 31) : itoaText num = decimal num.toInt := by
  have null : num = 0 ↔ num.toInt = 0 := BitVec.toInt_inj.symm
  unfold itoaText written decimal
  by_cases negative : num.toInt < 0
  · have positive : (-num).toInt = -num.toInt :=
      BitVec.toInt_neg_of_ne_intMin fun same => regular (by rw [same]; rfl)
    have some_ : ¬ num = 0#32 := mt null.mp (Int.ne_of_lt negative)
    simp [negative, some_, positive, Int.ne_of_lt negative, show (-num.toInt).toNat = num.toInt.natAbs by omega]
  · have same : num.toInt.toNat = num.toInt.natAbs := by omega
    simp only [negative, decide_false, Bool.false_eq_true, if_false, null, same, List.append_nil, List.nil_append]
    split <;> rfl

/-- Reading the representation of a number gives the number back. -/
theorem foldl_decimal_iff (regular : num.toInt ≠ -2 ^ 31) :
    (decimal num.toInt).foldl atoiStep 0 = num ↔ 0 ≤ num.toInt ∨ num.toInt = -2115098112 := by
  have bounds := toInt_bounds num
  rw [foldl_decimal]
  split
  next negative =>
      have small : num.toInt.natAbs < 2 ^ 31 := by omega
      have opposite : num = -BitVec.ofNat 32 num.toInt.natAbs := by
        refine BitVec.eq_of_toInt_eq ?_
        have odd : BitVec.ofNat 32 num.toInt.natAbs ≠ BitVec.intMin 32 := by
          intro same
          have value := congrArg BitVec.toNat same
          rw [BitVec.toNat_ofNat] at value
          simp at value
          omega
        rw [BitVec.toInt_neg_of_ne_intMin odd, toInt_ofNat small]
        omega
      have read := minus_iff (show 0 < num.toInt.natAbs by omega) small
      rw [← opposite] at read
      rw [read]
      omega
  next positive =>
      refine iff_of_true ?_ (.inl (by omega))
      refine BitVec.eq_of_toInt_eq ?_
      rw [toInt_ofNat (by omega)]
      omega

end Reading

/-- Writing and reading a number fits together for the numbers without a sign, and for one other. -/
theorem roundTrip_iff (buffer : Nat → UInt8) (num : BitVec 32) :
    RoundTrip buffer num ↔ 0 ≤ num.toInt ∨ num.toInt = -2115098112 := by
  obtain ⟨str, returns, stored, frame⟩ := itoa_eq buffer num
  have bounds := toInt_bounds num
  by_cases regular : num.toInt = -2 ^ 31
  · -- Only the sign is written.
    refine iff_of_false ?_ (by omega)
    rintro ⟨str', returns', _, _, _, read⟩
    obtain rfl := Option.some.inj (returns.symm.trans returns')
    obtain rfl : num = BitVec.intMin 32 := BitVec.eq_of_toInt_eq regular
    have sign : itoaText (BitVec.intMin 32) = [minus] := by decide
    rw [sign] at stored
    have value : atoi str = some ([minus].foldl atoiStep 0) := atoiLoop_eq stored (by decide) (by decide)
    exact absurd (read.symm.trans value) (by decide)
  · rw [itoaText_eq regular] at stored frame
    have short := decimal_length_le (n := num.toInt) (by omega)
    have enough : (decimal num.toInt).length < addressSpace := Nat.lt_of_le_of_lt short (by decide)
    have read : atoi str = some ((decimal num.toInt).foldl atoiStep 0) :=
      atoiLoop_eq stored (decimal_proper _) enough
    rw [← foldl_decimal_iff regular]
    constructor
    · rintro ⟨str', returns', _, _, _, read'⟩
      obtain rfl := Option.some.inj (returns.symm.trans returns')
      exact Option.some.inj (read.symm.trans read')
    · intro same
      exact ⟨str, returns, ⟨stored, decimal_proper _, enough⟩, by omega, fun i behind => frame i (by omega),
        read.trans (congrArg some same)⟩

/-- The sign is taken for a digit, and the smallest number has no digits. -/
theorem sign_misread :
    (∃ str, itoa (fun _ => 0) (-1) = some str ∧ Stored str 0 [minus, 0x31, 0] ∧ atoi str = some (-29)) ∧
      (∃ str, itoa (fun _ => 0) (BitVec.intMin 32) = some str ∧ Stored str 0 [minus, 0]) ∧
        ¬ RoundTrip (fun _ => 0) (-1) := by
  have sign : itoaText (BitVec.intMin 32) = [minus] := by decide
  have text : itoaText (-1) = [minus, 0x31] := by
    rw [itoaText_eq (by decide)]
    simp [decimal, lastFirst, digit]
  obtain ⟨str, returns, stored, _⟩ := itoa_eq (fun _ => 0) (-1)
  obtain ⟨str', returns', stored', _⟩ := itoa_eq (fun _ => 0) (BitVec.intMin 32)
  rw [text] at stored
  rw [sign] at stored'
  have read : atoi str = some (-29) := atoiLoop_eq stored (by decide) (by decide)
  refine ⟨⟨str, returns, stored, read⟩, ⟨str', returns', stored'⟩, ?_⟩
  rintro ⟨again, returns'', _, _, _, read'⟩
  obtain rfl := Option.some.inj (returns.symm.trans returns'')
  exact absurd (read.symm.trans read') (by decide)

end OsdiKernel.Shell
