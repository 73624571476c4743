import OsdiKernel.Archive.Model

/-!
# The format of the archive

An entry is a header of hexadecimal numbers, the name with a null character and
the contents, where header and name together and the contents are padded to a
multiple of four.  Only the numbers that the readers use are looked at.
-/

namespace OsdiKernel.Archive

open Boot (IsString from_ hexToUint hexToUintLoop hexValue padded align align_four isString_from)

/-! ## Numbers -/

/-- A digit and its value. -/
inductive HexDigit : UInt8 → Nat → Prop
  | decimal {c : UInt8} (low : 48 ≤ c.toNat) (high : c.toNat ≤ 57) : HexDigit c (c.toNat - 48)
  | lower {c : UInt8} (low : 97 ≤ c.toNat) (high : c.toNat ≤ 102) : HexDigit c (c.toNat - 97 + 10)
  | upper {c : UInt8} (low : 65 ≤ c.toNat) (high : c.toNat ≤ 70) : HexDigit c (c.toNat - 65 + 10)

/-- The digits that continue a number, and the number they lead to. -/
inductive HexDigits : Nat → List UInt8 → Nat → Prop
  | nil {n : Nat} : HexDigits n [] n
  | cons {n d result : Nat} {c : UInt8} {rest : List UInt8} (first : HexDigit c d)
      (later : HexDigits (n * 16 + d) rest result) : HexDigits n (c :: rest) result

/-- A number of eight digits. -/
structure HexField (n : Nat) (field : List UInt8) : Prop where
  length : field.length = 8
  digits : HexDigits 0 field n

/-! ## Entries -/

structure Entry where
  name : List UInt8
  data : List UInt8

/-- The characters that start a header. -/
def magicText : List UInt8 := ascii ['0', '7', '0', '7', '0', '1']

namespace Entry

/-- The length of header, name and padding. -/
def dataStart (e : Entry) : Nat := padded (headerSize + (e.name.length + 1))

def length (e : Entry) : Nat := e.dataStart + padded e.data.length

/-- The bytes of an entry, whatever the other fields and the padding hold. -/
inductive Encoded (e : Entry) : List UInt8 → Prop
  | intro {front filesize middle namesize check namePadding padding : List UInt8}
      (frontLength : front.length = 48) (filesizeField : HexField e.data.length filesize)
      (middleLength : middle.length = 32) (namesizeField : HexField (e.name.length + 1) namesize)
      (checkLength : check.length = 8)
      (nameFull : headerSize + (e.name.length + 1) + namePadding.length = e.dataStart)
      (full : e.data.length + padding.length = padded e.data.length) :
      Encoded e (magicText ++ (front ++ (filesize ++ (middle ++ (namesize ++ (check ++
        (e.name ++ [0] ++ (namePadding ++ (e.data ++ padding)))))))))

end Entry

/-- An archive is a sequence of entries, none of them with the name of the
trailer, and the trailer. -/
inductive Encoded : List Entry → List UInt8 → Prop
  | trailer {data bytes : List UInt8} (last : Entry.Encoded ⟨trailerName, data⟩ bytes) : Encoded [] bytes
  | entry {e : Entry} {entries : List Entry} {bytes rest : List UInt8} (proper : 0 ∉ e.name)
      (short : e.name.length ≤ 255) (other : e.name ≠ trailerName) (first : e.Encoded bytes)
      (later : Encoded entries rest) : Encoded (e :: entries) (bytes ++ rest)

/-- An archive whose names may be as long as their fields allow. -/
inductive WellFormed : List Entry → List UInt8 → Prop
  | trailer {data bytes : List UInt8} (last : Entry.Encoded ⟨trailerName, data⟩ bytes) :
      WellFormed [] bytes
  | entry {e : Entry} {entries : List Entry} {bytes rest : List UInt8} (proper : 0 ∉ e.name)
      (other : e.name ≠ trailerName) (first : e.Encoded bytes) (later : WellFormed entries rest) :
      WellFormed (e :: entries) (bytes ++ rest)

/-! ## What the readers find -/

/-- What is read of an entry at an address, however long its name is. -/
structure Placed (m : Nat → UInt8) (q : Nat) (e : Entry) : Prop where
  magic : Stored m q magicText
  filesize : hexToUint (from_ m (q + cFilesize)) 8 = BitVec.ofNat 32 e.data.length
  namesize : hexToUint (from_ m (q + cNamesize)) 8 = BitVec.ofNat 32 (e.name.length + 1)
  name : Stored m (q + headerSize) (e.name ++ [0])
  data : Stored m (q + e.dataStart) e.data

/-- An entry lies at an address. -/
structure Located (m : Nat → UInt8) (q : Nat) (e : Entry) : Prop where
  magic : Stored m q magicText
  filesize : hexToUint (from_ m (q + cFilesize)) 8 = BitVec.ofNat 32 e.data.length
  namesize : hexToUint (from_ m (q + cNamesize)) 8 = BitVec.ofNat 32 (e.name.length + 1)
  name : Stored m (q + headerSize) (e.name ++ [0])
  data : Stored m (q + e.dataStart) e.data
  proper : 0 ∉ e.name
  short : e.name.length ≤ 255
  small : e.data.length + 3 < 2 ^ 32

/-- The entries of an archive lie at an address and behind it. -/
inductive Archived (m : Nat → UInt8) : Nat → List Entry → Prop
  | trailer {q : Nat} {data : List UInt8} (last : Located m q ⟨trailerName, data⟩) : Archived m q []
  | entry {q : Nat} {e : Entry} {entries : List Entry} (first : Located m q e)
      (other : e.name ≠ trailerName) (later : Archived m (q + e.length) entries) :
      Archived m q (e :: entries)

section Numbers

variable {s : Nat → UInt8} {m : Nat → UInt8} {c : UInt8} {d n q : Nat} {field : List UInt8}

theorem hexValue_eq (digit : HexDigit c d) : hexValue c = BitVec.ofNat 32 d := by
  have bytes : ∀ c : UInt8, c.toBitVec.setWidth 32 = BitVec.ofNat 32 c.toNat :=
    fun c => BitVec.eq_of_toNat_eq (by simp)
  unfold hexValue
  simp only [UInt8.le_iff_toNat_le, bytes]
  cases digit with
  | decimal low high =>
      rw [if_pos ⟨low, high⟩]
      refine BitVec.eq_of_toNat_eq ?_
      simp
      omega
  | lower low high =>
      rw [if_neg (by simp; omega), if_pos ⟨low, high⟩]
      refine BitVec.eq_of_toNat_eq ?_
      simp
      omega
  | upper low high =>
      rw [if_neg (by simp; omega), if_neg (by simp; omega), if_pos ⟨low, high⟩]
      refine BitVec.eq_of_toNat_eq ?_
      simp
      omega

theorem hexToUintLoop_eq {i start : Nat} (stored : Stored s i field) (digits : HexDigits start field n) :
    hexToUintLoop s field.length i (BitVec.ofNat 32 start) = BitVec.ofNat 32 n := by
  induction digits generalizing i with
  | nil => rfl
  | @cons n d result c rest first later ih =>
      have value : BitVec.ofNat 32 n <<< 4 + hexValue (s i) = BitVec.ofNat 32 (n * 16 + d) := by
        rw [stored.1, hexValue_eq first, BitVec.ofNat_add]
        refine congrArg (· + BitVec.ofNat 32 d) (BitVec.eq_of_toNat_eq ?_)
        simp [Nat.shiftLeft_eq]
      rw [List.length_cons, hexToUintLoop, value]
      exact ih stored.2

theorem hexToUint_eq (isField : HexField n field) (stored : Stored m q field) :
    hexToUint (from_ m q) 8 = BitVec.ofNat 32 n := by
  rw [← isField.length]
  refine hexToUintLoop_eq (stored.congr fun i _ => ?_) isField.digits
  exact congrArg (fun a => m (q + a)) (Nat.zero_add i)

end Numbers

section Location

variable {m m' : Nat → UInt8} {q : Nat} {e : Entry} {entries : List Entry} {bytes : List UInt8}

theorem Entry.Encoded.length (encoded : e.Encoded bytes) : bytes.length = e.length := by
  cases encoded with
  | intro frontLength filesizeField middleLength namesizeField checkLength nameFull full =>
      have first := filesizeField.length
      have second := namesizeField.length
      have start : magicText.length = 6 := rfl
      simp only [List.length_append, List.length_cons, List.length_nil, Entry.length]
      unfold headerSize at nameFull
      omega

theorem Entry.Encoded.placed (encoded : e.Encoded bytes) (stored : Stored m q bytes) :
    Placed m q e := by
  cases encoded with
  | @intro front filesize middle namesize check namePadding padding frontLength filesizeField middleLength
      namesizeField checkLength nameFull full =>
      have start : magicText.length = 6 := rfl
      have atFilesize := stored.right.right
      have atNamesize := atFilesize.right.right
      have atName := atNamesize.right.right
      have atData := atName.right.right
      have offsets := filesizeField.length
      have offsets' := namesizeField.length
      unfold headerSize at nameFull
      rw [show q + magicText.length + front.length = q + cFilesize by unfold cFilesize; omega]
        at atFilesize atNamesize atName atData
      rw [show q + cFilesize + filesize.length + middle.length = q + cNamesize by
        unfold cFilesize cNamesize; omega] at atNamesize atName atData
      rw [show q + cNamesize + namesize.length + check.length = q + headerSize by
        unfold cNamesize headerSize; omega] at atName atData
      have dataAt : q + headerSize + (e.name ++ [0]).length + namePadding.length = q + e.dataStart := by
        simp only [List.length_append, List.length_cons, List.length_nil]
        unfold headerSize
        omega
      rw [dataAt] at atData
      exact ⟨stored.left, hexToUint_eq filesizeField atFilesize.left,
        hexToUint_eq namesizeField atNamesize.left, atName.left, atData.left⟩

theorem Entry.Encoded.located (encoded : e.Encoded bytes) (stored : Stored m q bytes)
    (proper : 0 ∉ e.name) (short : e.name.length ≤ 255) (small : bytes.length < 2 ^ 32) :
    Located m q e := by
  have placed := encoded.placed stored
  have bound : e.data.length + 3 < 2 ^ 32 := by
    rw [encoded.length] at small
    have padding : e.data.length ≤ padded e.data.length := by unfold padded; omega
    have header : 3 ≤ e.dataStart := by unfold Entry.dataStart padded headerSize; omega
    unfold Entry.length at small
    omega
  exact ⟨placed.magic, placed.filesize, placed.namesize, placed.name, placed.data, proper, short, bound⟩

theorem Encoded.wellFormed (encoded : Encoded entries bytes) : WellFormed entries bytes := by
  induction encoded with
  | trailer last => exact .trailer last
  | entry proper short other first later ih => exact .entry proper other first ih

/-- The entries of an archive in memory. -/
theorem Encoded.archived (encoded : Encoded entries bytes) (stored : Stored m q bytes)
    (small : bytes.length < 2 ^ 32) : Archived m q entries := by
  induction encoded generalizing q with
  | trailer last =>
      have proper : 0 ∉ trailerName := by decide
      have short : trailerName.length ≤ 255 := by decide
      exact .trailer (last.located stored proper short small)
  | entry proper short other first later ih =>
      rw [List.length_append] at small
      have behind := stored.right
      rw [first.length] at behind
      exact .entry (first.located stored.left proper short (by omega)) other (ih behind (by omega))

/-! ### Reading a header -/

/-- `align(HEADER_SIZE + filenamesize, 4)` for the name of an entry. -/
theorem Located.dataOffset_eq (located : Located m q e) :
    (dataOffset (BitVec.ofNat 32 (e.name.length + 1))).toNat = e.dataStart := by
  have short := located.short
  have sum : (BitVec.ofNat 32 headerSize + BitVec.ofNat 32 (e.name.length + 1)).toNat =
      headerSize + (e.name.length + 1) := by
    rw [← BitVec.ofNat_add, BitVec.toNat_ofNat]
    unfold headerSize
    omega
  rw [dataOffset, align_four (by rw [sum]; unfold headerSize; omega), sum]
  rfl

/-- The step to the next header. -/
theorem Located.next_eq (located : Located m q e) :
    q + headerSize + (dataOffset (BitVec.ofNat 32 (e.name.length + 1)) - BitVec.ofNat 32 headerSize).toNat +
      (align (BitVec.ofNat 32 e.data.length) 4).toNat = q + e.length := by
  have small := located.small
  have length : (BitVec.ofNat 32 e.data.length).toNat = e.data.length :=
    (BitVec.toNat_ofNat _ _).trans (Nat.mod_eq_of_lt (by omega))
  have within : headerSize ≤ e.dataStart := by unfold Entry.dataStart padded headerSize; omega
  have header : (BitVec.ofNat 32 headerSize).toNat = headerSize := rfl
  rw [BitVec.toNat_sub_of_le (by rw [BitVec.le_def, header, located.dataOffset_eq]; exact within), header,
    located.dataOffset_eq, align_four (by rw [length]; exact small), length, Entry.length]
  omega

end Location

end OsdiKernel.Archive
