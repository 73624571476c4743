import OsdiKernel.Lib.Bytes

/-!
# The transfer of a kernel image

The host sends a header and the image over the serial line, and the loader puts
the image where the kernel starts.  The line is a list of bytes: a loader that
has read all of them waits for more.  All of the memory behind the start of the
kernel is taken to be there.
-/

namespace OsdiKernel.Boot

/-- The characters "BOOT". -/
def magic : List UInt8 := [66, 79, 79, 84]

def kernelAddr : Nat := 0x80000

/-- What an `int` cannot count up to. -/
def intLimit : Nat := 2 ^ 31

/-! ## The loader -/

def uartGetc : List UInt8 → Option (UInt8 × List UInt8)
  | [] => none
  | ch :: line => some (ch, line)

/-- The loop over the characters of the magic; false at the first that differs. -/
def readMagic : List UInt8 → List UInt8 → Option (Bool × List UInt8)
  | [], line => some (true, line)
  | c :: expected, line => do
      let (ch, line) ← uartGetc line
      if ch ≠ c then return (false, line)
      readMagic expected line

/-- The loops that read `kernel_size` and `chksum`.  A shift into the sign bit
keeps all bits. -/
def readWordLoop : Nat → Nat → BitVec 32 → List UInt8 → Option (BitVec 32 × List UInt8)
  | 0, _, w, line => some (w, line)
  | left + 1, i, w, line => do
      let (ch, line) ← uartGetc line
      readWordLoop left (i + 1) (w ||| ch.toBitVec.setWidth 32 <<< (i * 8)) line

def readWord (line : List UInt8) : Option (BitVec 32 × List UInt8) := readWordLoop 4 0 0 line

/-- The loop that reads the image.  It has no meaning once its variable, an
`int`, would overflow. -/
def readImage : Nat → Nat → (Nat → UInt8) → List UInt8 → Option ((Nat → UInt8) × List UInt8)
  | 0, _, m, line => some (m, line)
  | left + 1, i, m, line =>
      if intLimit ≤ i then none
      else do
        let (ch, line) ← uartGetc line
        readImage left (i + 1) (Function.update m (kernelAddr + i) ch) line

/-- The loop that adds up the bytes of the image. -/
def sumImage (m : Nat → UInt8) : Nat → Nat → BitVec 32 → Option (BitVec 32)
  | 0, _, sum => some sum
  | left + 1, i, sum =>
      if intLimit ≤ i then none
      else sumImage m left (i + 1) (sum + (m (kernelAddr + i)).toBitVec.setWidth 32)

/-- How the loader ends, with the memory that it leaves. -/
inductive Outcome where
  | invalidImage (m : Nat → UInt8)
  | checksumFailed (m : Nat → UInt8)
  | jump (kernel : Nat) (m : Nat → UInt8)

/-- There is no outcome while the loader waits for the line. -/
def loadKernel (m : Nat → UInt8) (line : List UInt8) : Option Outcome := do
  let (valid, line) ← readMagic magic line
  if !valid then return .invalidImage m
  let (kernelSize, line) ← readWord line
  let (chksum, line) ← readWord line
  let (m, _) ← readImage kernelSize.toNat 0 m line
  let sum ← sumImage m kernelSize.toNat 0 0
  if sum = chksum then return .jump kernelAddr m
  return .checksumFailed m

/-! ## The host -/

/-- The loop of `send_kernel` over the bytes of the image. -/
def checksumLoop : List UInt8 → Nat → Nat
  | [], checksum => checksum
  | byte :: kernelData, checksum => checksumLoop kernelData ((checksum + byte.toNat) &&& 0xffffffff)

/-- `struct.pack('<I', n)`, which fails for a number of more than four bytes. -/
def packWord (n : Nat) : Option (List UInt8) :=
  if n < 2 ^ 32 then some (littleEndian (BitVec.ofNat 32 n)) else none

/-- All that `send_kernel` writes to the line. -/
def sendKernel (kernelData : List UInt8) : Option (List UInt8) := do
  let magic ← packWord 0x544F4F42
  let size ← packWord kernelData.length
  let checksum ← packWord (checksumLoop kernelData 0)
  return magic ++ size ++ checksum ++ kernelData

/-! ## The sum of the bytes -/

def byteSum (bytes : List UInt8) : Nat := (bytes.map UInt8.toNat).sum

@[simp] theorem byteSum_nil : byteSum [] = 0 := rfl

@[simp] theorem byteSum_cons (b : UInt8) (bytes : List UInt8) :
    byteSum (b :: bytes) = b.toNat + byteSum bytes := rfl

theorem checksumLoop_eq (bytes : List UInt8) (checksum : Nat) :
    checksumLoop bytes (checksum % 2 ^ 32) = (checksum + byteSum bytes) % 2 ^ 32 := by
  induction bytes generalizing checksum with
  | nil => simp [checksumLoop]
  | cons b bytes ih =>
      have masked : (checksum % 2 ^ 32 + b.toNat) &&& 0xffffffff = (checksum + b.toNat) % 2 ^ 32 := by
        rw [show 0xffffffff = 2 ^ 32 - 1 from rfl, Nat.and_two_pow_sub_one_eq_mod, Nat.mod_add_mod]
      rw [checksumLoop, masked, ih, byteSum_cons, Nat.add_assoc]

theorem sumImage_eq {m : Nat → UInt8} {bytes : List UInt8} {i : Nat} {sum : BitVec 32}
    (stored : Stored m (kernelAddr + i) bytes) (short : i + bytes.length ≤ intLimit) :
    sumImage m bytes.length i sum = some (sum + BitVec.ofNat 32 (byteSum bytes)) := by
  induction bytes generalizing i sum with
  | nil => simp [sumImage]
  | cons b bytes ih =>
      rw [List.length_cons] at short ⊢
      have widened : b.toBitVec.setWidth 32 = BitVec.ofNat 32 b.toNat :=
        BitVec.eq_of_toNat_eq (by simp)
      rw [sumImage, if_neg (by omega), stored.1, ih stored.2 (by omega), widened, byteSum_cons,
        BitVec.ofNat_add, BitVec.add_assoc]

/-! ## Reading the line -/

section Line

variable {m m' : Nat → UInt8} {line rest : List UInt8}

theorem readMagic_append (expected : List UInt8) :
    readMagic expected (expected ++ rest) = some (true, rest) := by
  induction expected with
  | nil => rfl
  | cons c expected ih =>
      rw [List.cons_append, readMagic, uartGetc]
      simpa using ih

theorem readMagic_true {expected : List UInt8} (read : readMagic expected line = some (true, rest)) :
    line = expected ++ rest := by
  induction expected generalizing line with
  | nil =>
      cases read
      rfl
  | cons c expected ih =>
      cases line with
      | nil => cases read
      | cons ch line =>
          rw [readMagic, uartGetc] at read
          by_cases same : ch = c
          · subst same
            have behind : line = expected ++ rest := ih (by simpa using read)
            rw [behind, List.cons_append]
          · simp [same] at read

theorem readWord_cons (b₀ b₁ b₂ b₃ : UInt8) :
    readWord (b₀ :: b₁ :: b₂ :: b₃ :: rest) = some (word b₀ b₁ b₂ b₃, rest) :=
  congrArg (fun w => some (w, rest)) word_of_shifts

theorem readWord_littleEndian (w : BitVec 32) :
    readWord (littleEndian w ++ rest) = some (w, rest) := by
  have read := @readWord_cons rest ⟨w.extractLsb' 0 8⟩ ⟨w.extractLsb' 8 8⟩ ⟨w.extractLsb' 16 8⟩
    ⟨w.extractLsb' 24 8⟩
  rw [word_littleEndian] at read
  exact read

theorem readWord_some {w : BitVec 32} (read : readWord line = some (w, rest)) :
    ∃ b₀ b₁ b₂ b₃, line = b₀ :: b₁ :: b₂ :: b₃ :: rest ∧ w = word b₀ b₁ b₂ b₃ := by
  match line, read with
  | b₀ :: b₁ :: b₂ :: b₃ :: line, read =>
      rw [readWord_cons] at read
      cases read
      exact ⟨b₀, b₁, b₂, b₃, rfl, rfl⟩

/-- The image is taken from the line as it comes. -/
theorem readImage_eq {bytes : List UInt8} {i : Nat} (short : i + bytes.length ≤ intLimit) :
    readImage bytes.length i m (bytes ++ rest) =
      some (storeLoop m (kernelAddr + i) (fun j => bytes.getD j 0) bytes.length, rest) := by
  induction bytes generalizing i m with
  | nil => rfl
  | cons b bytes ih =>
      rw [List.length_cons] at short ⊢
      rw [readImage, if_neg (by omega), List.cons_append, uartGetc]
      exact ih (by omega)

theorem readImage_some {left i : Nat} (short : i + left ≤ intLimit)
    (read : readImage left i m line = some (m', rest)) :
    ∃ bytes, bytes.length = left ∧ line = bytes ++ rest := by
  induction left generalizing i m line with
  | zero =>
      cases read
      exact ⟨[], rfl, rfl⟩
  | succ left ih =>
      rw [readImage, if_neg (by omega)] at read
      cases line with
      | nil => cases read
      | cons b line =>
          obtain ⟨bytes, length, same⟩ := ih (by omega) read
          exact ⟨b :: bytes, congrArg Nat.succ length, congrArg (b :: ·) same⟩

theorem stored_image (m : Nat → UInt8) (bytes : List UInt8) :
    Stored (storeLoop m kernelAddr (fun j => bytes.getD j 0) bytes.length) kernelAddr bytes := by
  refine Stored.storeLoop (Nat.le_refl _) fun i b found => ?_
  rw [List.getD_eq_getElem?_getD, found]
  rfl

end Line

/-! ## Round trip -/

/-- The bytes that are stored where the kernel starts. -/
def storedBytes (m : Nat → UInt8) (n : Nat) : List UInt8 :=
  (List.range n).map fun i => m (kernelAddr + i)

/-- The field of the header that starts at a byte of the line. -/
def headerField (line : List UInt8) (i : Nat) : BitVec 32 :=
  word (line.getD i 0) (line.getD (i + 1) 0) (line.getD (i + 2) 0) (line.getD (i + 3) 0)

section RoundTrip

variable {m m' : Nat → UInt8} {kernelData line bytes rest : List UInt8} {size checksum : BitVec 32}

theorem storedBytes_eq (stored : Stored m kernelAddr bytes) : storedBytes m bytes.length = bytes := by
  refine List.ext_getElem (by simp [storedBytes]) fun i _ inside => ?_
  simp only [storedBytes, List.getElem_map, List.getElem_range]
  exact stored.cell (List.getElem?_eq_getElem inside)

/-- The loader on a line that starts with a header and an image. -/
theorem loadKernel_eq (length : bytes.length = size.toNat) (short : size.toNat < intLimit) :
    loadKernel m (magic ++ (littleEndian size ++ (littleEndian checksum ++ (bytes ++ rest)))) =
      some (if BitVec.ofNat 32 (byteSum bytes) = checksum then
          .jump kernelAddr (storeLoop m kernelAddr (fun j => bytes.getD j 0) bytes.length)
        else .checksumFailed (storeLoop m kernelAddr (fun j => bytes.getD j 0) bytes.length)) := by
  have within : 0 + bytes.length ≤ intLimit := by omega
  have image := @readImage_eq m rest bytes 0 within
  have sum := @sumImage_eq _ bytes 0 0 (stored_image m bytes) within
  rw [zero_add] at sum
  unfold loadKernel
  rw [readMagic_append]
  simp only [Option.bind_eq_bind, Option.bind_some, Bool.not_true, Bool.false_eq_true, if_false,
    readWord_littleEndian, ← length, image, Nat.add_zero, sum, Option.pure_def]
  split <;> rfl

theorem headerField_size (b₀ b₁ b₂ b₃ : UInt8) :
    headerField (magic ++ b₀ :: b₁ :: b₂ :: b₃ :: rest) 4 = word b₀ b₁ b₂ b₃ := rfl

theorem headerField_checksum (c₀ c₁ c₂ c₃ b₀ b₁ b₂ b₃ : UInt8) :
    headerField (magic ++ c₀ :: c₁ :: c₂ :: c₃ :: b₀ :: b₁ :: b₂ :: b₃ :: rest) 8 =
      word b₀ b₁ b₂ b₃ := rfl

/-- The loader only jumps after a header and an image. -/
theorem loadKernel_jump {kernel : Nat} (short : (headerField line 4).toNat < intLimit)
    (jumped : loadKernel m line = some (.jump kernel m')) :
    ∃ bytes rest, bytes.length = (headerField line 4).toNat ∧
      line = magic ++ (littleEndian (headerField line 4) ++
        (littleEndian (headerField line 8) ++ (bytes ++ rest))) := by
  unfold loadKernel at jumped
  obtain ⟨⟨valid, line₁⟩, header, jumped⟩ := Option.bind_eq_some_iff.mp jumped
  cases valid with
  | false => cases jumped
  | true =>
      obtain ⟨⟨size, line₂⟩, sized, jumped⟩ := Option.bind_eq_some_iff.mp jumped
      obtain ⟨⟨chksum, line₃⟩, summed, jumped⟩ := Option.bind_eq_some_iff.mp jumped
      obtain ⟨⟨m₁, line₄⟩, image, _⟩ := Option.bind_eq_some_iff.mp jumped
      have start := readMagic_true header
      obtain ⟨c₀, c₁, c₂, c₃, rfl, rfl⟩ := readWord_some sized
      obtain ⟨b₀, b₁, b₂, b₃, rfl, rfl⟩ := readWord_some summed
      subst start
      rw [headerField_size] at short ⊢
      rw [headerField_checksum]
      obtain ⟨bytes, length, rfl⟩ := readImage_some (by omega) image
      refine ⟨bytes, line₄, length, ?_⟩
      rw [littleEndian_word, littleEndian_word]
      rfl

/-- What the host sends is accepted and stored as it is; and whatever comes
over the line, the loader only jumps to bytes with the checksum of the header. -/
theorem transfer_round_trip (m : Nat → UInt8) :
    (∀ kernelData : List UInt8, kernelData.length < 2 ^ 31 →
      ∃ line m', sendKernel kernelData = some line ∧
        loadKernel m line = some (.jump kernelAddr m') ∧ Stored m' kernelAddr kernelData ∧
        ∀ a, a < kernelAddr ∨ kernelAddr + kernelData.length ≤ a → m' a = m a) ∧
      ∀ line kernel m', (headerField line 4).toNat < 2 ^ 31 →
        loadKernel m line = some (.jump kernel m') →
        line.take 4 = magic ∧ kernel = kernelAddr ∧
          byteSum (storedBytes m' (headerField line 4).toNat) % 2 ^ 32 = (headerField line 8).toNat := by
  constructor
  · intro kernelData short
    have sum := checksumLoop_eq kernelData 0
    rw [Nat.zero_mod, Nat.zero_add] at sum
    have size : (BitVec.ofNat 32 kernelData.length).toNat = kernelData.length :=
      (BitVec.toNat_ofNat _ _).trans (Nat.mod_eq_of_lt (by omega))
    have sent : sendKernel kernelData = some (magic ++ (littleEndian (BitVec.ofNat 32 kernelData.length) ++
        (littleEndian (BitVec.ofNat 32 (checksumLoop kernelData 0)) ++ (kernelData ++ [])))) := by
      have summed : checksumLoop kernelData 0 < 2 ^ 32 := sum ▸ Nat.mod_lt _ (by decide)
      have long : kernelData.length < 2 ^ 32 := by omega
      have start : packWord 0x544F4F42 = some magic := by decide
      unfold sendKernel
      rw [start, packWord, packWord, if_pos long, if_pos summed]
      simp
    have loaded := @loadKernel_eq m kernelData [] (BitVec.ofNat 32 kernelData.length)
      (BitVec.ofNat 32 (checksumLoop kernelData 0)) size.symm (size.trans_lt short)
    have same : BitVec.ofNat 32 (byteSum kernelData) = BitVec.ofNat 32 (checksumLoop kernelData 0) := by
      rw [sum]
      exact BitVec.eq_of_toNat_eq (by simp)
    rw [if_pos same] at loaded
    refine ⟨_, _, sent, loaded, stored_image m kernelData, fun a outside => ?_⟩
    rw [storeLoop_apply, if_neg (by omega)]
  · intro line kernel m' short jumped
    obtain ⟨bytes, rest, length, same⟩ := loadKernel_jump short jumped
    have loaded := @loadKernel_eq m bytes rest _ (headerField line 8) length short
    rw [← same, jumped] at loaded
    by_cases passed : BitVec.ofNat 32 (byteSum bytes) = headerField line 8
    · rw [if_pos passed] at loaded
      cases loaded
      refine ⟨by rw [same]; rfl, rfl, ?_⟩
      rw [← length, storedBytes_eq (stored_image m bytes), ← passed, BitVec.toNat_ofNat]
    · rw [if_neg passed] at loaded
      cases loaded

/-- Two bytes are sent, and the loader jumps. -/
theorem transfer_round_trip_two_bytes :
    ∃ line m', sendKernel [1, 2] = some line ∧
      loadKernel (fun _ => 0) line = some (.jump kernelAddr m') ∧ Stored m' kernelAddr [1, 2] ∧
      byteSum (storedBytes m' (headerField line 4).toNat) % 2 ^ 32 = (headerField line 8).toNat := by
  obtain ⟨accepts, onlyValid⟩ := transfer_round_trip fun _ => 0
  obtain ⟨line, m', sent, jumped, stored, _⟩ := accepts [1, 2] (by decide)
  have header : sendKernel [1, 2] =
      some (magic ++ [2, 0, 0, 0] ++ [3, 0, 0, 0] ++ [1, 2]) := by decide
  have line_eq := Option.some.inj (sent.symm.trans header)
  have short : (headerField line 4).toNat < 2 ^ 31 := by
    rw [line_eq]
    decide
  exact ⟨line, m', sent, jumped, stored, (onlyValid line _ m' short jumped).2.2⟩

end RoundTrip

end OsdiKernel.Boot
