import OsdiKernel.Archive.Walk
import OsdiKernel.Kmem.Safety

/-!
# What the readers return

All readers agree on the first entry with a name.
-/

namespace OsdiKernel.Archive

open Boot (IsString from_)

/-- The first entry with a name. -/
def lookup (entries : List Entry) (name : List UInt8) : Option Entry :=
  entries.find? fun e => e.name = name

section Results

variable (magic : Nat → UInt8) (buffers : Buffers) (fuel cpioAddr : Nat) (c : Console)
  (target : Nat → UInt8)

/-- What the readers do with the name of an entry. -/
structure ReadsEntry (e : Entry) : Prop where
  cat : (cpioCat target).loop magic fuel cpioAddr buffers c =
    some ({ c with output := c.output ++ (e.data.map .putc ++ [.puts newline]) }, ())
  fileSize : ∃ filesize : BitVec 32, filesize.toNat = e.data.length ∧
    (cpioGetFileSize target).loop magic fuel cpioAddr buffers c = some (c, filesize)
  exec : ∃ fileAddr, Stored c.memory fileAddr e.data ∧
    (cpioGetExec target none).loop magic fuel cpioAddr buffers c = some (c, some fileAddr) ∧
    ∀ execAddr, execAddr + e.data.length ≤ fileAddr ∨ fileAddr + e.data.length ≤ execAddr →
      ∃ m, (cpioGetExec target (some execAddr)).loop magic fuel cpioAddr buffers c =
          some ({ c with memory := m }, some fileAddr) ∧
        Stored m execAddr e.data ∧
        ∀ a, a < execAddr ∨ execAddr + e.data.length ≤ a → m a = c.memory a

/-- What the readers do with a name that does not occur. -/
structure ReportsMissing (name : List UInt8) : Prop where
  cat : (cpioCat target).loop magic fuel cpioAddr buffers c =
    some ({ c with output := c.output ++ [.puts name, .puts noSuchFile] }, ())
  fileSize : (cpioGetFileSize target).loop magic fuel cpioAddr buffers c =
    some ({ c with output := c.output ++ [.puts name, .puts noSuchFile] }, 0)

/-- `_exec` gets a buffer just when the name occurs and the allocation of the
size of the first entry succeeds; the buffer then holds the contents. -/
structure Executes (execBuffers : Buffers) (h : Kmem.Heap) (found : Option Entry) : Prop where
  loaded : ∀ e, found = some e → (Kmem.alloc h e.data.length).2 ≠ 0 →
    ∃ c', exec magic buffers execBuffers fuel cpioAddr h c target =
        some ((Kmem.alloc h e.data.length).1, c', some (Kmem.alloc h e.data.length).2) ∧
      Stored c'.memory (Kmem.alloc h e.data.length).2 e.data
  missing : (∀ e, found = some e → (Kmem.alloc h e.data.length).2 = 0) →
    ∃ h' c', exec magic buffers execBuffers fuel cpioAddr h c target = some (h', c', none)

end Results

section Search

variable {magic : Nat → UInt8} {buffers : Buffers} {fuel q : Nat} {c : Console} {entries : List Entry}
  {name : List UInt8} {target : Nat → UInt8} {e : Entry}

theorem Located.filesizeAt_eq {header : Nat} (located : Located c.memory header e) :
    (filesizeAt c header).toNat = e.data.length := by
  have small := located.small
  rw [filesizeAt, located.filesize, BitVec.toNat_ofNat, Nat.mod_eq_of_lt (by omega)]

/-- At the entry that is looked for. -/
theorem search_found {ρ : Type} {found : Nat → BitVec 32 → Console → Console × ρ} {missing : ρ}
    (behind : NullBehind magic buffers) (archived : Archived c.memory q entries)
    (isTarget : IsString target name) (enough : entries.length < fuel)
    (occurs : lookup entries name = some e) :
    ∃ header, Located c.memory header e ∧
      firstNamed name entries q = some (e, header) ∧
      (search target found missing).loop magic fuel q buffers c =
        some (found header (BitVec.ofNat 32 (e.name.length + 1)) c) := by
  rw [lookup, ← firstNamed_entry name entries q] at occurs
  obtain ⟨⟨e', header⟩, first, same⟩ := Option.map_eq_some_iff.mp occurs
  subst same
  refine ⟨header, archived.firstNamed first, first, ?_⟩
  rw [search_eq behind archived isTarget enough, first]

theorem search_missing {ρ : Type} {found : Nat → BitVec 32 → Console → Console × ρ} {missing : ρ}
    (behind : NullBehind magic buffers) (archived : Archived c.memory q entries)
    (isTarget : IsString target name) (enough : entries.length < fuel)
    (absent : lookup entries name = none) :
    (search target found missing).loop magic fuel q buffers c =
      some ({ c with output := c.output ++ [.puts name, .puts noSuchFile] }, missing) := by
  rw [lookup, ← firstNamed_entry name entries q] at absent
  rw [search_eq behind archived isTarget enough, Option.map_eq_none_iff.mp absent]

theorem cpioCat_found (behind : NullBehind magic buffers) (archived : Archived c.memory q entries)
    (isTarget : IsString target name) (enough : entries.length < fuel)
    (occurs : lookup entries name = some e) :
    (cpioCat target).loop magic fuel q buffers c =
      some ({ c with output := c.output ++ (e.data.map .putc ++ [.puts newline]) }, ()) := by
  obtain ⟨header, located, _, result⟩ := search_found behind archived isTarget enough occurs
  refine result.trans ?_
  rw [located.filesizeAt_eq, located.dataOffset_eq, putDataLoop_eq located.data, ← List.append_assoc]
  rfl

theorem cpioGetFileSize_found (behind : NullBehind magic buffers)
    (archived : Archived c.memory q entries) (isTarget : IsString target name)
    (enough : entries.length < fuel) (occurs : lookup entries name = some e) :
    ∃ filesize : BitVec 32, filesize.toNat = e.data.length ∧
      (cpioGetFileSize target).loop magic fuel q buffers c = some (c, filesize) := by
  obtain ⟨header, located, _, result⟩ := search_found behind archived isTarget enough occurs
  exact ⟨_, located.filesizeAt_eq, result⟩

/-- Where `cpio_get_exec` points, whatever the address it is given. -/
theorem cpioGetExec_found (behind : NullBehind magic buffers) (archived : Archived c.memory q entries)
    (isTarget : IsString target name) (enough : entries.length < fuel)
    (occurs : lookup entries name = some e) :
    ∃ header, firstNamed name entries q = some (e, header) ∧ Stored c.memory (header + e.dataStart) e.data ∧
      (cpioGetExec target none).loop magic fuel q buffers c = some (c, some (header + e.dataStart)) ∧
      ∀ execAddr, (cpioGetExec target (some execAddr)).loop magic fuel q buffers c =
        some ({ c with memory := copyLoop c.memory execAddr (header + e.dataStart) e.data.length },
          some (header + e.dataStart)) := by
  obtain ⟨header, located, first, result⟩ := search_found behind archived isTarget enough occurs
  refine ⟨header, first, located.data, ?_, fun execAddr => ?_⟩
  · refine result.trans ?_
    rw [located.dataOffset_eq]
  · obtain ⟨header', _, first', result'⟩ := search_found behind archived isTarget enough occurs
    rw [first] at first'
    cases first'
    refine result'.trans ?_
    simp only [located.dataOffset_eq, located.filesizeAt_eq]

/-! ## Execution -/

/-- The contents of the first entry with a name lie in the archive. -/
theorem firstNamed_within {bytes : List UInt8} {header : Nat} (encoded : Encoded entries bytes)
    (found : firstNamed name entries q = some (e, header)) :
    q ≤ header ∧ header + e.dataStart + e.data.length ≤ q + bytes.length := by
  induction encoded generalizing q with
  | trailer last => cases found
  | @entry e' entries bytes rest proper short other first later ih =>
      rw [List.length_append, first.length]
      unfold firstNamed at found
      split at found
      · cases found
        have padding : e.data.length ≤ Boot.padded e.data.length := by unfold Boot.padded; omega
        unfold Entry.length
        omega
      · have within := ih found
        omega

section Reserved

variable {layout : Kmem.Layout} {ranges live : List (Nat × Nat)} {h : Kmem.Heap} {first last a y size : Nat}

/-- No byte of an allocation is in a reserved range. -/
theorem alloc_outside (run : Kmem.Run layout ranges live h) (reserved : (first, last) ∈ ranges)
    (success : (Kmem.alloc h size).2 ≠ 0) (above : (Kmem.alloc h size).2 ≤ y)
    (below : y < (Kmem.alloc h size).2 + size) : y < first ∨ last ≤ y := by
  have next := run.alloc size
  rw [Mm.keep, if_neg success] at next
  have apart := Set.disjoint_left.mp
    ((Kmem.run_heapSafe next).reserved _ List.mem_cons_self)
  by_contra inRange
  refine apart (⟨above, below⟩ : y ∈ Kmem.bytesOf ((Kmem.alloc h size).2, size))
    ⟨(first, last), reserved, ?_⟩
  unfold Mm.pagesIn
  have page := Nat.div_add_mod y Mm.pageSize
  have rest := Nat.mod_lt y (by decide : 0 < Mm.pageSize)
  simp only [Set.mem_ofPred_eq, Nat.add_mul, Nat.one_mul]
  rw [Nat.mul_comm] at page
  omega

theorem alloc_apart (run : Kmem.Run layout ranges live h) (reserved : (first, last) ∈ ranges)
    (after : first ≤ a) (before : a + size ≤ last) (success : (Kmem.alloc h size).2 ≠ 0) :
    (Kmem.alloc h size).2 + size ≤ a ∨ a + size ≤ (Kmem.alloc h size).2 := by
  by_contra overlap
  have outside := @alloc_outside layout ranges live h first last (max (Kmem.alloc h size).2 a) size run
    reserved success (Nat.le_max_left _ _) (by omega)
  omega

end Reserved

end Search

section Agreement

variable {magic : Nat → UInt8} {buffers execBuffers : Buffers} {fuel cpioAddr : Nat} {c : Console}
  {entries : List Entry} {bytes name : List UInt8} {target : Nat → UInt8} {e : Entry}

theorem readsEntry (behind : NullBehind magic buffers) (archived : Archived c.memory cpioAddr entries)
    (isTarget : IsString target name) (enough : entries.length < fuel)
    (occurs : lookup entries name = some e) : ReadsEntry magic buffers fuel cpioAddr c target e := by
  refine ⟨cpioCat_found behind archived isTarget enough occurs,
    cpioGetFileSize_found behind archived isTarget enough occurs, ?_⟩
  obtain ⟨header, _, stored, pointed, copied⟩ := cpioGetExec_found behind archived isTarget enough occurs
  refine ⟨_, stored, pointed, fun execAddr apart => ⟨_, copied execAddr, stored.copyLoop apart, ?_⟩⟩
  intro a outside
  rw [copyLoop_apply _ _ _ _ _ apart, if_neg (by omega)]

theorem reportsMissing (behind : NullBehind magic buffers) (archived : Archived c.memory cpioAddr entries)
    (isTarget : IsString target name) (enough : entries.length < fuel)
    (absent : lookup entries name = none) :
    ReportsMissing magic buffers fuel cpioAddr c target name :=
  ⟨search_missing behind archived isTarget enough absent,
    search_missing behind archived isTarget enough absent⟩

theorem executes {layout : Kmem.Layout} {ranges live : List (Nat × Nat)} {h : Kmem.Heap} {cpioEnd : Nat}
    (encoded : Encoded entries bytes) (stored : Stored c.memory cpioAddr bytes)
    (small : bytes.length < 2 ^ 32) (behind : NullBehind magic buffers)
    (execBehind : NullBehind magic execBuffers) (isTarget : IsString target name)
    (enough : entries.length < fuel) (run : Kmem.Run layout ranges live h)
    (reserved : (cpioAddr, cpioEnd) ∈ ranges) (within : cpioAddr + bytes.length ≤ cpioEnd) :
    Executes magic buffers fuel cpioAddr c target execBuffers h (lookup entries name) := by
  have archived := encoded.archived stored small
  have isEmpty : ∀ filesize : BitVec 32, filesize = 0 ↔ filesize.toNat = 0 :=
    fun filesize => (BitVec.toNat_inj (y := 0)).symm
  constructor
  · intro e occurs success
    obtain ⟨filesize, size, measured⟩ := cpioGetFileSize_found behind archived isTarget enough occurs
    obtain ⟨header, first, contents, _, copied⟩ :=
      cpioGetExec_found execBehind archived isTarget enough occurs
    have inside := firstNamed_within encoded first
    have apart := alloc_apart run reserved (by omega : cpioAddr ≤ header + e.dataStart) (by omega) success
    have notEmpty : ¬ e.data.length = 0 := fun empty => success (by rw [empty]; rfl)
    refine ⟨{ c with memory := _ }, ?_, contents.copyLoop apart⟩
    rw [exec, measured]
    simp only [Option.bind_eq_bind, Option.bind_some, isEmpty, size, if_neg notEmpty, if_neg success,
      copied, Option.pure_def]
  · intro failed
    cases occurs : lookup entries name with
    | none =>
        have missing := (reportsMissing behind archived isTarget enough occurs).fileSize
        refine ⟨h, { c with output := c.output ++ [.puts name, .puts noSuchFile] }, ?_⟩
        rw [exec, missing]
        rfl
    | some e =>
        obtain ⟨filesize, size, measured⟩ := cpioGetFileSize_found behind archived isTarget enough occurs
        have failure := failed e occurs
        rw [exec, measured]
        simp only [Option.bind_eq_bind, Option.bind_some, isEmpty, size, failure, if_true, Option.pure_def]
        split
        · exact ⟨_, _, rfl⟩
        · exact ⟨_, _, rfl⟩

/-- All readers agree with the entries of the archive: on the list of the names,
on the contents of the first entry with a name and on the names that are
missing, and so does `_exec` while the archive is reserved. -/
theorem readers_agree (encoded : Encoded entries bytes) (stored : Stored c.memory cpioAddr bytes)
    (small : bytes.length < 2 ^ 32) (behind : NullBehind magic buffers)
    (enough : entries.length < fuel) :
    cpioList.loop magic fuel cpioAddr buffers c =
        some ({ c with output := c.output ++ entries.flatMap fun e => [.puts e.name, .puts newline] }, ()) ∧
      ∀ target name, IsString target name →
        (∀ e, lookup entries name = some e → ReadsEntry magic buffers fuel cpioAddr c target e) ∧
        (lookup entries name = none → ReportsMissing magic buffers fuel cpioAddr c target name) ∧
        ∀ layout ranges live h execBuffers cpioEnd, NullBehind magic execBuffers →
          Kmem.Run layout ranges live h → (cpioAddr, cpioEnd) ∈ ranges →
          cpioAddr + bytes.length ≤ cpioEnd →
          Executes magic buffers fuel cpioAddr c target execBuffers h (lookup entries name) := by
  have archived := encoded.archived stored small
  refine ⟨cpioList_eq behind archived enough, fun target name isTarget => ⟨?_, ?_, ?_⟩⟩
  · exact fun e occurs => readsEntry behind archived isTarget enough occurs
  · exact fun absent => reportsMissing behind archived isTarget enough absent
  · intro layout ranges live h execBuffers cpioEnd execBehind run reserved within
    exact executes encoded stored small behind execBehind isTarget enough run reserved within

/-! ### Small archives -/

theorem HexDigit.zero : HexDigit 48 0 := .decimal (by decide) (by decide)

/-- A number of two digits. -/
theorem HexField.ofDigits {first second : UInt8} {d d' : Nat} (high : HexDigit first d)
    (low : HexDigit second d') : HexField (d * 16 + d') [48, 48, 48, 48, 48, 48, first, second] := by
  have last := @HexDigits.cons d d' _ second [] low .nil
  have digits := @HexDigits.cons 0 d _ first [second] high (by rw [Nat.zero_mul, Nat.zero_add]; exact last)
  exact ⟨rfl, .cons .zero (.cons .zero (.cons .zero (.cons .zero (.cons .zero (.cons .zero digits)))))⟩

/-- The bytes of the trailer. -/
def trailerBytes : List UInt8 :=
  magicText ++ (List.replicate 48 48 ++ (List.replicate 8 48 ++ (List.replicate 32 48 ++
    ([48, 48, 48, 48, 48, 48, 48, 98] ++ (List.replicate 8 48 ++
      (trailerName ++ [0] ++ ([0, 0, 0] ++ ([] ++ []))))))))

theorem trailer_encoded : Entry.Encoded ⟨trailerName, []⟩ trailerBytes := by
  have eleven : HexDigit 98 11 := .lower (by decide) (by decide)
  exact @Entry.Encoded.intro ⟨trailerName, []⟩ (List.replicate 48 48) _ (List.replicate 32 48) _
    (List.replicate 8 48) [0, 0, 0] [] rfl (.ofDigits .zero .zero) rfl (.ofDigits .zero eleven) rfl rfl rfl

/-- The bytes of an archive with one file of two bytes, whose name is "a". -/
def fileArchive : List UInt8 :=
  magicText ++ (List.replicate 48 48 ++ ([48, 48, 48, 48, 48, 48, 48, 50] ++ (List.replicate 32 48 ++
    ([48, 48, 48, 48, 48, 48, 48, 50] ++ (List.replicate 8 48 ++
      ([97] ++ [0] ++ ([] ++ ([1, 2] ++ [0, 0])))))))) ++ trailerBytes

theorem fileArchive_encoded : Encoded [⟨[97], [1, 2]⟩] fileArchive := by
  have two : HexDigit 50 2 := .decimal (by decide) (by decide)
  have file := @Entry.Encoded.intro ⟨[97], [1, 2]⟩ (List.replicate 48 48) _ (List.replicate 32 48) _
    (List.replicate 8 48) [] [0, 0] rfl (.ofDigits .zero two) rfl (.ofDigits .zero two) rfl rfl rfl
  exact .entry (by decide) (by decide) (by decide) file (.trailer trailer_encoded)

theorem fileArchive_length : fileArchive.length = 240 := by decide +kernel

theorem readers_agree_file : ∃ (c : Console) (buffers : Buffers),
    cpioList.loop (literal magicText) 2 0 buffers c =
        some ({ c with output := c.output ++ [.puts [97], .puts newline] }, ()) ∧
      ReadsEntry (literal magicText) buffers 2 0 c (literal [97]) ⟨[97], [1, 2]⟩ ∧
      ReportsMissing (literal magicText) buffers 2 0 c (literal [98]) [98] := by
  have encoded := fileArchive_encoded
  have length := fileArchive_length
  generalize fileArchive = bytes at encoded length
  have behind : NullBehind (literal magicText) ⟨fun _ => 0, fun _ => 0⟩ :=
    ⟨literal_isString (by decide) (by decide), rfl⟩
  obtain ⟨list, search⟩ := @readers_agree (literal magicText) _ 2 0 ⟨_, []⟩ _ bytes encoded
    (Stored.getD _ 0) (by omega) behind (by decide)
  have a := literal_isString (by decide : 0 ∉ ([97] : List UInt8)) (by decide)
  have b := literal_isString (by decide : 0 ∉ ([98] : List UInt8)) (by decide)
  exact ⟨_, _, list, (search _ _ a).1 _ rfl, (search _ _ b).2.1 rfl⟩

end Agreement

end OsdiKernel.Archive
