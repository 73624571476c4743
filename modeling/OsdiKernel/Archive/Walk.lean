import OsdiKernel.Archive.Format

/-!
# The walk over the archive

One round of the loop reads one entry; the rounds of a reader that goes on
everywhere, and of one that looks for a name, follow by induction.
-/

namespace OsdiKernel.Archive

open Boot (IsString from_ strcmp strcmp_eq textOf_eq addressSpace)

/-- The character behind both arrays for the magic is null. -/
structure NullBehind (magic : Nat → UInt8) (buffers : Buffers) : Prop where
  magic : IsString magic magicText
  headerMagic : buffers.headerMagic 6 = 0

theorem literal_isString {text : List UInt8} (proper : 0 ∉ text) (short : text.length < addressSpace) :
    IsString (literal text) text := by
  refine ⟨Stored.iff_cell.mpr fun i b found => ?_, proper, short⟩
  rw [Nat.zero_add, literal, List.getD_eq_getElem?_getD]
  by_cases inside : i < text.length
  · rw [List.getElem?_append_left inside] at found
    rw [found, Option.getD_some]
  · obtain ⟨length, same⟩ := List.getElem?_eq_some_iff.mp found
    rw [List.getElem_append_right (Nat.le_of_not_lt inside)] at same
    rw [List.getElem?_eq_none (Nat.le_of_not_lt inside), Option.getD_none, ← same]
    simp

/-! ## One round -/

/-- The array `header_magic` after a header is read, with what is behind it. -/
def withMagic (headerMagic : Nat → UInt8) : Nat → UInt8 := fun i => magicText.getD i (headerMagic i)

section Round

variable {σ ρ : Type} {reader : Reader σ ρ} {magic : Nat → UInt8} {buffers : Buffers}
  {fuel header : Nat} {s : σ} {e : Entry}

/-- The magic of a header is read. -/
theorem storeLoop_magic {m : Nat → UInt8} {headerMagic : Nat → UInt8}
    (stored : Stored m header magicText) :
    storeLoop headerMagic 0 (from_ m header) 6 = withMagic headerMagic := by
  funext i
  have start : magicText.length = 6 := rfl
  rw [storeLoop_apply, withMagic, List.getD_eq_getElem?_getD]
  by_cases inside : i < 6
  · rw [if_pos ⟨Nat.zero_le i, by omega⟩, Nat.sub_zero]
    rw [List.getElem?_eq_getElem (by omega), Option.getD_some]
    exact stored.cell (List.getElem?_eq_getElem _)
  · rw [if_neg (by omega), List.getElem?_eq_none (by omega), Option.getD_none]

/-- Every round reads the same magic. -/
theorem withMagic_again (headerMagic : Nat → UInt8) :
    withMagic (withMagic headerMagic) = withMagic headerMagic := by
  funext i
  unfold withMagic
  rw [List.getD_eq_getElem?_getD, List.getD_eq_getElem?_getD]
  cases magicText[i]? <;> rfl

/-- The header is recognised. -/
theorem NullBehind.recognised (behind : NullBehind magic buffers) :
    strcmp magic (withMagic buffers.headerMagic) = some 0 := by
  have read : Stored (withMagic buffers.headerMagic) 0 magicText :=
    Stored.iff_cell.mpr fun i b found => by
      rw [Nat.zero_add, withMagic, List.getD_eq_getElem?_getD, found, Option.getD_some]
  obtain ⟨r, compared, equal⟩ := strcmp_eq behind.magic
    (⟨Stored.append_iff.mpr ⟨read, behind.headerMagic, trivial⟩, by decide, by decide⟩ :
      IsString _ magicText)
  rwa [equal.mpr rfl] at compared

/-- The name is read. -/
theorem Located.filename {m : Nat → UInt8} (located : Located m header e) (stale : Nat → UInt8) :
    IsString (storeLoop stale 0 (from_ m (header + headerSize)) (e.name.length + 1)) e.name := by
  have short := located.short
  refine ⟨.storeLoop (by simp) fun i b found => located.name.cell found, located.proper, ?_⟩
  unfold addressSpace
  omega

/-- What the loop does at an entry whose header is recognised. -/
theorem loop_recognised (recognised : strcmp magic (withMagic buffers.headerMagic) = some 0)
    (located : Located (reader.memory s) header e) :
    ∃ filename, IsString filename e.name ∧ ∀ fuel,
      reader.loop magic (fuel + 1) header buffers s =
        if e.name = trailerName then reader.trailer s
        else (reader.entry header (BitVec.ofNat 32 (e.name.length + 1)) filename s).bind fun
          | (s, some result) => some (s, result)
          | (s, none) =>
              reader.loop magic fuel (header + e.length) ⟨filename, withMagic buffers.headerMagic⟩ s := by
  have short := located.short
  have namesize : (BitVec.ofNat 32 (e.name.length + 1)).toNat = e.name.length + 1 :=
    (BitVec.toNat_ofNat _ _).trans (Nat.mod_eq_of_lt (by omega))
  have isName := located.filename buffers.filename
  have isTrailer : IsString (literal trailerName) trailerName := literal_isString (by decide) (by decide)
  obtain ⟨r, compared, equal⟩ := strcmp_eq isName isTrailer
  have fits : ¬ filenameSize < e.name.length + 1 := by
    unfold filenameSize
    omega
  refine ⟨_, isName, fun fuel => ?_⟩
  rw [Reader.loop]
  rcases entered : reader.entry header (BitVec.ofNat 32 (e.name.length + 1))
    (storeLoop buffers.filename 0 (from_ (reader.memory s) (header + headerSize)) (e.name.length + 1)) s
    with _ | ⟨s', _ | result⟩ <;>
  simp only [storeLoop_magic located.magic, recognised, located.namesize, located.filesize,
    located.next_eq, namesize, if_neg fits, compared, equal, entered, Option.bind_eq_bind,
    Option.bind_some, Option.bind_none, Option.pure_def, if_true]

/-- What the loop does at an entry; the buffers then hold its name. -/
theorem loop_entry (behind : NullBehind magic buffers) (located : Located (reader.memory s) header e) :
    ∃ buffers', NullBehind magic buffers' ∧ IsString buffers'.filename e.name ∧
      reader.loop magic (fuel + 1) header buffers s =
        if e.name = trailerName then reader.trailer s
        else (reader.entry header (BitVec.ofNat 32 (e.name.length + 1)) buffers'.filename s).bind fun
          | (s, some result) => some (s, result)
          | (s, none) => reader.loop magic fuel (header + e.length) buffers' s := by
  obtain ⟨filename, isName, round⟩ := loop_recognised behind.recognised located
  exact ⟨⟨filename, withMagic buffers.headerMagic⟩, ⟨behind.magic, behind.headerMagic⟩, isName, round fuel⟩

end Round

/-! ## Strings on the console -/

theorem uartPuts_eq {c : Console} {str : Nat → UInt8} {text : List UInt8} (isString : IsString str text) :
    uartPuts c str = some (c.print text) :=
  congrArg (Option.map _) (textOf_eq isString)

theorem putDataLoop_eq {c : Console} {fileAddr : Nat} {data : List UInt8}
    (stored : Stored c.memory fileAddr data) :
    putDataLoop c fileAddr data.length = { c with output := c.output ++ data.map .putc } := by
  induction data generalizing c fileAddr with
  | nil => simp [putDataLoop]
  | cons b data ih =>
      have rest := @ih { c with output := c.output ++ [.putc b] } _ stored.2
      rw [List.length_cons, putDataLoop, stored.1, rest, List.map_cons, List.append_assoc]
      rfl

/-! ## All rounds -/

/-- The first entry with a name, and its address. -/
def firstNamed (name : List UInt8) : List Entry → Nat → Option (Entry × Nat)
  | [], _ => none
  | e :: entries, q => if e.name = name then some (e, q) else firstNamed name entries (q + e.length)

section Rounds

variable {magic : Nat → UInt8} {buffers : Buffers} {fuel q : Nat} {c : Console} {entries : List Entry}
  {name : List UInt8} {target : Nat → UInt8}

theorem firstNamed_entry (name : List UInt8) (entries : List Entry) (q : Nat) :
    (firstNamed name entries q).map Prod.fst = entries.find? fun e => e.name = name := by
  induction entries generalizing q with
  | nil => rfl
  | cons e entries ih =>
      by_cases same : e.name = name
      · simp [firstNamed, same]
      · simp [firstNamed, same, ih]

theorem Archived.firstNamed {m : Nat → UInt8} {e : Entry} {header : Nat} (archived : Archived m q entries)
    (found : firstNamed name entries q = some (e, header)) : Located m header e := by
  induction archived with
  | trailer last => cases found
  | @entry q e' entries first other later ih =>
      unfold Archive.firstNamed at found
      split at found
      · cases found
        exact first
      · exact ih found

/-- What a reader that looks for a file does. -/
theorem search_eq {ρ : Type} {found : Nat → BitVec 32 → Console → Console × ρ} {missing : ρ}
    (behind : NullBehind magic buffers) (archived : Archived c.memory q entries)
    (isTarget : IsString target name) (enough : entries.length < fuel) :
    (search target found missing).loop magic fuel q buffers c =
      match firstNamed name entries q with
      | some (e, header) => some (found header (BitVec.ofNat 32 (e.name.length + 1)) c)
      | none => some ({ c with output := c.output ++ [.puts name, .puts noSuchFile] }, missing) := by
  induction entries generalizing q fuel buffers with
  | nil =>
      obtain ⟨fuel, rfl⟩ := Nat.exists_eq_succ_of_ne_zero (Nat.ne_of_gt enough)
      cases archived with
      | @trailer _ data last =>
          obtain ⟨_, _, _, round⟩ := @loop_entry _ _ (search target found missing) _ _ fuel _ c _ behind last
          rw [round, if_pos rfl]
          simp [search, uartPuts_eq isTarget, firstNamed, Console.print]
  | cons e entries ih =>
      obtain ⟨fuel, rfl⟩ := Nat.exists_eq_succ_of_ne_zero (Nat.ne_of_gt (Nat.zero_lt_of_lt enough))
      cases archived with
      | entry first other later =>
          obtain ⟨buffers', behind', filename, round⟩ :=
            @loop_entry _ _ (search target found missing) _ _ fuel _ c _ behind first
          obtain ⟨r, compared, equal⟩ := strcmp_eq filename isTarget
          have goesOn := ih behind' later (Nat.lt_of_succ_lt_succ enough)
          rw [round, if_neg other]
          by_cases same : e.name = name
          · simp [search, compared, equal, firstNamed, same]
          · simp only [search, compared, equal, firstNamed, same, Option.bind_eq_bind, Option.bind_some,
              if_false, Option.pure_def]
            exact goesOn

/-- What `cpio_list` does. -/
theorem cpioList_eq (behind : NullBehind magic buffers) (archived : Archived c.memory q entries)
    (enough : entries.length < fuel) :
    cpioList.loop magic fuel q buffers c =
      some ({ c with output := c.output ++ entries.flatMap fun e => [.puts e.name, .puts newline] }, ()) := by
  induction entries generalizing q fuel buffers c with
  | nil =>
      obtain ⟨fuel, rfl⟩ := Nat.exists_eq_succ_of_ne_zero (Nat.ne_of_gt enough)
      cases archived with
      | trailer last =>
          obtain ⟨_, _, _, round⟩ := @loop_entry _ _ cpioList _ _ fuel _ c _ behind last
          rw [round, if_pos rfl]
          simp [cpioList]
  | cons e entries ih =>
      obtain ⟨fuel, rfl⟩ := Nat.exists_eq_succ_of_ne_zero (Nat.ne_of_gt (Nat.zero_lt_of_lt enough))
      cases archived with
      | entry first other later =>
          obtain ⟨buffers', behind', filename, round⟩ := @loop_entry _ _ cpioList _ _ fuel _ c _ behind first
          have goesOn := @ih _ _ _ ((c.print e.name).print newline) behind' later
            (Nat.lt_of_succ_lt_succ enough)
          rw [round, if_neg other]
          simp only [cpioList, uartPuts_eq filename, Option.bind_eq_bind, Option.bind_some, Option.pure_def]
          refine goesOn.trans ?_
          simp [Console.print]

end Rounds

end OsdiKernel.Archive
