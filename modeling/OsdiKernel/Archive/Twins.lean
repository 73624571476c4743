import OsdiKernel.Archive.Loading
import OsdiKernel.Fs.StartTogether

/-!
# The archive in different memory

Two kernels with the same archive start in different memory.  They load the same
files, and read the same bytes of them afterwards.
-/

namespace OsdiKernel.Archive

open Allocator (Holds)
open Boot (IsString strcmp from_)
open Fs (Name State Known Twin Sound CleanStart initramfsName nodeSize vnodeSize initramfsEntry contentBytes)
open Parallel (Both)

/-- Copies in two memories that agree on the source, with what they agreed on before. -/
theorem copyLoop_same {β : Type} {memory memory' : Nat → β} {dest src n : Nat} {A : Set Nat}
    (same : ∀ a ∈ A, memory' a = memory a) (source : ∀ i < n, src + i ∈ A) {a : Nat}
    (known : a ∈ A ∨ dest ≤ a ∧ a < dest + n) :
    copyLoop memory' dest src n a = copyLoop memory dest src n a := by
  induction n generalizing memory memory' dest src A with
  | zero => exact same a (known.resolve_right (by omega))
  | succ n ih =>
      rw [copyLoop, copyLoop, same src (source 0 (Nat.zero_lt_succ n))]
      refine @ih _ _ (dest + 1) (src + 1) (insert dest A) (fun b member => ?_) (fun i below => ?_) ?_
      · by_cases here : b = dest
        · rw [here, Function.update_self, Function.update_self]
        · rw [Function.update_of_ne here, Function.update_of_ne here]
          exact same b (member.resolve_left here)
      · rw [Nat.add_assoc, Nat.add_comm 1 i]
        exact Or.inr (source (i + 1) (Nat.succ_lt_succ below))
      · rcases known with old | ⟨above, below⟩
        · exact Or.inl (Or.inr old)
        · by_cases here : a = dest
          · exact Or.inl (Or.inl here)
          · exact Or.inr ⟨by omega, by omega⟩

variable {H : Type} [Allocator H]

/-- Two machines that agree on what is known, bytes included. -/
structure MachineTwin (k : Known) (rest : List Nat) (m m' : Machine H) : Prop where
  fs : Twin k rest m.fs m'.fs
  bytes : ∀ a ∈ k.bytes, m'.bytes a = m.bytes a

section Entry

variable {k : Known} {rest : List Nat} {m m' : Machine H} {r header : Nat} {e : Entry}
  {filename filename' : Nat → UInt8}

/-- Both kernels load the same entry. -/
theorem MachineTwin.entry (twin : MachineTwin k rest m m') (member : r ∈ k.vnodes)
    (located : Located m.bytes header e) (located' : Located m'.bytes header e)
    (isName : IsString filename e.name) (isName' : IsString filename' e.name)
    (known : ∀ i < e.data.length, header + (e.dataStart + i) ∈ k.bytes) :
    Both (fun (_ : Unit) _ a b => ∃ k', k.vnodes ⊆ k'.vnodes ∧ k.bytes ⊆ k'.bytes ∧ MachineTwin k' rest a b) ()
      ((initramfsReader r).entry header (BitVec.ofNat 32 (e.name.length + 1)) filename m)
      ((initramfsReader r).entry header (BitVec.ofNat 32 (e.name.length + 1)) filename' m') := by
  have entered := twin.fs.initramfsEntry member (toName e.name) e.data.length
  have sameData : ((m'.fs.alloc nodeSize).1.alloc e.data.length).2 =
      ((m.fs.alloc nodeSize).1.alloc e.data.length).2 := by
    unfold State.alloc
    rw [twin.fs.heap]
  rw [initramfsReader_entry located isName, initramfsReader_entry located' isName', sameData]
  generalize initramfsEntry m.fs r (toName e.name) e.data.length = after at *
  generalize initramfsEntry m'.fs r (toName e.name) e.data.length = after' at *
  cases entered with
  | none => exact .stop
  | @some s t related =>
      obtain ⟨k', larger, twin'⟩ := related
      have more : k.vnodes ⊆ k'.vnodes := (Known.le_iff.mp larger).1
      have bytes : k'.bytes = contentBytes m.fs e.data.length ∪ k.bytes := Known.bytes_eq larger
      have moreBytes : k.bytes ⊆ k'.bytes := by
        rw [bytes]
        exact Set.subset_union_right
      rw [Option.bind_some, Option.bind_some]
      unfold contentBytes at bytes
      cases data : ((m.fs.alloc nodeSize).1.alloc e.data.length).2 with
      | none =>
          unfold copyTo
          dsimp only
          split
          · refine .pure ⟨k', more, moreBytes, twin', fun a inside => twin.bytes a ?_⟩
            rw [bytes, data] at inside
            exact inside.resolve_left fun ⟨_, impossible, _⟩ => by cases impossible
          · exact .stop
      | some p =>
          refine .pure ⟨k', more, moreBytes, twin', fun a inside =>
            copyLoop_same twin.bytes (fun i below => by rw [Nat.add_assoc]; exact known i below) ?_⟩
          rw [bytes, data] at inside
          rcases inside with ⟨q, same, above, below⟩ | old
          · cases same
            exact Or.inr ⟨above, below⟩
          · exact Or.inl old

end Entry

/-! ## The loop -/

section Loop

/-- A header that is not recognised ends the loop. -/
theorem loop_unrecognised {σ ρ : Type} {reader : Reader σ ρ} {magic : Nat → UInt8} {buffers : Buffers}
    {header : Nat} {s : σ} {e : Entry} (located : Located (reader.memory s) header e)
    (other : strcmp magic (withMagic buffers.headerMagic) ≠ some 0) (fuel : Nat) :
    reader.loop magic (fuel + 1) header buffers s =
      (strcmp magic (withMagic buffers.headerMagic)).bind fun _ =>
        reader.invalid (withMagic buffers.headerMagic) s := by
  rw [Reader.loop]
  dsimp only
  rw [storeLoop_magic located.magic]
  cases compared : strcmp magic (withMagic buffers.headerMagic) with
  | none => rfl
  | some order =>
      have nonzero : order ≠ 0 := fun zero => other (by rw [compared, zero])
      simp only [Option.bind_eq_bind, Option.bind_some, if_neg nonzero]

variable {layout : Kmem.Layout} {ranges : List (Nat × Nat)}
  {m m' m₁ : Machine (Kmem.KernelHeap layout ranges)} {r header first last fuel : Nat} {e : Entry}
  {entries : List Entry} {bytes : List UInt8} {filename magic : Nat → UInt8} {buffers buffers' : Buffers}
  {live rest : List Nat} {k : Known} {result : Option Unit}

/-- The contents of an entry do not go to the archive. -/
theorem entry_archive (holds : Holds m.fs.heap live) (reserved : (first, last) ∈ ranges)
    (located : Located m.bytes header e) (isName : IsString filename e.name)
    (after : first ≤ header) (before : header + e.dataStart + e.data.length ≤ last)
    (entered : (initramfsReader r).entry header (BitVec.ofNat 32 (e.name.length + 1)) filename m =
      some (m₁, result)) :
    initramfsEntry m.fs r (toName e.name) e.data.length = some m₁.fs ∧ result = none ∧
      ∀ a, first ≤ a → a < last → m₁.bytes a = m.bytes a := by
  rw [initramfsReader_entry located isName] at entered
  obtain ⟨fs, added, rest⟩ := Option.bind_eq_some_iff.mp entered
  obtain ⟨bytes, copied, same⟩ := Option.map_eq_some_iff.mp rest
  cases same
  obtain ⟨uses, run, _⟩ := holds
  obtain ⟨uses₁, run₁, _⟩ := run.allocated nodeSize
  exact ⟨added, rfl, (copyTo_spec run₁ reserved (by omega) before located.data copied).2.1⟩

theorem MachineTwin.unrecognised (twin : MachineTwin k rest m m') (located : Located m.bytes header e)
    (located' : Located m'.bytes header e) (other : strcmp magic (withMagic buffers.headerMagic) ≠ some 0)
    (sameMagic : buffers'.headerMagic = buffers.headerMagic) :
    Both (fun (_ : Unit) _ a b => ∃ k', MachineTwin k' rest a b) ()
      ((initramfsReader r).loop magic (fuel + 1) header buffers m)
      ((initramfsReader r).loop magic (fuel + 1) header buffers' m') := by
  rw [@loop_unrecognised _ _ (initramfsReader r) _ _ _ m _ located other,
    @loop_unrecognised _ _ (initramfsReader r) _ _ _ m' _ located' (sameMagic ▸ other), sameMagic]
  cases strcmp magic (withMagic buffers.headerMagic) with
  | none => exact .stop
  | some order => exact .pure ⟨k, twin⟩

/-- Both kernels load the same archive. -/
theorem MachineTwin.loop (twin : MachineTwin k rest m m') (member : r ∈ k.vnodes)
    (encoded : Encoded entries bytes) (stored : Stored m.bytes header bytes) (small : bytes.length < 2 ^ 32)
    (known : ∀ i < bytes.length, header + i ∈ k.bytes) (reserved : (first, last) ∈ ranges)
    (after : first ≤ header) (before : header + bytes.length ≤ last)
    (sameMagic : buffers'.headerMagic = buffers.headerMagic) :
    Both (fun (_ : Unit) _ a b => ∃ k', MachineTwin k' rest a b) ()
      ((initramfsReader r).loop magic fuel header buffers m)
      ((initramfsReader r).loop magic fuel header buffers' m') := by
  induction encoded generalizing k m m' header fuel buffers buffers' with
  | @trailer data bytes isLast =>
      cases fuel with
      | zero => exact .stop
      | succ fuel =>
          have stored' : Stored m'.bytes header bytes :=
            stored.congr fun i inside => twin.bytes _ (known i inside)
          have located := isLast.located stored (by simp only; decide) (by simp only; decide) small
          have located' := isLast.located stored' (by simp only; decide) (by simp only; decide) small
          by_cases recognised : strcmp magic (withMagic buffers.headerMagic) = some 0
          · obtain ⟨_, _, round⟩ := @loop_recognised _ _ (initramfsReader r) _ _ _ m _ recognised located
            obtain ⟨_, _, round'⟩ := @loop_recognised _ _ (initramfsReader r) _ _ _ m' _
              (sameMagic ▸ recognised) located'
            rw [round, round', if_pos rfl, if_pos rfl]
            exact .pure ⟨k, twin⟩
          · exact twin.unrecognised located located' recognised sameMagic
  | @entry e entries bytes behind proper shortName other isFirst later ih =>
      cases fuel with
      | zero => exact .stop
      | succ fuel =>
          rw [List.length_append] at small before known
          have length := isFirst.length
          have padding : e.data.length ≤ Boot.padded e.data.length := by unfold Boot.padded; omega
          have within : e.dataStart + e.data.length ≤ bytes.length := by unfold Entry.length at length; omega
          have stored' : Stored m'.bytes header bytes :=
            stored.left.congr fun i inside => twin.bytes _ (known i (by omega))
          have located := isFirst.located stored.left proper shortName (by omega)
          have located' := isFirst.located stored' proper shortName (by omega)
          by_cases recognised : strcmp magic (withMagic buffers.headerMagic) = some 0
          · obtain ⟨filename, isName, round⟩ := @loop_recognised _ _ (initramfsReader r) _ _ _ m _ recognised located
            obtain ⟨filename', isName', round'⟩ := @loop_recognised _ _ (initramfsReader r) _ _ _ m' _
              (sameMagic ▸ recognised) located'
            rw [round, round', if_neg other, if_neg other]
            have both := twin.entry member located located' isName isName' fun i below => known _ (by omega)
            cases entered : (initramfsReader r).entry header (BitVec.ofNat 32 (e.name.length + 1)) filename m with
            | none =>
                rw [entered] at both
                rw [Parallel.rel_none both]
                exact .stop
            | some next =>
                obtain ⟨m₁, result⟩ := next
                obtain ⟨_, isNone, kept⟩ := entry_archive twin.fs.holds reserved located isName after (by omega) entered
                subst isNone
                rw [entered] at both
                obtain ⟨m₁', _, entered', _, k₁, more, moreBytes, twin₁⟩ := both.follow
                rw [entered']
                have storedRest : Stored m₁.bytes (header + e.length) behind := by
                  have stored₂ := stored.right
                  rw [length] at stored₂
                  exact stored₂.congr fun i inside => kept _ (by omega) (by omega)
                refine ih twin₁ (more member) storedRest (by omega) (fun i below => moreBytes ?_) (by omega) (by omega) ?_
                · rw [Nat.add_assoc]
                  exact known _ (by omega)
                · dsimp only
                  rw [sameMagic]
          · exact twin.unrecognised located located' recognised sameMagic

theorem loop_unchanged (located : Located m.bytes header e)
    (other : strcmp magic (withMagic buffers.headerMagic) ≠ some 0)
    (looped : (initramfsReader r).loop magic (fuel + 1) header buffers m = some (m₁, ())) : m₁ = m := by
  rw [@loop_unrecognised _ _ (initramfsReader r) _ _ _ m _ located other] at looped
  obtain ⟨_, _, same⟩ := Option.bind_eq_some_iff.mp looped
  cases same
  rfl

/-- What the loop does to the file system are rounds of the file system's own loop. -/
theorem loop_refines {root : Nat} {V : Set Nat} {own others : List Nat} (sound : Sound m.fs root V own others)
    (member : r ∈ V) (clear : (m.fs.vnodes r).mount = none) (encoded : Encoded entries bytes)
    (stored : Stored m.bytes header bytes) (small : bytes.length < 2 ^ 32) (reserved : (first, last) ∈ ranges)
    (after : first ≤ header) (before : header + bytes.length ≤ last)
    (looped : (initramfsReader r).loop magic fuel header buffers m = some (m₁, ())) :
    ∃ files : List (Name × Nat),
      files.foldlM (fun s file => initramfsEntry s r file.1 file.2) m.fs = some m₁.fs := by
  induction encoded generalizing m V own header fuel buffers with
  | @trailer data bytes isLast =>
      cases fuel with
      | zero => cases looped
      | succ fuel =>
          have located := isLast.located stored (by simp only; decide) (by simp only; decide) small
          refine ⟨[], congrArg (fun m : Machine _ => some m.fs) (Eq.symm ?_)⟩
          by_cases recognised : strcmp magic (withMagic buffers.headerMagic) = some 0
          · obtain ⟨_, _, round⟩ := @loop_recognised _ _ (initramfsReader r) _ _ _ m _ recognised located
            rw [round, if_pos rfl] at looped
            cases looped
            rfl
          · exact loop_unchanged located recognised looped
  | @entry e entries bytes rest proper shortName other isFirst later ih =>
      cases fuel with
      | zero => cases looped
      | succ fuel =>
          rw [List.length_append] at small before
          have length := isFirst.length
          have padding : e.data.length ≤ Boot.padded e.data.length := by unfold Boot.padded; omega
          have within : e.dataStart + e.data.length ≤ bytes.length := by unfold Entry.length at length; omega
          have located := isFirst.located stored.left proper shortName (by omega)
          by_cases recognised : strcmp magic (withMagic buffers.headerMagic) = some 0
          · obtain ⟨filename, isName, round⟩ := @loop_recognised _ _ (initramfsReader r) _ _ _ m _ recognised located
            rw [round, if_neg other] at looped
            obtain ⟨⟨m₂, result⟩, entered, looped⟩ := Option.bind_eq_some_iff.mp looped
            obtain ⟨added, isNone, kept⟩ :=
              entry_archive sound.holds reserved located isName after (by omega) entered
            subst isNone
            have behind : Stored m₂.bytes (header + e.length) rest := by
              have stored₂ := stored.right
              rw [length] at stored₂
              exact stored₂.congr fun i inside => kept _ (by omega) (by omega)
            obtain ⟨⟨V₂, own₂, effect, _, sound₂, _, change⟩, clear₂⟩ :=
              Fs.initramfsEntry_spec sound member clear added
            obtain ⟨files, folded⟩ := ih sound₂ (change.larger member) clear₂ behind (by omega) (by omega)
              (by omega) looped
            refine ⟨(toName e.name, e.data.length) :: files, ?_⟩
            rw [List.foldlM_cons, added]
            exact folded
          · exact ⟨[], congrArg (fun m : Machine _ => some m.fs) (loop_unchanged located recognised looped).symm⟩

end Loop

/-! ## The start -/

theorem vfsInit_eq (magic : Nat → UInt8) (buffers : Buffers) (fuel cpioAddr : Nat) (m : Machine H) :
    vfsInit magic buffers fuel cpioAddr m = (Fs.vfsInitRoot m.fs).bind fun fs =>
      if fs.rootfs = none then some { m with fs := fs }
      else (Fs.prepareArchive fs).bind fun fs => (Fs.mountArchive fs).bind fun (fs, node) =>
        (initramfsInit magic buffers fuel cpioAddr { m with fs := fs } node).bind fun m =>
          (Fs.makeDevices m.fs).map fun fs => { m with fs := fs } := by
  unfold vfsInit Fs.prepareArchive Fs.mountArchive Fs.makeDevices
  simp only [Option.bind_eq_bind, Option.bind_assoc, Option.pure_def, Option.bind_some, Option.map_bind,
    Function.comp_def, Option.map_some]

/-- The archive is in memory that the heap leaves alone. -/
structure ArchiveAt (ranges : List (Nat × Nat)) (memory : Nat → UInt8) (cpioAddr cpioEnd : Nat)
    (entries : List Entry) (bytes : List UInt8) : Prop where
  encoded : Encoded entries bytes
  stored : Stored memory cpioAddr bytes
  small : bytes.length < 2 ^ 32
  reserved : (cpioAddr, cpioEnd) ∈ ranges
  within : cpioAddr + bytes.length ≤ cpioEnd

section Start

variable {layout : Kmem.Layout} {ranges : List (Nat × Nat)}
  {m m' m₁ : Machine (Kmem.KernelHeap layout ranges)} {magic : Nat → UInt8} {buffers : Buffers}
  {fuel cpioAddr cpioEnd root r : Nat} {entries : List Entry} {bytes : List UInt8} {V : Set Nat}
  {own others rest : List Nat} {k : Known}

/-- The archive in memory becomes files as it does in the file system by itself. -/
theorem initramfsInit_refines (sound : Sound m.fs root V own others) (member : r ∈ V)
    (clear : (m.fs.vnodes r).mount = none) (archive : ArchiveAt ranges m.bytes cpioAddr cpioEnd entries bytes)
    (loaded : initramfsInit magic buffers fuel cpioAddr m r = some m₁) :
    ∃ files, Fs.initramfsInit m.fs r files = some m₁.fs := by
  unfold initramfsInit at loaded
  obtain ⟨n, internal, loaded⟩ := Option.bind_eq_some_iff.mp loaded
  obtain ⟨⟨m₂, _⟩, looped, same⟩ := Option.bind_eq_some_iff.mp loaded
  cases same
  obtain ⟨files, folded⟩ := loop_refines
    (m := { m with fs := m.fs.setNode n { m.fs.nodes n with type := .directory } }) (sound.retype n .directory)
    member clear archive.encoded archive.stored archive.small archive.reserved (Nat.le_refl _) archive.within looped
  refine ⟨files, ?_⟩
  unfold Fs.initramfsInit
  rw [internal]
  exact folded

theorem vfsInit_refines (holds : Holds m.fs.heap others) (unregistered : m.fs.filesystems = [])
    (clean : CleanStart m.fs) (archive : ArchiveAt ranges m.bytes cpioAddr cpioEnd entries bytes)
    (booted : vfsInit magic buffers fuel cpioAddr m = some m₁) :
    ∃ files, Fs.vfsInit m.fs files = some m₁.fs := by
  rw [vfsInit_eq] at booted
  obtain ⟨s₁, atRoot, booted⟩ := Option.bind_eq_some_iff.mp booted
  split at booted
  · next missing =>
      cases booted
      refine ⟨[], ?_⟩
      rw [Fs.vfsInit_eq, atRoot, Option.bind_some, if_pos missing]
  · next present =>
      obtain ⟨s₂, prepared, booted⟩ := Option.bind_eq_some_iff.mp booted
      obtain ⟨⟨s₃, node⟩, mounts, booted⟩ := Option.bind_eq_some_iff.mp booted
      obtain ⟨m₂, loads, booted⟩ := Option.bind_eq_some_iff.mp booted
      obtain ⟨s₄, devices, same⟩ := Option.map_eq_some_iff.mp booted
      cases same
      obtain ⟨root, own, sound₁, directory, _⟩ := Fs.vfsInitRoot_spec holds unregistered atRoot present
      obtain ⟨V₂, own₂, sound₂, marks₂, directories₂, _⟩ := Fs.prepareArchive_sound sound₁ directory prepared
      obtain ⟨V₃, own₃, sound₃, _, member, clear⟩ := Fs.mountArchive_sound sound₂ marks₂ directories₂
        (clean s₁ s₂ atRoot present prepared) mounts
      obtain ⟨files, loaded⟩ := initramfsInit_refines (m := { m with fs := s₃ }) sound₃ member clear archive loads
      refine ⟨files, ?_⟩
      rw [Fs.vfsInit_eq, atRoot, Option.bind_some, if_neg present, prepared, Option.bind_some, mounts,
        Option.bind_some]
      dsimp only
      rw [show Fs.initramfsInit s₃ node files = some m₂.fs from loaded]
      exact devices

theorem MachineTwin.initramfsInit (member : r ∈ k.vnodes) (same : m'.fs.vnodes r = m.fs.vnodes r)
    (twin : ∀ n, (m.fs.vnodes r).internal = some n →
      MachineTwin k rest { m with fs := m.fs.retype n } { m' with fs := m'.fs.retype n })
    (archive : ArchiveAt ranges m.bytes cpioAddr cpioEnd entries bytes)
    (known : ∀ i < bytes.length, cpioAddr + i ∈ k.bytes)
    (loaded : Archive.initramfsInit magic buffers fuel cpioAddr m r = some m₁) :
    ∃ m₁' k', Archive.initramfsInit magic buffers fuel cpioAddr m' r = some m₁' ∧
      MachineTwin k' rest m₁ m₁' := by
  unfold Archive.initramfsInit at loaded ⊢
  obtain ⟨n, internal, loaded⟩ := Option.bind_eq_some_iff.mp loaded
  obtain ⟨⟨m₂, _⟩, looped, isLast⟩ := Option.bind_eq_some_iff.mp loaded
  cases isLast
  have both : Both (fun (_ : Unit) _ a b => ∃ k', MachineTwin k' rest a b) ()
      ((initramfsReader r).loop magic fuel cpioAddr buffers { m with fs := m.fs.retype n })
      ((initramfsReader r).loop magic fuel cpioAddr buffers { m' with fs := m'.fs.retype n }) :=
    (twin n internal).loop member archive.encoded archive.stored archive.small known archive.reserved
      (Nat.le_refl _) archive.within rfl
  rw [show (initramfsReader r).loop magic fuel cpioAddr buffers { m with fs := m.fs.retype n } =
    some (m₁, ()) from looped] at both
  obtain ⟨m₂', _, looped', _, k', twin'⟩ := both.follow
  refine ⟨m₂', k', ?_, twin'⟩
  rw [same, internal]
  exact Option.bind_eq_some_iff.mpr ⟨n, rfl, Option.bind_eq_some_iff.mpr ⟨_, looped', rfl⟩⟩

/-- Two kernels with the same heap and the same archive start together if the memory of
the root of the archive is clean in both. -/
theorem vfsInit_twin (holds : Holds m.fs.heap others) (heap : m'.fs.heap = m.fs.heap)
    (unregistered : m.fs.filesystems = []) (unregistered' : m'.fs.filesystems = [])
    (clean : CleanStart m.fs) (clean' : CleanStart m'.fs)
    (archive : ArchiveAt ranges m.bytes cpioAddr cpioEnd entries bytes)
    (archive' : ArchiveAt ranges m'.bytes cpioAddr cpioEnd entries bytes)
    (booted : vfsInit magic buffers fuel cpioAddr m = some m₁) (running : m₁.fs.rootfs ≠ none) :
    ∃ m₁' k, vfsInit magic buffers fuel cpioAddr m' = some m₁' ∧ MachineTwin k others m₁ m₁' := by
  rw [vfsInit_eq] at booted ⊢
  obtain ⟨s₁, atRoot, booted⟩ := Option.bind_eq_some_iff.mp booted
  split at booted
  · next missing =>
      cases booted
      exact absurd missing running
  · next present =>
      obtain ⟨s₂, prepared, booted⟩ := Option.bind_eq_some_iff.mp booted
      obtain ⟨⟨s₃, node⟩, mounts, booted⟩ := Option.bind_eq_some_iff.mp booted
      obtain ⟨m₂, loads, booted⟩ := Option.bind_eq_some_iff.mp booted
      obtain ⟨s₄, devices, same⟩ := Option.map_eq_some_iff.mp booted
      cases same
      obtain ⟨t₁, k₁, atRoot', noBytes, twin₁⟩ := Fs.vfsInitRoot_twin holds heap unregistered unregistered' atRoot present
      have present' : t₁.rootfs ≠ none := twin₁.shared.rootfs ▸ present
      obtain ⟨t₂, k₂, prepared', larger₂, twin₂⟩ :=
        (twin₁.addBytes {a | cpioAddr ≤ a ∧ a < cpioAddr + bytes.length}).prepareArchive prepared
      obtain ⟨root, own, sound₁, directory, _⟩ := Fs.vfsInitRoot_spec holds unregistered atRoot present
      obtain ⟨V₂, own₂, sound₂, _⟩ := Fs.prepareArchive_sound sound₁ directory prepared
      obtain ⟨root', own', sound₁', directory', _⟩ :=
        Fs.vfsInitRoot_spec (heap ▸ holds) unregistered' atRoot' present'
      obtain ⟨V₂', own₂', sound₂', _⟩ := Fs.prepareArchive_sound sound₁' directory' prepared'
      obtain ⟨t₃, k₃, mounts', larger₃, member, sameNode, twin₃⟩ := twin₂.mountArchive sound₂ sound₂'
        (clean s₁ s₂ atRoot present prepared) (clean' t₁ t₂ atRoot' present' prepared') mounts
      have bytes₃ : k₃.bytes = {a | cpioAddr ≤ a ∧ a < cpioAddr + bytes.length} := by
        rw [Known.bytes_eq (larger₂.trans larger₃)]
        exact (congrArg _ noBytes).trans (Set.union_empty _)
      have sameArchive : ∀ a ∈ k₃.bytes, m'.bytes a = m.bytes a := by
        intro a inside
        rw [bytes₃] at inside
        obtain ⟨i, rfl⟩ := Nat.exists_eq_add_of_le inside.1
        have below : i < bytes.length := Nat.lt_of_add_lt_add_left inside.2
        have cell := List.getElem?_eq_getElem below
        exact (archive'.stored.cell cell).trans (archive.stored.cell cell).symm
      obtain ⟨m₂', k₄, loads', twin₄⟩ := @MachineTwin.initramfsInit _ _ { m with fs := s₃ } { m' with fs := t₃ }
        _ _ _ _ _ _ _ _ _ _ _ member sameNode (fun n internal => ⟨twin₃ n internal, sameArchive⟩) archive
        (fun i below => by rw [bytes₃]; exact ⟨Nat.le_add_right _ _, Nat.add_lt_add_left below _⟩) loads
      obtain ⟨t₄, k₅, devices', larger₅, twin₅⟩ := twin₄.fs.makeDevices devices
      refine ⟨{ m₂' with fs := t₄ }, k₅, ?_, twin₅, fun a inside => ?_⟩
      · rw [atRoot', Option.bind_some, if_neg present', prepared', Option.bind_some, mounts', Option.bind_some]
        dsimp only
        rw [loads', Option.bind_some, devices']
        rfl
      · rw [Known.bytes_eq larger₅] at inside
        exact twin₄.bytes a inside

end Start

end OsdiKernel.Archive
