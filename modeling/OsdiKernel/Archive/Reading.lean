import OsdiKernel.Archive.Initramfs
import OsdiKernel.Tmpfs.Reading

/-!
# Reads of both file systems

The bytes that a read copies are bytes of the file, just if its end does not
wrap and its length fits in the return value.
-/

namespace OsdiKernel.Archive

open Tmpfs (ReadsWithin ReadFits readableLen readsWithin_iff tmpfsRead_within_iff firstNode Run
  behindFirst behindFirst_run behindFirst_file)

section Reading

variable {H : Type} {m m' : Machine H} {f v n len : Nat} {result : Int} {bytes : List UInt8}

/-- The bytes of a file; nothing is read from a null pointer. -/
def contentOf (m : Machine H) (n : Nat) : Nat → UInt8 := fun i => m.bytes ((m.fs.nodes n).data.getD 0 + i)

theorem initramfsRead_within_iff (isVnode : (m.fs.files f).vnode = some v)
    (internal : (m.fs.vnodes v).internal = some n) (regular : (m.fs.nodes n).type = .file)
    (word : len < 2 ^ 64)
    (read : initramfsRead m (some f) true len = some (m', result, bytes)) :
    ReadsWithin (contentOf m n) (m.fs.nodes n).size (m.fs.files f).fPos len
        result bytes (m'.fs.files f).fPos ↔
      ReadFits (m.fs.nodes n).size (m.fs.files f).fPos len := by
  unfold initramfsRead at read
  simp only [isVnode, internal, Option.bind_eq_bind, Option.bind_some, Option.pure_def] at read
  split at read
  · next zero =>
      cases read
      exact iff_of_true .nothing (.inl zero)
  · next nonzero =>
      rw [if_neg (not_not_intro regular)] at read
      split at read
      · next atEnd =>
          cases read
          exact iff_of_true .nothing (.inr (.inl atEnd))
      · next before =>
          obtain ⟨data, isData, read⟩ := Option.bind_eq_some_iff.mp read
          rw [Option.some.injEq, Prod.mk.injEq, Prod.mk.injEq] at read
          obtain ⟨rfl, rfl, rfl⟩ := read
          refine Iff.trans (iff_of_eq ?_) (readsWithin_iff (contentOf m n) nonzero
            (Nat.lt_of_not_le before) word)
          unfold Fs.State.setFile contentOf
          simp only [Function.update_self, Nat.add_assoc, readableLen, isData, Option.getD_some]

end Reading

/-- A read of a file stays within it just if it fits. -/
theorem reads_within_iff (len : Nat) (word : len < 2 ^ 64) :
    (∀ (m : Tmpfs.Machine) target f n, m.internal target = some (f, n) →
      (m.nodes n).type = .file →
        (ReadsWithin (fun i => m.bytes ((m.nodes n).data + i)) (m.nodes n).size (m.files f).fPos len
            (Tmpfs.tmpfsRead m target true len).2.1 (Tmpfs.tmpfsRead m target true len).2.2
            ((Tmpfs.tmpfsRead m target true len).1.files f).fPos ↔
          ReadFits (m.nodes n).size (m.files f).fPos len)) ∧
    ∀ (H : Type) (m m' : Machine H) f v n result bytes, (m.fs.files f).vnode = some v →
      (m.fs.vnodes v).internal = some n → (m.fs.nodes n).type = .file →
      initramfsRead m (some f) true len = some (m', result, bytes) →
        (ReadsWithin (contentOf m n) (m.fs.nodes n).size (m.fs.files f).fPos len
            result bytes (m'.fs.files f).fPos ↔
          ReadFits (m.fs.nodes n).size (m.fs.files f).fPos len) :=
  ⟨fun _ _ _ _ isOpen regular => tmpfsRead_within_iff isOpen regular word,
    fun _ _ _ _ _ _ _ _ isVnode internal regular read =>
      initramfsRead_within_iff isVnode internal regular word read⟩

/-- A machine with one open file of the archive, of two bytes. -/
def archiveFile : Machine Unit where
  fs :=
    { vnodes := fun _ => ⟨none, some .initramfs, some .initramfs, some 0, none, false⟩
      nodes := fun _ => ⟨[], .file, none, some 100, 2, 2, fun _ => none, 0⟩
      mounts := fun _ => ⟨none⟩
      rootfs := none
      heap := ()
      files := fun _ => ⟨some 0, 1, some .initramfs, 0⟩
      filesystems := [] }
  bytes _ := 7

theorem reads_within_second :
    ReadsWithin (fun i => behindFirst.bytes ((behindFirst.nodes firstNode).data + i)) 2 1 5
        (Tmpfs.tmpfsRead behindFirst (some 0) true 5).2.1
        (Tmpfs.tmpfsRead behindFirst (some 0) true 5).2.2
        ((Tmpfs.tmpfsRead behindFirst (some 0) true 5).1.files 0).fPos ∧
      ReadsWithin (contentOf archiveFile 0) 2 1 5 1 [7] 2 := by
  obtain ⟨isOpen, regular, size, position⟩ := behindFirst_file
  have inTmpfs := (reads_within_iff 5 (by decide)).1 behindFirst (some 0) 0 firstNode isOpen regular
  rw [size, position] at inTmpfs
  refine ⟨inTmpfs.mpr (by unfold ReadFits; decide), ?_⟩
  have delivers : ((initramfsRead archiveFile (some 0) true 5).map fun after =>
      (after.2, (after.1.fs.files 0).fPos)) = some ((1, [7]), 2) := by decide +kernel
  obtain ⟨⟨m', result, bytes⟩, read, same⟩ := Option.map_eq_some_iff.mp delivers
  simp only [Prod.mk.injEq] at same
  obtain ⟨⟨rfl, rfl⟩, moved⟩ := same
  have inArchive := (reads_within_iff 5 (by decide)).2 Unit archiveFile m' 0 0 0 1 [7] rfl rfl rfl read
  rw [moved] at inArchive
  exact inArchive.mpr (by unfold ReadFits; decide)

/-- A read of `2 ^ 64 - 1` bytes behind the first byte copies bytes behind the file. -/
theorem read_wraps :
    ∃ live m A f n, Run Kmem.smallImage
        [(Kmem.imageStart, Kmem.smallImage.stackTop), (0, 0x1000)] live m A ∧
      m.internal (some f) = some (f, n) ∧ (m.nodes n).type = .file ∧
      ¬ ReadsWithin (fun i => m.bytes ((m.nodes n).data + i)) (m.nodes n).size (m.files f).fPos
        (2 ^ 64 - 1) (Tmpfs.tmpfsRead m (some f) true (2 ^ 64 - 1)).2.1
        (Tmpfs.tmpfsRead m (some f) true (2 ^ 64 - 1)).2.2
        ((Tmpfs.tmpfsRead m (some f) true (2 ^ 64 - 1)).1.files f).fPos := by
  obtain ⟨live, A, run⟩ := behindFirst_run
  obtain ⟨isOpen, regular, size, position⟩ := behindFirst_file
  refine ⟨live, behindFirst, A, 0, firstNode, run, isOpen, regular, ?_⟩
  rw [tmpfsRead_within_iff isOpen regular (by decide), size, position]
  unfold ReadFits
  decide

end OsdiKernel.Archive
