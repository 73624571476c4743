import OsdiKernel.Archive.Reading
import OsdiKernel.Archive.Twins
import OsdiKernel.Fs.RootTypes
import OsdiKernel.Sched.Descriptors

/-!
# Requests in different memory

After the start threads look up paths, mount file systems, and open and read
files, while the rest of the kernel uses the same heap.  Two kernels that agree on
what is known give the same answer to a request, and agree afterwards.
-/

namespace OsdiKernel.Archive

open Fs (Name State Known Twin Together KnownTarget Within CleanMemory DirectoryMemory FileOps
  initramfsName vfsClose)
open Parallel (Both Meets)
open Sched (vfsLseek64 fileLseek64 nodeLseek64 moveTo)

/-- The kernel, with the current directory of each thread, the files that are
open, and the pointers that the rest of the kernel has in use. -/
structure Kernel (H : Type) where
  machine : Machine H
  cwd : Nat → Option Nat
  opened : List Nat
  others : List Nat

inductive Request where
  | spawn (thread : Nat)
  | chdir (thread : Nat) (path : Name)
  | lookup (thread : Nat) (pathname : Name)
  | mkdir (thread : Nat) (pathname : Name)
  | open (thread : Nat) (pathname : Name) (flags : Nat)
  | mknod (thread : Nat) (pathname : Name) (fOps : FileOps)
  | mount (thread : Nat) (targetPathname filesystemName : Name)
  | close (file : Nat)
  | read (file : Nat) (buf : Bool) (len : Nat)
  | seek (file : Nat) (offset whence : Int)
  | alloc (size : Nat)
  | free (p : Nat)

/-- The return value, the pointer that is returned besides, and the bytes that were read. -/
structure Answer where
  result : Int
  target : Option Nat
  bytes : List UInt8
  deriving DecidableEq

variable {H : Type} [Allocator H]

namespace Kernel

def fs (k : Kernel H) : State H := k.machine.fs

/-- The file system has changed, and with it what is in use. -/
def after (k : Kernel H) (s : State H) (opened others : List Nat) : Kernel H :=
  { k with machine := { k.machine with fs := s }, opened := opened, others := others }

def setCwd (k : Kernel H) (thread : Nat) (cwd : Option Nat) : Kernel H :=
  { k with cwd := Function.update k.cwd thread cwd }

/-- A call on a path that opens nothing. -/
def call (k : Kernel H) (outcome : Option (State H × Int × Option Nat)) : Option (Kernel H × Answer) :=
  outcome.map fun (s, result, target) => (k.after s k.opened k.others, ⟨result, target, []⟩)

/-- A call that only returns whether it has succeeded. -/
def callCode (k : Kernel H) (outcome : Option (State H × Int)) : Option (Kernel H × Answer) :=
  outcome.map fun (s, result) => (k.after s k.opened k.others, ⟨result, none, []⟩)

/-- The kernel answers a request.  A new thread starts in the root, and `sys_chdir`
looks up a path with the current directory as its `*target`. -/
def step (k : Kernel H) : Request → Option (Kernel H × Answer)
  | .spawn thread => k.fs.rootVnode.map fun root => (k.setCwd thread root, ⟨0, none, []⟩)
  | .chdir thread path =>
      (Fs.vfsLookup k.fs none path).map fun (s, result, target) =>
        ((k.after s k.opened k.others).setCwd thread target, ⟨result, none, []⟩)
  | .lookup thread pathname => k.call (Fs.vfsLookup k.fs (k.cwd thread) pathname)
  | .mkdir thread pathname => k.call (Fs.vfsMkdir k.fs (k.cwd thread) pathname)
  | .open thread pathname flags =>
      (Fs.vfsOpen k.fs (k.cwd thread) pathname flags).map fun (s, result, target) =>
        (k.after s (if result = 0 then target.toList ++ k.opened else k.opened) k.others,
          ⟨result, target, []⟩)
  | .mknod thread pathname fOps => k.callCode (Fs.vfsMknod k.fs (k.cwd thread) pathname fOps)
  | .mount thread targetPathname filesystemName =>
      k.callCode (Fs.vfsMount k.fs (k.cwd thread) targetPathname filesystemName)
  | .close file =>
      (some (vfsClose k.fs file)).map fun (s, result) =>
        (k.after s (k.opened.erase file) k.others, ⟨result, none, []⟩)
  | .read file buf len =>
      (initramfsRead k.machine (some file) buf len).map fun (m, result, bytes) =>
        ({ k with machine := m }, ⟨result, none, bytes⟩)
  | .seek file offset whence => k.callCode (some (vfsLseek64 k.fs (some file) offset whence))
  | .alloc size =>
      (some (k.fs.alloc size)).map fun (s, target) =>
        (k.after s k.opened (target.toList ++ k.others), ⟨0, target, []⟩)
  | .free p => some (k.after (k.fs.free p) k.opened (k.others.erase p), ⟨0, none, []⟩)

/-- Files are open when they are used, and of initramfs when `initramfs_read` is
called; and the rest of the kernel frees what it has in use. -/
def Valid (k : Kernel H) : Request → Prop
  | .close file => file ∈ k.opened
  | .read file _ _ => file ∈ k.opened ∧ (k.fs.files file).fOps = some .initramfs
  | .seek file _ _ => file ∈ k.opened
  | .free p => p ∈ k.others
  | _ => True

/-- The memory of the root node of initramfs reads as an empty directory, and the
end of a read within a file does not wrap. -/
def Clean (k : Kernel H) : Request → Prop
  | .mount thread targetPathname filesystemName => filesystemName = initramfsName →
      CleanMemory k.fs (k.cwd thread) targetPathname ∧
        DirectoryMemory k.fs (k.cwd thread) targetPathname
  | .read file _ len => ∀ v n, (k.fs.files file).vnode = some v → (k.fs.vnodes v).internal = some n →
      len = 0 ∨ (k.fs.nodes n).size ≤ (k.fs.files file).fPos ∨ (k.fs.files file).fPos + len < 2 ^ 64
  | _ => True

def Allowed (k : Kernel H) (request : Request) : Prop := k.Valid request ∧ k.Clean request

instance (k : Kernel H) : DecidablePred k.Valid
  | .close file => inferInstanceAs (Decidable (file ∈ k.opened))
  | .read file _ _ => inferInstanceAs (Decidable (file ∈ k.opened ∧ (k.fs.files file).fOps = some .initramfs))
  | .seek file _ _ => inferInstanceAs (Decidable (file ∈ k.opened))
  | .free p => inferInstanceAs (Decidable (p ∈ k.others))
  | .spawn _ | .chdir _ _ | .lookup _ _ | .mkdir _ _ | .open _ _ _ | .mknod _ _ _ | .mount _ _ _
  | .alloc _ => .isTrue trivial

instance (k : Kernel H) : DecidablePred k.Clean
  | .mount thread targetPathname filesystemName =>
      inferInstanceAs (Decidable (filesystemName = initramfsName →
        CleanMemory k.fs (k.cwd thread) targetPathname ∧
          DirectoryMemory k.fs (k.cwd thread) targetPathname))
  | .read file _ len =>
      decidable_of_iff (∀ v ∈ (k.fs.files file).vnode, ∀ n ∈ (k.fs.vnodes v).internal,
          len = 0 ∨ (k.fs.nodes n).size ≤ (k.fs.files file).fPos ∨ (k.fs.files file).fPos + len < 2 ^ 64)
        ⟨fun fits v n isVnode internal => fits v isVnode n internal,
          fun fits v isVnode n internal => fits v n isVnode internal⟩
  | .spawn _ | .chdir _ _ | .lookup _ _ | .mkdir _ _ | .open _ _ _ | .mknod _ _ _ | .close _
  | .seek _ _ _ | .alloc _ | .free _ => .isTrue trivial

instance (k : Kernel H) (request : Request) : Decidable (k.Allowed request) :=
  inferInstanceAs (Decidable (k.Valid request ∧ k.Clean request))

end Kernel

/-! ## Open files -/

section Files

variable {k : Known} {rest : List Nat} {s t : State H} {m m' : Machine H} {f : Nat}

/-- A position that both kernels move to. -/
theorem moveTo_together {newPos : Option Int} (twin : Twin k rest s t) (isOpen : f ∈ k.files) :
    Together (fun _ => rest) (fun _ _ => True) k (some (moveTo s f newPos)) (some (moveTo t f newPos)) := by
  cases newPos with
  | none => exact .pure twin trivial
  | some newPos =>
      unfold moveTo
      dsimp only
      by_cases negative : newPos < 0
      · rw [if_pos negative, if_pos negative]
        exact .pure twin trivial
      · rw [if_neg negative, if_neg negative, twin.file isOpen]
        exact .go (Known.le_addFile k f) (twin.setFile (twin.opened isOpen)) trivial

theorem nodeLseek64_together {offset whence : Int} (twin : Twin k rest s t) (isOpen : f ∈ k.files) :
    Together (fun _ => rest) (fun _ _ => True) k (some (nodeLseek64 s f offset whence))
      (some (nodeLseek64 t f offset whence)) := by
  unfold nodeLseek64
  rw [twin.file isOpen]
  cases isVnode : (s.files f).vnode with
  | none => exact .pure twin trivial
  | some v =>
      have member := twin.opened isOpen v isVnode
      rw [Option.bind_some, Option.bind_some, twin.shared.vnode member]
      cases internal : (s.vnodes v).internal with
      | none => exact .pure twin trivial
      | some n =>
          have node := twin.shared.node member internal
          dsimp only
          rw [node.listing.type]
          by_cases regular : (s.nodes n).type = .file
          · rw [if_neg (not_not_intro regular), if_neg (not_not_intro regular), node.same_file regular]
            exact moveTo_together twin isOpen
          · rw [if_pos regular, if_pos regular]
            exact .pure twin trivial

theorem vfsLseek64_together {offset whence : Int} (twin : Twin k rest s t) (isOpen : f ∈ k.files) :
    Together (fun _ => rest) (fun _ _ => True) k (some (vfsLseek64 s (some f) offset whence))
      (some (vfsLseek64 t (some f) offset whence)) := by
  unfold vfsLseek64
  dsimp only
  rw [twin.file isOpen]
  cases kind : (s.files f).fOps with
  | none => exact .pure twin trivial
  | some ops =>
      have sought : Together (fun _ => rest) (fun _ _ => True) k (some (fileLseek64 ops s f offset whence))
          (some (fileLseek64 ops t f offset whence)) := by
        unfold fileLseek64
        cases ops with
        | tmpfs => exact nodeLseek64_together twin isOpen
        | initramfs => exact nodeLseek64_together twin isOpen
        | uart =>
            rw [twin.file isOpen]
            exact moveTo_together twin isOpen
        | framebuffer =>
            rw [twin.file isOpen]
            exact moveTo_together twin isOpen
      let returned : State H × Int → State H × Int := fun after => (after.1, Int.bmod after.2 (2 ^ 32))
      exact Both.map (f := returned) (g := returned) sought fun _ _ _ _ _ related => ⟨rfl, related⟩

omit [Allocator H] in
theorem vfsLseek64_files (s : State H) (f : Nat) (offset whence : Int) :
    ∃ files, (vfsLseek64 s (some f) offset whence).1 = { s with files := files } := by
  have moved : ∀ newPos, ∃ files, (moveTo s f newPos).1 = { s with files := files } := by
    intro newPos
    unfold moveTo
    split
    · exact ⟨s.files, rfl⟩
    · split
      · exact ⟨s.files, rfl⟩
      · exact ⟨_, rfl⟩
  have node : ∃ files, (nodeLseek64 s f offset whence).1 = { s with files := files } := by
    unfold nodeLseek64
    split
    · exact ⟨s.files, rfl⟩
    · split
      · exact ⟨s.files, rfl⟩
      · exact moved _
  unfold vfsLseek64
  dsimp only
  split
  · exact ⟨s.files, rfl⟩
  · next ops _ =>
      cases ops with
      | tmpfs => exact node
      | initramfs => exact node
      | uart => exact moved _
      | framebuffer => exact moved _

omit [Allocator H] in
theorem initramfsRead_files {file : Option Nat} {buf : Bool} {len : Nat} {result : Int} {bytes : List UInt8}
    (read : Archive.initramfsRead m file buf len = some (m', result, bytes)) :
    ∃ files, m' = { m with fs := { m.fs with files := files } } := by
  unfold Archive.initramfsRead at read
  dsimp only at read
  split at read
  · split at read
    · cases read
      exact ⟨m.fs.files, rfl⟩
    · split at read
      · cases read
        exact ⟨m.fs.files, rfl⟩
      · split at read
        · cases read
          exact ⟨m.fs.files, rfl⟩
        · obtain ⟨data, _, delivered⟩ := Option.bind_eq_some_iff.mp read
          rw [Option.pure_def, Option.some.injEq, Prod.mk.injEq] at delivered
          exact ⟨_, delivered.1.symm⟩
  · cases read
    exact ⟨m.fs.files, rfl⟩

/-- Both kernels read the same bytes of a file. -/
theorem MachineTwin.initramfsRead {buf : Bool} {len : Nat} (twin : MachineTwin k rest m m') (isOpen : f ∈ k.files)
    (fits : ∀ v n, (m.fs.files f).vnode = some v → (m.fs.vnodes v).internal = some n →
      len = 0 ∨ (m.fs.nodes n).size ≤ (m.fs.files f).fPos ∨ (m.fs.files f).fPos + len < 2 ^ 64) :
    Both (fun k _ => MachineTwin k rest) k (Archive.initramfsRead m (some f) buf len)
      (Archive.initramfsRead m' (some f) buf len) := by
  have unchanged : ∀ result : Int × List UInt8, Both (fun k (_ : Int × List UInt8) => MachineTwin k rest) k
      (some (m, result)) (some (m', result)) := fun result => .pure twin
  unfold Archive.initramfsRead
  simp only [Option.bind_eq_bind, Option.bind_some, Option.pure_def, twin.fs.file isOpen]
  cases isVnode : (m.fs.files f).vnode with
  | none => exact unchanged _
  | some v =>
      have member := twin.fs.opened isOpen v isVnode
      simp only [Option.bind_some, twin.fs.shared.vnode member]
      cases internal : (m.fs.vnodes v).internal with
      | none => exact unchanged _
      | some n =>
          have node := twin.fs.shared.node member internal
          cases buf with
          | false => exact unchanged _
          | true =>
              simp only [Option.bind_some, node.listing.type]
              refine Parallel.rel_ite (fun _ => unchanged _) fun nonzero => ?_
              refine Parallel.rel_ite (fun _ => unchanged _) fun regular => ?_
              have isFile := not_not.mp regular
              rw [node.same_file isFile, twin.fs.file isOpen]
              refine Parallel.rel_ite (fun _ => unchanged _) fun inside => ?_
              cases isData : (m.fs.nodes n).data with
              | none => exact Option.Rel.none
              | some data =>
                  have noWrap := ((fits v n isVnode internal).resolve_left nonzero).resolve_left inside
                  have clipped := @Tmpfs.readableLen_min (m.fs.nodes n).size _ _ noWrap
                  unfold Tmpfs.readableLen at clipped
                  simp only [Option.bind_some, clipped]
                  generalize isReadable : min len ((m.fs.nodes n).size - (m.fs.files f).fPos) = readable at *
                  have sameBytes : ∀ i ∈ List.range (readable % 2 ^ 32),
                      m'.bytes (data + (m.fs.files f).fPos + i) = m.bytes (data + (m.fs.files f).fPos + i) := by
                    intro i below
                    have below' := Nat.lt_of_lt_of_le (List.mem_range.mp below) (Nat.mod_le readable _)
                    rw [Nat.add_assoc]
                    refine twin.bytes _ (node.contents isFile data isData _ ?_)
                    omega
                  rw [List.map_congr_left sameBytes]
                  exact .some ⟨rfl, _, Known.le_addFile k f, twin.fs.setFile (twin.fs.opened isOpen), twin.bytes⟩

end Files

/-! ## Two kernels -/

/-- Two kernels that agree on what is known. -/
structure Pair (c : Known) (k k' : Kernel H) : Prop where
  twin : MachineTwin c (k.opened ++ k.others) k.machine k'.machine
  cwd : k'.cwd = k.cwd
  opened : k'.opened = k.opened
  others : k'.others = k.others
  cwds : ∀ thread, Within c.vnodes (k.cwd thread)
  files : ∀ f ∈ k.opened, f ∈ c.files

section Pair

variable {c c' : Known} {k k' : Kernel H} {s t : State H} {opened others : List Nat} {thread : Nat}
  {request : Request}

theorem Pair.after (pair : Pair c k k') (larger : c ≤ c') (twin : Twin c' (opened ++ others) s t)
    (files : ∀ f ∈ opened, f ∈ c'.files) : Pair c' (k.after s opened others) (k'.after t opened others) where
  twin := ⟨twin, fun a inside => pair.twin.bytes a (Known.bytes_eq larger ▸ inside)⟩
  cwd := pair.cwd
  opened := rfl
  others := rfl
  cwds thread := (pair.cwds thread).mono (Known.vnodes_mono larger)
  files := files

/-- The same files are open, and the same pointers in use. -/
theorem Pair.keep (pair : Pair c k k') (larger : c ≤ c') (twin : Twin c' (k.opened ++ k.others) s t) :
    Pair c' (k.after s k.opened k.others) (k'.after t k'.opened k'.others) := by
  rw [pair.opened, pair.others]
  exact pair.after larger twin fun f isOpen => Known.files_mono larger (pair.files f isOpen)

theorem Pair.setCwd {cwd : Option Nat} (pair : Pair c k k') (known : Within c.vnodes cwd) :
    Pair c (k.setCwd thread cwd) (k'.setCwd thread cwd) where
  twin := pair.twin
  cwd := by
    unfold Kernel.setCwd
    rw [pair.cwd]
  opened := pair.opened
  others := pair.others
  cwds other := by
    unfold Kernel.setCwd
    dsimp only
    by_cases here : other = thread
    · rw [here, Function.update_self]
      exact known
    · rw [Function.update_of_ne here]
      exact pair.cwds other
  files := pair.files

theorem Pair.call {first second : Option (State H × Int × Option Nat)} (pair : Pair c k k')
    (together : Together (fun _ => k.opened ++ k.others) KnownTarget c first second) :
    Both (fun c _ => Pair c) c (k.call first) (k'.call second) := by
  unfold Kernel.call
  exact Both.map together fun c' result s t larger related => ⟨rfl, pair.keep larger related.1⟩

theorem Pair.callCode {first second : Option (State H × Int)} (pair : Pair c k k')
    (together : Together (fun _ => k.opened ++ k.others) (fun _ _ => True) c first second) :
    Both (fun c _ => Pair c) c (k.callCode first) (k'.callCode second) := by
  unfold Kernel.callCode
  exact Both.map together fun c' result s t larger related => ⟨rfl, pair.keep larger related.1⟩

/-- Both kernels give the same answer to a request, and agree afterwards. -/
theorem Pair.step (pair : Pair c k k') (allowed : k.Allowed request) (allowed' : k'.Allowed request) :
    Both (fun c _ => Pair c) c (k.step request) (k'.step request) := by
  have twin : Twin c (k.opened ++ k.others) k.fs k'.fs := pair.twin.fs
  obtain ⟨valid, clean⟩ := allowed
  unfold Kernel.step
  cases request with
  | spawn thread =>
      have root := twin.shared.rootVnode
      dsimp only
      rw [show k'.fs.rootVnode = k.fs.rootVnode from root.same]
      cases isRoot : k.fs.rootVnode with
      | none => exact .stop
      | some r => exact .pure (pair.setCwd (root.known r isRoot))
  | chdir thread path =>
      exact Both.map (twin.lookup Fs.within_none) fun c' _ s t larger related =>
        ⟨rfl, (pair.keep larger related.1).setCwd related.2⟩
  | lookup thread pathname =>
      dsimp only
      rw [pair.cwd]
      exact pair.call (twin.lookup (pair.cwds thread))
  | mkdir thread pathname =>
      dsimp only
      rw [pair.cwd]
      exact pair.call (twin.vfsMkdir (pair.cwds thread))
  | «open» thread pathname flags =>
      dsimp only
      rw [pair.cwd]
      refine Both.map (twin.vfsOpen (pair.cwds thread)) fun c' result s t larger related => ⟨rfl, ?_⟩
      obtain ⟨twin', newFile⟩ := related
      rw [pair.opened, pair.others]
      refine pair.after larger ?_ fun f isOpen => ?_
      · unfold Fs.withOpened at twin'
        split at twin'
        · next success =>
            rw [if_pos success, List.append_assoc]
            exact twin'
        · next failed =>
            rw [if_neg failed]
            exact twin'
      · split at isOpen
        · next success =>
            obtain ⟨f', isFile, known⟩ := newFile success
            rw [isFile] at isOpen
            rcases List.mem_cons.mp isOpen with rfl | old
            · exact known
            · exact Known.files_mono larger (pair.files f old)
        · exact Known.files_mono larger (pair.files f isOpen)
  | mknod thread pathname fOps =>
      dsimp only
      rw [pair.cwd]
      exact pair.callCode (twin.vfsMknod (pair.cwds thread))
  | mount thread targetPathname filesystemName =>
      have clean' := allowed'.2
      unfold Kernel.Clean at clean clean'
      dsimp only at clean clean' ⊢
      rw [pair.cwd] at clean' ⊢
      exact pair.callCode (twin.mounts (pair.cwds thread) (fun named => (clean named).1)
        (fun named => (clean' named).1) (fun named => (clean named).2) fun named => (clean' named).2)
  | close file =>
      have isOpen : file ∈ k.opened := valid
      have together := twin.vfsClose (pair.files file isOpen) (List.mem_append_left k.others isOpen)
      rw [List.erase_append_left k.others isOpen] at together
      refine Both.map together fun c' result s t larger related => ⟨rfl, ?_⟩
      rw [pair.opened, pair.others]
      exact pair.after larger related.1 fun f stays =>
        Known.files_mono larger (pair.files f (List.mem_of_mem_erase stays))
  | read file buf len =>
      have read := @MachineTwin.initramfsRead _ _ _ _ _ _ _ buf _ pair.twin (pair.files file valid.1) clean
      refine Both.map read fun c' result m m' larger related => ⟨rfl, ?_⟩
      exact { pair.keep larger related.fs with twin := related }
  | seek file offset whence => exact pair.callCode (vfsLseek64_together twin (pair.files file valid))
  | alloc size =>
      refine Both.map (twin.allocates size) fun c' target s t larger related => ⟨rfl, ?_⟩
      rw [pair.opened, pair.others]
      refine pair.after larger (related.1.rearrange ?_) fun f isOpen => Known.files_mono larger (pair.files f isOpen)
      exact List.perm_append_comm_assoc target.toList k.opened k.others
  | free p =>
      have split : (k.opened ++ k.others).Perm (k.opened ++ p :: k.others.erase p) :=
        (List.perm_cons_erase valid).append_left k.opened
      dsimp only
      rw [pair.opened, pair.others]
      exact .pure (pair.after (le_refl c) (twin.rearrange split).free_later pair.files)

/-- Both kernels give the same answers in a run. -/
theorem Pair.run {requests : List Request} (pair : Pair c k k')
    (meets : Meets Kernel.step Kernel.Allowed k requests)
    (meets' : Meets Kernel.step Kernel.Allowed k' requests) :
    Both (fun c _ => Pair c) c (Parallel.run Kernel.step k requests) (Parallel.run Kernel.step k' requests) :=
  Parallel.run_both (fun _ _ _ _ related allowed allowed' => related.step allowed allowed') pair meets meets'

end Pair

end OsdiKernel.Archive
