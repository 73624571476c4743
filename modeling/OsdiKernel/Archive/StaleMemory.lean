import OsdiKernel.Archive.Requests

/-!
# Memory that was not written

The root node of a mount of initramfs is the only structure that is read before
it is written.  Kernels that find it clean give the same answers, whatever else
their memory held.
-/

namespace OsdiKernel.Archive

open Allocator (Holds)
open Fs (Name State Known CwdOk CleanStart Continues Sound resolve maxChildren initramfsName)
open Parallel (Meets run)

variable {H : Type} [Allocator H]

/-! ## One kernel -/

/-- A vnode in use with its node.  A root is a directory, and the children are
vnodes of `V` as well. -/
structure ValidVnode (s : State H) (V : Set Nat) (live : List Nat) (v n : Nat) : Prop where
  internal : (s.vnodes v).internal = some n
  inUse : v ∈ live ∧ n ∈ live
  root : (s.vnodes v).parentIsMount = true → (s.nodes n).type = .directory
  count : 0 ≤ (s.nodes n).numChildren ∧ (s.nodes n).numChildren ≤ maxChildren
  child : ∀ i < (s.nodes n).numChildren.toNat, ∃ c ∈ V, (s.nodes n).children i = some c

/-- All vnodes of `V` are valid, and lookups and mounts lead to no others. -/
structure Intact (k : Kernel H) (V : Set Nat) (live : List Nat) : Prop where
  holds : Holds k.fs.heap live
  vnode : ∀ v ∈ V, ∃ n, ValidVnode k.fs V live v n
  found : ∀ thread pathname v, resolve k.fs.toGraph (k.cwd thread) pathname = some (0, some v) → v ∈ V
  mounted : ∀ v ∈ V, ∀ m, (k.fs.vnodes v).mount = some m →
    ∃ r ∈ V, (k.fs.mounts m).root = some r ∧ (k.fs.vnodes r).parentIsMount = true

/-- The file system is in order, and so are all current directories. -/
structure Orderly (k : Kernel H) (root : Nat) (V : Set Nat) (own : List Nat) : Prop where
  sound : Sound k.fs root V own (k.opened ++ k.others)
  cwds : ∀ thread, CwdOk k.fs.toGraph V (k.cwd thread)

section Orderly

variable {c : Known} {k k' : Kernel H} {s : State H} {opened others own : List Nat} {thread root : Nat}
  {V : Set Nat} {request : Request} {answer : Answer} {may : Fs.Effect → Prop}

theorem Orderly.after {used : List Nat} (orderly : Orderly k root V own)
    (continues : Continues k.fs.toGraph s root V own used may) (same : used.Perm (opened ++ others)) :
    ∃ V' own', Orderly (k.after s opened others) root V' own' ∧
      ∀ cwd, CwdOk k.fs.toGraph V cwd → CwdOk s.toGraph V' cwd := by
  obtain ⟨V', own', _, _, sound, _, change⟩ := continues
  have stays : ∀ cwd, CwdOk k.fs.toGraph V cwd → CwdOk s.toGraph V' cwd := fun cwd ok =>
    change.cwdOk orderly.sound.tree ok
  refine ⟨V', own', ⟨?_, fun thread => stays _ (orderly.cwds thread)⟩, stays⟩
  exact { sound with holds := Allocator.perm sound.holds (same.append_left own') }

/-- The same files are open, and the same pointers in use. -/
theorem Orderly.keep (orderly : Orderly k root V own)
    (continues : Continues k.fs.toGraph s root V own (k.opened ++ k.others) may) :
    ∃ V' own', Orderly (k.after s k.opened k.others) root V' own' := by
  obtain ⟨V', own', orderly', _⟩ := orderly.after continues (.refl _)
  exact ⟨V', own', orderly'⟩

theorem Orderly.setCwd {cwd : Option Nat} (orderly : Orderly k root V own) (ok : CwdOk k.fs.toGraph V cwd) :
    Orderly (k.setCwd thread cwd) root V own := by
  refine ⟨orderly.sound, fun other => ?_⟩
  unfold Kernel.setCwd
  dsimp only
  by_cases here : other = thread
  · rw [here, Function.update_self]
    exact ok
  · rw [Function.update_of_ne here]
    exact orderly.cwds other

/-- What happens to files is nothing to the tree. -/
theorem Orderly.files (orderly : Orderly k root V own) (files : Nat → Fs.File) :
    Orderly (k.after { k.fs with files := files } k.opened k.others) root V own :=
  ⟨⟨orderly.sound.tree, orderly.sound.used, orderly.sound.holds, orderly.sound.registered⟩, orderly.cwds⟩

theorem Orderly.step (orderly : Orderly k root V own) (allowed : k.Allowed request)
    (stepped : k.step request = some (k', answer)) : ∃ V' own', Orderly k' root V' own' := by
  have sound := orderly.sound
  obtain ⟨valid, clean⟩ := allowed
  unfold Kernel.step at stepped
  cases request with
  | spawn thread =>
      obtain ⟨r, isRoot, same⟩ := Option.map_eq_some_iff.mp stepped
      cases same
      rw [show k.fs.rootVnode = some (some root) from sound.tree.rootVnode] at isRoot
      cases isRoot
      refine ⟨V, own, orderly.setCwd ?_⟩
      rintro v same
      cases same
      exact ⟨sound.tree.root_mem, Fs.proper_of_clear sound.tree.rootMount⟩
  | chdir thread path =>
      obtain ⟨⟨s, result, target⟩, looked, same⟩ := Option.map_eq_some_iff.mp stepped
      cases same
      obtain ⟨V', own', orderly', stays⟩ := orderly.after (sound.lookup looked) (.refl _)
      refine ⟨V', own', orderly'.setCwd (stays target ?_)⟩
      rcases (Fs.vfsLookup_looked sound.holds looked).2 with failed | resolved
      · cases failed
        exact Fs.cwdOk_none
      · exact sound.tree.resolve_ok Fs.cwdOk_none resolved
  | lookup thread pathname =>
      obtain ⟨⟨s, result, target⟩, looked, same⟩ := Option.map_eq_some_iff.mp stepped
      cases same
      exact orderly.keep (sound.lookup looked)
  | mkdir thread pathname =>
      obtain ⟨⟨s, result, target⟩, made, same⟩ := Option.map_eq_some_iff.mp stepped
      cases same
      exact orderly.keep (sound.mkdir (orderly.cwds thread) made)
  | «open» thread pathname flags =>
      obtain ⟨⟨s, result, target⟩, opens, same⟩ := Option.map_eq_some_iff.mp stepped
      cases same
      have used : (if result = 0 then target.toList ++ (k.opened ++ k.others) else k.opened ++ k.others) =
          (if result = 0 then target.toList ++ k.opened else k.opened) ++ k.others := by
        rw [apply_ite (· ++ k.others), List.append_assoc]
      obtain ⟨V', own', orderly', _⟩ := orderly.after (sound.open (orderly.cwds thread) opens) (.of_eq used)
      exact ⟨V', own', orderly'⟩
  | mknod thread pathname fOps =>
      obtain ⟨⟨s, result⟩, made, same⟩ := Option.map_eq_some_iff.mp stepped
      cases same
      exact orderly.keep (sound.mknod (orderly.cwds thread) made)
  | mount thread targetPathname filesystemName =>
      obtain ⟨⟨s, result⟩, mounts, same⟩ := Option.map_eq_some_iff.mp stepped
      cases same
      exact orderly.keep (sound.mount (orderly.cwds thread) (fun named => (clean named).1) mounts)
  | close file =>
      obtain ⟨⟨s, result⟩, closes, same⟩ := Option.map_eq_some_iff.mp stepped
      cases same
      have continues := sound.close (List.mem_append_left k.others valid)
      rw [Option.some.inj closes] at continues
      obtain ⟨V', own', orderly', _⟩ := orderly.after continues (.of_eq (List.erase_append_left k.others valid))
      exact ⟨V', own', orderly'⟩
  | read file buf len =>
      obtain ⟨⟨m, result, bytes⟩, reads, same⟩ := Option.map_eq_some_iff.mp stepped
      cases same
      obtain ⟨files, rfl⟩ := initramfsRead_files reads
      exact ⟨V, own, orderly.files files⟩
  | seek file offset whence =>
      obtain ⟨⟨s, result⟩, sought, same⟩ := Option.map_eq_some_iff.mp stepped
      cases same
      obtain ⟨files, moved⟩ := vfsLseek64_files k.fs file offset whence
      rw [Option.some.inj sought] at moved
      dsimp only at moved
      rw [moved]
      exact ⟨V, own, orderly.files files⟩
  | alloc size =>
      obtain ⟨⟨s, target⟩, allocated, same⟩ := Option.map_eq_some_iff.mp stepped
      cases same
      have continues := sound.alloc size
      rw [Option.some.inj allocated] at continues
      obtain ⟨V', own', orderly', _⟩ := orderly.after continues
        (List.perm_append_comm_assoc target.toList k.opened k.others)
      exact ⟨V', own', orderly'⟩
  | free p =>
      cases stepped
      have freed : ((k.opened ++ k.others).erase p).Perm (k.opened ++ k.others.erase p) := by
        have swapped : ((k.opened ++ k.others).erase p).Perm ((k.others ++ k.opened).erase p) :=
          List.perm_append_comm.erase p
        rw [List.erase_append_left k.opened valid] at swapped
        exact swapped.trans List.perm_append_comm
      obtain ⟨V', own', orderly', _⟩ := orderly.after (sound.free (List.mem_append_right k.opened valid)) freed
      exact ⟨V', own', orderly'⟩

theorem Orderly.run {requests : List Request} {answers : List Answer} (orderly : Orderly k root V own)
    (meets : Meets Kernel.step Kernel.Allowed k requests)
    (ran : Parallel.run Kernel.step k requests = some (k', answers)) :
    ∃ V' own', Orderly k' root V' own' := by
  refine Parallel.run_keeps (I := fun k : Kernel H => ∃ V own, Orderly k root V own) ?_ ⟨V, own, orderly⟩ meets ran
  rintro before after request answer ⟨V₁, own₁, orderly₁⟩ allowed stepped
  exact orderly₁.step allowed stepped

/-- What two kernels know of each other is intact. -/
theorem Pair.intact (pair : Pair c k k') (orderly : Orderly k root V own) :
    Intact k (V ∩ c.vnodes) (own ++ (k.opened ++ k.others)) := by
  obtain ⟨tree, used, holds, _⟩ := orderly.sound
  have shared := pair.twin.fs.shared
  refine ⟨holds, ?_, fun thread pathname v resolved => ?_, ?_⟩
  · rintro v ⟨inTree, known⟩
    obtain ⟨n, internal⟩ := tree.internal inTree
    have node := shared.node known internal
    refine ⟨n, internal, ⟨List.mem_append_left _ (used.vnodes inTree),
      List.mem_append_left _ (used.nodes inTree internal)⟩, node.directory, tree.count inTree internal,
      fun i below => ?_⟩
    obtain ⟨child, member, isChild, _⟩ := tree.child inTree internal below
    exact ⟨child, ⟨member, (node.children i below child isChild).1⟩, isChild⟩
  · obtain ⟨u, _, _, same, inTree, _⟩ := Fs.resolve_located tree (orderly.cwds thread) resolved
    cases same
    have outcome := @Fs.Shared.resolve _ _ _ shared _ pathname (pair.cwds thread)
    exact ⟨inTree, outcome.known _ resolved v rfl⟩
  · rintro v ⟨inTree, known⟩ m isMount
    obtain ⟨r, member, t, _, ⟨isRoot, _, flag, _⟩, _⟩ := tree.mount inTree isMount
    exact ⟨r, ⟨member, shared.root (shared.mounted known m isMount) r isRoot⟩, isRoot, flag⟩

end Orderly

/-! ## The start -/

/-- What the start is given: the string that `strcmp` compares with and the arrays of
`initramfs_init`, the archive, and the pointers that the rest of the kernel has in use. -/
structure Setting where
  magic : Nat → UInt8
  buffers : Buffers
  fuel : Nat
  cpioAddr : Nat
  cpioEnd : Nat
  entries : List Entry
  bytes : List UInt8
  others : List Nat

/-- The kernel after `vfs_init`, before there are threads. -/
def Setting.boot (c : Setting) (m : Machine H) : Option (Kernel H) :=
  (vfsInit c.magic c.buffers c.fuel c.cpioAddr m).map fun m => ⟨m, fun _ => none, [], c.others⟩

section Start

variable {layout : Kmem.Layout} {ranges : List (Nat × Nat)} {c : Setting}
  {m m' : Machine (Kmem.KernelHeap layout ranges)} {k last : Kernel (Kmem.KernelHeap layout ranges)}
  {requests : List Request} {answers : List Answer}

/-- The kernel before `vfs_init`, with the archive in memory that the heap leaves alone. -/
structure Prior (c : Setting) (m : Machine (Kmem.KernelHeap layout ranges)) : Prop where
  holds : Holds m.fs.heap c.others
  unregistered : m.fs.filesystems = []
  archive : ArchiveAt ranges m.bytes c.cpioAddr c.cpioEnd c.entries c.bytes

theorem Prior.pair (prior : Prior c m) (prior' : Prior c m') (heap : m'.fs.heap = m.fs.heap)
    (clean : CleanStart m.fs) (clean' : CleanStart m'.fs) (booted : c.boot m = some k)
    (running : k.fs.rootfs ≠ none) : ∃ k' known, c.boot m' = some k' ∧ Pair known k k' := by
  obtain ⟨m₁, started, same⟩ := Option.map_eq_some_iff.mp booted
  cases same
  obtain ⟨m₁', known, started', twin⟩ := vfsInit_twin prior.holds heap prior.unregistered
    prior'.unregistered clean clean' prior.archive prior'.archive started running
  refine ⟨_, known, Option.map_eq_some_iff.mpr ⟨m₁', started', rfl⟩, twin, rfl, rfl, rfl, fun _ => Fs.within_none, ?_⟩
  intro f impossible
  cases impossible

theorem Prior.orderly (prior : Prior c m) (clean : CleanStart m.fs) (booted : c.boot m = some k)
    (running : k.fs.rootfs ≠ none) : ∃ root V own, Orderly k root V own := by
  obtain ⟨m₁, started, same⟩ := Option.map_eq_some_iff.mp booted
  cases same
  obtain ⟨files, inFs⟩ := vfsInit_refines prior.holds prior.unregistered clean prior.archive started
  obtain ⟨root, V, own, sound, _⟩ :=
    Fs.vfsInit_sound_of_clean prior.holds clean prior.unregistered inFs running
  exact ⟨root, V, own, sound, fun _ => Fs.cwdOk_none⟩

/-- After requests that find clean memory, all directories are intact. -/
theorem Prior.intact (prior : Prior c m) (clean : CleanStart m.fs) (booted : c.boot m = some k)
    (running : k.fs.rootfs ≠ none) (meets : Meets Kernel.step Kernel.Allowed k requests)
    (ran : run Kernel.step k requests = some (last, answers)) : ∃ V live, Intact last V live := by
  obtain ⟨k', known, booted', pair⟩ := prior.pair prior rfl clean clean booted running
  rw [booted] at booted'
  cases booted'
  have both := pair.run meets meets
  rw [ran] at both
  obtain ⟨last', known', _, _, pair'⟩ := both.follow
  obtain ⟨root, V, own, orderly⟩ := prior.orderly clean booted running
  obtain ⟨V', own', orderly'⟩ := orderly.run meets ran
  exact ⟨_, _, pair'.intact orderly'⟩

/-- Whatever was in memory before the start, the answers to requests are the same and
all directories are intact, if the root nodes of initramfs are found clean. -/
theorem mounts_ignore_memory (prior : Prior c m) (prior' : Prior c m') (heap : m'.fs.heap = m.fs.heap)
    (clean : CleanStart m.fs) (clean' : CleanStart m'.fs) (booted : c.boot m = some k)
    (running : k.fs.rootfs ≠ none) :
    ∃ k', c.boot m' = some k' ∧ ∀ requests, Meets Kernel.step Kernel.Allowed k requests →
      Meets Kernel.step Kernel.Allowed k' requests →
        (run Kernel.step k' requests).map Prod.snd = (run Kernel.step k requests).map Prod.snd ∧
          ∀ last answers, run Kernel.step k requests = some (last, answers) ∨
            run Kernel.step k' requests = some (last, answers) → ∃ V live, Intact last V live := by
  obtain ⟨k', known, booted', pair⟩ := prior.pair prior' heap clean clean' booted running
  have running' : k'.fs.rootfs ≠ none := pair.twin.fs.shared.rootfs ▸ running
  refine ⟨k', booted', fun requests meets meets' => ⟨?_, fun last answers ran => ?_⟩⟩
  · exact (pair.run meets meets').results
  · rcases ran with ran | ran'
    · exact prior.intact clean booted running meets ran
    · exact prior'.intact clean' booted' running' meets' ran'

/-! ### Two memories -/

/-- A kernel that has just booted, and unused memory that reads as an empty node. -/
def priorMachine (type : Tmpfs.NodeType) (name : Name) : Machine Fs.BootHeap where
  fs := { Fs.emptyState with nodes := fun _ => ⟨name, type, none, none, 0, 0, fun _ => none, 0⟩ }
  bytes a := fileArchive.getD a 0

def fileSetting : Setting where
  magic := literal magicText
  buffers := ⟨fun _ => 0, fun _ => 0⟩
  fuel := 2
  cpioAddr := 0
  cpioEnd := 0x1000
  entries := [⟨[97], [1, 2]⟩]
  bytes := fileArchive
  others := []

theorem priorMachine_holds (type : Tmpfs.NodeType) (name : Name) :
    Holds (priorMachine type name).fs.heap fileSetting.others := by
  unfold priorMachine Fs.emptyState fileSetting
  dsimp only
  exact Fs.bootHeap_holds

theorem priorMachine_prior (type : Tmpfs.NodeType) (name : Name) : Prior fileSetting (priorMachine type name) := by
  have length := fileArchive_length
  refine ⟨priorMachine_holds type name, rfl, ?_⟩
  unfold fileSetting priorMachine
  dsimp only
  exact ⟨fileArchive_encoded, Stored.getD _ 0, by omega, List.mem_cons_of_mem _ List.mem_cons_self, by omega⟩

theorem priorMachine_clean (type : Tmpfs.NodeType) (name : Name) : CleanStart (priorMachine type name).fs :=
  Fs.Blank.cleanStart (fun _ _ => ⟨rfl, rfl⟩) (priorMachine_holds type name) rfl

/-- Kernels that have started in memory of empty files, and of empty directories
with and without a name. -/
def fileKernel : Kernel Fs.BootHeap := (fileSetting.boot (priorMachine .file [])).get (by decide +kernel)

def directoryKernel : Kernel Fs.BootHeap :=
  (fileSetting.boot (priorMachine .directory [])).get (by decide +kernel)

def namedKernel : Kernel Fs.BootHeap :=
  (fileSetting.boot (priorMachine .directory ['n'])).get (by decide +kernel)

theorem fileKernel_booted : fileSetting.boot (priorMachine .file []) = some fileKernel := (Option.some_get _).symm

theorem directoryKernel_booted : fileSetting.boot (priorMachine .directory []) = some directoryKernel :=
  (Option.some_get _).symm

theorem namedKernel_booted : fileSetting.boot (priorMachine .directory ['n']) = some namedKernel :=
  (Option.some_get _).symm

/-- A name is looked up below a new mount of initramfs. -/
def mountRequests : List Request :=
  [.mkdir 0 ['/', 'm'], .mount 0 ['/', 'm'] initramfsName, .lookup 0 ['/', 'm', '/', 'x']]

/-- The file of the archive is read as well; the heap puts its structure at 8048. -/
def readRequests : List Request :=
  mountRequests ++ [.open 0 ('/' :: (initramfsName ++ ['/', 'a'])) 0, .read 8048 true 5]

theorem mounts_ignore_memory_named :
    (run Kernel.step namedKernel readRequests).map Prod.snd =
      (run Kernel.step directoryKernel readRequests).map Prod.snd := by
  obtain ⟨k', booted', same⟩ := mounts_ignore_memory (priorMachine_prior .directory [])
    (priorMachine_prior .directory ['n']) rfl (priorMachine_clean .directory []) (priorMachine_clean .directory ['n'])
    directoryKernel_booted (by decide +kernel)
  have isNamed : namedKernel = k' := Option.some.inj (namedKernel_booted.symm.trans booted')
  rw [← isNamed] at same
  exact (same readRequests (by decide +kernel) (by decide +kernel)).1

/-- In memory of a file the mount succeeds as it does in memory of a directory, and
lookups below it fail in another way. -/
theorem mount_reads_memory :
    Prior fileSetting (priorMachine .file []) ∧ Prior fileSetting (priorMachine .directory []) ∧
      (priorMachine .directory []).fs.heap = (priorMachine .file []).fs.heap ∧
      fileSetting.boot (priorMachine .file []) = some fileKernel ∧
      fileSetting.boot (priorMachine .directory []) = some directoryKernel ∧ fileKernel.fs.rootfs ≠ none ∧
      Meets Kernel.step Kernel.Valid fileKernel mountRequests ∧
      Meets Kernel.step Kernel.Valid directoryKernel mountRequests ∧
      (run Kernel.step fileKernel mountRequests).map (fun after => after.2.map Answer.result) =
        some [0, 0, Fs.eacces] ∧
      (run Kernel.step directoryKernel mountRequests).map (fun after => after.2.map Answer.result) =
        some [0, 0, Fs.enoent] :=
  ⟨priorMachine_prior .file [], priorMachine_prior .directory [], rfl, fileKernel_booted, directoryKernel_booted,
    by decide +kernel, by decide +kernel, by decide +kernel, by decide +kernel, by decide +kernel⟩

end Start

end OsdiKernel.Archive
