import OsdiKernel.Fs.Start
import OsdiKernel.Kmem.Allocator
import OsdiKernel.Tmpfs.Safety

/-!
# Threads and the file system

Threads take their steps in any order, each from its own current directory.
The rest of the kernel uses the same heap.  In every state that is reached the
file system is in order.
-/

namespace OsdiKernel.Fs

open Allocator (Holds)

variable {H : Type} [Allocator H]

/-- The file system, the current directory of each thread, the pointers that
the rest of the kernel has in use, and the vnodes on which a mount has
succeeded. -/
structure System (H : Type) where
  state : State H
  cwd : Nat → Option Nat
  others : List Nat
  mounted : Set Nat

inductive Op where
  | spawn (thread : Nat)
  | chdir (thread : Nat) (path : Name)
  | mkdir (thread : Nat) (pathname : Name)
  | open (thread : Nat) (pathname : Name) (flags : Nat)
  | mknod (thread : Nat) (pathname : Name) (fOps : FileOps)
  | mount (thread : Nat) (targetPathname filesystemName : Name)
  | close (file : Nat)
  | alloc (size : Nat)
  | free (p : Nat)

namespace System

def setState (sys : System H) (s : State H) : System H := { sys with state := s }

def setCwd (sys : System H) (thread : Nat) (cwd : Option Nat) : System H :=
  { sys with cwd := Function.update sys.cwd thread cwd }

/-- The vnode on which a mount with this result is. -/
def mountPoint (sys : System H) (thread : Nat) (targetPathname : Name) (result : Int) : Set Nat :=
  {t | result = 0 ∧
    resolve sys.state.toGraph (sys.cwd thread) targetPathname = some (0, some t)}

end System

/-- One operation.  A new thread starts in the root, and `sys_chdir` looks up a
path with the current directory as its `*target`, which is null from the start.
A mount of initramfs is only considered where unused memory reads as zero. -/
inductive Step (sys : System H) : Op → System H → Prop
  | spawn {thread : Nat} {root : Option Nat} (isRoot : sys.state.rootVnode = some root) :
      Step sys (.spawn thread) (sys.setCwd thread root)
  | chdir {thread : Nat} {path : Name} {s : State H} {result : Int} {target : Option Nat}
      (looked : vfsLookup sys.state none path = some (s, result, target)) :
      Step sys (.chdir thread path) ((sys.setState s).setCwd thread target)
  | mkdir {thread : Nat} {pathname : Name} {s : State H} {result : Int} {target : Option Nat}
      (made : vfsMkdir sys.state (sys.cwd thread) pathname = some (s, result, target)) :
      Step sys (.mkdir thread pathname) (sys.setState s)
  | open {thread : Nat} {pathname : Name} {flags : Nat} {s : State H} {result : Int}
      {target : Option Nat}
      (opened : vfsOpen sys.state (sys.cwd thread) pathname flags = some (s, result, target)) :
      Step sys (.open thread pathname flags)
        { sys with
          state := s
          others := if result = 0 then target.toList ++ sys.others else sys.others }
  | mknod {thread : Nat} {pathname : Name} {fOps : FileOps} {s : State H} {result : Int}
      (made : vfsMknod sys.state (sys.cwd thread) pathname fOps = some (s, result)) :
      Step sys (.mknod thread pathname fOps) (sys.setState s)
  | mount {thread : Nat} {targetPathname filesystemName : Name} {s : State H} {result : Int}
      (blank : filesystemName = initramfsName →
        ∀ live, Holds sys.state.heap live → Blank sys.state.toGraph live)
      (made : vfsMount sys.state (sys.cwd thread) targetPathname filesystemName =
        some (s, result)) :
      Step sys (.mount thread targetPathname filesystemName)
        { sys with
          state := s
          mounted := sys.mountPoint thread targetPathname result ∪ sys.mounted }
  | close {file : Nat} (inUse : file ∈ sys.others) :
      Step sys (.close file)
        { sys with state := (vfsClose sys.state file).1, others := sys.others.erase file }
  | alloc {size : Nat} :
      Step sys (.alloc size)
        { sys with
          state := (sys.state.alloc size).1
          others := (sys.state.alloc size).2.toList ++ sys.others }
  | free {p : Nat} (inUse : p ∈ sys.others) :
      Step sys (.free p) { sys with state := sys.state.free p, others := sys.others.erase p }

/-- The system after `vfs_init`, which found no file system and unused memory
that reads as zero.  No thread has started yet. -/
inductive Booted : System H → Prop
  | init {s s' : State H} {archive : List (Name × Nat)} {others : List Nat}
      (holds : Holds s.heap others) (blank : Blank s.toGraph others)
      (unregistered : s.filesystems = []) (booted : vfsInit s archive = some s')
      (running : s'.rootfs ≠ none) :
      Booted ⟨s', fun _ => none, others, {v | bootTarget s = some v}⟩

/-- The states that are reached by steps which are all allowed. -/
inductive Reachable (allowed : System H → Op → Prop) : System H → Prop
  | boot {sys : System H} (booted : Booted sys) : Reachable allowed sys
  | step {sys sys' : System H} {op : Op} (reached : Reachable allowed sys)
      (ok : allowed sys op) (stepped : Step sys op sys') : Reachable allowed sys'

/-! ## The invariant -/

/-- The file system is in order, and so are all current directories. -/
structure Running (sys : System H) (root : Nat) (V : Set Nat) (own : List Nat) : Prop where
  sound : Sound sys.state root V own sys.others
  cwds : ∀ thread, CwdOk sys.state.toGraph V (sys.cwd thread)

/-- The effects that an operation may have on the tree. -/
def Op.may (sys : System H) (root : Nat) : Op → Effect → Prop
  | .spawn _ => Quiet
  | .chdir _ _ => Quiet
  | .mkdir thread pathname =>
      MayCreate sys.state.toGraph root (sys.cwd thread) pathname .directory
  | .open thread pathname flags => fun effect => effect = .none ∨
      flags &&& oCreat ≠ 0 ∧ MayCreate sys.state.toGraph root (sys.cwd thread) pathname .file effect
  | .mknod thread pathname _ => MayCreate sys.state.toGraph root (sys.cwd thread) pathname .file
  | .mount thread targetPathname _ => fun effect => effect = .none ∨
      ∃ t, effect = .mount t ∧
        resolve sys.state.toGraph (sys.cwd thread) targetPathname = some (0, some t)
  | .close _ => Quiet
  | .alloc _ => Quiet
  | .free _ => Quiet

section Invariant

variable {sys sys' : System H} {op : Op} {root : Nat} {V : Set Nat} {own : List Nat}

/-- A step changes the tree as its operation may, and records the new mount points. -/
theorem Running.step (running : Running sys root V own) (stepped : Step sys op sys') :
    ∃ V' own' effect, Running sys' root V' own' ∧ op.may sys root effect ∧
      sys'.mounted = effect.points ∪ sys.mounted ∧
      Change sys.state.toGraph sys'.state.toGraph V effect V' := by
  obtain ⟨sound, cwds⟩ := running
  have unmarked : ∀ {T : Set Nat} {effect : Effect}, effect.points = ∅ → T = effect.points ∪ T := by
    intro T effect none_
    rw [none_, Set.empty_union]
  cases stepped with
  | @spawn thread root' isRoot =>
      refine ⟨V, own, .none, ⟨sound, fun other => ?_⟩, rfl, unmarked rfl, .same (.refl _ _)⟩
      by_cases here : other = thread
      · subst here
        change CwdOk _ V (Function.update sys.cwd other root' other)
        rw [Function.update_self]
        rw [sound.tree.rootVnode] at isRoot
        cases isRoot
        rintro v same
        cases same
        exact ⟨sound.tree.root_mem, proper_of_clear sound.tree.rootMount⟩
      · change CwdOk _ V (Function.update sys.cwd thread root' other)
        rw [Function.update_of_ne here]
        exact cwds other
  | @chdir thread path s result target looked =>
      obtain ⟨V', own', effect, _, sound', rfl, change⟩ := sound.lookup looked
      refine ⟨V', own', .none, ⟨sound', fun other => ?_⟩, rfl, unmarked rfl, change⟩
      by_cases here : other = thread
      · subst here
        change CwdOk _ V' (Function.update sys.cwd other target other)
        rw [Function.update_self]
        apply change.cwdOk sound.tree
        rcases (vfsLookup_looked sound.holds looked).2 with failed | resolved
        · cases failed
          exact cwdOk_none
        · exact sound.tree.resolve_ok cwdOk_none resolved
      · change CwdOk _ V' (Function.update sys.cwd thread target other)
        rw [Function.update_of_ne here]
        exact change.cwdOk sound.tree (cwds other)
  | @mkdir thread pathname s result target made =>
      obtain ⟨V', own', effect, _, sound', may, change⟩ := sound.mkdir (cwds thread) made
      exact ⟨V', own', effect, ⟨sound', fun other => change.cwdOk sound.tree (cwds other)⟩, may,
        unmarked may.points, change⟩
  | @«open» thread pathname flags s result target opened =>
      obtain ⟨V', own', effect, _, sound', may, change⟩ := sound.open (cwds thread) opened
      refine ⟨V', own', effect, ⟨sound', fun other => change.cwdOk sound.tree (cwds other)⟩, may,
        unmarked ?_, change⟩
      rcases may with rfl | ⟨_, may⟩
      · rfl
      · exact may.points
  | @mknod thread pathname fOps s result made =>
      obtain ⟨V', own', effect, _, sound', may, change⟩ := sound.mknod (cwds thread) made
      exact ⟨V', own', effect, ⟨sound', fun other => change.cwdOk sound.tree (cwds other)⟩, may,
        unmarked may.points, change⟩
  | @mount thread targetPathname filesystemName s result blank made =>
      obtain ⟨V', own', effect, _, sound', may, change⟩ :=
        sound.mount (cwds thread)
          (fun isInitramfs => (blank isInitramfs _ sound.holds).cleanMemory sound.holds) made
      refine ⟨V', own', effect, ⟨sound', fun other => change.cwdOk sound.tree (cwds other)⟩, ?_, ?_,
        change⟩
      · rcases may with ⟨_, rfl⟩ | ⟨_, t, rfl, resolved⟩
        · exact Or.inl rfl
        · exact Or.inr ⟨t, rfl, resolved⟩
      · apply congrArg (· ∪ sys.mounted)
        ext v
        rcases may with ⟨failed, rfl⟩ | ⟨success, t, rfl, resolved⟩
        · simp [System.mountPoint, Effect.points, failed]
        · simp [System.mountPoint, Effect.points, success, resolved]
  | @close file inUse =>
      obtain ⟨V', own', effect, _, sound', rfl, change⟩ := sound.close inUse
      exact ⟨V', own', .none, ⟨sound', fun other => change.cwdOk sound.tree (cwds other)⟩, rfl,
        unmarked rfl, change⟩
  | @alloc size =>
      obtain ⟨V', own', effect, _, sound', rfl, change⟩ := sound.alloc size
      exact ⟨V', own', .none, ⟨sound', fun other => change.cwdOk sound.tree (cwds other)⟩, rfl,
        unmarked rfl, change⟩
  | @free p inUse =>
      obtain ⟨V', own', effect, _, sound', rfl, change⟩ := sound.free inUse
      exact ⟨V', own', .none, ⟨sound', fun other => change.cwdOk sound.tree (cwds other)⟩, rfl,
        unmarked rfl, change⟩

theorem Booted.running (booted : Booted sys) :
    ∃ root V own, Running sys root V own ∧ Marks sys.state.toGraph V sys.mounted := by
  cases booted with
  | init holds blank unregistered booted running =>
      obtain ⟨root, V, own, sound, marks⟩ := vfsInit_sound holds blank unregistered booted running
      exact ⟨root, V, own, ⟨sound, fun _ => cwdOk_none⟩, marks⟩

/-- In every state that is reached, the file system is in order. -/
theorem Reachable.running {allowed : System H → Op → Prop} (reached : Reachable allowed sys) :
    ∃ root V own, Running sys root V own := by
  induction reached with
  | boot booted =>
      obtain ⟨root, V, own, running, _⟩ := booted.running
      exact ⟨root, V, own, running⟩
  | step _ _ stepped ih =>
      obtain ⟨root, V, own, running⟩ := ih
      obtain ⟨V', own', _, running', _⟩ := running.step stepped
      exact ⟨root, V', own', running'⟩

end Invariant

/-! ## A kernel that has just booted -/

/-- The heap of a kernel that has just booted from the small image. -/
abbrev BootHeap : Type :=
  Kmem.KernelHeap Kmem.smallImage [(Kmem.imageStart, Kmem.smallImage.stackTop), (0, 0x1000)]

def bootHeap : BootHeap := Tmpfs.bootedMachine.heap

theorem bootHeap_holds : Holds bootHeap [] := by
  unfold bootHeap Tmpfs.bootedMachine
  dsimp only
  exact ⟨[], .boot Kmem.smallImage_boot.1 Kmem.smallImage_boot.2 List.mem_cons_self, .refl []⟩

def emptyState : State BootHeap where
  vnodes _ := ⟨none, none, none, none, none, false⟩
  nodes _ := ⟨[], .file, none, none, 0, 0, fun _ => none, 0⟩
  mounts _ := ⟨none⟩
  rootfs := none
  heap := bootHeap
  files _ := ⟨none, 0, none, 0⟩
  filesystems := []

theorem eq_some_get {α β : Type} {o : Option (α × β)} (isSome : o.isSome) {b : β}
    (second : (o.get isSome).2 = b) : o = some ((o.get isSome).1, b) := by
  subst second
  exact (Option.some_get isSome).symm

/-- The state after `vfs_init` without an archive. -/
def initState : State BootHeap := (vfsInit emptyState []).get (by decide +kernel)

/-- The vnode of the root directory. -/
def initRoot : Nat := (initState.rootVnode.bind id).get (by decide +kernel)

theorem init_root : initState.rootVnode = some (some initRoot) := by decide +kernel

def initSystem : System BootHeap where
  state := initState
  cwd _ := none
  others := []
  mounted := {t | bootTarget emptyState = some t}

theorem initSystem_state : initSystem.state = initState := by
  unfold initSystem
  dsimp only

theorem init_booted : Booted initSystem := by
  have holds : Holds emptyState.heap [] := by
    unfold emptyState
    dsimp only
    exact bootHeap_holds
  have blank : Blank emptyState.toGraph [] := fun _ _ => ⟨rfl, rfl⟩
  have booted : vfsInit emptyState [] = some initState := (Option.some_get _).symm
  have running : initState.rootfs ≠ none := by decide +kernel
  exact @Booted.init BootHeap _ emptyState initState [] [] holds blank rfl booted running

/-- The vnode of the directory "/dev". -/
def initDev : Nat :=
  ((resolve initState.toGraph none ['/', 'd', 'e', 'v']).bind fun outcome => outcome.2).get
    (by decide +kernel)

/-- Slashes and dots make no difference, and a lookup goes on from "/dev". -/
theorem lookup_is_fold_dev :
    lookupOutcome initState none ['/', 'd', 'e', 'v'] =
      lookupOutcome initState none ['/', '/', '.', '/', 'd', 'e', 'v', '/'] ∧
    lookupOutcome initState none ['/', 'd', 'e', 'v', '/', 'u', 'a', 'r', 't'] =
      lookupOutcome initState (some initDev) ['u', 'a', 'r', 't'] :=
  ⟨(lookup_is_fold initState none).1 _ _ (by decide +kernel) (by decide +kernel) rfl rfl,
    (lookup_is_fold initState none).2 ['/', 'd', 'e', 'v'] ['u', 'a', 'r', 't'] initDev
      (by decide +kernel) (by decide +kernel) (by decide +kernel) (by decide) (by decide +kernel) rfl⟩

end OsdiKernel.Fs
