import OsdiKernel.Fs.Atomicity
import OsdiKernel.Fs.StaleRoots

/-!
# The type of a mounted root

The root node of tmpfs is created as a directory.  That of initramfs is what
its memory held, and only the start of the kernel makes it a directory.  Two
kernels agree after a mount if its memory was that of an empty directory.
-/

namespace OsdiKernel.Fs

open Allocator (Holds)
open Parallel (Both)

variable {H : Type} [Allocator H]

/-! ## The setup -/

section Setup

variable {s s' : State H} {m n : Nat} {ops : FsType} {fOps : FileOps}

/-- The memory of the next node reads as a directory, if there is memory for a vnode besides. -/
def DirectoryRoot (s : State H) : Prop := ∀ n, (s.alloc nodeSize).2 = some n →
  ((s.alloc nodeSize).1.alloc vnodeSize).2 ≠ none → (s.nodes n).type = .directory

/-- The mount `m` has a new root vnode, and its node is a directory. -/
structure NewRoot (old : Nat → Vnode) (s' : State H) (m v n : Nat) : Prop where
  root : (s'.mounts m).root = some v
  internal : (s'.vnodes v).internal = some n
  clear : (s'.vnodes v).mount = none
  directory : (s'.nodes n).type = .directory
  vnodes : ∀ u, u ≠ v → s'.vnodes u = old u

theorem setupRoot_newRoot
    (directory : (s.alloc vnodeSize).2 ≠ none → (s.nodes n).type = .directory)
    (done : setupRoot s m n ops fOps = (s', 0)) : ∃ v, NewRoot s.vnodes s' m v n := by
  unfold setupRoot at done
  cases allocated : (s.alloc vnodeSize).2 with
  | none =>
      rw [alloc_eq allocated] at done
      cases (Prod.mk.inj done).2
  | some v =>
      have isDirectory := directory (by rw [allocated]; exact Option.some_ne_none v)
      rw [alloc_eq allocated] at done
      cases done
      exact ⟨v, congrArg Mount.root (setMount_self _), congrArg Vnode.internal (setVnode_self _),
        congrArg Vnode.mount (setVnode_self _), isDirectory, fun u other => setVnode_of_ne _ other⟩

theorem tmpfsSetupMount_newRoot (done : tmpfsSetupMount s m = (s', 0)) :
    ∃ v n, NewRoot s.vnodes s' m v n := by
  unfold tmpfsSetupMount tmpfsCreateInternalNode at done
  cases allocated : (s.alloc nodeSize).2 with
  | none =>
      rw [alloc_eq allocated] at done
      cases (Prod.mk.inj done).2
  | some n =>
      rw [alloc_eq allocated] at done
      obtain ⟨v, made⟩ := setupRoot_newRoot (fun _ => congrArg Node.type (setNode_self _)) done
      exact ⟨v, n, made⟩

theorem initramfsSetupMount_newRoot (directory : DirectoryRoot s)
    (done : initramfsSetupMount s m = (s', 0)) : ∃ v n, NewRoot s.vnodes s' m v n := by
  unfold initramfsSetupMount at done
  cases allocated : (s.alloc nodeSize).2 with
  | none =>
      rw [alloc_eq allocated] at done
      cases (Prod.mk.inj done).2
  | some n =>
      have isDirectory := directory n allocated
      rw [alloc_eq allocated] at done
      obtain ⟨v, made⟩ := setupRoot_newRoot isDirectory done
      exact ⟨v, n, made⟩

theorem setupMount_newRoot {fs : FsType} (directory : fs = .initramfs → DirectoryRoot s)
    (done : fs.setupMount s m = (s', 0)) : ∃ v n, NewRoot s.vnodes s' m v n := by
  cases fs with
  | tmpfs => exact tmpfsSetupMount_newRoot done
  | initramfs => exact initramfsSetupMount_newRoot (directory rfl) done

instance : Decidable (DirectoryRoot s) :=
  decidable_of_iff (∀ n ∈ (s.alloc nodeSize).2,
    ((s.alloc nodeSize).1.alloc vnodeSize).2 ≠ none → (s.nodes n).type = .directory) Iff.rfl

instance : Decidable (CleanRoot s) :=
  decidable_of_iff (∀ n ∈ (s.alloc nodeSize).2,
    (((s.alloc nodeSize).1.alloc vnodeSize).2 ≠ none → (s.nodes n).numChildren = 0) ∧
      (((s.alloc nodeSize).1.alloc vnodeSize).2 = none → (s.nodes n).data = none)) Iff.rfl

theorem DirectoryRoot.congr (directory : DirectoryRoot s) (heap : s'.heap = s.heap)
    (nodes : s'.nodes = s.nodes) : DirectoryRoot s' := by
  unfold DirectoryRoot State.alloc at *
  rw [heap, nodes]
  exact directory

end Setup

/-! ## The mount -/

section Mount

variable {s s' : State H} {cwd : Option Nat} {targetPathname filesystemName : Name} {d m v n : Nat}
  {fsToMount : Filesystem} {live : List Nat}

/-- A mount on the path finds memory that reads as a directory for its root node. -/
def DirectoryMemory (s : State H) (cwd : Option Nat) (targetPathname : Name) : Prop :=
  ∀ s' t, mountTarget s cwd targetPathname = some (s', t) → (s'.alloc mountSize).2 ≠ none →
    DirectoryRoot (s'.alloc mountSize).1

instance : Decidable (CleanMemory s cwd targetPathname) :=
  decidable_of_iff (∀ found ∈ mountTarget s cwd targetPathname,
      (found.1.alloc mountSize).2 ≠ none → CleanRoot (found.1.alloc mountSize).1)
    ⟨fun clean s' t isTarget => clean (s', t) isTarget, fun clean found isTarget => clean found.1 found.2 isTarget⟩

instance : Decidable (DirectoryMemory s cwd targetPathname) :=
  decidable_of_iff (∀ found ∈ mountTarget s cwd targetPathname,
      (found.1.alloc mountSize).2 ≠ none → DirectoryRoot (found.1.alloc mountSize).1)
    ⟨fun directory s' t isTarget => directory (s', t) isTarget,
      fun directory found isTarget => directory found.1 found.2 isTarget⟩

omit [Allocator H] in
theorem setParent_mount (s : State H) (v : Nat) (parent : Option Nat) (u : Nat) :
    ((s.setParent v parent).vnodes u).mount = (s.vnodes u).mount := by
  by_cases here : u = v
  · rw [here]
    exact (congrArg Vnode.mount (setVnode_self _)).trans rfl
  · exact congrArg Vnode.mount (setVnode_of_ne _ here)

omit [Allocator H] in
theorem setParent_internal (s : State H) (v : Nat) (parent : Option Nat) (u : Nat) :
    ((s.setParent v parent).vnodes u).internal = (s.vnodes u).internal := by
  by_cases here : u = v
  · rw [here]
    exact (congrArg Vnode.internal (setVnode_self _)).trans rfl
  · exact congrArg Vnode.internal (setVnode_of_ne _ here)

theorem mountOnto_directory
    (directory : fsToMount.setupMount = some .initramfs → (s.alloc mountSize).2 ≠ none →
      DirectoryRoot (s.alloc mountSize).1)
    (done : mountOnto s d fsToMount = some (s', 0)) (mount : (s'.vnodes d).mount = some m)
    (root : (s'.mounts m).root = some v) (internal : (s'.vnodes v).internal = some n) :
    (s'.nodes n).type = .directory := by
  unfold mountOnto at done
  cases allocated : (s.alloc mountSize).2 with
  | none =>
      rw [alloc_eq allocated] at done
      cases (Prod.mk.inj (Option.some.inj done)).2
  | some newMount =>
      have readsAs := fun isInitramfs =>
        directory isInitramfs (by rw [allocated]; exact Option.some_ne_none newMount)
      rw [alloc_eq allocated] at done
      dsimp only at done
      cases setup : fsToMount.setupMount with
      | none =>
          rw [setup] at done
          cases (Prod.mk.inj (Option.some.inj done)).2
      | some fs =>
          rw [setup] at done
          dsimp only at done
          generalize entered : ((s.alloc mountSize).1.setMount newMount ⟨none⟩).setVnode d
            { ((s.alloc mountSize).1.setMount newMount ⟨none⟩).vnodes d with mount := some newMount } = s₁
            at done
          have atTarget : (s₁.vnodes d).mount = some newMount := by
            rw [← entered]
            exact congrArg Vnode.mount (setVnode_self _)
          have unwritten : fs = .initramfs → DirectoryRoot s₁ := fun isInitramfs =>
            (readsAs (by rw [setup, isInitramfs])).congr (by rw [← entered]; rfl) (by rw [← entered]; rfl)
          cases after : fs.setupMount s₁ newMount with
          | mk s₂ setupResult =>
              rw [after] at done
              dsimp only at done
              by_cases failed : setupResult ≠ 0
              · rw [if_pos failed] at done
                exact absurd (Prod.mk.inj (Option.some.inj done)).2 failed
              · rw [if_neg failed] at done
                rw [not_not.mp failed] at after
                obtain ⟨w, x, made⟩ := setupMount_newRoot unwritten after
                rw [made.root] at done
                cases done
                -- the mount of the target is the new one, as the new root has none
                have kept : (s₂.vnodes d).mount = some m := (setParent_mount s₂ w (some d) d).symm.trans mount
                have other : d ≠ w := fun same => by
                  rw [same, made.clear] at kept
                  cases kept
                rw [made.vnodes d other, atTarget] at kept
                cases kept
                have isRoot : v = w := Option.some.inj (root.symm.trans made.root)
                rw [isRoot] at internal
                have isNode : n = x := Option.some.inj
                  (internal.symm.trans ((setParent_internal s₂ w (some d) w).trans made.internal))
                rw [isNode]
                exact made.directory

/-- After a mount that succeeds, the root on the vnode of its path is a directory. -/
theorem vfsMount_directory (holds : Holds s.heap live) (registered : Registered s)
    (directory : filesystemName = initramfsName → DirectoryMemory s cwd targetPathname)
    (mounted : vfsMount s cwd targetPathname filesystemName = some (s', 0))
    (target : resolve s.toGraph cwd targetPathname = some (0, some d))
    (mount : (s'.vnodes d).mount = some m) (root : (s'.mounts m).root = some v)
    (internal : (s'.vnodes v).internal = some n) : (s'.nodes n).type = .directory := by
  rcases vfsMount_cases mounted with ⟨_, nonzero, _⟩ | ⟨fsToMount, s₁, t, found, isTarget, onto⟩
  · exact absurd rfl nonzero
  · have isInitramfs : fsToMount.setupMount = some .initramfs → filesystemName = initramfsName := by
      intro setup
      rcases registered.find found with ⟨_, other⟩ | ⟨named, _⟩
      · rw [other] at setup
        cases setup
      · exact named
    rw [mountTarget_resolved holds isTarget] at target
    cases target
    exact mountOnto_directory (fun setup => directory (isInitramfs setup) s₁ d isTarget) onto mount root internal

/-- Both kernels mount a file system whose root is a directory, or both fail. -/
theorem Twin.mounts {k : Known} {rest : List Nat} {t : State H} (twin : Twin k rest s t)
    (known : Within k.vnodes cwd)
    (clean : filesystemName = initramfsName → CleanMemory s cwd targetPathname)
    (clean' : filesystemName = initramfsName → CleanMemory t cwd targetPathname)
    (directory : filesystemName = initramfsName → DirectoryMemory s cwd targetPathname)
    (directory' : filesystemName = initramfsName → DirectoryMemory t cwd targetPathname) :
    Together (fun _ => rest) (fun _ _ => True) k (Fs.vfsMount s cwd targetPathname filesystemName)
      (Fs.vfsMount t cwd targetPathname filesystemName) := by
  have mounted := twin.vfsMount known clean clean'
  cases first : Fs.vfsMount s cwd targetPathname filesystemName with
  | none =>
      rw [first] at mounted
      rw [Parallel.rel_none mounted]
      exact .stop
  | some after =>
      rw [first] at mounted
      obtain ⟨after', second, together⟩ := Parallel.rel_some mounted
      rw [second]
      cases together with
      | failed nonzero larger twin' => exact .go larger twin' trivial
      | @done k' s₁ t₁ d m v n target mount root larger member _ internal internal' twin' =>
          have outcome := @Shared.resolve _ _ _ twin.shared _ targetPathname known
          have targetKnown := Known.vnodes_mono larger (outcome.known _ target d rfl)
          have sameTarget : t₁.vnodes d = s₁.vnodes d := twin'.shared.vnode targetKnown
          have mountKnown : m ∈ k'.mounts := twin'.shared.mounted targetKnown m mount
          have sameMount : t₁.mounts m = s₁.mounts m := twin'.shared.mount mountKnown
          have isDirectory := vfsMount_directory twin.holds twin.registered directory first target mount root internal
          have isDirectory' := vfsMount_directory (twin.heap.symm ▸ twin.holds)
            (twin.registered.of_eq twin.systems) directory' second (outcome.same.trans target)
            (sameTarget ▸ mount) (sameMount ▸ root) internal'
          rw [retype_self isDirectory, retype_self isDirectory'] at twin'
          exact .go larger twin' trivial

end Mount

end OsdiKernel.Fs
