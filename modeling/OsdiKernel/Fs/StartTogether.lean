import OsdiKernel.Fs.Hiding
import OsdiKernel.Fs.StaleRoots

/-!
# The start in different memory

Two kernels start with the same heap and no file systems, and with anything in
memory.  They go through the start together if the node that the root of the
archive is allocated in has no children in both.
-/

namespace OsdiKernel.Fs

open Allocator (Holds)
open Parallel (Both)

variable {H : Type} [Allocator H]

/-! ## The root -/

section Root

variable {s t s' : State H} {h : H} {p m n v : Nat} {others : List Nat}

/-- The heap after requests of these sizes. -/
def heapAfter (h : H) (sizes : List Nat) : H :=
  sizes.foldl (fun h size => (Allocator.alloc h size).1) h

/-- The pointers that the start of the root gets. -/
structure RootPointers (h : H) (p m n v : Nat) : Prop where
  system : (Allocator.alloc h filesystemSize).2 = some p
  mount : (Allocator.alloc (heapAfter h [filesystemSize]) mountSize).2 = some m
  node : (Allocator.alloc (heapAfter h [filesystemSize, mountSize]) nodeSize).2 = some n
  vnode : (Allocator.alloc (heapAfter h [filesystemSize, mountSize, nodeSize]) vnodeSize).2 = some v

/-- The node of the root directory. -/
def rootNode : Node := ⟨['/'], .directory, none, none, 0, 0, fun _ => none, 0⟩

/-- The state with an empty root directory. -/
def rootState (s : State H) (m n v : Nat) : State H where
  vnodes := Function.update s.vnodes v (rootOf n .tmpfs .tmpfs none)
  nodes := Function.update s.nodes n rootNode
  mounts := Function.update s.mounts m ⟨some v⟩
  rootfs := some m
  heap := heapAfter s.heap [filesystemSize, mountSize, nodeSize, vnodeSize]
  files := s.files
  filesystems := [⟨tmpfsName, some .tmpfs⟩]

/-- The state in which tmpfs is registered. -/
def registeredState (s : State H) : State H :=
  { (s.alloc filesystemSize).1 with filesystems := [⟨tmpfsName, some .tmpfs⟩] }

theorem registerFs_first (unregistered : s.filesystems = [])
    (system : (s.alloc filesystemSize).2 = some p) :
    registerFs s tmpfsName .tmpfs = some (registeredState s, 0) := by
  have registers : registerFilesystem (s.alloc filesystemSize).1 ⟨tmpfsName, some .tmpfs⟩ =
      (registeredState s, 0) := by
    unfold registerFilesystem registeredState
    simp [unregistered, maxFilesystems]
  unfold registerFs
  rw [alloc_eq system]
  exact congrArg some registers

theorem vfsInitRoot_some (unregistered : s.filesystems = []) (pointers : RootPointers s.heap p m n v) :
    vfsInitRoot s = some (rootState s m n v) := by
  obtain ⟨system, mount, node, vnode⟩ := pointers
  unfold vfsInitRoot
  rw [registerFs_first (s := s) unregistered system]
  simp only [Option.bind_eq_bind, Option.bind_some, Option.pure_def]
  generalize isFirst : registeredState s = s₁
  have heap₁ : s₁.heap = heapAfter s.heap [filesystemSize] := by
    rw [← isFirst]
    rfl
  have mount₁ : (s₁.alloc mountSize).2 = some m := by
    unfold State.alloc
    rw [heap₁]
    exact mount
  rw [alloc_eq mount₁]
  dsimp only
  generalize isSecond : ({ (s₁.alloc mountSize).1 with rootfs := some m } : State H) = s₂
  have heap₂ : s₂.heap = heapAfter s.heap [filesystemSize, mountSize] := by
    rw [← isSecond]
    unfold State.alloc
    rw [heap₁]
    rfl
  have node₂ : (s₂.alloc nodeSize).2 = some n := by
    unfold State.alloc
    rw [heap₂]
    exact node
  have vnode₂ : (((s₂.alloc nodeSize).1.setNode n rootNode).alloc vnodeSize).2 = some v := by
    unfold State.alloc State.setNode
    dsimp only
    rw [heap₂]
    exact vnode
  have created : tmpfsCreateInternalNode s₂ ['/'] .directory none =
      ((s₂.alloc nodeSize).1.setNode n rootNode, some n) := by
    unfold tmpfsCreateInternalNode
    rw [alloc_eq node₂]
    rfl
  have first : (s₁.alloc mountSize).1.filesystems.head? = some ⟨tmpfsName, some .tmpfs⟩ := by
    rw [← isFirst]
    rfl
  have setup : FsType.tmpfs.setupMount s₂ m =
      ((((((s₂.alloc nodeSize).1.setNode n rootNode).alloc vnodeSize).1.setMount m ⟨some v⟩).setVnode v
        { s₂.vnodes v with
          mount := none
          vOps := some .tmpfs
          fOps := some .tmpfs
          internal := some n
          parentIsMount := true }), 0) := by
    unfold FsType.setupMount tmpfsSetupMount
    dsimp only
    rw [created]
    unfold setupRoot
    dsimp only
    rw [alloc_eq vnode₂]
    rfl
  rw [first, Option.bind_some, Option.bind_some, setup, if_neg (not_not_intro rfl)]
  have last : (((((s₂.alloc nodeSize).1.setNode n rootNode).alloc vnodeSize).1.setMount m ⟨some v⟩).setVnode v
        { s₂.vnodes v with
          mount := none
          vOps := some .tmpfs
          fOps := some .tmpfs
          internal := some n
          parentIsMount := true }).mounts m = ⟨some v⟩ := setMount_self _
  rw [last, Option.bind_some]
  subst isSecond isFirst
  unfold State.setVnode State.setMount State.setNode Graph.setVnode Graph.setMount Graph.setNode
  simp only [Function.update_self, Function.update_idem]
  rfl

theorem vfsInitRoot_pointers (unregistered : s.filesystems = []) (made : vfsInitRoot s = some s')
    (running : s'.rootfs ≠ none) : ∃ p m n v, RootPointers s.heap p m n v := by
  unfold vfsInitRoot at made
  cases system : (s.alloc filesystemSize).2 with
  | none =>
      unfold registerFs at made
      rw [alloc_eq system] at made
      cases made
  | some p =>
      rw [registerFs_first unregistered system] at made
      simp only [Option.bind_eq_bind, Option.bind_some, Option.pure_def] at made
      generalize isFirst : registeredState s = s₁ at made
      have heap₁ : s₁.heap = heapAfter s.heap [filesystemSize] := by
        rw [← isFirst]
        rfl
      cases mount : (s₁.alloc mountSize).2 with
      | none =>
          rw [alloc_eq mount] at made
          cases made
          exact absurd rfl running
      | some m =>
          rw [alloc_eq mount] at made
          dsimp only at made
          generalize isSecond : ({ (s₁.alloc mountSize).1 with rootfs := some m } : State H) = s₂ at made
          have heap₂ : s₂.heap = heapAfter s.heap [filesystemSize, mountSize] := by
            rw [← isSecond]
            unfold State.alloc
            rw [heap₁]
            rfl
          have first : (s₁.alloc mountSize).1.filesystems.head? = some ⟨tmpfsName, some .tmpfs⟩ := by
            rw [← isFirst]
            rfl
          rw [first, Option.bind_some, Option.bind_some] at made
          unfold State.alloc at mount
          rw [heap₁] at mount
          cases node : (s₂.alloc nodeSize).2 with
          | none =>
              have failed : (FsType.tmpfs.setupMount s₂ m).2 = enomem := by
                unfold FsType.setupMount tmpfsSetupMount tmpfsCreateInternalNode
                rw [alloc_eq node]
              rw [if_pos (by rw [failed]; decide)] at made
              cases made
          | some n =>
              cases vnode : (((s₂.alloc nodeSize).1.setNode n rootNode).alloc vnodeSize).2 with
              | none =>
                  have failed : (FsType.tmpfs.setupMount s₂ m).2 = enomem := by
                    have created : tmpfsCreateInternalNode s₂ ['/'] .directory none =
                        ((s₂.alloc nodeSize).1.setNode n rootNode, some n) := by
                      unfold tmpfsCreateInternalNode
                      rw [alloc_eq node]
                      rfl
                    unfold FsType.setupMount tmpfsSetupMount
                    dsimp only
                    rw [created]
                    unfold setupRoot
                    dsimp only
                    rw [alloc_eq vnode]
                  rw [if_pos (by rw [failed]; decide)] at made
                  cases made
              | some v =>
                  unfold State.alloc at node
                  unfold State.alloc State.setNode at vnode
                  dsimp only at vnode
                  rw [heap₂] at node vnode
                  exact ⟨p, m, n, v, system, mount, node, vnode⟩

/-- What is known of a file system that has only its root. -/
def rootKnown (p m n v : Nat) : Known := ⟨{v}, {m}, ∅, ∅, [v, n, m, p]⟩

theorem rootShared (s t : State H) (p m n v : Nat) :
    Shared (rootKnown p m n v) (rootState s m n v).toGraph (rootState t m n v).toGraph := by
  have vnode : ∀ s : State H, (rootState s m n v).vnodes v = rootOf n .tmpfs .tmpfs none := fun s => by
    simp [rootState]
  have mount : ∀ s : State H, (rootState s m n v).mounts m = ⟨some v⟩ := fun s => by simp [rootState]
  have node : ∀ s : State H, (rootState s m n v).nodes n = rootNode := fun s => by simp [rootState]
  refine ⟨rfl, ?_, ?_, ?_, ?_, ?_, ?_, ?_, ?_, ?_⟩
  · rintro m' same
    cases same
    rfl
  · rintro u rfl
    exact List.mem_cons_self
  · rintro u rfl
    exact (vnode t).trans (vnode s).symm
  · rintro u rfl
    rw [vnode s]
    exact within_none
  · rintro u rfl
    rw [vnode s]
    exact within_none
  · rintro m' rfl
    exact (mount t).trans (mount s).symm
  · rintro m' rfl
    rw [mount s]
    exact within_some rfl
  · rintro u n' rfl internal
    rw [vnode s] at internal
    cases internal
    exact List.mem_cons_of_mem _ List.mem_cons_self
  · rintro u n' rfl internal
    rw [vnode s] at internal ⊢
    cases internal
    rw [node s, node t]
    exact .emptyRoot rfl rfl rfl rfl

/-- Both kernels set up the same root. -/
theorem vfsInitRoot_twin (holds : Holds s.heap others) (heap : t.heap = s.heap)
    (unregistered : s.filesystems = []) (unregistered' : t.filesystems = [])
    (made : vfsInitRoot s = some s') (running : s'.rootfs ≠ none) :
    ∃ t' k, vfsInitRoot t = some t' ∧ k.bytes = ∅ ∧ Twin k others s' t' := by
  obtain ⟨p, m, n, v, pointers⟩ := vfsInitRoot_pointers unregistered made running
  have first := vfsInitRoot_some unregistered pointers
  rw [made] at first
  cases first
  refine ⟨rootState t m n v, rootKnown p m n v, vfsInitRoot_some unregistered' (heap ▸ pointers), rfl,
    rootShared s t p m n v, ?_, rfl, ?_, ?_, nofun, nofun⟩
  · unfold rootState
    dsimp only
    rw [heap]
  · intro fs member
    exact Or.inl (List.mem_singleton.mp member)
  · obtain ⟨system, mount, node, vnode⟩ := pointers
    have held₁ := (Allocator.alloc_some holds system).2
    have held₂ := (Allocator.alloc_some held₁ mount).2
    have held₃ := (Allocator.alloc_some held₂ node).2
    have held₄ := (Allocator.alloc_some held₃ vnode).2
    exact Allocator.perm held₄ (List.perm_append_comm : ([v, n, m, p] ++ others).Perm _)

end Root

/-! ## The rest of the start -/

section Rest

variable {s t s' : State H} {k : Known} {rest own own' others others' : List Nat} {root root' node n : Nat}
  {V V' : Set Nat}

theorem Twin.retype (twin : Twin k rest s t) (n : Nat) : Twin k rest (s.retype n) (t.retype n) :=
  twin.graph subset_rfl rfl (.refl _) (twin.shared.retype n)

theorem Twin.registerInitramfs (twin : Twin k rest s t) :
    Together (fun _ => rest) (fun _ _ => True) k (registerFs s initramfsName .initramfs)
      (registerFs t initramfsName .initramfs) := by
  unfold registerFs
  cases allocated : (s.alloc filesystemSize).2 with
  | none =>
      obtain ⟨first, second⟩ := twin.alloc_pair allocated
      rw [first, second]
      exact .stop
  | some p =>
      obtain ⟨first, second⟩ := twin.alloc_pair allocated
      have kept : Twin (k.addOwn [p]) rest _ _ := (twin.alloc_some allocated).2.addOwn
      have larger := Known.le_addOwn k [p]
      rw [first, second]
      generalize (s.alloc filesystemSize).1 = s₁ at *
      generalize (t.alloc filesystemSize).1 = t₁ at *
      change Together _ _ k (some (registerFilesystem s₁ ⟨initramfsName, some .initramfs⟩))
        (some (registerFilesystem t₁ ⟨initramfsName, some .initramfs⟩))
      unfold registerFilesystem
      rw [kept.systems]
      split
      · split
        · exact .go larger kept trivial
        · refine .go larger { kept with systems := rfl, registered := ?_ } trivial
          exact kept.registered.register (Or.inr ⟨rfl, rfl⟩) (Or.inr rfl)
      · exact .go larger kept trivial

theorem Twin.prepareArchive (twin : Twin k rest s t) (made : prepareArchive s = some s') :
    ∃ t' k', Fs.prepareArchive t = some t' ∧ k ≤ k' ∧ Twin k' rest s' t' := by
  unfold Fs.prepareArchive at made ⊢
  obtain ⟨⟨s₁, result₁, target⟩, enters, made⟩ := Option.bind_eq_some_iff.mp made
  obtain ⟨⟨s₂, result₂⟩, registers, made⟩ := Option.bind_eq_some_iff.mp made
  cases made
  have both₁ := @Twin.vfsMkdir _ _ _ _ _ _ none ('/' :: initramfsName) twin within_none
  rw [enters] at both₁
  obtain ⟨t₁, k₁, enters', larger₁, twin₁, _⟩ := both₁.follow
  have both₂ := twin₁.registerInitramfs
  rw [registers] at both₂
  obtain ⟨t₂, k₂, registers', larger₂, twin₂, _⟩ := both₂.follow
  rw [enters']
  dsimp only [Option.bind_eq_bind, Option.bind_some]
  rw [registers']
  exact ⟨t₂, k₂, rfl, larger₁.trans larger₂, twin₂⟩

theorem Twin.makeDevices (twin : Twin k rest s t) (made : makeDevices s = some s') :
    ∃ t' k', Fs.makeDevices t = some t' ∧ k ≤ k' ∧ Twin k' rest s' t' := by
  unfold Fs.makeDevices at made ⊢
  obtain ⟨⟨s₁, result₁, target⟩, enters, made⟩ := Option.bind_eq_some_iff.mp made
  obtain ⟨⟨s₂, result₂⟩, uart, made⟩ := Option.bind_eq_some_iff.mp made
  obtain ⟨⟨s₃, result₃⟩, framebuffer, made⟩ := Option.bind_eq_some_iff.mp made
  cases made
  have both₁ := @Twin.vfsMkdir _ _ _ _ _ _ none ['/', 'd', 'e', 'v'] twin within_none
  rw [enters] at both₁
  obtain ⟨t₁, k₁, enters', larger₁, twin₁, _⟩ := both₁.follow
  have both₂ := @Twin.vfsMknod _ _ _ _ _ _ none ['/', 'd', 'e', 'v', '/', 'u', 'a', 'r', 't'] .uart twin₁
    within_none
  rw [uart] at both₂
  obtain ⟨t₂, k₂, uart', larger₂, twin₂, _⟩ := both₂.follow
  have both₃ := @Twin.vfsMknod _ _ _ _ _ _ none
    ['/', 'd', 'e', 'v', '/', 'f', 'r', 'a', 'm', 'e', 'b', 'u', 'f', 'f', 'e', 'r'] .framebuffer twin₂
    within_none
  rw [framebuffer] at both₃
  obtain ⟨t₃, k₃, framebuffer', larger₃, twin₃, _⟩ := both₃.follow
  rw [enters']
  dsimp only [Option.bind_eq_bind, Option.bind_some]
  rw [uart']
  dsimp only [Option.bind_some]
  rw [framebuffer']
  exact ⟨t₃, k₃, rfl, larger₁.trans (larger₂.trans larger₃), twin₃⟩

/-- The path of a mount leads to the root of what is mounted. -/
theorem Sound.mount_resolves {path name : Name} {d m v : Nat} (sound : Sound s root V own others)
    (clean : name = initramfsName → CleanMemory s none path) (absolute : startsWithSlash path = true)
    (descends : Descends (components path)) (mounted : vfsMount s none path name = some (s', 0))
    (target : resolve s.toGraph none path = some (0, some d)) (mount : (s'.vnodes d).mount = some m)
    (isRoot : (s'.mounts m).root = some v) : resolve s'.toGraph none path = some (0, some v) := by
  obtain ⟨outcome, _⟩ := vfsMount_spec sound.inv cwdOk_none sound.registered clean mounted
  cases outcome with
  | failed nonzero => exact absurd rfl nonzero
  | @done d' v' m' n new target' made =>
      rw [target] at target'
      cases target'
      rw [made.mountNew] at mount
      cases mount
      rw [made.rootNew] at isRoot
      cases isRoot
      have settled := settle_resolve s.toGraph none path
      rw [target, absolute] at settled
      unfold walkPath origin at settled
      rw [if_pos rfl, sound.tree.rootVnode] at settled
      have walked := made.walk_target sound.tree descends (components_ne_dot path) settled.symm
      have settled' := settle_resolve s'.toGraph none path
      rw [absolute] at settled'
      unfold walkPath origin at settled'
      rw [if_pos rfl, (made.isTree sound.tree).rootVnode] at settled'
      obtain ⟨outcome, resolved, same⟩ := Option.map_eq_some_iff.mp (settled'.trans walked)
      rw [resolved, settle_success same]

theorem archivePath_descends : Descends (components ('/' :: initramfsName)) := by
  intro name member
  have only : components ('/' :: initramfsName) = [initramfsName] := by decide +kernel
  rw [only, List.mem_singleton] at member
  subst member
  decide

/-- Both kernels find the same vnode for the files of the archive, and agree once
it is a directory. -/
theorem Twin.mountArchive (twin : Twin k rest s t) (sound : Sound s root V own others)
    (sound' : Sound t root' V' own' others') (clean : CleanMemory s none ('/' :: initramfsName))
    (clean' : CleanMemory t none ('/' :: initramfsName)) (made : mountArchive s = some (s', node)) :
    ∃ t' k', Fs.mountArchive t = some (t', node) ∧ k ≤ k' ∧ node ∈ k'.vnodes ∧
      t'.vnodes node = s'.vnodes node ∧
      ∀ n, (s'.vnodes node).internal = some n → Twin k' rest (s'.retype n) (t'.retype n) := by
  unfold Fs.mountArchive at made ⊢
  obtain ⟨⟨s₁, result⟩, mounts, made⟩ := Option.bind_eq_some_iff.mp made
  obtain ⟨⟨s₂, found, target⟩, looked, made⟩ := Option.bind_eq_some_iff.mp made
  obtain ⟨_, isFound, made⟩ := Option.bind_eq_some_iff.mp made
  subst isFound
  cases made
  have both := @Twin.vfsMount _ _ _ _ _ _ none ('/' :: initramfsName) initramfsName twin within_none
    (fun _ => clean) fun _ => clean'
  rw [mounts] at both
  obtain ⟨⟨t₁, result'⟩, mounts', together⟩ := Parallel.rel_some both
  rw [mounts']
  dsimp only [Option.bind_eq_bind, Option.bind_some]
  cases together with
  | failed nonzero larger twin₁ =>
      have after := @Twin.looked _ _ _ _ _ _ none ('/' :: initramfsName) twin₁ within_none
      rw [looked] at after
      obtain ⟨⟨t₂, found', target'⟩, looked', same, twin₂, known⟩ := Parallel.rel_some after
      cases same
      rw [looked']
      exact ⟨t₂, _, rfl, larger, known node rfl, twin₂.shared.vnode (known node rfl),
        fun n _ => twin₂.retype n⟩
  | @done k' _ _ d m v n target mount isRoot larger known fresh internal internal' twin₁ =>
      have outcome := @Shared.resolve _ _ _ twin.shared none ('/' :: initramfsName) within_none
      have member := Known.vnodes_mono larger (outcome.known _ target d rfl)
      have mount' : (t₁.vnodes d).mount = some m :=
        (congrArg Vnode.mount (twin₁.shared.vnode member)).trans mount
      have isRoot' : (t₁.mounts m).root = some v :=
        (congrArg Mount.root (twin₁.shared.mount (twin₁.shared.mounted member m mount))).trans isRoot
      have resolved := sound.mount_resolves (fun _ => clean) rfl archivePath_descends mounts target mount isRoot
      have resolved' := sound'.mount_resolves (fun _ => clean') rfl archivePath_descends mounts'
        (outcome.same.trans target) mount' isRoot'
      rw [vfsLookup_eq] at looked ⊢
      have sameCopy : (t₁.alloc (('/' :: initramfsName).length + 1)).2 =
          (s₁.alloc (('/' :: initramfsName).length + 1)).2 := twin₁.alloc_result _
      rw [sameCopy]
      cases copied : (s₁.alloc (('/' :: initramfsName).length + 1)).2 with
      | none =>
          rw [copied] at looked
          cases looked
      | some pathCopy =>
          rw [copied, resolved] at looked
          cases looked
          rw [resolved']
          refine ⟨_, k', rfl, larger, known, twin₁.shared.vnode known, fun x isNode => ?_⟩
          rw [show (s₁.vnodes node).internal = some x from isNode] at internal
          cases internal
          exact (twin₁.alloc_some copied).2.free

/-- The bytes for the contents of an entry. -/
def contentBytes (s : State H) (filesize : Nat) : Set Nat :=
  {a | ∃ p, ((s.alloc nodeSize).1.alloc filesize).2 = some p ∧ p ≤ a ∧ a < p + filesize}

/-- Both kernels add the same file; its contents are then expected to be the same. -/
theorem Twin.initramfsEntry (twin : Twin k rest s t) (member : node ∈ k.vnodes) (filename : Name)
    (filesize : Nat) :
    Option.Rel (fun a b => ∃ k', k.addBytes (contentBytes s filesize) ≤ k' ∧ Twin k' rest a b)
      (Fs.initramfsEntry s node filename filesize) (Fs.initramfsEntry t node filename filesize) := by
  unfold Fs.initramfsEntry contentBytes
  cases first : (s.alloc nodeSize).2 with
  | none =>
      obtain ⟨same, same'⟩ := twin.alloc_pair first
      rw [same, same']
      exact .none
  | some N =>
      obtain ⟨same, same'⟩ := twin.alloc_pair first
      obtain ⟨freshNode, twin₁⟩ := twin.alloc_some first
      rw [same, same']
      generalize (s.alloc nodeSize).1 = s₁ at *
      generalize (t.alloc nodeSize).1 = t₁ at *
      dsimp only [Option.bind_eq_bind, Option.bind_some]
      refine Parallel.rel_ite (fun _ => .none) fun _ => ?_
      obtain ⟨same, same'⟩ := twin₁.alloc_pair (rfl : (s₁.alloc filesize).2 = _)
      have twin₂ : Twin k ((s₁.alloc filesize).2.toList ++ N :: rest) (s₁.alloc filesize).1
          (t₁.alloc filesize).1 := by
        cases second : (s₁.alloc filesize).2 with
        | none => exact twin₁.alloc_none second
        | some p => exact (twin₁.alloc_some second).2
      rw [same, same']
      dsimp only
      generalize (s₁.alloc filesize).2 = data at *
      generalize (s₁.alloc filesize).1 = s₂ at *
      generalize (t₁.alloc filesize).1 = t₂ at *
      refine Parallel.rel_ite (fun _ => .none) fun _ => ?_
      have expected := twin₂.addBytes {a | ∃ p, data = some p ∧ p ≤ a ∧ a < p + filesize}
      generalize isFile : (⟨filename, .file, none, data, filesize, filesize, fun _ => none, 0⟩ : Node) = file
      have twin₃ := expected.graph subset_rfl rfl (.refl _) (expected.shared.setNode freshNode file file)
      change Twin _ _ (s₂.setNode N file) (t₂.setNode N file) at twin₃
      have atFile : (s₂.setNode N file).nodes N = file := setNode_self _
      have atFile' : (t₂.setNode N file).nodes N = file := setNode_self _
      generalize s₂.setNode N file = s₃ at *
      generalize t₂.setNode N file = t₃ at *
      cases third : (s₃.alloc vnodeSize).2 with
      | none =>
          obtain ⟨same, same'⟩ := twin₃.alloc_pair third
          rw [same, same']
          exact .none
      | some W =>
          obtain ⟨same, same'⟩ := twin₃.alloc_pair third
          obtain ⟨freshVnode, twin₄⟩ := twin₃.alloc_some third
          rw [same, same']
          dsimp only [Option.bind_some]
          have nodes₄ : (s₃.alloc vnodeSize).1.nodes N = file := atFile
          have nodes₄' : (t₃.alloc vnodeSize).1.nodes N = file := atFile'
          generalize (s₃.alloc vnodeSize).1 = s₄ at *
          generalize (t₃.alloc vnodeSize).1 = t₄ at *
          have other : node ≠ W := fun here => freshVnode (here ▸ twin₄.shared.inUse member)
          have atRoot : ∀ (s : State H) (vnode : Vnode), (s.setVnode W vnode).vnodes node = s.vnodes node :=
            fun s vnode => setVnode_of_ne _ other
          rw [atRoot, atRoot, twin₄.shared.vnode member]
          cases internal : (s₄.vnodes node).internal with
          | none => exact .none
          | some n =>
              rw [Option.bind_some, Option.bind_some]
              have placed : (W :: (data.toList ++ N :: rest)).Perm (W :: ((data.toList ++ [N]) ++ rest)) := by
                rw [List.append_assoc]
                exact .refl _
              have contents : (s₄.nodes N).type = .file → ∀ p, (s₄.nodes N).data = some p →
                  ∀ i < (s₄.nodes N).size, p + i ∈ {a | ∃ p, data = some p ∧ p ≤ a ∧ a < p + filesize} ∪ k.bytes := by
                rw [nodes₄, ← isFile]
                exact fun _ p isData i below => Or.inl ⟨p, isData, Nat.le_add_right p i, Nat.add_lt_add_left below p⟩
              have entered := @Twin.enter _ _ _ _ _ _ _ _ _ N _
                { mount := none
                  vOps := some .initramfs
                  fOps := some .initramfs
                  internal := some N
                  parent := some node
                  parentIsMount := false } (twin₄.rearrange placed) member internal freshVnode (by simp)
                (nodes₄'.trans nodes₄.symm) (by rw [nodes₄, ← isFile]) contents within_none
                (within_some member) rfl rfl
              rcases entered with ⟨stuck, stuck'⟩ | ⟨s', t', stores, stores', twin'⟩
              · rw [stuck, stuck']
                exact .none
              · rw [stores, stores']
                exact .some ⟨_, Known.le_addVnode _ W _, twin'⟩

end Rest

end OsdiKernel.Fs
