import OsdiKernel.Fs.System

/-!
# The marks of mount points

The field `mount` of a vnode marks it as a mount point, and lookups follow it.
It is copied when a file or a directory is created, so the marks are exact as
long as nothing is created in a directory that is covered by a mount.  Such a
directory is reached by a relative path from a current directory that was
entered before the mount.  A mount on a regular file is not refused either.
-/

namespace OsdiKernel.Fs

/-- The vnodes of the file system: the root, the children of its vnodes, and
the roots that are mounted on them. -/
inductive Linked (g : Graph) : Nat → Prop
  | root {v : Nat} (isRoot : g.rootVnode = some (some v)) : Linked g v
  | child {v n i c : Nat} (above : Linked g v) (internal : (g.vnodes v).internal = some n)
      (below : i < (g.nodes n).numChildren.toNat) (child : (g.nodes n).children i = some c) :
      Linked g c
  | mounted {v m k : Nat} (above : Linked g v) (mount : (g.vnodes v).mount = some m)
      (root : (g.mounts m).root = some k) : Linked g k

theorem Tree.linked {g : Graph} {root v : Nat} {V : Set Nat} (tree : Tree g root V)
    (linked : Linked g v) : v ∈ V := by
  induction linked with
  | root isRoot =>
      rw [tree.rootVnode] at isRoot
      cases isRoot
      exact tree.root_mem
  | child _ internal below child ih =>
      obtain ⟨c, inTree, child', _⟩ := tree.child ih internal below
      rw [child] at child'
      cases child'
      exact inTree
  | mounted _ mount root ih =>
      obtain ⟨k, inTree, _, _, on, _⟩ := tree.mount ih mount
      rw [on.root] at root
      cases root
      exact inTree

variable {H : Type} [Allocator H]

/-- The mount points are the vnodes on which a mount has succeeded. -/
def MarksExact (sys : System H) : Prop :=
  (∀ v, Linked sys.state.toGraph v →
    ((sys.state.vnodes v).mount ≠ none ↔ v ∈ sys.mounted)) ∧
  ∀ v ∈ sys.mounted, IsDirectory sys.state.toGraph v ∧
    ∃ m k, (sys.state.vnodes v).mount = some m ∧ (sys.state.mounts m).root = some k ∧
      (sys.state.vnodes k).parent = some v

omit [Allocator H] in
theorem Marks.exact {sys : System H} {root : Nat} {V : Set Nat}
    (marks : Marks sys.state.toGraph V sys.mounted) (tree : Tree sys.state.toGraph root V) :
    MarksExact sys := by
  constructor
  · intro v linked
    constructor
    · exact marks.only (tree.linked linked)
    · intro inT
      obtain ⟨m, _, mount, _⟩ := marks.point inT
      rw [mount]
      exact Option.some_ne_none m
  · exact fun v inT => ⟨marks.directory inT, marks.point inT⟩

/-! ## Runs without a creation in a covered directory -/

/-- If the last component of the path can be created, its directory is not covered. -/
def CreatesUncovered (g : Graph) (cwd : Option Nat) (pathname : Name) : Prop :=
  ∀ root d, g.rootVnode = some (some root) → ParentOf g root cwd pathname d →
    Creatable g d (baseName pathname) → (g.vnodes d).mount = none

/-- If the path can be mounted on, it is a directory. -/
def MountsDirectory (g : Graph) (cwd : Option Nat) (targetPathname : Name) : Prop :=
  ∀ t, resolve g cwd targetPathname = some (0, some t) → (g.vnodes t).mount = none →
    (g.vnodes t).parentIsMount = false → IsDirectory g t

/-- The operation creates nothing in a covered directory, and mounts nothing on a file. -/
def Op.Calm (sys : System H) : Op → Prop
  | .mkdir thread pathname => CreatesUncovered sys.state.toGraph (sys.cwd thread) pathname
  | .open thread pathname flags =>
      flags &&& oCreat ≠ 0 → CreatesUncovered sys.state.toGraph (sys.cwd thread) pathname
  | .mknod thread pathname _ => CreatesUncovered sys.state.toGraph (sys.cwd thread) pathname
  | .mount thread targetPathname _ =>
      MountsDirectory sys.state.toGraph (sys.cwd thread) targetPathname
  | _ => True

section Run

variable {sys : System H} {op : Op} {root : Nat} {V V' : Set Nat} {effect : Effect}

theorem CreatesUncovered.calm {g : Graph} {cwd : Option Nat} {pathname : Name}
    {type : Tmpfs.NodeType} (uncovered : CreatesUncovered g cwd pathname) (tree : Tree g root V)
    (may : MayCreate g root cwd pathname type effect) : effect.Calm g := by
  rcases may with rfl | ⟨d, rfl, parent, creatable⟩
  · trivial
  · exact uncovered root d tree.rootVnode parent creatable

omit [Allocator H] in
theorem Op.Calm.of_may {g' : Graph} (calm : op.Calm sys) (tree : Tree sys.state.toGraph root V)
    (may : op.may sys root effect) (change : Change sys.state.toGraph g' V effect V') :
    effect.Calm sys.state.toGraph := by
  have nothing : Quiet effect → effect.Calm sys.state.toGraph := by
    rintro rfl
    trivial
  cases op with
  | mkdir => exact calm.calm tree may
  | «open» =>
      rcases may with rfl | ⟨creates, may⟩
      · trivial
      · exact (calm creates).calm tree may
  | mknod => exact calm.calm tree may
  | mount =>
      rcases may with rfl | ⟨t, rfl, resolved⟩
      · trivial
      · cases change with
        | mount mounted => exact calm t resolved mounted.targetClear mounted.targetChild
  | spawn => exact nothing may
  | chdir => exact nothing may
  | close => exact nothing may
  | alloc => exact nothing may
  | free => exact nothing may

theorem Reachable.marked (reached : Reachable (fun sys op => op.Calm sys) sys) :
    ∃ root V own, Running sys root V own ∧ Marks sys.state.toGraph V sys.mounted := by
  induction reached with
  | boot booted => exact booted.running
  | step _ calm stepped ih =>
      obtain ⟨root, V, own, running, marks⟩ := ih
      obtain ⟨V', own', effect, running', may, mounted, change⟩ := running.step stepped
      refine ⟨root, V', own', running', ?_⟩
      rw [mounted]
      exact marks.change running.sound.tree change (calm.of_may running.sound.tree may change)

/-- The marks are exact in every run that creates nothing in a covered
directory and mounts nothing on a file. -/
theorem run_marksExact (sys : System H) (reached : Reachable (fun sys op => op.Calm sys) sys) :
    MarksExact sys := by
  obtain ⟨root, V, own, running, marks⟩ := reached.marked
  exact marks.exact running.sound.tree

end Run

/-! ## A mount inside another one -/

section Nested

variable {g : Graph} {cwd : Option Nat} {path : Name} {i : Nat}

/-- The directory that the path leads to is not covered. -/
def uncovered (g : Graph) (cwd : Option Nat) (path : Name) : Bool :=
  ((resolve g cwd path).bind Prod.snd).all fun d => (g.vnodes d).mount.isNone

/-- The path leads to a directory. -/
def leadsToDirectory (g : Graph) (cwd : Option Nat) (path : Name) : Bool :=
  ((resolve g cwd path).bind Prod.snd).all fun t =>
    (g.vnodes t).internal.any fun n => decide ((g.nodes n).type = .directory)

theorem CreatesUncovered.of_parent (slash : lastSlash path = some i)
    (clear : uncovered g cwd (parentPath path i) = true) : CreatesUncovered g cwd path := by
  intro root d _ isParent _
  unfold ParentOf at isParent
  unfold uncovered at clear
  rw [slash] at isParent
  rw [isParent] at clear
  exact Option.isNone_iff_eq_none.mp clear

theorem MountsDirectory.of_target (directory : leadsToDirectory g cwd path = true) :
    MountsDirectory g cwd path := by
  intro t resolved _ _
  unfold leadsToDirectory at directory
  rw [resolved] at directory
  obtain ⟨n, internal, isDirectory⟩ := (Option.any_eq_true _ _).mp directory
  exact ⟨n, internal, of_decide_eq_true isDirectory⟩

/-- A thread makes a directory and mounts a file system on it. -/
theorem mkdir_mount_run {s : State H} {T : Set Nat} {a : State H × Int × Option Nat}
    {m : State H × Int} (reached : Reachable (fun sys op => op.Calm sys) ⟨s, fun _ => none, [], T⟩)
    (uncovered : CreatesUncovered s.toGraph none path) (made : vfsMkdir s none path = some a)
    (directory : MountsDirectory a.1.toGraph none path)
    (mounted : vfsMount a.1 none path tmpfsName = some m) :
    Reachable (fun sys op => op.Calm sys) ⟨m.1, fun _ => none, [],
      {t | m.2 = 0 ∧ resolve a.1.toGraph none path = some (0, some t)} ∪ T⟩ := by
  have calmMkdir : Op.Calm ⟨s, fun _ => none, [], T⟩ (.mkdir 0 path) := uncovered
  have calmMount : Op.Calm ⟨a.1, fun _ => none, [], T⟩ (.mount 0 path tmpfsName) := directory
  have made' := reached.step calmMkdir (@Step.mkdir _ _ _ 0 path a.1 a.2.1 a.2.2 made)
  exact made'.step calmMount
    (@Step.mount _ _ _ 0 path tmpfsName m.1 m.2 (fun impossible => by cases impossible) mounted)

end Nested

/-- The directory "/m". -/
def outerDirectory : State BootHeap × Int × Option Nat :=
  (vfsMkdir initState none ['/', 'm']).get (by decide +kernel)

def outerMount : State BootHeap × Int :=
  (vfsMount outerDirectory.1 none ['/', 'm'] tmpfsName).get (by decide +kernel)

/-- The directory "/m/n", inside the mount on "/m". -/
def innerDirectory : State BootHeap × Int × Option Nat :=
  (vfsMkdir outerMount.1 none ['/', 'm', '/', 'n']).get (by decide +kernel)

def innerMount : State BootHeap × Int :=
  (vfsMount innerDirectory.1 none ['/', 'm', '/', 'n'] tmpfsName).get (by decide +kernel)

/-- After the first mount. -/
def outerSystem : System BootHeap where
  state := outerMount.1
  cwd _ := none
  others := []
  mounted := {t | outerMount.2 = 0 ∧
      resolve outerDirectory.1.toGraph none ['/', 'm'] = some (0, some t)} ∪
    {t | bootTarget emptyState = some t}

/-- After both mounts. -/
def nestedSystem : System BootHeap where
  state := innerMount.1
  cwd _ := none
  others := []
  mounted := {t | innerMount.2 = 0 ∧
      resolve innerDirectory.1.toGraph none ['/', 'm', '/', 'n'] = some (0, some t)} ∪
    outerSystem.mounted

theorem outerSystem_reachable : Reachable (fun sys op => op.Calm sys) outerSystem := by
  obtain ⟨clear, directory⟩ : uncovered initState.toGraph none ['/'] ∧
      leadsToDirectory outerDirectory.1.toGraph none ['/', 'm'] := by decide +kernel
  have made : vfsMkdir initState none ['/', 'm'] = some outerDirectory := (Option.some_get _).symm
  have mounted : vfsMount outerDirectory.1 none ['/', 'm'] tmpfsName = some outerMount :=
    (Option.some_get _).symm
  exact mkdir_mount_run (.boot init_booted) (.of_parent rfl clear) made (.of_target directory) mounted

theorem nestedSystem_reachable : Reachable (fun sys op => op.Calm sys) nestedSystem := by
  obtain ⟨clear, directory⟩ : uncovered outerMount.1.toGraph none ['/', 'm'] ∧
      leadsToDirectory innerDirectory.1.toGraph none ['/', 'm', '/', 'n'] := by decide +kernel
  have made : vfsMkdir outerMount.1 none ['/', 'm', '/', 'n'] = some innerDirectory :=
    (Option.some_get _).symm
  have mounted : vfsMount innerDirectory.1 none ['/', 'm', '/', 'n'] tmpfsName = some innerMount :=
    (Option.some_get _).symm
  exact mkdir_mount_run outerSystem_reachable (.of_parent rfl clear) made (.of_target directory) mounted

/-- After a mount on "/m" and one on "/m/n". -/
theorem run_marksExact_nested : MarksExact nestedSystem ∧ outerMount.2 = 0 ∧ innerMount.2 = 0 := by
  have succeeded : outerMount.2 = 0 ∧ innerMount.2 = 0 := by decide +kernel
  exact ⟨run_marksExact nestedSystem nestedSystem_reachable, succeeded⟩

/-! ## A run that copies a mark -/

/-- A thread makes a directory, enters it, and mounts a file system on it. -/
theorem mounted_run {s : State H} {r : Nat} {T : Set Nat} {path : Name}
    {a e : State H × Int × Option Nat} {m : State H × Int}
    (booted : Reachable (fun _ _ => True) ⟨s, fun _ => none, [], T⟩)
    (isRoot : s.rootVnode = some (some r)) (made : vfsMkdir s (some r) path = some a)
    (entered : vfsLookup a.1 none path = some e)
    (mounted : vfsMount e.1 e.2.2 path tmpfsName = some m) :
    Reachable (fun _ _ => True)
      ⟨m.1, Function.update (Function.update (fun _ => none) 0 (some r)) 0 e.2.2, [],
        {t | m.2 = 0 ∧ resolve e.1.toGraph e.2.2 path = some (0, some t)} ∪ T⟩ := by
  have spawned := booted.step trivial (@Step.spawn _ _ _ 0 _ isRoot)
  have made' := spawned.step trivial (@Step.mkdir _ _ _ 0 path a.1 a.2.1 a.2.2 made)
  have entered' := made'.step trivial (@Step.chdir _ _ _ 0 path e.1 e.2.1 e.2.2 entered)
  exact entered'.step trivial
    (@Step.mount _ _ _ 0 path tmpfsName m.1 m.2 (fun impossible => by cases impossible) mounted)

/-- Then it creates another directory by a relative path. -/
theorem covered_run {sys : System H} {path : Name} {b : State H × Int × Option Nat}
    (reached : Reachable (fun _ _ => True) sys)
    (last : vfsMkdir sys.state (sys.cwd 0) path = some b) :
    Reachable (fun _ _ => True) { sys with state := b.1 } :=
  reached.step trivial (@Step.mkdir _ _ _ 0 path b.1 b.2.1 b.2.2 last)

/-- The directory "/a". -/
def madeA : State BootHeap × Int × Option Nat :=
  (vfsMkdir initState (some initRoot) ['/', 'a']).get (by decide +kernel)

/-- The same, as the current directory. -/
def enteredA : State BootHeap × Int × Option Nat :=
  (vfsLookup madeA.1 none ['/', 'a']).get (by decide +kernel)

/-- The same, covered by a mount. -/
def mountedA : State BootHeap × Int :=
  (vfsMount enteredA.1 enteredA.2.2 ['/', 'a'] tmpfsName).get (by decide +kernel)

/-- The directory "b", relative to the covered directory. -/
def madeB : State BootHeap × Int × Option Nat :=
  (vfsMkdir mountedA.1 enteredA.2.2 ['b']).get (by decide +kernel)

/-- The vnodes of "/a" and of the new directory. -/
def nodeA : Nat := madeA.2.2.get (by decide +kernel)

def nodeB : Nat := madeB.2.2.get (by decide +kernel)

/-- After the mount. -/
def mountedSystem : System BootHeap where
  state := mountedA.1
  cwd := Function.update (Function.update (fun _ => none) 0 (some initRoot)) 0 enteredA.2.2
  others := []
  mounted := {t | mountedA.2 = 0 ∧
      resolve enteredA.1.toGraph enteredA.2.2 ['/', 'a'] = some (0, some t)} ∪
    {t | bootTarget emptyState = some t}

theorem mountedSystem_reachable : Reachable (fun _ _ => True) mountedSystem := by
  have made : vfsMkdir initState (some initRoot) ['/', 'a'] = some madeA := (Option.some_get _).symm
  have entered : vfsLookup madeA.1 none ['/', 'a'] = some enteredA := (Option.some_get _).symm
  have mounted : vfsMount enteredA.1 enteredA.2.2 ['/', 'a'] tmpfsName = some mountedA :=
    (Option.some_get _).symm
  have booted : Reachable (fun _ _ => True) initSystem := .boot init_booted
  exact mounted_run booted init_root made entered mounted

theorem mountedSystem_cwd : mountedSystem.cwd 0 = enteredA.2.2 := by
  unfold mountedSystem
  dsimp only
  exact Function.update_self ..

theorem mountedSystem_state : mountedSystem.state = mountedA.1 := by
  unfold mountedSystem
  dsimp only

/-- After the last step of the run. -/
def coveredSystem : System BootHeap := { mountedSystem with state := madeB.1 }

theorem coveredSystem_reachable : Reachable (fun _ _ => True) coveredSystem := by
  have last : vfsMkdir mountedA.1 enteredA.2.2 ['b'] = some madeB := (Option.some_get _).symm
  rw [← mountedSystem_state, ← mountedSystem_cwd] at last
  exact covered_run mountedSystem_reachable last

/-- A child, by evaluation. -/
theorem Linked.child_of {g : Graph} {v i c : Nat} (above : Linked g v)
    (child : ((g.vnodes v).internal.any fun n =>
      decide (i < (g.nodes n).numChildren.toNat ∧ (g.nodes n).children i = some c)) = true) :
    Linked g c := by
  obtain ⟨n, internal, child⟩ := (Option.any_eq_true _ _).mp child
  obtain ⟨below, isChild⟩ := of_decide_eq_true child
  exact .child above internal below isChild

theorem nodeB_linked : Linked madeB.1.toGraph nodeB := by
  obtain ⟨isRoot, first, second⟩ : madeB.1.rootVnode = some (some initRoot) ∧
      ((madeB.1.vnodes initRoot).internal.any fun n =>
        decide (2 < (madeB.1.nodes n).numChildren.toNat ∧
          (madeB.1.nodes n).children 2 = some nodeA)) = true ∧
      ((madeB.1.vnodes nodeA).internal.any fun n =>
        decide (0 < (madeB.1.nodes n).numChildren.toNat ∧
          (madeB.1.nodes n).children 0 = some nodeB)) = true := by decide +kernel
  exact .child_of (.child_of (.root isRoot) first) second

/-- A directory is created in a covered one, and is marked as a mount point. -/
theorem covered_creation_marked :
    ∃ sys : System BootHeap, Reachable (fun _ _ => True) sys ∧ ¬ MarksExact sys := by
  refine ⟨coveredSystem, coveredSystem_reachable, fun exact_ => ?_⟩
  have marks := exact_.1
  unfold coveredSystem mountedSystem at marks
  dsimp only at marks
  obtain ⟨marked, notOnPath, notOnBoot⟩ : (madeB.1.vnodes nodeB).mount ≠ none ∧
      resolve enteredA.1.toGraph enteredA.2.2 ['/', 'a'] ≠ some (0, some nodeB) ∧
        bootTarget emptyState ≠ some nodeB := by decide +kernel
  rcases (marks nodeB nodeB_linked).mp marked with ⟨_, onPath⟩ | onBoot
  · exact notOnPath onPath
  · exact notOnBoot onBoot

end OsdiKernel.Fs
