import OsdiKernel.Fs.Operations

/-!
# Mounting

A mount that succeeds puts a new root over a vnode.  One that fails has
released what it allocated, and the vnode is as it was.
-/

namespace OsdiKernel.Fs

open Allocator (Holds)

variable {H : Type} [Allocator H]

/-! ## Setting up a mount -/

/-- The file systems are tmpfs and initramfs, under their names. -/
def Registered {H : Type} (s : State H) : Prop :=
  ∀ fs ∈ s.filesystems,
    fs = ⟨tmpfsName, some .tmpfs⟩ ∨ fs = ⟨initramfsName, some .initramfs⟩

/-- A node without children and without data. -/
def Node.Empty (node : Node) : Prop := node.numChildren = 0 ∧ node.data = none

/-- Memory outside of the pointers in use reads as an empty node. -/
def Blank (g : Graph) (live : List Nat) : Prop := ∀ n, n ∉ live → (g.nodes n).Empty

/-- The memory of the next node reads as one without children or, if there is no
memory for a vnode besides, as one without data. -/
def CleanRoot (s : State H) : Prop := ∀ n, (s.alloc nodeSize).2 = some n →
  (((s.alloc nodeSize).1.alloc vnodeSize).2 ≠ none → (s.nodes n).numChildren = 0) ∧
    (((s.alloc nodeSize).1.alloc vnodeSize).2 = none → (s.nodes n).data = none)

theorem Blank.clean {s : State H} {live : List Nat} (blank : Blank s.toGraph live)
    (holds : Holds s.heap live) : CleanRoot s := by
  intro n allocated
  obtain ⟨empty, noData⟩ := blank n (alloc_some holds allocated).1
  exact ⟨fun _ => empty, fun _ => noData⟩

/-- The root vnode of a new mount, before its parent is set. -/
def rootOf (n : Nat) (ops : FsType) (fOps : FileOps) (parent : Option Nat) : Vnode where
  mount := none
  vOps := some ops
  fOps := some fOps
  internal := some n
  parent := parent
  parentIsMount := true

/-- What the setup of a mount `m` does with the pointers `live` in use. -/
inductive Setup (s s' : State H) (live : List Nat) (m : Nat) (ops : FsType) : Int → Prop
  | failed {result : Int} (nonzero : result ≠ 0) (vnodes : s'.vnodes = s.vnodes)
      (nodes : ∀ n ∈ live, s'.nodes n = s.nodes n)
      (mounts : ∀ m' ∈ live, m' ≠ m → s'.mounts m' = s.mounts m')
      (holds : Holds s'.heap live) : Setup s s' live m ops result
  | done {k n : Nat} {node : Node} {fOps : FileOps} {new : List Nat}
      (graph : s'.toGraph = ((s.toGraph.setNode n node).setMount m ⟨some k⟩).setVnode k
        (rootOf n ops fOps (s.vnodes k).parent))
      (empty : node.numChildren = 0) (directory : ops = .tmpfs → node.type = .directory)
      (freshVnode : k ∉ live) (freshNode : n ∉ live) (vnode : k ∈ new) (inNew : n ∈ new)
      (holds : Holds s'.heap (new ++ live)) : Setup s s' live m ops 0

section Setup

variable {s : State H} {live : List Nat} {m n : Nat}

/-- The end of both setup functions, after a node was allocated, and data for it. -/
theorem setupRoot_spec {s₀ : State H} {node : Node} {data : List Nat} (mount : Nat) (ops : FsType) (fOps : FileOps)
    (graph : s.toGraph = s₀.toGraph.setNode n node)
    (empty : (s.alloc vnodeSize).2 ≠ none → node.numChildren = 0)
    (hasData : (s.alloc vnodeSize).2 = none → node.data.toList = data)
    (directory : ops = .tmpfs → node.type = .directory) (fresh : n ∉ live)
    (holds : Holds s.heap (data ++ n :: live)) :
    Setup s₀ (setupRoot s mount n ops fOps).1 live mount ops (setupRoot s mount n ops fOps).2 ∧
      (setupRoot s mount n ops fOps).1.rootfs = s₀.rootfs ∧
      (setupRoot s mount n ops fOps).1.filesystems = s.filesystems := by
  have self : s.nodes n = node := by
    rw [graph]
    exact setNode_self node
  unfold setupRoot
  cases allocated : (s.alloc vnodeSize).2 with
  | none =>
      rw [alloc_eq allocated]
      dsimp only
      refine ⟨.failed (show enomem ≠ 0 by decide) ?_ (fun n' member => ?_) (fun m' _ other => ?_) ?_,
        ?_, rfl⟩
      · change s.vnodes = s₀.vnodes
        rw [graph]
        rfl
      · change s.nodes n' = s₀.nodes n'
        rw [graph]
        apply setNode_of_ne
        rintro rfl
        exact fresh member
      · change (s.toGraph.setMount mount ⟨none⟩).mounts m' = s₀.mounts m'
        rw [setMount_of_ne _ other, graph]
        rfl
      · have held := alloc_none holds allocated
        have pointer : ((s.alloc vnodeSize).1.setMount mount ⟨none⟩).nodes n = node := self
        rw [pointer]
        rw [← hasData allocated] at held
        exact free_head (freePtr_holds held)
      · change s.rootfs = s₀.rootfs
        rw [graph]
        rfl
  | some k =>
      obtain ⟨freshVnode, held⟩ := alloc_some holds allocated
      rw [alloc_eq allocated]
      dsimp only
      have graph' : (s.alloc vnodeSize).1.toGraph = s₀.toGraph.setNode n node := graph
      have result : Graph.setVnode (Graph.setMount (s.alloc vnodeSize).1.toGraph mount ⟨some k⟩) k
          { ((s.alloc vnodeSize).1.toGraph.setMount mount ⟨some k⟩).vnodes k with
            mount := none
            vOps := some ops
            fOps := some fOps
            internal := some n
            parentIsMount := true } =
          ((s₀.toGraph.setNode n node).setMount mount ⟨some k⟩).setVnode k
            (rootOf n ops fOps (s₀.vnodes k).parent) := by
        rw [graph']
        rfl
      have served : (s.alloc vnodeSize).2 ≠ none := by
        rw [allocated]
        exact Option.some_ne_none k
      have held' : Holds (s.alloc vnodeSize).1.heap (k :: (data ++ [n]) ++ live) := by
        rw [List.cons_append, List.append_assoc]
        exact held
      refine ⟨.done result (empty served) directory
        (fun member => freshVnode (List.mem_append_right _ (List.mem_cons_of_mem n member))) fresh
        List.mem_cons_self ?_ held', ?_, rfl⟩
      · exact List.mem_cons_of_mem k (List.mem_append_right data List.mem_cons_self)
      · change s.rootfs = s₀.rootfs
        rw [graph]
        rfl

theorem tmpfsSetupMount_spec (holds : Holds s.heap live) (m : Nat) :
    Setup s (tmpfsSetupMount s m).1 live m .tmpfs (tmpfsSetupMount s m).2 ∧
      (tmpfsSetupMount s m).1.rootfs = s.rootfs ∧
      (tmpfsSetupMount s m).1.filesystems = s.filesystems := by
  have created := tmpfsCreateInternalNode_spec holds ['/'] .directory none
  unfold tmpfsSetupMount
  generalize tmpfsCreateInternalNode s ['/'] .directory none = after at *
  obtain ⟨s₁, r⟩ := after
  dsimp only at created
  rcases created with ⟨n, rfl, created⟩ | ⟨rfl, untouched, held⟩
  · obtain ⟨data, capacity, graph⟩ := created.node
    have self : s₁.nodes n = ⟨['/'], .directory, none, data, 0, capacity, fun _ => none, 0⟩ := by
      rw [graph]
      exact setNode_self _
    have held := created.holds
    unfold nodePointers at held
    rw [self, List.append_assoc] at held
    obtain ⟨setup, rootfs, systems⟩ := setupRoot_spec m .tmpfs .tmpfs graph (fun _ => rfl) (fun _ => rfl)
      (fun _ => rfl) created.fresh held
    exact ⟨setup, rootfs, systems.trans created.filesystems⟩
  · exact ⟨.failed (show enomem ≠ 0 by decide) untouched.vnodes untouched.nodes
      (fun m' member _ => untouched.mounts m' member) held, untouched.rootfs, untouched.filesystems⟩

theorem initramfsSetupMount_spec (holds : Holds s.heap live) (m : Nat)
    (clean : CleanRoot s) :
    Setup s (initramfsSetupMount s m).1 live m .initramfs (initramfsSetupMount s m).2 ∧
      (initramfsSetupMount s m).1.rootfs = s.rootfs ∧
      (initramfsSetupMount s m).1.filesystems = s.filesystems := by
  unfold initramfsSetupMount
  cases allocated : (s.alloc nodeSize).2 with
  | none =>
      rw [alloc_eq allocated]
      exact ⟨.failed (show enomem ≠ 0 by decide) rfl (fun _ _ => rfl) (fun _ _ _ => rfl)
        (alloc_none holds allocated), rfl, rfl⟩
  | some n =>
      obtain ⟨fresh, held⟩ := alloc_some holds allocated
      obtain ⟨empty, noData⟩ := clean n allocated
      rw [alloc_eq allocated]
      have graph : (s.alloc nodeSize).1.toGraph = s.toGraph.setNode n (s.nodes n) := by
        unfold Graph.setNode
        rw [Function.update_eq_self]
        rfl
      have hasData : ((s.alloc nodeSize).1.alloc vnodeSize).2 = none → (s.nodes n).data.toList = [] :=
        fun failed => by rw [noData failed]; rfl
      exact setupRoot_spec m .initramfs .initramfs graph empty hasData
        (fun impossible => by cases impossible) fresh held

end Setup

/-! ## Mounting on a path -/

section Mount

variable {s s' : State H} {root : Nat} {V : Set Nat} {live : List Nat} {cwd : Option Nat}
  {targetPathname filesystemName : Name} {result : Int}

/-- What the mount of a file system on a path has done. -/
inductive MountResult (g : Graph) (s' : State H) (V : Set Nat) (live : List Nat)
    (cwd : Option Nat) (targetPathname filesystemName : Name) : Int → Prop
  | failed {result : Int} (nonzero : result ≠ 0) (agree : Agree g s'.toGraph V)
      (holds : Holds s'.heap live) :
      MountResult g s' V live cwd targetPathname filesystemName result
  | done {t k m n : Nat} {new : List Nat} (target : resolve g cwd targetPathname = some (0, some t))
      (mounted : Mounted g s'.toGraph V t k m n)
      (directory : filesystemName = tmpfsName → (s'.nodes n).type = .directory)
      (fresh : k ∉ live) (vnode : k ∈ new) (node : n ∈ new) (mount : m ∈ new)
      (holds : Holds s'.heap (new ++ live)) :
      MountResult g s' V live cwd targetPathname filesystemName 0

omit [Allocator H] in
/-- The graph after a mount, by what it says about each structure. -/
theorem mounted_of_updates {g g' : Graph} {t k m n : Nat} {ops : FsType} {fOps : FileOps}
    {node : Node} (used : InUse g V live) (target : t ∈ V)
    (clear : (g.vnodes t).mount = none) (covered : (g.vnodes t).parentIsMount = false)
    (freshVnode : k ∉ live) (freshNode : n ∉ live) (freshMount : m ∉ live)
    (empty : node.numChildren = 0) (rootfs : g'.rootfs = g.rootfs)
    (atRoot : g'.vnodes k = rootOf n ops fOps (some t))
    (atTarget : g'.vnodes t = { g.vnodes t with mount := some m })
    (vnodes : ∀ v, v ≠ k → v ≠ t → g'.vnodes v = g.vnodes v)
    (atNode : g'.nodes n = node) (nodes : ∀ n', n' ≠ n → g'.nodes n' = g.nodes n')
    (atMount : g'.mounts m = ⟨some k⟩) (mounts : ∀ m', m' ≠ m → g'.mounts m' = g.mounts m') :
    Mounted g g' V t k m n := by
  have notRoot : ∀ {v}, v ∈ V → v ≠ k := by
    rintro v inTree rfl
    exact freshVnode (used.vnodes inTree)
  have notNode : ∀ {v n'}, v ∈ V → (g.vnodes v).internal = some n' → n' ≠ n := by
    rintro v n' inTree internal rfl
    exact freshNode (used.nodes inTree internal)
  have links : ∀ {v}, v ∈ V →
      g'.vnodes v = { g.vnodes v with mount := if v = t then some m else (g.vnodes v).mount } := by
    intro v inTree
    by_cases here : v = t
    · rw [here, atTarget, if_pos rfl]
    · rw [vnodes v (notRoot inTree) here, if_neg here]
  constructor
  · constructor
    · exact rootfs
    · unfold Graph.rootVnode
      rw [rootfs]
      cases isRoot : g.rootfs with
      | none => rfl
      | some m₀ =>
          have other : m₀ ≠ m := by
            rintro rfl
            exact freshMount (used.rootfs isRoot)
          rw [Option.map_some, Option.map_some, mounts m₀ other]
    · intro v inTree
      rw [links inTree]
    · intro v inTree
      rw [links inTree]
    · intro v inTree
      rw [links inTree]
    · intro v inTree
      rw [links inTree]
    · intro v m' inTree mount
      have here : v ≠ t := by
        rintro rfl
        rw [clear] at mount
        cases mount
      have other : m' ≠ m := by
        rintro rfl
        exact freshMount (used.mounts inTree mount)
      rw [links inTree, if_neg here]
      exact ⟨mount, mounts m' other⟩
    · intro v n' inTree internal
      rw [nodes n' (notNode inTree internal)]
      exact ⟨rfl, rfl⟩
  · exact target
  · exact clear
  · exact covered
  · exact fun inTree => notRoot inTree rfl
  · exact fun inTree internal => notNode inTree internal rfl
  · intro v inTree other
    rw [links inTree, if_neg other]
  · rw [atTarget]
  · rw [atMount]
  · rw [atRoot]
    rfl
  · exact ⟨ops, by rw [atRoot]; rfl⟩
  · rw [atRoot]
    rfl
  · rw [atRoot]
    rfl
  · rw [atRoot]
    rfl
  · rw [atNode]
    exact empty
  · intro v n' inTree internal
    rw [nodes n' (notNode inTree internal)]
    exact ⟨rfl, rfl⟩

omit [Allocator H] in
/-- A registered file system has the setup function that goes with its name. -/
theorem Registered.find {fs : Filesystem} (registered : Registered s)
    (found : s.filesystems.find? (fun fs => fs.name = filesystemName) = some fs) :
    filesystemName = tmpfsName ∧ fs.setupMount = some .tmpfs ∨
      filesystemName = initramfsName ∧ fs.setupMount = some .initramfs := by
  have same : fs.name = filesystemName := by simpa using List.find?_some found
  rcases registered fs (List.mem_of_find?_eq_some found) with rfl | rfl
  · exact Or.inl ⟨same.symm, rfl⟩
  · exact Or.inr ⟨same.symm, rfl⟩

theorem setupMount_spec (holds : Holds s.heap live) (m : Nat) (fs : FsType)
    (clean : fs = .initramfs → CleanRoot s) :
    Setup s (fs.setupMount s m).1 live m fs (fs.setupMount s m).2 ∧
      (fs.setupMount s m).1.rootfs = s.rootfs ∧
      (fs.setupMount s m).1.filesystems = s.filesystems := by
  cases fs with
  | tmpfs => exact tmpfsSetupMount_spec holds m
  | initramfs => exact initramfsSetupMount_spec holds m (clean rfl)

/-- The part of `vfs_mount` that follows the checks. -/
theorem mountOnto_spec {fsToMount : Filesystem} {t : Nat} (inv : Inv s root V live)
    (resolved : resolve s.toGraph cwd targetPathname = some (0, some t)) (member : t ∈ V)
    (clear : (s.vnodes t).mount = none) (covered : (s.vnodes t).parentIsMount = false)
    (named : filesystemName = tmpfsName ∧ fsToMount.setupMount = some .tmpfs ∨
      filesystemName = initramfsName ∧ fsToMount.setupMount = some .initramfs)
    (clean : filesystemName = initramfsName → (s.alloc mountSize).2 ≠ none →
      CleanRoot (s.alloc mountSize).1)
    (mounted : mountOnto s t fsToMount = some (s', result)) :
    MountResult s.toGraph s' V live cwd targetPathname filesystemName result ∧
      s'.filesystems = s.filesystems := by
  obtain ⟨fs, setup, tmpfs, initramfs⟩ : ∃ fs, fsToMount.setupMount = some fs ∧
      (filesystemName = tmpfsName → fs = .tmpfs) ∧ (fs = .initramfs → filesystemName = initramfsName) := by
    rcases named with ⟨rfl, setup⟩ | ⟨rfl, setup⟩
    · exact ⟨_, setup, fun _ => rfl, fun impossible => by cases impossible⟩
    · exact ⟨_, setup, (fun impossible => by cases impossible), fun _ => rfl⟩
  unfold mountOnto at mounted
  cases allocated : (s.alloc mountSize).2 with
  | none =>
      rw [alloc_eq allocated] at mounted
      cases mounted
      exact ⟨.failed (by decide) (.refl _ _) (alloc_none inv.holds allocated), rfl⟩
  | some m =>
      obtain ⟨freshMount, held⟩ := alloc_some inv.holds allocated
      rw [alloc_eq allocated] at mounted
      dsimp only at mounted
      generalize marked : ((s.alloc mountSize).1.setMount m ⟨none⟩).setVnode t
        { ((s.alloc mountSize).1.setMount m ⟨none⟩).vnodes t with mount := some m } = s₁ at mounted
      have graph : s₁.toGraph =
          (s.toGraph.setMount m ⟨none⟩).setVnode t { s.vnodes t with mount := some m } := by
        rw [← marked]
        rfl
      have systems : s₁.filesystems = s.filesystems := by
        rw [← marked]
        rfl
      have held₁ : Holds s₁.heap (m :: live) := by
        rw [← marked]
        exact held
      have clean₁ : fs = .initramfs → CleanRoot s₁ := by
        intro isInitramfs
        rw [← marked]
        exact clean (initramfs isInitramfs) (by rw [allocated]; exact Option.some_ne_none m)
      rw [setup] at mounted
      dsimp only at mounted
      have outcome := setupMount_spec held₁ m fs clean₁
      generalize fs.setupMount s₁ m = after at *
      obtain ⟨s₂, r⟩ := after
      dsimp only at outcome mounted
      obtain ⟨outcome, rootfs, systems'⟩ := outcome
      rw [systems] at systems'
      cases outcome with
      | failed nonzero vnodes nodes mounts held₂ =>
          rw [if_pos nonzero] at mounted
          cases mounted
          refine ⟨.failed nonzero (.of_nodes inv.used ?_ ?_ ?_ ?_) (free_head held₂), systems'⟩
          · change (Function.update s₂.vnodes t { s₂.vnodes t with mount := none }) = s.vnodes
            rw [vnodes, graph]
            change Function.update (Function.update s.vnodes t { s.vnodes t with mount := some m }) t
              { Function.update s.vnodes t { s.vnodes t with mount := some m } t with mount := none } =
                s.vnodes
            rw [Function.update_self, Function.update_idem, Function.update_eq_self_iff, ← clear]
          · intro n inUse
            change s₂.nodes n = s.nodes n
            rw [nodes n (List.mem_cons_of_mem m inUse), graph]
            rfl
          · intro m' inUse
            have other : m' ≠ m := by
              rintro rfl
              exact freshMount inUse
            change s₂.mounts m' = s.mounts m'
            rw [mounts m' (List.mem_cons_of_mem m inUse) other, graph]
            exact setMount_of_ne _ other
          · change s₂.rootfs = s.rootfs
            rw [rootfs, graph]
            rfl
      | @done k n node fOps new graph' empty directory freshVnode freshNode vnode inNew held₂ =>
          rw [if_neg (not_not_intro rfl)] at mounted
          have notHead : ∀ {x}, x ∉ m :: live → x ≠ m ∧ x ∉ live := fun fresh =>
            ⟨fun same => fresh (same ▸ List.mem_cons_self), fun old => fresh (List.mem_cons_of_mem m old)⟩
          have other : k ≠ t := by
            rintro rfl
            exact (notHead freshVnode).2 (inv.used.vnodes member)
          have atMount : s₂.mounts m = ⟨some k⟩ := by
            rw [graph']
            exact setMount_self _
          rw [atMount] at mounted
          cases mounted
          have atRoot : s₂.vnodes k = rootOf n fs fOps (s₁.vnodes k).parent := by
            rw [graph']
            exact setVnode_self _
          have vnodes₂ : ∀ v, v ≠ k → s₂.vnodes v = s₁.vnodes v := by
            intro v notRoot
            rw [graph']
            exact setVnode_of_ne _ notRoot
          have nodes₂ : s₂.nodes = Function.update s.nodes n node := by
            rw [graph', graph]
            rfl
          have mounts₂ : ∀ m', m' ≠ m → s₂.mounts m' = s.mounts m' := by
            intro m' notNew
            have first := setMount_of_ne (g := s₁.toGraph.setNode n node) ⟨some k⟩ notNew
            rw [graph']
            refine first.trans ?_
            rw [graph]
            exact setMount_of_ne _ notNew
          generalize linked : s₂.setVnode k { s₂.vnodes k with parent := some t } = s₃
          have graph₃ : s₃.toGraph = s₂.toGraph.setVnode k { s₂.vnodes k with parent := some t } := by
            rw [← linked]
            rfl
          have nodes₃ : s₃.nodes = Function.update s.nodes n node := by
            rw [graph₃]
            exact nodes₂
          have made : Mounted s.toGraph s₃.toGraph V t k m n := by
            apply @mounted_of_updates V live s.toGraph s₃.toGraph t k m n fs fOps node inv.used member
              clear covered (notHead freshVnode).2 (notHead freshNode).2 freshMount empty
            · rw [graph₃]
              change s₂.rootfs = s.rootfs
              rw [rootfs, graph]
              rfl
            · rw [graph₃, setVnode_self, atRoot]
              rfl
            · rw [graph₃, setVnode_of_ne _ other.symm, vnodes₂ t other.symm, graph]
              exact setVnode_self _
            · intro v notRoot notTarget
              rw [graph₃, setVnode_of_ne _ notRoot, vnodes₂ v notRoot, graph]
              exact setVnode_of_ne _ notTarget
            · rw [nodes₃, Function.update_self]
            · intro n' notNode
              rw [nodes₃, Function.update_of_ne notNode]
            · rw [graph₃]
              exact atMount
            · intro m' notMount
              rw [graph₃]
              exact mounts₂ m' notMount
          refine ⟨.done resolved made ?_ (notHead freshVnode).2 (List.mem_append_left [m] vnode)
            (List.mem_append_left [m] inNew) (List.mem_append_right new List.mem_cons_self) ?_, ?_⟩
          · intro named
            rw [nodes₃, Function.update_self]
            exact directory (tmpfs named)
          · rw [← linked, List.append_assoc]
            exact held₂
          · rw [← linked]
            exact systems'

/-- The state and the vnode with which `vfs_mount` goes on after its checks. -/
def mountTarget (s : State H) (cwd : Option Nat) (targetPathname : Name) :
    Option (State H × Nat) := do
  let (s, lookupResult, targetVnode) ← vfsLookup s cwd targetPathname
  if lookupResult ≠ 0 then none
  let targetVnode ← targetVnode
  if (s.vnodes targetVnode).vOps = none then none
  if (s.vnodes targetVnode).mount ≠ none ∨ (s.vnodes targetVnode).parentIsMount then none
  return (s, targetVnode)

/-- A mount on the path finds clean memory for its root node. -/
def CleanMemory (s : State H) (cwd : Option Nat) (targetPathname : Name) : Prop :=
  ∀ s' t, mountTarget s cwd targetPathname = some (s', t) → (s'.alloc mountSize).2 ≠ none →
    CleanRoot (s'.alloc mountSize).1

theorem mountTarget_iff {t : Nat} : mountTarget s cwd targetPathname = some (s', t) ↔
    vfsLookup s cwd targetPathname = some (s', 0, some t) ∧ (s'.vnodes t).vOps ≠ none ∧
      ¬ ((s'.vnodes t).mount ≠ none ∨ (s'.vnodes t).parentIsMount = true) := by
  unfold mountTarget
  constructor
  · intro found
    obtain ⟨⟨s₁, r, v⟩, looked, found⟩ := Option.bind_eq_some_iff.mp found
    dsimp only at found
    split at found
    · cases found
    · next success =>
        obtain ⟨v', isTarget, found⟩ := Option.bind_eq_some_iff.mp found
        split at found
        · cases found
        · next hasOps =>
            split at found
            · cases found
            · next free =>
                cases found
                rw [looked, not_not.mp success, isTarget]
                exact ⟨rfl, hasOps, free⟩
  · rintro ⟨looked, hasOps, free⟩
    rw [looked]
    simp only [Option.bind_eq_bind, Option.bind_some, if_neg hasOps, if_neg free]
    rfl

theorem mountTarget_looked {t : Nat} (holds : Holds s.heap live)
    (found : mountTarget s cwd targetPathname = some (s', t)) : Looked s s' live :=
  (vfsLookup_looked holds (mountTarget_iff.mp found).1).1

theorem mountTarget_resolved {t : Nat} (holds : Holds s.heap live)
    (found : mountTarget s cwd targetPathname = some (s', t)) :
    resolve s.toGraph cwd targetPathname = some (0, some t) := by
  rcases (vfsLookup_looked holds (mountTarget_iff.mp found).1).2 with failed | resolved
  · cases failed
  · exact resolved

theorem Blank.cleanMemory (blank : Blank s.toGraph live) (holds : Holds s.heap live) :
    CleanMemory s cwd targetPathname := by
  intro s' t found served
  have looks := mountTarget_looked holds found
  obtain ⟨m, allocated⟩ := Option.ne_none_iff_exists'.mp served
  have blank' : Blank (s'.alloc mountSize).1.toGraph (m :: live) := by
    rw [alloc_toGraph, looks.graph]
    exact fun n fresh => blank n fun old => fresh (List.mem_cons_of_mem m old)
  exact blank'.clean (alloc_some looks.holds allocated).2

theorem vfsMount_spec (inv : Inv s root V live) (ok : CwdOk s.toGraph V cwd)
    (registered : Registered s)
    (clean : filesystemName = initramfsName → CleanMemory s cwd targetPathname)
    (mounted : vfsMount s cwd targetPathname filesystemName = some (s', result)) :
    MountResult s.toGraph s' V live cwd targetPathname filesystemName result ∧
      s'.filesystems = s.filesystems := by
  unfold vfsMount at mounted
  split at mounted
  · cases mounted
    exact ⟨.failed (by decide) (.refl _ _) inv.holds, rfl⟩
  · next fsToMount found =>
      have named := registered.find found
      obtain ⟨⟨s₁, lookupResult, targetVnode⟩, looked, rest⟩ := Option.bind_eq_some_iff.mp mounted
      obtain ⟨looks, outcome⟩ := vfsLookup_looked inv.holds looked
      have inv₁ := inv.looked looks
      obtain ⟨graph, _, systems, held⟩ := looks
      rw [← graph] at ok outcome ⊢
      rw [← systems]
      have stays : ∀ {r : Int}, r ≠ 0 →
          MountResult s₁.toGraph s₁ V live cwd targetPathname filesystemName r :=
        fun nonzero => .failed nonzero (.refl _ _) held
      dsimp only at rest
      split at rest
      · next failed =>
          cases rest
          exact ⟨stays failed, rfl⟩
      · next success =>
          rw [not_not.mp success] at outcome
          rcases outcome with impossible | resolved
          · cases impossible
          · obtain ⟨t, _, _, rfl, member, proper, _⟩ := resolve_located inv₁.tree ok resolved
            dsimp only [Option.bind_eq_bind, Option.bind_some] at rest
            split at rest
            · cases rest
              exact ⟨stays (by decide), rfl⟩
            · next hasOps =>
                split at rest
                · cases rest
                  exact ⟨stays (by decide), rfl⟩
                · next free =>
                    rw [not_not.mp success] at looked
                    have target := mountTarget_iff.mpr ⟨looked, hasOps, free⟩
                    obtain ⟨clear, covered⟩ := not_or.mp free
                    exact mountOnto_spec inv₁ resolved member (not_not.mp clear)
                      (Bool.eq_false_iff.mpr covered) named
                      (fun isInitramfs => clean isInitramfs s₁ t target) rest

end Mount

end OsdiKernel.Fs
