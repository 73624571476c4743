import OsdiKernel.Fs.Marks

/-!
# The start of the file system

`vfs_init` sets up the root, mounts the initial archive and creates the
devices.  The node of the archive's root is not initialised: the start is only
in order if the memory that is not yet in use reads as zero.
-/

namespace OsdiKernel.Fs

open Allocator (Holds)

variable {H : Type} [Allocator H]

/-! ## The root -/

section Root

variable {s s' : State H} {live others : List Nat} {name : Name} {setup : FsType} {result : Int}

theorem registerFs_spec (holds : Holds s.heap live)
    (made : registerFs s name setup = some (s', result)) :
    s'.toGraph = s.toGraph ∧ (∃ p, Holds s'.heap (p :: live)) ∧
      (s'.filesystems = s.filesystems ∨
        s'.filesystems = s.filesystems ++ [⟨name, some setup⟩]) := by
  unfold registerFs at made
  cases allocated : (s.alloc filesystemSize).2 with
  | none =>
      rw [alloc_eq allocated] at made
      cases made
  | some p =>
      rw [alloc_eq allocated] at made
      have held := (alloc_some holds allocated).2
      have registers := Option.some.inj made
      unfold registerFilesystem at registers
      split at registers
      · split at registers
        · cases registers
          exact ⟨rfl, ⟨p, held⟩, Or.inl rfl⟩
        · cases registers
          exact ⟨rfl, ⟨p, held⟩, Or.inr rfl⟩
      · cases registers
        exact ⟨rfl, ⟨p, held⟩, Or.inl rfl⟩

omit [Allocator H] in
theorem Registered.register {s s' : State H} (registered : Registered s)
    (known : name = tmpfsName ∧ setup = .tmpfs ∨ name = initramfsName ∧ setup = .initramfs)
    (systems : s'.filesystems = s.filesystems ∨
      s'.filesystems = s.filesystems ++ [⟨name, some setup⟩]) : Registered s' := by
  intro fs member
  rcases systems with same | more
  · exact registered fs (same ▸ member)
  · rw [more] at member
    rcases List.mem_append.mp member with old | new
    · exact registered fs old
    · rw [List.mem_singleton.mp new]
      rcases known with ⟨rfl, rfl⟩ | ⟨rfl, rfl⟩
      · exact Or.inl rfl
      · exact Or.inr rfl

omit [Allocator H] in
/-- A root without children is a tree. -/
theorem tree_single {g : Graph} {m k n : Nat} {ops : FsType} {fOps : FileOps}
    (rootfs : g.rootfs = some m) (mount : g.mounts m = ⟨some k⟩)
    (vnode : g.vnodes k = rootOf n ops fOps none) (empty : (g.nodes n).numChildren = 0) :
    Tree g k {k} where
  rootVnode := by
    unfold Graph.rootVnode
    rw [rootfs, Option.map_some, mount]
  root_mem := rfl
  rootParent := by
    rw [vnode]
    rfl
  rootMount := by
    rw [vnode]
    rfl
  rootIsMount := by
    rw [vnode]
    rfl
  ops := by
    rintro v rfl
    exact ⟨ops, by rw [vnode]; rfl⟩
  internal := by
    rintro v rfl
    exact ⟨n, by rw [vnode]; rfl⟩
  owner := by
    rintro v w n rfl rfl _ _
    rfl
  count := by
    rintro v n' rfl internal
    rw [vnode] at internal
    cases internal
    rw [empty]
    decide
  child := by
    rintro v n' i rfl internal below
    rw [vnode] at internal
    cases internal
    rw [empty] at below
    exact absurd below (Nat.not_lt_zero i)
  parent := by
    rintro v rfl other
    exact absurd rfl other
  path := by
    rintro v rfl
    exact ⟨[], .root⟩
  mount := by
    rintro v m' rfl mount'
    rw [vnode] at mount'
    cases mount'
  mounted := by
    rintro v rfl _ other
    exact absurd rfl other

theorem vfsInitRoot_spec (holds : Holds s.heap others)
    (unregistered : s.filesystems = []) (made : vfsInitRoot s = some s')
    (running : s'.rootfs ≠ none) :
    ∃ root own, Sound s' root {root} own others ∧ IsDirectory s'.toGraph root ∧
      (Blank s.toGraph others → Blank s'.toGraph (own ++ others)) := by
  unfold vfsInitRoot at made
  obtain ⟨⟨s₁, r⟩, registers, rest⟩ := Option.bind_eq_some_iff.mp made
  obtain ⟨graph₁, ⟨p, held₁⟩, systems₁⟩ := registerFs_spec holds registers
  rw [unregistered, List.nil_append] at systems₁
  dsimp only at rest
  cases allocated : (s₁.alloc mountSize).2 with
  | none =>
      rw [alloc_eq allocated] at rest
      cases rest
      exact absurd rfl running
  | some m =>
      obtain ⟨freshMount, held₂⟩ := alloc_some held₁ allocated
      rw [alloc_eq allocated] at rest
      dsimp only at rest
      generalize started : ({ (s₁.alloc mountSize).1 with rootfs := some m } : State H) = s₂ at rest
      have heap₂ : s₂.heap = (s₁.alloc mountSize).1.heap := by
        rw [← started]
      have graph₂ : s₂.toGraph = { s.toGraph with rootfs := some m } := by
        rw [← started, ← graph₁]
        rfl
      have systems₂ : s₂.filesystems = s₁.filesystems := by
        rw [← started]
        rfl
      rw [← heap₂] at held₂
      obtain ⟨fs, first, rest⟩ := Option.bind_eq_some_iff.mp rest
      rw [alloc_filesystems, ← systems₂] at first
      have only : s₂.filesystems = [⟨tmpfsName, some .tmpfs⟩] := by
        rcases systems₁ with none_ | single
        · rw [systems₂, none_] at first
          cases first
        · exact systems₂.trans single
      rw [only] at first
      cases first
      obtain ⟨setup, isTmpfs, rest⟩ := Option.bind_eq_some_iff.mp rest
      cases isTmpfs
      have outcome := tmpfsSetupMount_spec held₂ m
      have same : FsType.tmpfs.setupMount s₂ m = tmpfsSetupMount s₂ m := rfl
      rw [same] at rest
      generalize tmpfsSetupMount s₂ m = after at *
      obtain ⟨s₃, r₃⟩ := after
      dsimp only at outcome rest
      obtain ⟨outcome, rootfs, systems₃⟩ := outcome
      cases outcome with
      | failed nonzero =>
          rw [if_pos nonzero] at rest
          cases rest
      | @done k n node fOps new graph₃ empty directory freshVnode freshNode vnode inNew held₃ =>
          rw [if_neg (not_not_intro rfl)] at rest
          have atMount : s₃.mounts m = ⟨some k⟩ := by
            rw [graph₃]
            exact setMount_self _
          rw [atMount] at rest
          cases rest
          have atRoot : s₃.vnodes k = rootOf n .tmpfs fOps (s₂.vnodes k).parent := by
            rw [graph₃]
            exact setVnode_self _
          have nodes₃ : s₃.nodes = Function.update s.nodes n node := by
            rw [graph₃, graph₂]
            rfl
          generalize linked : s₃.setVnode k { s₃.vnodes k with parent := none } = s₄
          have graph₄ : s₄.toGraph = s₃.toGraph.setVnode k { s₃.vnodes k with parent := none } := by
            rw [← linked]
            rfl
          have vnode₄ : s₄.vnodes k = rootOf n .tmpfs fOps none := by
            rw [graph₄, setVnode_self, atRoot]
            rfl
          have nodes₄ : s₄.nodes = Function.update s.nodes n node := by
            rw [graph₄]
            exact nodes₃
          have rootfs₄ : s₄.rootfs = some m := by
            rw [graph₄]
            change s₃.rootfs = some m
            rw [rootfs, graph₂]
          have held₄ : Holds s₄.heap ((new ++ [m, p]) ++ others) := by
            rw [← linked, List.append_assoc]
            exact held₃
          refine ⟨k, new ++ [m, p], ⟨tree_single rootfs₄ ?_ vnode₄ ?_, ⟨?_, ?_, ?_, ?_⟩, held₄, ?_⟩,
            ⟨n, ?_, ?_⟩, ?_⟩
          · rw [graph₄]
            exact atMount
          · rw [nodes₄, Function.update_self]
            exact empty
          · rintro v rfl
            exact List.mem_append_left _ vnode
          · rintro v n' rfl internal
            rw [vnode₄] at internal
            cases internal
            exact List.mem_append_left _ inNew
          · rintro v m' rfl mount
            rw [vnode₄] at mount
            cases mount
          · intro m' isRoot
            rw [rootfs₄] at isRoot
            cases isRoot
            simp
          · intro fs member
            rw [← linked] at member
            change fs ∈ s₃.filesystems at member
            rw [systems₃, only] at member
            exact Or.inl (List.mem_singleton.mp member)
          · rw [vnode₄]
            rfl
          · rw [nodes₄, Function.update_self]
            exact directory rfl
          · intro blank n' outside
            rw [nodes₄]
            have other : n' ≠ n := by
              rintro rfl
              exact outside (List.mem_append_left _ (List.mem_append_left _ inNew))
            rw [Function.update_of_ne other]
            exact blank n' fun old => outside (List.mem_append_right _ old)

end Root

/-! ## Memory that is not in use -/

section Blank

variable {s s' : State H} {root d nd : Nat} {V : Set Nat} {live : List Nat}
  {cwd target target' : Option Nat} {name pathname : Name} {result : Int}

/-- All nodes but one are as they were, or empty. -/
def Clears {H : Type} (s s' : State H) (nd : Nat) : Prop :=
  ∀ n, n ≠ nd → s'.nodes n = s.nodes n ∨ (s'.nodes n).Empty

omit [Allocator H] in
theorem Blank.clears (blank : Blank s.toGraph live) (clears : Clears s s' nd) (used : nd ∈ live) :
    Blank s'.toGraph live := by
  intro n outside
  have other : n ≠ nd := by
    rintro rfl
    exact outside used
  rcases clears n other with same | empty
  · rw [same]
    exact blank n outside
  · exact empty

theorem tmpfsCreateInternalNode_clears (s : State H) (name : Name) (parent : Option Nat)
    (nd : Nat) : Clears s (tmpfsCreateInternalNode s name .directory parent).1 nd := by
  intro n _
  unfold tmpfsCreateInternalNode
  cases first : (s.alloc nodeSize).2 with
  | none =>
      rw [alloc_eq first]
      exact Or.inl rfl
  | some new =>
      rw [alloc_eq first]
      dsimp only
      rw [if_neg (by decide)]
      by_cases here : n = new
      · subst here
        right
        have self : ((s.alloc nodeSize).1.setNode n
            ⟨name, .directory, parent, none, 0, 0, fun _ => none, 0⟩).nodes n =
              ⟨name, .directory, parent, none, 0, 0, fun _ => none, 0⟩ := setNode_self _
        rw [self]
        exact ⟨rfl, rfl⟩
      · exact Or.inl (setNode_of_ne _ here)

theorem tmpfsAddChild_clears
    (made : tmpfsAddChild s d nd name .directory = some (s', result, target')) :
    Clears s s' nd := by
  have created := tmpfsCreateInternalNode_clears s name (some nd) nd
  unfold tmpfsAddChild at made
  generalize tmpfsCreateInternalNode s name .directory (some nd) = after at *
  obtain ⟨s₁, new⟩ := after
  cases new with
  | none =>
      cases made
      exact created
  | some n =>
      dsimp only at created made
      cases second : (s₁.alloc vnodeSize).2 with
      | none =>
          rw [alloc_eq second] at made
          cases made
          exact created
      | some w =>
          rw [alloc_eq second] at made
          obtain ⟨s₃, stored, same⟩ := Option.bind_eq_some_iff.mp made
          cases same
          obtain ⟨_, rfl⟩ := storeChild_eq stored
          intro n' other
          have unchanged : ∀ (t : State H) (node : Node), (t.setNode nd node).nodes n' = t.nodes n' :=
            fun _ node => setNode_of_ne node other
          rw [unchanged]
          exact created n' other

theorem mkdir_blank (used : InUse s.toGraph V live) (member : d ∈ V)
    (blank : Blank s.toGraph live) (ops : FsType)
    (made : ops.mkdir s d target name = some (s', result, target')) : Blank s'.toGraph live := by
  have nothing : ∀ {r : Int} {t : Option Nat}, some (s, r, t) = some (s', result, target') →
      Blank s'.toGraph live := by
    intro r t same
    cases same
    exact blank
  cases ops with
  | initramfs => exact nothing made
  | tmpfs =>
      unfold FsType.mkdir tmpfsMkdir tmpfsCreateOrMkdir at made
      dsimp only at made
      split at made
      · exact nothing made
      · next nd internal =>
          repeat' split at made
          all_goals first
            | exact nothing made
            | cases made
            | exact blank.clears (tmpfsAddChild_clears made) (used.nodes member internal)

/-- A directory that could not be created leaves an empty node behind. -/
theorem vfsMkdir_blank (inv : Inv s root V live) (ok : CwdOk s.toGraph V cwd)
    (blank : Blank s.toGraph live)
    (made : vfsMkdir s cwd pathname = some (s', result, target)) : Blank s'.toGraph live := by
  unfold vfsMkdir at made
  cases copied : (s.alloc (pathname.length + 1)).2 with
  | none =>
      rw [alloc_eq copied] at made
      cases made
      exact blank
  | some pathCopy =>
      rw [alloc_eq copied] at made
      have held := (alloc_some inv.holds copied).2
      have graph := alloc_toGraph s (pathname.length + 1)
      generalize (s.alloc (pathname.length + 1)).1 = s₁ at *
      obtain ⟨⟨s₂, found, parent⟩, looked, rest⟩ := Option.bind_eq_some_iff.mp made
      rw [← graph] at ok blank
      have tree : Tree s₁.toGraph root V := graph ▸ inv.tree
      have used : InUse s₁.toGraph V live := graph ▸ inv.used
      obtain ⟨⟨graph', _, _, _⟩, located⟩ := mkdirParent_spec tree held ok looked
      rw [← graph'] at blank used
      dsimp only at rest
      split at rest
      · cases rest
        exact blank
      · next success =>
          obtain ⟨d, rfl, isParent⟩ := located (not_not.mp success)
          obtain ⟨member, _⟩ := isParent.proper tree ok
          split at rest
          · cases rest
            exact blank
          · dsimp only at rest
            split at rest
            · cases rest
              exact blank
            · next ops _ =>
                obtain ⟨⟨s₃, r, w⟩, added, same⟩ := Option.bind_eq_some_iff.mp rest
                cases same
                have later : Blank s₃.toGraph live := mkdir_blank used member blank ops added
                exact later

end Blank

/-! ## The archive -/

section Archive

variable {s s' : State H} {root d : Nat} {V : Set Nat} {own others : List Nat} {filename : Name}
  {filesize : Nat}

/-- The tree does not depend on the types of the nodes. -/
theorem Tree.retype {g : Graph} (tree : Tree g root V) (n : Nat) (type : Tmpfs.NodeType) :
    Tree (g.setNode n { g.nodes n with type := type }) root V := by
  have fields : ∀ x, ((g.setNode n { g.nodes n with type := type }).nodes x).name = (g.nodes x).name ∧
      ((g.setNode n { g.nodes n with type := type }).nodes x).numChildren = (g.nodes x).numChildren ∧
      ((g.setNode n { g.nodes n with type := type }).nodes x).children = (g.nodes x).children := by
    intro x
    by_cases here : x = n
    · rw [here, setNode_self]
      exact ⟨rfl, rfl, rfl⟩
    · rw [setNode_of_ne _ here]
      exact ⟨rfl, rfl, rfl⟩
  have paths : ∀ {v names}, PathOf g root v names →
      PathOf (g.setNode n { g.nodes n with type := type }) root v names := by
    intro v names path
    induction path with
    | root => exact .root
    | child other isChild parent internal _ ih =>
        rw [← (fields _).1]
        exact .child other isChild parent internal ih
    | mounted other isRoot parent _ ih => exact .mounted other isRoot parent ih
  have placed : ∀ {m k t}, MountOn g m k t →
      MountOn (g.setNode n { g.nodes n with type := type }) m k t :=
    fun on => ⟨on.root, on.clear, on.isRoot, on.parent, on.target, on.covered⟩
  exact
    { rootVnode := tree.rootVnode
      root_mem := tree.root_mem
      rootParent := tree.rootParent
      rootMount := tree.rootMount
      rootIsMount := tree.rootIsMount
      ops := tree.ops
      internal := tree.internal
      owner := tree.owner
      count := fun member internal => by
        rw [(fields _).2.1]
        exact tree.count member internal
      child := fun member internal below => by
        rw [(fields _).2.1] at below
        rw [(fields _).2.2]
        exact tree.child member internal below
      parent := tree.parent
      path := fun member => (tree.path member).imp fun _ => paths
      mount := fun member mount => by
        obtain ⟨k, rootInTree, t, inTree, on, same⟩ := tree.mount member mount
        exact ⟨k, rootInTree, t, inTree, placed on, same⟩
      mounted := fun member isRoot other => by
        obtain ⟨m, t, inTree, on⟩ := tree.mounted member isRoot other
        exact ⟨m, t, inTree, placed on⟩ }

theorem Sound.retype (sound : Sound s root V own others) (n : Nat) (type : Tmpfs.NodeType) :
    Sound (s.setNode n { s.nodes n with type := type }) root V own others where
  tree := sound.tree.retype n type
  used := ⟨sound.used.vnodes, sound.used.nodes, sound.used.mounts, sound.used.rootfs⟩
  holds := sound.holds
  registered := sound.registered

/-- The operation adds a file to the directory `d`. -/
def AddsFile (d : Nat) (effect : Effect) : Prop := effect = .child d .file

/-- An entry of the archive is a new child of the archive's root. -/
theorem initramfsEntry_spec (sound : Sound s root V own others) (member : d ∈ V)
    (clear : (s.vnodes d).mount = none) (entered : initramfsEntry s d filename filesize = some s') :
    Continues s.toGraph s' root V own others (AddsFile d) ∧
      (s'.vnodes d).mount = none := by
  unfold initramfsEntry at entered
  cases first : (s.alloc nodeSize).2 with
  | none =>
      rw [alloc_eq first] at entered
      cases entered
  | some newNode =>
      obtain ⟨freshNode, held₁⟩ := alloc_some sound.holds first
      rw [alloc_eq first] at entered
      have graph₁ := alloc_toGraph s nodeSize
      have systems₁ := alloc_filesystems s nodeSize
      generalize (s.alloc nodeSize).1 = s₁ at *
      dsimp only [Option.bind_eq_bind, Option.bind_some] at entered
      split at entered
      · cases entered
      · have held₂ : Holds (s₁.alloc filesize).1.heap
            ((s₁.alloc filesize).2.toList ++ newNode :: (own ++ others)) := by
          cases second : (s₁.alloc filesize).2 with
          | none => exact alloc_none held₁ second
          | some p => exact (alloc_some held₁ second).2
        have graph₂ : (s₁.alloc filesize).1.toGraph = s.toGraph := graph₁
        have systems₂ : (s₁.alloc filesize).1.filesystems = s.filesystems := systems₁
        generalize s₁.alloc filesize = second at *
        obtain ⟨s₂, data⟩ := second
        dsimp only at held₂ graph₂ systems₂ entered
        split at entered
        · cases entered
        · generalize written : s₂.setNode newNode
            ⟨filename, .file, none, data, filesize, filesize, fun _ => none, 0⟩ = s₃ at entered
          have graph₃ : s₃.toGraph = s.toGraph.setNode newNode
              ⟨filename, .file, none, data, filesize, filesize, fun _ => none, 0⟩ := by
            rw [← written, ← graph₂]
            rfl
          have systems₃ : s₃.filesystems = s.filesystems := by
            rw [← written]
            exact systems₂
          have held₃ : Holds s₃.heap (data.toList ++ newNode :: (own ++ others)) := by
            rw [← written]
            exact held₂
          cases third : (s₃.alloc vnodeSize).2 with
          | none =>
              rw [alloc_eq third] at entered
              cases entered
          | some newVnode =>
              obtain ⟨freshVnode, held₄⟩ := alloc_some held₃ third
              rw [alloc_eq third] at entered
              dsimp only [Option.bind_eq_bind, Option.bind_some] at entered
              have notVnode : newVnode ∉ own := fun old =>
                freshVnode (List.mem_append_right _ (List.mem_cons_of_mem _ (List.mem_append_left _ old)))
              have notNode : newNode ∉ own := fun old => freshNode (List.mem_append_left _ old)
              have other : d ≠ newVnode := by
                rintro rfl
                exact notVnode (sound.used.vnodes member)
              generalize linked : (s₃.alloc vnodeSize).1.setVnode newVnode
                { mount := none, vOps := some .initramfs, fOps := some .initramfs,
                  internal := some newNode, parent := some d, parentIsMount := false } = s₄ at entered
              have graph₄ : s₄.toGraph = s₃.toGraph.setVnode newVnode
                  { mount := none, vOps := some .initramfs, fOps := some .initramfs,
                    internal := some newNode, parent := some d, parentIsMount := false } := by
                rw [← linked]
                rfl
              have vnodes₄ : ∀ v, v ≠ newVnode → s₄.vnodes v = s.vnodes v := by
                intro v notNew
                rw [graph₄, setVnode_of_ne _ notNew, graph₃]
                rfl
              obtain ⟨n, internal, stored⟩ := Option.bind_eq_some_iff.mp entered
              rw [vnodes₄ d other] at internal
              have notSame : n ≠ newNode := by
                rintro rfl
                exact notNode (sound.used.nodes member internal)
              have nodes₄ : ∀ n', n' ≠ newNode → s₄.nodes n' = s.nodes n' := by
                intro n' notNew
                rw [graph₄]
                change s₃.nodes n' = s.nodes n'
                rw [graph₃]
                exact setNode_of_ne _ notNew
              obtain ⟨room, rfl⟩ := storeChild_eq stored
              rw [nodes₄ n notSame] at room
              have pushed : (s₄.setNode n ((s₄.nodes n).push newVnode)).nodes n =
                  (s.nodes n).push newVnode := by
                rw [← nodes₄ n notSame]
                exact setNode_self _
              have unpushed : ∀ n', n' ≠ n →
                  (s₄.setNode n ((s₄.nodes n).push newVnode)).nodes n' = s₄.nodes n' :=
                fun n' notHere => setNode_of_ne _ notHere
              have created : Created s.toGraph
                  (s₄.setNode n ((s₄.nodes n).push newVnode)).toGraph V d newVnode newNode filename := by
                apply @created_of_updates d n newVnode newNode V own filename s.toGraph _ .initramfs
                  .initramfs ⟨filename, .file, none, data, filesize, filesize, fun _ => none, 0⟩
                  sound.used (fun inTree here here' => sound.tree.owner inTree member here here') member
                  internal notVnode notNode room.2 rfl rfl
                · change s₄.rootfs = s.rootfs
                  rw [graph₄]
                  change s₃.rootfs = s.rootfs
                  rw [graph₃]
                  rfl
                · change s₄.mounts = s.mounts
                  rw [graph₄]
                  change s₃.mounts = s.mounts
                  rw [graph₃]
                  rfl
                · change s₄.vnodes newVnode = _
                  rw [graph₄, setVnode_self]
                  unfold childVnode
                  rw [clear]
                · exact vnodes₄
                · exact pushed
                · rw [unpushed newNode notSame.symm, graph₄]
                  change s₃.nodes newNode = _
                  rw [graph₃]
                  exact setNode_self _
                · intro n' notDir notNew
                  rw [unpushed n' notDir, nodes₄ n' notNew]
              have proper := proper_of_clear clear
              constructor
              · have held₅ : Holds s₄.heap
                    ((newVnode :: (data.toList ++ newNode :: own)) ++ others) := by
                  rw [← linked, List.cons_append, List.append_assoc]
                  exact held₄
                have systems₄ : (s₄.setNode n ((s₄.nodes n).push newVnode)).filesystems =
                    s.filesystems := by
                  rw [← linked]
                  exact systems₃
                have adds : AddsFile d (.child d
                    ((s₄.setNode n ((s₄.nodes n).push newVnode)).nodes newNode).type) := by
                  apply congrArg (Effect.child d)
                  rw [unpushed newNode notSame.symm, graph₄]
                  change (s₃.nodes newNode).type = _
                  rw [graph₃, setNode_self]
                apply sound.created systems₄ created proper adds ?_ List.mem_cons_self
                  ?_ held₅
                · intro p inOwn
                  simp [inOwn]
                · simp
              · rw [← clear]
                exact congrArg Vnode.mount (vnodes₄ d other)

/-- The archive's root is no mount point, and nothing below it becomes one. -/
theorem initramfsEntries_spec {archive : List (Name × Nat)} {T : Set Nat}
    (sound : Sound s root V own others) (marks : Marks s.toGraph V T) (member : d ∈ V)
    (clear : (s.vnodes d).mount = none)
    (entered : archive.foldlM (fun s entry => initramfsEntry s d entry.1 entry.2) s = some s') :
    ∃ V' own', Sound s' root V' own' others ∧ Marks s'.toGraph V' T := by
  induction archive generalizing s V own with
  | nil =>
      cases entered
      exact ⟨V, own, sound, marks⟩
  | cons entry archive ih =>
      rw [List.foldlM_cons] at entered
      obtain ⟨s₁, first, rest⟩ := Option.bind_eq_some_iff.mp entered
      obtain ⟨⟨V₁, own₁, effect, _, sound₁, rfl, change⟩, clear₁⟩ :=
        initramfsEntry_spec sound member clear first
      have marks₁ := marks.change sound.tree change clear
      rw [show (Effect.child d .file).points = ∅ from rfl, Set.empty_union] at marks₁
      exact ih sound₁ marks₁ (change.larger member) clear₁ rest

theorem Marks.retype {g : Graph} {T : Set Nat} (marks : Marks g V T) (n : Nat) :
    Marks (g.setNode n { g.nodes n with type := .directory }) V T where
  only := marks.only
  member := marks.member
  point := marks.point
  directory inT := by
    obtain ⟨n', internal, type⟩ := marks.directory inT
    refine ⟨n', internal, ?_⟩
    by_cases here : n' = n
    · rw [here, setNode_self]
    · rw [setNode_of_ne _ here]
      exact type

theorem initramfsInit_spec {archive : List (Name × Nat)} {T : Set Nat}
    (sound : Sound s root V own others) (marks : Marks s.toGraph V T) (member : d ∈ V)
    (clear : (s.vnodes d).mount = none) (entered : initramfsInit s d archive = some s') :
    ∃ V' own', Sound s' root V' own' others ∧ Marks s'.toGraph V' T := by
  unfold initramfsInit at entered
  obtain ⟨n, _, entries⟩ := Option.bind_eq_some_iff.mp entered
  exact initramfsEntries_spec (sound.retype n .directory) (marks.retype n) member clear entries

end Archive

/-! ## The whole start -/

section Init

variable {s s' : State H} {others : List Nat} {archive : List (Name × Nat)}

/-- A lookup of a single name that fails finds nothing. -/
theorem resolve_single {g : Graph} {name : Name} {r : Int} {v : Nat}
    (single : components ('/' :: name) = [name])
    (resolved : resolve g none ('/' :: name) = some (r, some v)) : r = 0 := by
  rw [resolve_eq, single, if_pos rfl] at resolved
  obtain ⟨root, _, walked⟩ := Option.bind_eq_some_iff.mp resolved
  rw [walkAll] at walked
  obtain ⟨⟨r', w⟩, stepped, rest⟩ := Option.bind_eq_some_iff.mp walked
  dsimp only at rest
  split at rest
  · next failed =>
      rw [walkComponent_failed stepped failed] at rest
      cases rest
  · rw [walkAll] at rest
    exact (Prod.mk.inj (Option.some.inj rest)).1.symm

/-- The vnode on which the start has mounted the archive. -/
def bootTarget (s : State H) : Option Nat := do
  let s ← vfsInitRoot s
  let (s, _) ← vfsMkdir s none ('/' :: initramfsName)
  let (s, _) ← registerFs s initramfsName .initramfs
  let (_, result) ← vfsMount s none ('/' :: initramfsName) initramfsName
  let (_, target) ← resolve s.toGraph none ('/' :: initramfsName)
  if result = 0 then target else none

/-! ### The parts of `vfs_init` -/

/-- From the root to the mount of the archive. -/
def prepareArchive (s : State H) : Option (State H) := do
  let (s, _) ← vfsMkdir s none ('/' :: initramfsName)
  let (s, _) ← registerFs s initramfsName .initramfs
  return s

/-- The mount of the archive, and the vnode to which its files are added. -/
def mountArchive (s : State H) : Option (State H × Nat) := do
  let (s, _) ← vfsMount s none ('/' :: initramfsName) initramfsName
  let (s, _, initramfsNode) ← vfsLookup s none ('/' :: initramfsName)
  let initramfsNode ← initramfsNode
  return (s, initramfsNode)

/-- What follows the archive. -/
def makeDevices (s : State H) : Option (State H) := do
  let (s, _) ← vfsMkdir s none ['/', 'd', 'e', 'v']
  let (s, _) ← vfsMknod s none ['/', 'd', 'e', 'v', '/', 'u', 'a', 'r', 't'] .uart
  let (s, _) ← vfsMknod s none
    ['/', 'd', 'e', 'v', '/', 'f', 'r', 'a', 'm', 'e', 'b', 'u', 'f', 'f', 'e', 'r'] .framebuffer
  return s

theorem vfsInit_eq (s : State H) (archive : List (Name × Nat)) :
    vfsInit s archive = (vfsInitRoot s).bind fun s =>
      if s.rootfs = none then some s
      else (prepareArchive s).bind fun s => (mountArchive s).bind fun (s, node) =>
        (initramfsInit s node archive).bind makeDevices := by
  unfold vfsInit prepareArchive mountArchive makeDevices
  simp only [Option.bind_eq_bind, Option.bind_assoc, Option.pure_def, Option.bind_some]

/-- The memory of the root of the archive is clean at the start. -/
def CleanStart (s : State H) : Prop :=
  ∀ s₁ s₂, vfsInitRoot s = some s₁ → s₁.rootfs ≠ none → prepareArchive s₁ = some s₂ →
    CleanMemory s₂ none ('/' :: initramfsName)

section Parts

variable {root : Nat} {V : Set Nat} {own : List Nat}

theorem prepareArchive_sound (sound : Sound s root {root} own others)
    (directory : IsDirectory s.toGraph root) (made : prepareArchive s = some s') :
    ∃ V' own', Sound s' root V' own' others ∧ Marks s'.toGraph V' ∅ ∧
      (∀ v ∈ V', IsDirectory s'.toGraph v) ∧
      (Blank s.toGraph (own ++ others) → Blank s'.toGraph (own' ++ others)) := by
  have marks : Marks s.toGraph {root} ∅ :=
    { only := by
        rintro v rfl mounted
        exact absurd sound.tree.rootMount mounted
      member := fun impossible => impossible.elim
      point := fun impossible => impossible.elim
      directory := fun impossible => impossible.elim }
  unfold prepareArchive at made
  obtain ⟨⟨s₂, r₂, t₂⟩, entered, made⟩ := Option.bind_eq_some_iff.mp made
  obtain ⟨V₂, own₂, effect₂, larger₂, sound₂, may₂, change₂⟩ := sound.mkdir cwdOk_none entered
  have marks₂ := marks.change sound.tree change₂ (sound.tree.create_calm rfl may₂)
  rw [may₂.points, Set.union_empty] at marks₂
  have directories₂ : ∀ v ∈ V₂, IsDirectory s₂.toGraph v := by
    apply change₂.directories
    · rintro v rfl
      exact directory
    · rcases may₂ with rfl | ⟨d, rfl, _⟩
      · trivial
      · rfl
  obtain ⟨⟨s₃, r₃⟩, registers, made⟩ := Option.bind_eq_some_iff.mp made
  cases made
  obtain ⟨graph₃, ⟨p, held₃⟩, systems₃⟩ := registerFs_spec sound₂.holds registers
  refine ⟨V₂, p :: own₂, ⟨graph₃.symm ▸ sound₂.tree, ?_, held₃,
    sound₂.registered.register (Or.inr ⟨rfl, rfl⟩) systems₃⟩, ?_, ?_, fun blank => ?_⟩
  · exact (graph₃.symm ▸ sound₂.used : InUse s'.toGraph V₂ own₂).mono (List.subset_cons_self p own₂)
  · rw [graph₃]
    exact marks₂
  · rw [graph₃]
    exact directories₂
  · rw [graph₃]
    intro n outside
    refine vfsMkdir_blank sound.inv cwdOk_none blank entered n fun old => outside ?_
    rcases List.mem_append.mp old with inOwn | other
    · exact List.mem_append_left others (List.mem_cons_of_mem p (larger₂ inOwn))
    · exact List.mem_append_right (p :: own₂) other

/-- The vnode on which the archive is mounted. -/
def archiveTarget (s : State H) : Option Nat :=
  (vfsMount s none ('/' :: initramfsName) initramfsName).bind fun (_, result) =>
    (resolve s.toGraph none ('/' :: initramfsName)).bind fun (_, target) =>
      if result = 0 then target else none

theorem bootTarget_eq {s₁ s₂ : State H} (atRoot : vfsInitRoot s = some s₁)
    (prepared : prepareArchive s₁ = some s₂) : bootTarget s = archiveTarget s₂ := by
  unfold prepareArchive at prepared
  obtain ⟨⟨s₃, r₃, t₃⟩, made, prepared⟩ := Option.bind_eq_some_iff.mp prepared
  obtain ⟨⟨s₄, r₄⟩, registers, prepared⟩ := Option.bind_eq_some_iff.mp prepared
  cases prepared
  unfold bootTarget archiveTarget
  simp only [atRoot, made, registers, Option.bind_eq_bind, Option.bind_some]

theorem mountArchive_sound {node : Nat} (sound : Sound s root V own others)
    (marks : Marks s.toGraph V ∅) (directories : ∀ v ∈ V, IsDirectory s.toGraph v)
    (clean : CleanMemory s none ('/' :: initramfsName)) (mounts : mountArchive s = some (s', node)) :
    ∃ V' own', Sound s' root V' own' others ∧
      Marks s'.toGraph V' {v | archiveTarget s = some v} ∧ node ∈ V' ∧
      (s'.vnodes node).mount = none := by
  unfold mountArchive at mounts
  obtain ⟨⟨s₄, r₄⟩, mounted, mounts⟩ := Option.bind_eq_some_iff.mp mounts
  obtain ⟨V₄, own₄, effect₄, _, sound₄, may₄, change₄⟩ :=
    sound.mount cwdOk_none (fun _ => clean) mounted
  have target : archiveTarget s = (resolve s.toGraph none ('/' :: initramfsName)).bind
      fun outcome => if r₄ = 0 then outcome.2 else none := by
    unfold archiveTarget
    simp only [mounted, Option.bind_some]
  have marks₄ : Marks s₄.toGraph V₄ {v | archiveTarget s = some v} := by
    rcases may₄ with ⟨failed, rfl⟩ | ⟨success, t, rfl, resolved⟩
    · have marks₄ := marks.change sound.tree change₄ trivial
      rw [show Effect.none.points = ∅ from rfl, Set.empty_union] at marks₄
      have none_ : archiveTarget s = none := by
        rw [target]
        simp only [if_neg failed]
        exact Option.bind_fun_none _
      simpa [none_] using marks₄
    · obtain ⟨v, _, _, same, inTree, _⟩ := resolve_located sound.tree cwdOk_none resolved
      cases same
      have marks₄ := marks.change sound.tree change₄ (directories t inTree)
      have some_ : archiveTarget s = some t := by
        rw [target, resolved, Option.bind_some, if_pos success]
      simpa [some_, Effect.points, eq_comm] using marks₄
  obtain ⟨⟨s₅, r₅, found⟩, looked, mounts⟩ := Option.bind_eq_some_iff.mp mounts
  obtain ⟨initramfsNode, rfl⟩ : ∃ v, found = some v := by
    cases found with
    | none => cases mounts
    | some v => exact ⟨v, rfl⟩
  cases mounts
  obtain ⟨looks, outcome⟩ := vfsLookup_looked sound₄.holds looked
  obtain ⟨V₅, own₅, effect₅, _, sound₅, rfl, change₅⟩ := sound₄.lookup looked
  have marks₅ := marks₄.change sound₄.tree change₅ trivial
  rw [show Effect.none.points = ∅ from rfl, Set.empty_union] at marks₅
  have resolved : resolve s₄.toGraph none ('/' :: initramfsName) = some (0, some node) := by
    rcases outcome with failed | resolved
    · cases failed
    · have success := resolve_single (by decide) resolved
      rw [success] at resolved
      exact resolved
  obtain ⟨v, inTree, same, visible⟩ := (sound₄.tree.resolve_visible rfl resolved).1 rfl
  cases same
  refine ⟨V₅, own₅, sound₅, marks₅, change₅.larger inTree, ?_⟩
  rw [looks.graph]
  exact sound₄.tree.visible_clear visible

theorem makeDevices_sound {T : Set Nat} (sound : Sound s root V own others)
    (marks : Marks s.toGraph V T) (made : makeDevices s = some s') :
    ∃ V' own', Sound s' root V' own' others ∧ Marks s'.toGraph V' T := by
  unfold makeDevices at made
  obtain ⟨⟨s₇, r₇, t₇⟩, made₇, made⟩ := Option.bind_eq_some_iff.mp made
  obtain ⟨V₇, own₇, effect₇, _, sound₇, may₇, change₇⟩ := sound.mkdir cwdOk_none made₇
  have marks₇ := marks.created sound.tree rfl may₇ change₇
  obtain ⟨⟨s₈, r₈⟩, made₈, made⟩ := Option.bind_eq_some_iff.mp made
  obtain ⟨V₈, own₈, effect₈, _, sound₈, may₈, change₈⟩ := sound₇.mknod cwdOk_none made₈
  have marks₈ := marks₇.created sound₇.tree rfl may₈ change₈
  obtain ⟨⟨s₉, r₉⟩, made₉, made⟩ := Option.bind_eq_some_iff.mp made
  obtain ⟨V₉, own₉, effect₉, _, sound₉, may₉, change₉⟩ := sound₈.mknod cwdOk_none made₉
  have marks₉ := marks₈.created sound₈.tree rfl may₉ change₉
  cases made
  exact ⟨V₉, own₉, sound₉, marks₉⟩

end Parts

theorem vfsInit_sound_of_clean (holds : Holds s.heap others) (clean : CleanStart s)
    (unregistered : s.filesystems = []) (booted : vfsInit s archive = some s')
    (running : s'.rootfs ≠ none) :
    ∃ root V own, Sound s' root V own others ∧
      Marks s'.toGraph V {v | bootTarget s = some v} := by
  rw [vfsInit_eq] at booted
  obtain ⟨s₁, atRoot, booted⟩ := Option.bind_eq_some_iff.mp booted
  split at booted
  · next missing =>
      cases booted
      exact absurd missing running
  · next present =>
      obtain ⟨root, own, sound, directory, _⟩ := vfsInitRoot_spec holds unregistered atRoot present
      obtain ⟨s₃, prepared, booted⟩ := Option.bind_eq_some_iff.mp booted
      obtain ⟨V₃, own₃, sound₃, marks₃, directories₃, _⟩ := prepareArchive_sound sound directory prepared
      obtain ⟨⟨s₅, node⟩, mounts, booted⟩ := Option.bind_eq_some_iff.mp booted
      obtain ⟨V₅, own₅, sound₅, marks₅, member, clear⟩ :=
        mountArchive_sound sound₃ marks₃ directories₃ (clean s₁ s₃ atRoot present prepared) mounts
      rw [← bootTarget_eq atRoot prepared] at marks₅
      obtain ⟨s₆, entered, booted⟩ := Option.bind_eq_some_iff.mp booted
      obtain ⟨V₆, own₆, sound₆, marks₆⟩ := initramfsInit_spec sound₅ marks₅ member clear entered
      obtain ⟨V₉, own₉, sound₉, marks₉⟩ := makeDevices_sound sound₆ marks₆ booted
      exact ⟨root, V₉, own₉, sound₉, marks₉⟩

theorem Blank.cleanStart (blank : Blank s.toGraph others) (holds : Holds s.heap others)
    (unregistered : s.filesystems = []) : CleanStart s := by
  intro s₁ s₂ atRoot present prepared
  obtain ⟨root, own, sound, directory, blank₁⟩ :=
    vfsInitRoot_spec holds unregistered atRoot present
  obtain ⟨V₂, own₂, sound₂, _, _, blank₂⟩ := prepareArchive_sound sound directory prepared
  exact (blank₂ (blank₁ blank)).cleanMemory sound₂.holds

/-- After the start the file system is in order, and its only mount point is
the one of the archive. -/
theorem vfsInit_sound (holds : Holds s.heap others) (blank : Blank s.toGraph others)
    (unregistered : s.filesystems = []) (booted : vfsInit s archive = some s')
    (running : s'.rootfs ≠ none) :
    ∃ root V own, Sound s' root V own others ∧
      Marks s'.toGraph V {v | bootTarget s = some v} :=
  vfsInit_sound_of_clean holds (blank.cleanStart holds unregistered) unregistered booted running

end Init

end OsdiKernel.Fs
