import OsdiKernel.Fs.Effects

/-!
# The invariant of the virtual file system

The vnodes form a tree, and they, their nodes and their mounts are allocations
in use.  What an operation does to memory is therefore no change of the tree, a
new child, or a new mount.
-/

namespace OsdiKernel.Fs

open Allocator (Holds)

/-! ## Structures in use -/

/-- The structures of the tree are among the pointers in use. -/
structure InUse (g : Graph) (V : Set Nat) (live : List Nat) : Prop where
  vnodes : ∀ {v}, v ∈ V → v ∈ live
  nodes : ∀ {v n}, v ∈ V → (g.vnodes v).internal = some n → n ∈ live
  mounts : ∀ {v m}, v ∈ V → (g.vnodes v).mount = some m → m ∈ live
  rootfs : ∀ {m}, g.rootfs = some m → m ∈ live

section InUse

variable {g g' : Graph} {root d w n t k m : Nat} {V : Set Nat} {live live' : List Nat} {name : Name}

theorem InUse.mono (used : InUse g V live) (larger : live ⊆ live') : InUse g V live' where
  vnodes member := larger (used.vnodes member)
  nodes member internal := larger (used.nodes member internal)
  mounts member mount := larger (used.mounts member mount)
  rootfs isRoot := larger (used.rootfs isRoot)

theorem InUse.agree (used : InUse g V live) (agree : Agree g g' V) : InUse g' V live where
  vnodes member := used.vnodes member
  nodes member internal := used.nodes member ((agree.internal member).symm.trans internal)
  mounts member mount := used.mounts member ((agree.mounts member).symm.trans mount)
  rootfs isRoot := used.rootfs (agree.rootfs.symm.trans isRoot)

theorem InUse.created (used : InUse g V live) (made : Created g g' V d w n name)
    (vnode : w ∈ live) (node : n ∈ live) : InUse g' (insert w V) live where
  vnodes member := by
    rcases Set.mem_insert_iff.mp member with rfl | member
    · exact vnode
    · exact used.vnodes member
  nodes member internal := by
    rcases Set.mem_insert_iff.mp member with rfl | member
    · rw [made.internalNew] at internal
      cases internal
      exact node
    · exact used.nodes member ((made.internal member).symm.trans internal)
  mounts member mount := by
    rcases Set.mem_insert_iff.mp member with rfl | member
    · exact used.mounts made.dir (made.mountCopied.symm.trans mount)
    · exact used.mounts member ((made.mounts member).symm.trans mount)
  rootfs isRoot := used.rootfs (made.rootfs.symm.trans isRoot)

theorem InUse.mounted (used : InUse g V live) (made : Mounted g g' V t k m n)
    (vnode : k ∈ live) (node : n ∈ live) (mount : m ∈ live) : InUse g' (insert k V) live where
  vnodes member := by
    rcases Set.mem_insert_iff.mp member with rfl | member
    · exact vnode
    · exact used.vnodes member
  nodes member internal := by
    rcases Set.mem_insert_iff.mp member with rfl | member
    · rw [made.internalNew] at internal
      cases internal
      exact node
    · exact used.nodes member ((made.internal member).symm.trans internal)
  mounts {v m'} member isMount := by
    rcases Set.mem_insert_iff.mp member with rfl | old
    · rw [made.clear] at isMount
      cases isMount
    · by_cases here : v = t
      · subst here
        rw [made.mountNew] at isMount
        cases isMount
        exact mount
      · exact used.mounts old ((made.mounts old here).symm.trans isMount)
  rootfs isRoot := used.rootfs (made.rootfs.symm.trans isRoot)

/-- Structures that are not in use may change without an effect on the tree. -/
theorem Agree.of_nodes (used : InUse g V live) (vnodes : g'.vnodes = g.vnodes)
    (nodes : ∀ n ∈ live, g'.nodes n = g.nodes n) (mounts : ∀ m ∈ live, g'.mounts m = g.mounts m)
    (rootfs : g'.rootfs = g.rootfs) : Agree g g' V where
  rootfs := rootfs
  rootVnode := by
    unfold Graph.rootVnode
    rw [rootfs]
    cases isRoot : g.rootfs with
    | none => rfl
    | some m => rw [Option.map_some, Option.map_some, mounts m (used.rootfs isRoot)]
  ops _ := by rw [vnodes]
  internal _ := by rw [vnodes]
  parent _ := by rw [vnodes]
  isMount _ := by rw [vnodes]
  mount member mount := ⟨by rw [vnodes]; exact mount, mounts _ (used.mounts member mount)⟩
  label member internal := by
    rw [nodes _ (used.nodes member internal)]
    exact ⟨rfl, rfl⟩
  mounts _ := by rw [vnodes]
  children member internal := by
    rw [nodes _ (used.nodes member internal)]
    exact ⟨rfl, rfl⟩

end InUse

variable {H : Type} [Allocator H]

section Effects

variable {s s' : State H} {root d nd w n : Nat} {V : Set Nat} {live : List Nat} {name : Name}
  {type : Tmpfs.NodeType}

omit [Allocator H] in
theorem Untouched.agree (untouched : Untouched s s' live) (used : InUse s.toGraph V live) :
    Agree s.toGraph s'.toGraph V :=
  .of_nodes used untouched.vnodes untouched.nodes untouched.mounts untouched.rootfs

omit [Allocator H] in
/-- The graph after a child was added, by what it says about each structure. -/
theorem created_of_updates {g g' : Graph} {ops : FsType} {fOps : FileOps} {node : Node}
    (used : InUse g V live) (owner : ∀ {v n}, v ∈ V → (g.vnodes v).internal = some n →
      (g.vnodes d).internal = some n → v = d) (dir : d ∈ V)
    (internal : (g.vnodes d).internal = some nd) (freshVnode : w ∉ live) (freshNode : n ∉ live)
    (room : (g.nodes nd).numChildren < maxChildren) (named : node.name = name)
    (empty : node.numChildren = 0) (rootfs : g'.rootfs = g.rootfs) (mounts : g'.mounts = g.mounts)
    (atVnode : g'.vnodes w = childVnode g d n ops fOps)
    (vnodes : ∀ v, v ≠ w → g'.vnodes v = g.vnodes v)
    (atDir : g'.nodes nd = (g.nodes nd).push w) (atNode : g'.nodes n = node)
    (nodes : ∀ n', n' ≠ nd → n' ≠ n → g'.nodes n' = g.nodes n') : Created g g' V d w n name := by
  have same : ∀ {v}, v ∈ V → g'.vnodes v = g.vnodes v := by
    intro v inTree
    apply vnodes
    rintro rfl
    exact freshVnode (used.vnodes inTree)
  have notNode : ∀ {v n'}, v ∈ V → (g.vnodes v).internal = some n' → n' ≠ n := by
    rintro v n' inTree internal rfl
    exact freshNode (used.nodes inTree internal)
  constructor
  · constructor
    · exact rootfs
    · unfold Graph.rootVnode
      rw [rootfs, mounts]
    · intro v inTree
      rw [same inTree]
    · intro v inTree
      rw [same inTree]
    · intro v inTree
      rw [same inTree]
    · intro v inTree
      rw [same inTree]
    · intro v m inTree mount
      rw [same inTree, mounts]
      exact ⟨mount, rfl⟩
    · intro v n' inTree internal'
      by_cases here : n' = nd
      · rw [here, atDir]
        exact ⟨rfl, rfl⟩
      · rw [nodes n' here (notNode inTree internal')]
        exact ⟨rfl, rfl⟩
  · exact dir
  · exact fun inTree => freshVnode (used.vnodes inTree)
  · exact fun inTree internal' => notNode inTree internal' rfl
  · intro v inTree
    rw [same inTree]
  · rw [atVnode]
    rfl
  · exact ⟨ops, by rw [atVnode]; rfl⟩
  · rw [atVnode]
    rfl
  · rw [atVnode]
    rfl
  · rw [atVnode]
    rfl
  · rw [atNode, named]
  · rw [atNode, empty]
  · intro nd' internal'
    rw [internal] at internal'
    cases internal'
    exact room
  · intro nd' internal'
    rw [internal] at internal'
    cases internal'
    rw [atDir]
    exact ⟨rfl, rfl⟩
  · intro v n' inTree other internal'
    have here : n' ≠ nd := by
      rintro rfl
      exact other (owner inTree internal' internal)
    rw [nodes n' here (notNode inTree internal')]
    exact ⟨rfl, rfl⟩

theorem Entered.node (entered : Entered s s' live d nd w n name type)
    (used : InUse s.toGraph V live) (member : d ∈ V) :
    ∃ data capacity, s'.nodes n = ⟨name, type, some nd, data, 0, capacity, fun _ => none, 0⟩ := by
  obtain ⟨data, capacity, graph⟩ := entered.graph
  have other : n ≠ nd := by
    rintro rfl
    exact entered.freshNode (used.nodes member entered.internal)
  refine ⟨data, capacity, ?_⟩
  rw [graph, setNode_of_ne _ other]
  exact setNode_self _

theorem Entered.created (entered : Entered s s' live d nd w n name type)
    (tree : Tree s.toGraph root V) (used : InUse s.toGraph V live) (member : d ∈ V) :
    Created s.toGraph s'.toGraph V d w n name := by
  obtain ⟨_, _, atNode⟩ := entered.node used member
  obtain ⟨_, _, graph⟩ := entered.graph
  apply created_of_updates used (fun inTree internal internal' =>
    tree.owner inTree member internal internal') member entered.internal entered.freshVnode
    entered.freshNode entered.room.2 rfl rfl ?_ ?_ ?_ ?_ ?_ atNode ?_
  · exact .tmpfs
  · exact .tmpfs
  · rw [graph]
    rfl
  · rw [graph]
    rfl
  · rw [graph]
    exact setVnode_self _
  · intro v otherVnode
    rw [graph]
    exact setVnode_of_ne _ otherVnode
  · rw [graph]
    exact setNode_self _
  · intro n' notDir notNew
    rw [graph, setNode_of_ne _ notDir]
    exact setNode_of_ne _ notNew

end Effects

/-! ## The invariant -/

structure Inv (s : State H) (root : Nat) (V : Set Nat) (live : List Nat) : Prop where
  tree : Tree s.toGraph root V
  holds : Holds s.heap live
  used : InUse s.toGraph V live

/-- A current directory is a proper vnode of the tree, if it is set. -/
def CwdOk (g : Graph) (V : Set Nat) (cwd : Option Nat) : Prop :=
  ∀ v, cwd = some v → v ∈ V ∧ Proper g v

section Resolve

variable {g : Graph} {root : Nat} {V : Set Nat} {cwd target : Option Nat} {pathname : Name}

theorem components_ne_dot (pathname : Name) : ∀ name ∈ components pathname, name ≠ ['.'] := by
  intro name member
  simpa using (List.mem_filter.mp member).2

/-- The vnode from which a path is walked, and its place. -/
def StartsAt (root : Nat) (cwd : Option Nat) (pathname : Name) (v : Nat) : Prop :=
  if startsWithSlash pathname = true then v = root else cwd = some v

theorem startsAt_mem (tree : Tree g root V) (ok : CwdOk g V cwd) {v : Nat}
    (starts : StartsAt root cwd pathname v) : v ∈ V ∧ Proper g v := by
  unfold StartsAt at starts
  split at starts
  · subst starts
    exact ⟨tree.root_mem, proper_of_clear tree.rootMount⟩
  · exact ok v starts

theorem settle_resolve_of_starts (tree : Tree g root V) {v : Nat}
    (starts : StartsAt root cwd pathname v) :
    (resolve g cwd pathname).map settle = walk g (some v) (components pathname) := by
  rw [settle_resolve]
  unfold walkPath origin
  unfold StartsAt at starts
  by_cases slash : startsWithSlash pathname = true
  · rw [if_pos slash] at starts ⊢
    rw [tree.rootVnode, starts]
    rfl
  · rw [if_neg slash] at starts ⊢
    rw [starts]
    rfl

/-- Without a current directory, a relative path is an internal error. -/
theorem settle_resolve_of_null (relative : ¬ startsWithSlash pathname = true) :
    (resolve g none pathname).map settle = some (einterr, none) := by
  rw [settle_resolve]
  unfold walkPath origin
  rw [if_neg relative]
  rfl

theorem startsAt_or_null (root : Nat) (cwd : Option Nat) (pathname : Name) :
    (∃ v, StartsAt root cwd pathname v) ∨
      ¬ startsWithSlash pathname = true ∧ cwd = none := by
  unfold StartsAt
  by_cases slash : startsWithSlash pathname = true
  · exact Or.inl ⟨root, by rw [if_pos slash]⟩
  · cases cwd with
    | none => exact Or.inr ⟨slash, rfl⟩
    | some v => exact Or.inl ⟨v, by rw [if_neg slash]⟩

theorem map_settle_success {outcome : Option (Int × Option Nat)} {v : Option Nat}
    (success : outcome = some (0, v)) : outcome.map settle = some (0, v) := by
  rw [success]
  rfl

theorem success_of_map_settle {outcome : Option (Int × Option Nat)} {v : Option Nat}
    (settled : outcome.map settle = some (0, v)) : outcome = some (0, v) := by
  obtain ⟨⟨result, target⟩, rfl, same⟩ := Option.map_eq_some_iff.mp settled
  unfold settle at same
  split at same
  · rw [same]
  · next failed =>
      cases same
      exact absurd rfl failed

/-- A lookup that succeeds yields a proper vnode of the tree. -/
theorem resolve_located (tree : Tree g root V) (ok : CwdOk g V cwd)
    (resolved : resolve g cwd pathname = some (0, target)) :
    ∃ v start, StartsAt root cwd pathname start ∧ target = some v ∧ v ∈ V ∧ Proper g v ∧
      ∀ place, PathOf g root start place →
        PathOf g root v (normalise place (components pathname)) := by
  have settled := map_settle_success resolved
  rcases startsAt_or_null root cwd pathname with ⟨start, starts⟩ | ⟨relative, rfl⟩
  · obtain ⟨member, proper⟩ := startsAt_mem tree ok starts
    rw [settle_resolve_of_starts tree starts] at settled
    obtain ⟨place, path⟩ := tree.path member
    obtain ⟨v, inTree, isSome, proper', path'⟩ := tree.walk_located member proper path
      (components_ne_dot pathname) settled
    refine ⟨v, start, starts, isSome, inTree, proper', fun place' other => ?_⟩
    rwa [other.unique path]
  · rw [settle_resolve_of_null relative] at settled
    cases settled

end Resolve

end OsdiKernel.Fs
