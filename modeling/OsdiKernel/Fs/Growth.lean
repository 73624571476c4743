import OsdiKernel.Fs.Tree

/-!
# How the tree grows

An operation leaves the tree as it is, adds a child to a directory, or mounts a
new root on a vnode.  In each case the result is a tree again, and walks that
do not meet the new vnode are the same.
-/

namespace OsdiKernel.Fs

/-! ## What no operation changes -/

/-- The links of the vnodes in `V` that never change. -/
structure Preserves (g g' : Graph) (V : Set Nat) : Prop where
  rootfs : g'.rootfs = g.rootfs
  rootVnode : g'.rootVnode = g.rootVnode
  ops : ∀ {v}, v ∈ V → (g'.vnodes v).vOps = (g.vnodes v).vOps
  internal : ∀ {v}, v ∈ V → (g'.vnodes v).internal = (g.vnodes v).internal
  parent : ∀ {v}, v ∈ V → (g'.vnodes v).parent = (g.vnodes v).parent
  isMount : ∀ {v}, v ∈ V → (g'.vnodes v).parentIsMount = (g.vnodes v).parentIsMount
  mount : ∀ {v m}, v ∈ V → (g.vnodes v).mount = some m →
    (g'.vnodes v).mount = some m ∧ g'.mounts m = g.mounts m
  label : ∀ {v n}, v ∈ V → (g.vnodes v).internal = some n →
    (g'.nodes n).name = (g.nodes n).name ∧ (g'.nodes n).type = (g.nodes n).type

section Preserves

variable {g g' : Graph} {root v : Nat} {V : Set Nat}

theorem PathOf.preserved {names : List Name} (path : PathOf g root v names)
    (pre : Preserves g g' V)
    (up : ∀ {v}, v ∈ V → v ≠ root → ∃ p ∈ V, (g.vnodes v).parent = some p)
    (member : v ∈ V) : PathOf g' root v names := by
  induction path with
  | root => exact .root
  | child other isChild parent internal path ih =>
      obtain ⟨p, inTree, parent'⟩ := up member other
      rw [parent] at parent'
      cases parent'
      rw [← (pre.label member internal).1]
      exact .child other ((pre.isMount member).trans isChild) ((pre.parent member).trans parent)
        ((pre.internal member).trans internal) (ih inTree)
  | mounted other isRoot parent path ih =>
      obtain ⟨p, inTree, parent'⟩ := up member other
      rw [parent] at parent'
      cases parent'
      exact .mounted other ((pre.isMount member).trans isRoot) ((pre.parent member).trans parent)
        (ih inTree)

variable (tree : Tree g root V) (pre : Preserves g g' V)
include tree pre

theorem Preserves.path (member : v ∈ V) : ∃ names, PathOf g' root v names := by
  obtain ⟨names, path⟩ := tree.path member
  exact ⟨names, path.preserved pre (fun inTree other =>
    (tree.parent inTree other).imp fun _ fact => ⟨fact.1, fact.2.1⟩) member⟩

theorem Preserves.pathOf {names : List Name} (path : PathOf g root v names) (member : v ∈ V) :
    PathOf g' root v names :=
  path.preserved pre (fun inTree other =>
    (tree.parent inTree other).imp fun _ fact => ⟨fact.1, fact.2.1⟩) member

omit tree in
/-- A mount stays in place. -/
theorem Preserves.mountOn {m k t : Nat} (on : MountOn g m k t) (rootInTree : k ∈ V)
    (inTree : t ∈ V) (clear : (g'.vnodes k).mount = (g.vnodes k).mount) : MountOn g' m k t where
  root := by
    rw [(pre.mount inTree on.target).2]
    exact on.root
  clear := clear.trans on.clear
  isRoot := (pre.isMount rootInTree).trans on.isRoot
  parent := (pre.parent rootInTree).trans on.parent
  target := (pre.mount inTree on.target).1
  covered := (pre.isMount inTree).trans on.covered

/-- A step over ".." is the same in both trees. -/
theorem Preserves.step_up {V' : Set Nat} (tree' : Tree g' root V') (larger : V ⊆ V')
    (member : v ∈ V) :
    step g' (some v) ['.', '.'] = step g (some v) ['.', '.'] := by
  by_cases atRoot : v = root
  · rw [atRoot, tree.step_up_root, tree'.step_up_root]
  · obtain ⟨p, inTree, u, _, parent, _, cases_, result⟩ := tree.step_up member atRoot
    obtain ⟨p', _, u', _, parent', _, cases', result'⟩ := tree'.step_up (larger member) atRoot
    rw [pre.parent member, parent] at parent'
    cases parent'
    rw [pre.isMount member] at cases'
    rw [result, result']
    rcases cases_ with ⟨flag, rfl⟩ | ⟨flag, _, above⟩
    · rcases cases' with ⟨_, rfl⟩ | ⟨flag', _⟩
      · rfl
      · rw [flag] at flag'
        cases flag'
    · rcases cases' with ⟨flag', _⟩ | ⟨_, _, above'⟩
      · rw [flag] at flag'
        cases flag'
      · rw [pre.parent inTree, above] at above'
        cases above'
        rfl

/-- The search in a directory whose children are the same finds the same child. -/
theorem Preserves.findChild (member : v ∈ V) {n : Nat} (internal : (g.vnodes v).internal = some n)
    (count : (g'.nodes n).numChildren = (g.nodes n).numChildren)
    (children : (g'.nodes n).children = (g.nodes n).children) (name : Name) :
    findChild g' (g'.nodes n) name = findChild g (g.nodes n) name := by
  unfold Fs.findChild
  rw [count]
  apply searchChildren_congr (tree.present member internal)
  · intro j _ _
    rw [children]
  · intro j c n' _ upper child internal'
    obtain ⟨c', inTree, child', _⟩ := tree.child member internal (by omega : j < _)
    rw [child] at child'
    cases child'
    exact ⟨(pre.internal inTree).trans internal', (pre.label inTree internal').1⟩

end Preserves

/-! ## The same tree -/

/-- The two graphs have the same tree. -/
structure Agree (g g' : Graph) (V : Set Nat) : Prop extends Preserves g g' V where
  mounts : ∀ {v}, v ∈ V → (g'.vnodes v).mount = (g.vnodes v).mount
  children : ∀ {v n}, v ∈ V → (g.vnodes v).internal = some n →
    (g'.nodes n).numChildren = (g.nodes n).numChildren ∧
      (g'.nodes n).children = (g.nodes n).children

theorem Agree.refl (g : Graph) (V : Set Nat) : Agree g g V where
  rootfs := rfl
  rootVnode := rfl
  ops _ := rfl
  internal _ := rfl
  parent _ := rfl
  isMount _ := rfl
  mount _ mount := ⟨mount, rfl⟩
  label _ _ := ⟨rfl, rfl⟩
  mounts _ := rfl
  children _ _ := ⟨rfl, rfl⟩

section Agree

variable {g g' g'' : Graph} {root v : Nat} {V : Set Nat}

theorem Agree.trans (first : Agree g g' V) (second : Agree g' g'' V) : Agree g g'' V where
  rootfs := second.rootfs.trans first.rootfs
  rootVnode := second.rootVnode.trans first.rootVnode
  ops member := (second.ops member).trans (first.ops member)
  internal member := (second.internal member).trans (first.internal member)
  parent member := (second.parent member).trans (first.parent member)
  isMount member := (second.isMount member).trans (first.isMount member)
  mount member mount :=
    ⟨(second.mount member (first.mount member mount).1).1,
      (second.mount member (first.mount member mount).1).2.trans (first.mount member mount).2⟩
  label member internal :=
    have between := (first.internal member).trans internal
    ⟨(second.label member between).1.trans (first.label member internal).1,
      (second.label member between).2.trans (first.label member internal).2⟩
  mounts member := (second.mounts member).trans (first.mounts member)
  children member internal :=
    have between := (first.internal member).trans internal
    ⟨(second.children member between).1.trans (first.children member internal).1,
      (second.children member between).2.trans (first.children member internal).2⟩

variable (tree : Tree g root V) (agree : Agree g g' V)
include tree agree

theorem Agree.proper (member : v ∈ V) (proper : Proper g v) : Proper g' v := by
  intro m mount
  rw [agree.mounts member] at mount
  obtain ⟨k, isRoot, parent⟩ := proper m mount
  obtain ⟨k', inTree, _, _, on, _⟩ := tree.mount member mount
  rw [on.root] at isRoot
  cases isRoot
  refine ⟨k, ?_, (agree.parent inTree).trans parent⟩
  rw [(agree.mount member mount).2]
  exact on.root

theorem Agree.isTree : Tree g' root V where
  rootVnode := agree.rootVnode.trans tree.rootVnode
  root_mem := tree.root_mem
  rootParent := (agree.parent tree.root_mem).trans tree.rootParent
  rootMount := (agree.mounts tree.root_mem).trans tree.rootMount
  rootIsMount := (agree.isMount tree.root_mem).trans tree.rootIsMount
  ops member := by
    rw [agree.ops member]
    exact tree.ops member
  internal member := by
    rw [agree.internal member]
    exact tree.internal member
  owner member member' internal internal' := by
    rw [agree.internal member] at internal
    rw [agree.internal member'] at internal'
    exact tree.owner member member' internal internal'
  count member internal := by
    rw [agree.internal member] at internal
    rw [(agree.children member internal).1]
    exact tree.count member internal
  child member internal below := by
    rw [agree.internal member] at internal
    rw [(agree.children member internal).1] at below
    obtain ⟨c, inTree, child, parent, notRoot⟩ := tree.child member internal below
    rw [(agree.children member internal).2]
    exact ⟨c, inTree, child, (agree.parent inTree).trans parent,
      (agree.isMount inTree).trans notRoot⟩
  parent member other := by
    obtain ⟨p, inTree, parent, proper⟩ := tree.parent member other
    exact ⟨p, inTree, (agree.parent member).trans parent, agree.proper tree inTree proper⟩
  path member := agree.toPreserves.path tree member
  mount {v m} member mount := by
    rw [agree.mounts member] at mount
    obtain ⟨k, rootInTree, t, inTree, on, same⟩ := tree.mount member mount
    refine ⟨k, rootInTree, t, inTree,
      agree.toPreserves.mountOn on rootInTree inTree (agree.mounts rootInTree), ?_⟩
    rcases same with same | ⟨p, parent, copied⟩
    · exact Or.inl same
    · exact Or.inr ⟨p, (agree.parent member).trans parent,
        (agree.mounts (tree.parent_mem member parent)).trans copied⟩
  mounted member isRoot other := by
    rw [agree.isMount member] at isRoot
    obtain ⟨m, t, inTree, on⟩ := tree.mounted member isRoot other
    exact ⟨m, t, inTree,
      agree.toPreserves.mountOn on member inTree (agree.mounts member)⟩

omit tree in
theorem Agree.cross (member : v ∈ V) : g'.cross v = g.cross v := by
  unfold Graph.cross
  rw [agree.mounts member]
  cases mount : (g.vnodes v).mount with
  | none => rfl
  | some m =>
      dsimp only
      rw [(agree.mount member mount).2]

theorem Agree.step (member : v ∈ V) (name : Name) :
    step g' (some v) name = step g (some v) name := by
  by_cases isName : IsName name
  · obtain ⟨e, inTree, crossed, _⟩ := tree.cross member
    obtain ⟨ops, hasOps⟩ := tree.ops inTree
    obtain ⟨n, internal⟩ := tree.internal inTree
    obtain ⟨found, result, isChild⟩ := tree.find inTree internal name
    have children := agree.children inTree internal
    rw [step_name isName crossed hasOps internal,
      step_name isName ((agree.cross member).trans crossed)
        ((agree.ops inTree).trans hasOps) ((agree.internal inTree).trans internal),
      (agree.label inTree internal).2,
      agree.toPreserves.findChild tree inTree internal children.1 children.2, result]
    cases found with
    | none => rfl
    | some c =>
        simp only [Option.map_some, agree.cross (isChild c rfl).1]
  · unfold IsName at isName
    by_cases dot : name = ['.']
    · rw [dot, step_dot, step_dot]
    · have up : name = ['.', '.'] := by
        by_contra other
        exact isName ⟨dot, other⟩
      rw [up]
      exact agree.toPreserves.step_up tree (agree.isTree tree) (subset_refl V) member

end Agree

/-! ## A new child -/

/-- The directory `d` has a new last child `w`, whose node is `n`. -/
structure Created (g g' : Graph) (V : Set Nat) (d w n : Nat) (name : Name) : Prop
    extends Preserves g g' V where
  dir : d ∈ V
  newVnode : w ∉ V
  newNode : ∀ {v}, v ∈ V → (g.vnodes v).internal ≠ some n
  mounts : ∀ {v}, v ∈ V → (g'.vnodes v).mount = (g.vnodes v).mount
  mountCopied : (g'.vnodes w).mount = (g.vnodes d).mount
  hasOps : ∃ ops, (g'.vnodes w).vOps = some ops
  internalNew : (g'.vnodes w).internal = some n
  parentNew : (g'.vnodes w).parent = some d
  isChild : (g'.vnodes w).parentIsMount = false
  nodeName : (g'.nodes n).name = name
  empty : (g'.nodes n).numChildren = 0
  room : ∀ {nd}, (g.vnodes d).internal = some nd → (g.nodes nd).numChildren < maxChildren
  listed : ∀ {nd}, (g.vnodes d).internal = some nd →
    (g'.nodes nd).numChildren = (g.nodes nd).numChildren + 1 ∧
      (g'.nodes nd).children =
        Function.update (g.nodes nd).children (g.nodes nd).numChildren.toNat (some w)
  children : ∀ {v n}, v ∈ V → v ≠ d → (g.vnodes v).internal = some n →
    (g'.nodes n).numChildren = (g.nodes n).numChildren ∧
      (g'.nodes n).children = (g.nodes n).children

section Created

variable {g g' : Graph} {root v d w n : Nat} {V : Set Nat} {name : Name}
  (tree : Tree g root V) (made : Created g g' V d w n name)
include tree made

theorem Created.proper (member : v ∈ V) (proper : Proper g v) : Proper g' v := by
  intro m mount
  rw [made.mounts member] at mount
  obtain ⟨k, isRoot, parent⟩ := proper m mount
  obtain ⟨k', inTree, _, _, on, _⟩ := tree.mount member mount
  rw [on.root] at isRoot
  cases isRoot
  refine ⟨k, ?_, (made.parent inTree).trans parent⟩
  rw [(made.mount member mount).2]
  exact on.root

/-- The children of a directory of the old tree. -/
theorem Created.child (member : v ∈ V) {n' i : Nat} (internal : (g.vnodes v).internal = some n')
    (below : i < (g'.nodes n').numChildren.toNat) :
    ∃ c ∈ insert w V, (g'.nodes n').children i = some c ∧ (g'.vnodes c).parent = some v ∧
      (g'.vnodes c).parentIsMount = false := by
  have old : i < (g.nodes n').numChildren.toNat → (g'.nodes n').children i = (g.nodes n').children i →
      ∃ c ∈ insert w V, (g'.nodes n').children i = some c ∧ (g'.vnodes c).parent = some v ∧
        (g'.vnodes c).parentIsMount = false := by
    intro below same
    obtain ⟨c, inTree, child, parent, notRoot⟩ := tree.child member internal below
    exact ⟨c, Set.mem_insert_of_mem w inTree, same.trans child, (made.parent inTree).trans parent,
      (made.isMount inTree).trans notRoot⟩
  by_cases here : v = d
  · subst here
    obtain ⟨count, children⟩ := made.listed internal
    have nonneg := (tree.count member internal).1
    by_cases last : i = (g.nodes n').numChildren.toNat
    · refine ⟨w, Set.mem_insert w V, ?_, made.parentNew, made.isChild⟩
      rw [children, last, Function.update_self]
    · apply old (by omega)
      rw [children, Function.update_of_ne last]
  · obtain ⟨count, children⟩ := made.children member here internal
    exact old (count ▸ below) (congrFun children i)

theorem Created.isTree (properDir : Proper g d) : Tree g' root (insert w V) where
  rootVnode := made.rootVnode.trans tree.rootVnode
  root_mem := Set.mem_insert_of_mem w tree.root_mem
  rootParent := (made.parent tree.root_mem).trans tree.rootParent
  rootMount := (made.mounts tree.root_mem).trans tree.rootMount
  rootIsMount := (made.isMount tree.root_mem).trans tree.rootIsMount
  ops member := by
    rcases Set.mem_insert_iff.mp member with rfl | member
    · exact made.hasOps
    · rw [made.ops member]
      exact tree.ops member
  internal member := by
    rcases Set.mem_insert_iff.mp member with rfl | member
    · exact ⟨n, made.internalNew⟩
    · rw [made.internal member]
      exact tree.internal member
  owner member member' internal internal' := by
    rcases Set.mem_insert_iff.mp member with rfl | old
    · rcases Set.mem_insert_iff.mp member' with rfl | old'
      · rfl
      · rw [made.internalNew] at internal
        cases internal
        rw [made.internal old'] at internal'
        exact absurd internal' (made.newNode old')
    · rw [made.internal old] at internal
      rcases Set.mem_insert_iff.mp member' with rfl | old'
      · rw [made.internalNew] at internal'
        cases internal'
        exact absurd internal (made.newNode old)
      · rw [made.internal old'] at internal'
        exact tree.owner old old' internal internal'
  count {v n'} member internal := by
    rcases Set.mem_insert_iff.mp member with rfl | member
    · rw [made.internalNew] at internal
      cases internal
      rw [made.empty]
      decide
    · rw [made.internal member] at internal
      have bounds := tree.count member internal
      by_cases here : v = d
      · subst here
        have room := made.room internal
        rw [(made.listed internal).1]
        omega
      · rw [(made.children member here internal).1]
        exact bounds
  child {v n' i} member internal below := by
    rcases Set.mem_insert_iff.mp member with rfl | member
    · rw [made.internalNew] at internal
      cases internal
      rw [made.empty] at below
      exact absurd below (Nat.not_lt_zero i)
    · rw [made.internal member] at internal
      exact made.child tree member internal below
  parent member other := by
    rcases Set.mem_insert_iff.mp member with rfl | member
    · exact ⟨d, Set.mem_insert_of_mem _ made.dir, made.parentNew, made.proper tree made.dir properDir⟩
    · obtain ⟨p, inTree, parent, proper⟩ := tree.parent member other
      exact ⟨p, Set.mem_insert_of_mem w inTree, (made.parent member).trans parent,
        made.proper tree inTree proper⟩
  path member := by
    rcases Set.mem_insert_iff.mp member with rfl | member
    · obtain ⟨names, path⟩ := made.toPreserves.path tree made.dir
      refine ⟨_, .child ?_ made.isChild made.parentNew made.internalNew path⟩
      rintro rfl
      exact made.newVnode tree.root_mem
    · exact made.toPreserves.path tree member
  mount {v m} member mount := by
    have placed : ∀ {k t}, k ∈ V → t ∈ V → MountOn g m k t → MountOn g' m k t :=
      fun rootInTree inTree on =>
        made.toPreserves.mountOn on rootInTree inTree (made.mounts rootInTree)
    rcases Set.mem_insert_iff.mp member with rfl | member
    · rw [made.mountCopied] at mount
      obtain ⟨k, rootInTree, t, inTree, on, _⟩ := tree.mount made.dir mount
      exact ⟨k, Set.mem_insert_of_mem _ rootInTree, t, Set.mem_insert_of_mem _ inTree,
        placed rootInTree inTree on, Or.inr ⟨d, made.parentNew, (made.mounts made.dir).trans mount⟩⟩
    · rw [made.mounts member] at mount
      obtain ⟨k, rootInTree, t, inTree, on, same⟩ := tree.mount member mount
      refine ⟨k, Set.mem_insert_of_mem _ rootInTree, t, Set.mem_insert_of_mem _ inTree,
        placed rootInTree inTree on, ?_⟩
      rcases same with same | ⟨p, parent, copied⟩
      · exact Or.inl same
      · exact Or.inr ⟨p, (made.parent member).trans parent,
          (made.mounts (tree.parent_mem member parent)).trans copied⟩
  mounted member isRoot other := by
    rcases Set.mem_insert_iff.mp member with rfl | member
    · rw [made.isChild] at isRoot
      cases isRoot
    · rw [made.isMount member] at isRoot
      obtain ⟨m, t, inTree, on⟩ := tree.mounted member isRoot other
      exact ⟨m, t, Set.mem_insert_of_mem _ inTree,
        made.toPreserves.mountOn on member inTree (made.mounts member)⟩

omit tree in
theorem Created.cross (member : v ∈ V) : g'.cross v = g.cross v := by
  unfold Graph.cross
  rw [made.mounts member]
  cases mount : (g.vnodes v).mount with
  | none => rfl
  | some m =>
      dsimp only
      rw [(made.mount member mount).2]

omit tree in
/-- Changes that are no changes of the tree may follow. -/
theorem Created.agree {g'' : Graph} (agree : Agree g' g'' (insert w V)) :
    Created g g'' V d w n name := by
  have old : ∀ {v}, v ∈ V → v ∈ insert w V := fun member => Set.mem_insert_of_mem w member
  have new : w ∈ insert w V := Set.mem_insert w V
  constructor
  · constructor
    · exact agree.rootfs.trans made.rootfs
    · exact agree.rootVnode.trans made.rootVnode
    · exact fun member => (agree.ops (old member)).trans (made.ops member)
    · exact fun member => (agree.internal (old member)).trans (made.internal member)
    · exact fun member => (agree.parent (old member)).trans (made.parent member)
    · exact fun member => (agree.isMount (old member)).trans (made.isMount member)
    · intro v m member mount
      obtain ⟨mount', same⟩ := made.mount member mount
      obtain ⟨mount'', same'⟩ := agree.mount (old member) mount'
      exact ⟨mount'', same'.trans same⟩
    · intro v n' member internal
      obtain ⟨name', type⟩ := made.label member internal
      obtain ⟨name'', type'⟩ := agree.label (old member) ((made.internal member).trans internal)
      exact ⟨name''.trans name', type'.trans type⟩
  · exact made.dir
  · exact made.newVnode
  · exact made.newNode
  · exact fun member => (agree.mounts (old member)).trans (made.mounts member)
  · exact (agree.mounts new).trans made.mountCopied
  · rw [agree.ops new]
    exact made.hasOps
  · exact (agree.internal new).trans made.internalNew
  · exact (agree.parent new).trans made.parentNew
  · exact (agree.isMount new).trans made.isChild
  · exact (agree.label new made.internalNew).1.trans made.nodeName
  · exact (agree.children new made.internalNew).1.trans made.empty
  · exact made.room
  · intro nd internal
    obtain ⟨count, children⟩ := made.listed internal
    obtain ⟨count', children'⟩ :=
      agree.children (old made.dir) ((made.internal made.dir).trans internal)
    exact ⟨count'.trans count, children'.trans children⟩
  · intro v n' member other internal
    obtain ⟨count, children⟩ := made.children member other internal
    obtain ⟨count', children'⟩ :=
      agree.children (old member) ((made.internal member).trans internal)
    exact ⟨count'.trans count, children'.trans children⟩

/-- In the directory, the new child is found if no other child has its name. -/
theorem Created.findChild (properDir : Proper g d) {nd : Nat}
    (internal : (g.vnodes d).internal = some nd) (x : Name) :
    Fs.findChild g' (g'.nodes nd) x =
      (Fs.findChild g (g.nodes nd) x).map fun found =>
        found.or (if name = x then some w else none) := by
  obtain ⟨count, children⟩ := made.listed internal
  have nonneg := (tree.count made.dir internal).1
  have longer : (g'.nodes nd).numChildren.toNat = (g.nodes nd).numChildren.toNat + 1 := by omega
  have present := (made.isTree tree properDir).present (Set.mem_insert_of_mem w made.dir)
    ((made.internal made.dir).trans internal)
  rw [longer] at present
  have last : (g'.nodes nd).children (0 + (g.nodes nd).numChildren.toNat) = some w := by
    rw [children, Nat.zero_add, Function.update_self]
  have earlier : searchChildren g' (g'.nodes nd) x (g.nodes nd).numChildren.toNat 0 =
      searchChildren g (g.nodes nd) x (g.nodes nd).numChildren.toNat 0 := by
    apply searchChildren_congr (tree.present made.dir internal)
    · intro j _ upper
      rw [children, Function.update_of_ne (by omega)]
    · intro j c n' _ upper child internal'
      obtain ⟨c', inTree, child', _⟩ := tree.child made.dir internal (by omega : j < _)
      rw [child] at child'
      cases child'
      exact ⟨(made.internal inTree).trans internal', (made.label inTree internal').1⟩
  unfold Fs.findChild
  rw [longer, searchChildren_last present last made.internalNew, earlier, made.nodeName]

/-- Only a search for the new name in the directory has another result. -/
theorem Created.step (properDir : Proper g d) (member : v ∈ V) (x : Name) :
    step g' (some v) x = step g (some v) x ∨
      IsName x ∧ g.cross v = some d ∧ x = name ∧ step g (some v) x = some (enoent, some v) := by
  by_cases isName : IsName x
  · obtain ⟨e, inTree, crossed, _⟩ := tree.cross member
    obtain ⟨ops, hasOps⟩ := tree.ops inTree
    obtain ⟨n', internal⟩ := tree.internal inTree
    obtain ⟨found, result, isChild⟩ := tree.find inTree internal x
    have old := step_name isName crossed hasOps internal
    have new := step_name isName ((made.cross member).trans crossed)
      ((made.ops inTree).trans hasOps) ((made.internal inTree).trans internal)
    rw [(made.label inTree internal).2] at new
    have sameCross : ∀ c, found = some c → g'.cross c = g.cross c :=
      fun c isFound => made.cross (isChild c isFound).1
    by_cases here : e = d
    · subst here
      rw [made.findChild tree properDir internal x, result] at new
      rw [result] at old
      cases found with
      | some c =>
          left
          rw [old, new]
          simp only [Option.map_some, Option.some_or, sameCross c rfl]
      | none =>
          rw [Option.map_some, Option.none_or] at new
          by_cases same : name = x
          · by_cases directory : (g.nodes n').type = .directory
            · right
              rw [if_neg (not_not_intro directory)] at old
              exact ⟨isName, crossed, same.symm, old⟩
            · left
              rw [old, new, if_pos directory, if_pos directory]
          · left
            rw [old, new, if_neg same]
            rfl
    · left
      obtain ⟨count, children⟩ := made.children inTree here internal
      rw [made.toPreserves.findChild tree inTree internal count children, result] at new
      rw [old, new, result]
      cases found with
      | none => rfl
      | some c => simp only [Option.map_some, sameCross c rfl]
  · left
    by_cases dot : x = ['.']
    · rw [dot, step_dot, step_dot]
    · have up : x = ['.', '.'] := by
        by_contra other
        exact isName ⟨dot, other⟩
      rw [up]
      exact made.toPreserves.step_up tree (made.isTree tree properDir) (Set.subset_insert w V)
        member

/-- The new name leads to the new vnode, unless the directory is covered. -/
theorem Created.step_new (properDir : Proper g d) (isName : IsName name)
    (clear : (g.vnodes d).mount = none) {nd : Nat} (internal : (g.vnodes d).internal = some nd)
    (directory : (g.nodes nd).type = .directory)
    (absent : Fs.findChild g (g.nodes nd) name = some none) :
    Fs.step g' (some d) name = some (0, some w) := by
  have crossed : g'.cross d = some d := by
    unfold Graph.cross
    rw [made.mounts made.dir, clear]
  have crossedNew : g'.cross w = some w := by
    unfold Graph.cross
    rw [made.mountCopied, clear]
  obtain ⟨ops, hasOps⟩ := tree.ops made.dir
  rw [step_name isName crossed ((made.ops made.dir).trans hasOps)
    ((made.internal made.dir).trans internal), (made.label made.dir internal).2,
    if_neg (not_not_intro directory), made.findChild tree properDir internal, absent,
    Option.map_some, Option.none_or, if_pos rfl]
  exact congrArg (fun next => some (0, next)) crossedNew

end Created

/-! ## A new mount -/

/-- The root `k`, whose node is `n`, is mounted on the vnode `t`. -/
structure Mounted (g g' : Graph) (V : Set Nat) (t k m n : Nat) : Prop
    extends Preserves g g' V where
  target : t ∈ V
  targetClear : (g.vnodes t).mount = none
  targetChild : (g.vnodes t).parentIsMount = false
  newVnode : k ∉ V
  newNode : ∀ {v}, v ∈ V → (g.vnodes v).internal ≠ some n
  mounts : ∀ {v}, v ∈ V → v ≠ t → (g'.vnodes v).mount = (g.vnodes v).mount
  mountNew : (g'.vnodes t).mount = some m
  rootNew : (g'.mounts m).root = some k
  clear : (g'.vnodes k).mount = none
  hasOps : ∃ ops, (g'.vnodes k).vOps = some ops
  internalNew : (g'.vnodes k).internal = some n
  parentNew : (g'.vnodes k).parent = some t
  isRoot : (g'.vnodes k).parentIsMount = true
  empty : (g'.nodes n).numChildren = 0
  children : ∀ {v n}, v ∈ V → (g.vnodes v).internal = some n →
    (g'.nodes n).numChildren = (g.nodes n).numChildren ∧
      (g'.nodes n).children = (g.nodes n).children

section Mounted

variable {g g' : Graph} {root v t k m n : Nat} {V : Set Nat} (tree : Tree g root V)
  (made : Mounted g g' V t k m n)
include made

/-- A vnode with this flag is not the target. -/
theorem Mounted.mount_of_root (member : v ∈ V) (flag : (g.vnodes v).parentIsMount = true) :
    (g'.vnodes v).mount = (g.vnodes v).mount := by
  apply made.mounts member
  rintro rfl
  rw [made.targetChild] at flag
  cases flag

theorem Mounted.mountOn {m' k' t' : Nat} (on : MountOn g m' k' t') (rootInTree : k' ∈ V)
    (inTree : t' ∈ V) : MountOn g' m' k' t' :=
  made.toPreserves.mountOn on rootInTree inTree (made.mount_of_root rootInTree on.isRoot)

theorem Mounted.mountOnNew : MountOn g' m k t where
  root := made.rootNew
  clear := made.clear
  isRoot := made.isRoot
  parent := made.parentNew
  target := made.mountNew
  covered := (made.isMount made.target).trans made.targetChild

include tree

theorem Mounted.proper (member : v ∈ V) (proper : Proper g v) : Proper g' v := by
  by_cases here : v = t
  · subst here
    intro m' mount
    rw [made.mountNew] at mount
    cases mount
    exact ⟨k, made.rootNew, made.parentNew⟩
  · intro m' mount
    rw [made.mounts member here] at mount
    obtain ⟨k', isRoot, parent⟩ := proper m' mount
    obtain ⟨k₁, inTree, _, _, on, _⟩ := tree.mount member mount
    rw [on.root] at isRoot
    cases isRoot
    refine ⟨k', ?_, (made.parent inTree).trans parent⟩
    rw [(made.mount member mount).2]
    exact on.root

theorem Mounted.isTree : Tree g' root (insert k V) where
  rootVnode := made.rootVnode.trans tree.rootVnode
  root_mem := Set.mem_insert_of_mem k tree.root_mem
  rootParent := (made.parent tree.root_mem).trans tree.rootParent
  rootMount := (made.mount_of_root tree.root_mem tree.rootIsMount).trans tree.rootMount
  rootIsMount := (made.isMount tree.root_mem).trans tree.rootIsMount
  ops member := by
    rcases Set.mem_insert_iff.mp member with rfl | member
    · exact made.hasOps
    · rw [made.ops member]
      exact tree.ops member
  internal member := by
    rcases Set.mem_insert_iff.mp member with rfl | member
    · exact ⟨n, made.internalNew⟩
    · rw [made.internal member]
      exact tree.internal member
  owner member member' internal internal' := by
    rcases Set.mem_insert_iff.mp member with rfl | old
    · rcases Set.mem_insert_iff.mp member' with rfl | old'
      · rfl
      · rw [made.internalNew] at internal
        cases internal
        rw [made.internal old'] at internal'
        exact absurd internal' (made.newNode old')
    · rw [made.internal old] at internal
      rcases Set.mem_insert_iff.mp member' with rfl | old'
      · rw [made.internalNew] at internal'
        cases internal'
        exact absurd internal (made.newNode old)
      · rw [made.internal old'] at internal'
        exact tree.owner old old' internal internal'
  count member internal := by
    rcases Set.mem_insert_iff.mp member with rfl | member
    · rw [made.internalNew] at internal
      cases internal
      rw [made.empty]
      decide
    · rw [made.internal member] at internal
      rw [(made.children member internal).1]
      exact tree.count member internal
  child {v n' i} member internal below := by
    rcases Set.mem_insert_iff.mp member with rfl | member
    · rw [made.internalNew] at internal
      cases internal
      rw [made.empty] at below
      exact absurd below (Nat.not_lt_zero i)
    · rw [made.internal member] at internal
      obtain ⟨count, children⟩ := made.children member internal
      rw [count] at below
      obtain ⟨c, inTree, child, parent, notRoot⟩ := tree.child member internal below
      exact ⟨c, Set.mem_insert_of_mem k inTree, (congrFun children i).trans child,
        (made.parent inTree).trans parent, (made.isMount inTree).trans notRoot⟩
  parent member other := by
    rcases Set.mem_insert_iff.mp member with rfl | member
    · exact ⟨t, Set.mem_insert_of_mem _ made.target, made.parentNew,
        made.proper tree made.target (proper_of_clear made.targetClear)⟩
    · obtain ⟨p, inTree, parent, proper⟩ := tree.parent member other
      exact ⟨p, Set.mem_insert_of_mem k inTree, (made.parent member).trans parent,
        made.proper tree inTree proper⟩
  path member := by
    rcases Set.mem_insert_iff.mp member with rfl | member
    · obtain ⟨names, path⟩ := made.toPreserves.path tree made.target
      refine ⟨names, .mounted ?_ made.isRoot made.parentNew path⟩
      rintro rfl
      exact made.newVnode tree.root_mem
    · exact made.toPreserves.path tree member
  mount {v m'} member mount := by
    rcases Set.mem_insert_iff.mp member with rfl | old
    · rw [made.clear] at mount
      cases mount
    · by_cases here : v = t
      · subst here
        rw [made.mountNew] at mount
        cases mount
        exact ⟨k, Set.mem_insert k V, v, member, made.mountOnNew, Or.inl rfl⟩
      · rw [made.mounts old here] at mount
        obtain ⟨k', rootInTree, t', inTree, on, same⟩ := tree.mount old mount
        refine ⟨k', Set.mem_insert_of_mem k rootInTree, t', Set.mem_insert_of_mem k inTree,
          made.mountOn on rootInTree inTree, ?_⟩
        rcases same with same | ⟨p, parent, copied⟩
        · exact Or.inl same
        · exact Or.inr ⟨p, (made.parent old).trans parent,
            (made.mount (tree.parent_mem old parent) copied).1⟩
  mounted {v} member flag other := by
    rcases Set.mem_insert_iff.mp member with rfl | old
    · exact ⟨m, t, Set.mem_insert_of_mem _ made.target, made.mountOnNew⟩
    · rw [made.isMount old] at flag
      obtain ⟨m', t', inTree, on⟩ := tree.mounted old flag other
      exact ⟨m', t', Set.mem_insert_of_mem k inTree, made.mountOn on old inTree⟩

omit tree in
theorem Mounted.cross (member : v ∈ V) (other : v ≠ t) : g'.cross v = g.cross v := by
  unfold Graph.cross
  rw [made.mounts member other]
  cases mount : (g.vnodes v).mount with
  | none => rfl
  | some m' =>
      dsimp only
      rw [(made.mount member mount).2]

/-- Only a step from the target or down to it has another result. -/
theorem Mounted.step (member : v ∈ V) (other : v ≠ t) (x : Name) :
    step g' (some v) x = step g (some v) x ∨
      IsName x ∧ ∃ e n', g.cross v = some e ∧ (g.vnodes t).parent = some e ∧
        (g.vnodes t).internal = some n' ∧ (g.nodes n').name = x ∧
          step g (some v) x = some (0, some t) ∧ Fs.step g' (some v) x = some (0, some k) := by
  by_cases isName : IsName x
  · obtain ⟨e, inTree, crossed, clear⟩ := tree.cross member
    obtain ⟨ops, hasOps⟩ := tree.ops inTree
    obtain ⟨n', internal⟩ := tree.internal inTree
    obtain ⟨found, result, isChild⟩ := tree.find inTree internal x
    obtain ⟨count, children⟩ := made.children inTree internal
    have old := step_name isName crossed hasOps internal
    have new := step_name isName ((made.cross member other).trans crossed)
      ((made.ops inTree).trans hasOps) ((made.internal inTree).trans internal)
    rw [(made.label inTree internal).2,
      made.toPreserves.findChild tree inTree internal count children, result] at new
    rw [result] at old
    cases found with
    | none => exact Or.inl (new.trans old.symm)
    | some c =>
        obtain ⟨childInTree, parent, _, n'', internal', same⟩ := isChild c rfl
        by_cases here : c = t
        · subst here
          by_cases directory : (g.nodes n').type = .directory
          · right
            have crossedOld : g.cross c = some c := by
              unfold Graph.cross
              rw [made.targetClear]
            have crossedNew : g'.cross c = some k := by
              unfold Graph.cross
              rw [made.mountNew]
              exact made.rootNew
            rw [if_neg (not_not_intro directory), Option.map_some] at old new
            dsimp only at old new
            rw [crossedOld] at old
            rw [crossedNew] at new
            exact ⟨isName, e, n'', crossed, parent, internal', same, old, new⟩
          · left
            rw [old, new, if_pos directory, if_pos directory]
        · left
          rw [old, new]
          simp only [Option.map_some, made.cross childInTree here]
  · left
    by_cases dot : x = ['.']
    · rw [dot, step_dot, step_dot]
    · have up : x = ['.', '.'] := by
        by_contra unlike
        exact isName ⟨dot, unlike⟩
      rw [up]
      exact made.toPreserves.step_up tree (made.isTree tree) (Set.subset_insert k V) member

omit tree in
/-- Nothing is found in the new root. -/
theorem Mounted.step_empty {x : Name} (isName : IsName x)
    (directory : (g'.nodes n).type = .directory) :
    Fs.step g' (some k) x = some (enoent, some k) := by
  obtain ⟨ops, hasOps⟩ := made.hasOps
  have crossed : g'.cross k = some k := by
    unfold Graph.cross
    rw [made.clear]
  have absent : findChild g' (g'.nodes n) x = some none := by
    unfold findChild
    rw [made.empty]
    rfl
  rw [step_name isName crossed hasOps made.internalNew, if_neg (not_not_intro directory), absent]
  rfl

end Mounted

/-! ## Walks elsewhere -/

section Frame

variable {g g' : Graph} {root v : Nat} {V : Set Nat} {place target names : List Name}

/-- Steps that do not meet a place are the same. -/
def SameOff (g g' : Graph) (root : Nat) (V : Set Nat) (target : List Name) : Prop :=
  ∀ {v place}, v ∈ V → Proper g v → PathOf g root v place → place ≠ target →
    ∀ x, x ≠ ['.'] → normalise place [x] ≠ target → step g' (some v) x = step g (some v) x

/-- The path does not go through a place. -/
def Avoids (place target names : List Name) : Prop :=
  ∀ before, before <+: names → normalise place before ≠ target

theorem Avoids.here (avoids : Avoids place target names) : place ≠ target :=
  avoids [] List.nil_prefix

theorem Avoids.tail {x : Name} (avoids : Avoids place target (x :: names)) :
    Avoids (normalise place [x]) target names :=
  fun before isPrefix => avoids (x :: before) (List.prefix_cons_inj x |>.mpr isPrefix)

theorem walk_frame (tree : Tree g root V) (same : SameOff g g' root V target) (member : v ∈ V)
    (proper : Proper g v) (path : PathOf g root v place) (noDots : ∀ name ∈ names, name ≠ ['.'])
    (avoids : Avoids place target names) :
    walk g' (some v) names = walk g (some v) names := by
  induction names generalizing v place with
  | nil => rfl
  | cons x names ih =>
      have notDot := noDots x List.mem_cons_self
      have first := same member proper path avoids.here x notDot
        (avoids [x] (List.prefix_cons_inj x |>.mpr List.nil_prefix))
      rw [walk, walk, first]
      cases stepped : step g (some v) x with
      | none => rfl
      | some after =>
          obtain ⟨result, next⟩ := after
          simp only [Option.bind_eq_bind, Option.bind_some]
          by_cases failed : result = 0
          · subst failed
            obtain ⟨w, inTree, rfl, proper', path'⟩ := tree.step_located member proper path notDot
              stepped
            rw [if_neg (not_not_intro rfl), if_neg (not_not_intro rfl)]
            exact ih inTree proper' path' (fun name later => noDots name (List.mem_cons_of_mem x later))
              avoids.tail
          · rw [if_pos failed, if_pos failed]

theorem Created.sameOff {d w n : Nat} {name : Name} (tree : Tree g root V)
    (made : Created g g' V d w n name) (properDir : Proper g d) {above : List Name}
    (path : PathOf g root d above) : SameOff g g' root V (above ++ [name]) := by
  intro v place member proper path' _ x notDot elsewhere
  rcases made.step tree properDir member x with same | ⟨isName, crossed, rfl, _⟩
  · exact same
  · exfalso
    apply elsewhere
    unfold normalise
    rw [if_neg isName.2, path.unique (tree.cross_path member proper crossed path')]
    rfl

theorem Mounted.sameOff {t k m n : Nat} (tree : Tree g root V) (made : Mounted g g' V t k m n)
    (path : PathOf g root t target) : SameOff g g' root V target := by
  intro v place member proper path' elsewhere x notDot elsewhere'
  have other : v ≠ t := by
    rintro rfl
    exact elsewhere (path'.unique path)
  rcases made.step tree member other x with same | ⟨isName, e, n', crossed, parent, internal, rfl, _⟩
  · exact same
  · exfalso
    apply elsewhere'
    unfold normalise
    rw [if_neg isName.2]
    have notRoot : t ≠ root := by
      rintro rfl
      rw [tree.rootParent] at parent
      cases parent
    exact PathOf.unique (.child notRoot made.targetChild parent internal
      (tree.cross_path member proper crossed path')) path

/-- A walk that succeeds is not affected by a new child. -/
theorem Created.walk {d w n : Nat} {name : Name} (tree : Tree g root V)
    (made : Created g g' V d w n name) (properDir : Proper g d) (member : v ∈ V)
    (proper : Proper g v) (path : PathOf g root v place) (noDots : ∀ name ∈ names, name ≠ ['.'])
    {u : Option Nat} (walked : walk g (some v) names = some (0, u)) :
    Fs.walk g' (some v) names = some (0, u) := by
  induction names generalizing v place with
  | nil => exact walked
  | cons x names ih =>
      have notDot := noDots x List.mem_cons_self
      rw [Fs.walk] at walked ⊢
      obtain ⟨⟨result, next⟩, stepped, rest⟩ := Option.bind_eq_some_iff.mp walked
      dsimp only at rest
      by_cases failed : result = 0
      · subst failed
        rcases made.step tree properDir member x with same | ⟨_, _, _, fails⟩
        · obtain ⟨w', inTree, rfl, proper', path'⟩ := tree.step_located member proper path notDot
            stepped
          rw [if_neg (not_not_intro rfl)] at rest
          rw [same, stepped]
          exact ih inTree proper' path'
            (fun name later => noDots name (List.mem_cons_of_mem x later)) rest
        · rw [stepped] at fails
          cases fails
      · rw [if_pos failed] at rest
        cases rest
        exact absurd rfl failed

end Frame

end OsdiKernel.Fs
