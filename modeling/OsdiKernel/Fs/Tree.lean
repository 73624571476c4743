import OsdiKernel.Fs.Resolution

/-!
# The tree of vnodes

The vnodes that were ever linked into a directory or mounted form a tree
through their parent pointers.  A mounted root stands in the place of the vnode
that it covers.  A walk over names and ".." follows this tree.
-/

namespace OsdiKernel.Fs

/-! ## The invariant -/

/-- The parent pointers of a vnode lead to the root. -/
inductive ParentChain (g : Graph) (root : Nat) : Nat → Prop
  | root : ParentChain g root root
  | up {v p : Nat} (parent : (g.vnodes v).parent = some p) (chain : ParentChain g root p) :
      ParentChain g root v

/-- The names on the way from the root to a vnode.  A mounted root has the
place of the vnode below it. -/
inductive PathOf (g : Graph) (root : Nat) : Nat → List Name → Prop
  | root : PathOf g root root []
  | child {v p n : Nat} {names : List Name} (other : v ≠ root)
      (isChild : (g.vnodes v).parentIsMount = false) (parent : (g.vnodes v).parent = some p)
      (internal : (g.vnodes v).internal = some n) (path : PathOf g root p names) :
      PathOf g root v (names ++ [(g.nodes n).name])
  | mounted {v p : Nat} {names : List Name} (other : v ≠ root)
      (isRoot : (g.vnodes v).parentIsMount = true) (parent : (g.vnodes v).parent = some p)
      (path : PathOf g root p names) : PathOf g root v names

/-- What is mounted on a vnode has it as its parent. -/
def Proper (g : Graph) (v : Nat) : Prop :=
  ∀ m, (g.vnodes v).mount = some m →
    ∃ k, (g.mounts m).root = some k ∧ (g.vnodes k).parent = some v

/-- A mount whose root replaces the vnode `t`. -/
structure MountOn (g : Graph) (m k t : Nat) : Prop where
  root : (g.mounts m).root = some k
  clear : (g.vnodes k).mount = none
  isRoot : (g.vnodes k).parentIsMount = true
  parent : (g.vnodes k).parent = some t
  target : (g.vnodes t).mount = some m
  covered : (g.vnodes t).parentIsMount = false

/-- The vnodes `V` form a tree with this root. -/
structure Tree (g : Graph) (root : Nat) (V : Set Nat) : Prop where
  rootVnode : g.rootVnode = some (some root)
  root_mem : root ∈ V
  rootParent : (g.vnodes root).parent = none
  rootMount : (g.vnodes root).mount = none
  rootIsMount : (g.vnodes root).parentIsMount = true
  ops : ∀ {v}, v ∈ V → ∃ ops, (g.vnodes v).vOps = some ops
  internal : ∀ {v}, v ∈ V → ∃ n, (g.vnodes v).internal = some n
  owner : ∀ {v w n}, v ∈ V → w ∈ V → (g.vnodes v).internal = some n →
    (g.vnodes w).internal = some n → v = w
  count : ∀ {v n}, v ∈ V → (g.vnodes v).internal = some n →
    0 ≤ (g.nodes n).numChildren ∧ (g.nodes n).numChildren ≤ maxChildren
  child : ∀ {v n i}, v ∈ V → (g.vnodes v).internal = some n → i < (g.nodes n).numChildren.toNat →
    ∃ c ∈ V, (g.nodes n).children i = some c ∧ (g.vnodes c).parent = some v ∧
      (g.vnodes c).parentIsMount = false
  parent : ∀ {v}, v ∈ V → v ≠ root → ∃ p ∈ V, (g.vnodes v).parent = some p ∧ Proper g p
  path : ∀ {v}, v ∈ V → ∃ names, PathOf g root v names
  mount : ∀ {v m}, v ∈ V → (g.vnodes v).mount = some m → ∃ k ∈ V, ∃ t ∈ V, MountOn g m k t ∧
    (t = v ∨ ∃ p, (g.vnodes v).parent = some p ∧ (g.vnodes p).mount = some m)
  mounted : ∀ {v}, v ∈ V → (g.vnodes v).parentIsMount = true → v ≠ root →
    ∃ m t, t ∈ V ∧ MountOn g m v t

variable {g : Graph} {root : Nat} {V : Set Nat} {v : Nat}

theorem PathOf.unique {names names' : List Name} (path : PathOf g root v names)
    (path' : PathOf g root v names') : names = names' := by
  induction path generalizing names' with
  | root =>
      cases path' with
      | root => rfl
      | child other => exact absurd rfl other
      | mounted other => exact absurd rfl other
  | child other isChild parent internal path ih =>
      cases path' with
      | root => exact absurd rfl other
      | child _ _ parent' internal' path' =>
          rw [parent] at parent'
          rw [internal] at internal'
          cases parent'
          cases internal'
          rw [ih path']
      | mounted _ isRoot =>
          rw [isChild] at isRoot
          cases isRoot
  | mounted other isRoot parent path ih =>
      cases path' with
      | root => exact absurd rfl other
      | child _ isChild =>
          rw [isRoot] at isChild
          cases isChild
      | mounted _ _ parent' path' =>
          rw [parent] at parent'
          cases parent'
          exact ih path'

theorem PathOf.chain {names : List Name} (path : PathOf g root v names) :
    ParentChain g root v := by
  induction path with
  | root => exact .root
  | child _ _ parent _ _ ih => exact .up parent ih
  | mounted _ _ parent _ ih => exact .up parent ih

/-! ## Children -/

section Children

variable {node : Node} {name : Name} {i left : Nat}

/-- Every child of a node from `i` on is a vnode with a node of its own. -/
def Present (g : Graph) (node : Node) (i left : Nat) : Prop :=
  i + left ≤ maxChildren ∧ ∀ j, i ≤ j → j < i + left →
    ∃ c n, node.children j = some c ∧ (g.vnodes c).internal = some n

theorem Present.tail (present : Present g node i (left + 1)) : Present g node (i + 1) left :=
  ⟨by have := present.1; omega, fun j lower upper => present.2 j (by omega) (by omega)⟩

theorem searchChildren_succ {c n : Nat} (below : i < maxChildren)
    (child : node.children i = some c) (internal : (g.vnodes c).internal = some n) :
    searchChildren g node name (left + 1) i =
      if (g.nodes n).name = name then some (some c)
      else searchChildren g node name left (i + 1) := by
  rw [searchChildren, if_neg (Nat.not_le.mpr below), child]
  simp only [Option.bind_eq_bind, Option.bind_some, internal]

theorem searchChildren_spec (present : Present g node i left) :
    ∃ found, searchChildren g node name left i = some found ∧
      (∀ c, found = some c → ∃ j n, i ≤ j ∧ j < i + left ∧ node.children j = some c ∧
        (g.vnodes c).internal = some n ∧ (g.nodes n).name = name) ∧
      (found = none → ∀ j c n, i ≤ j → j < i + left → node.children j = some c →
        (g.vnodes c).internal = some n → (g.nodes n).name ≠ name) := by
  induction left generalizing i with
  | zero =>
      refine ⟨none, rfl, (fun c impossible => by cases impossible), fun _ j c n lower upper => ?_⟩
      omega
  | succ left ih =>
      obtain ⟨c, n, child, internal⟩ := present.2 i (Nat.le_refl i) (by omega)
      have below : i < maxChildren := by
        have := present.1
        omega
      rw [searchChildren_succ below child internal]
      by_cases same : (g.nodes n).name = name
      · rw [if_pos same]
        refine ⟨some c, rfl, fun c' found => ?_, fun impossible => by cases impossible⟩
        cases found
        exact ⟨i, n, Nat.le_refl i, by omega, child, internal, same⟩
      · rw [if_neg same]
        obtain ⟨found, result, first, absent⟩ := ih present.tail
        refine ⟨found, result, fun c' isFound => ?_, fun none_ j c' n' lower upper => ?_⟩
        · obtain ⟨j, n', lower, upper, rest⟩ := first c' isFound
          exact ⟨j, n', by omega, by omega, rest⟩
        · by_cases here : j = i
          · subst here
            intro child' internal'
            rw [child] at child'
            cases child'
            rw [internal] at internal'
            cases internal'
            exact same
          · exact absent none_ j c' n' (by omega) (by omega)

/-- A search only reads the children and their names. -/
theorem searchChildren_congr {g' : Graph} {node' : Node} (present : Present g node i left)
    (children : ∀ j, i ≤ j → j < i + left → node'.children j = node.children j)
    (internals : ∀ j c n, i ≤ j → j < i + left → node.children j = some c →
      (g.vnodes c).internal = some n →
        (g'.vnodes c).internal = some n ∧ (g'.nodes n).name = (g.nodes n).name) :
    searchChildren g' node' name left i = searchChildren g node name left i := by
  induction left generalizing i with
  | zero => rfl
  | succ left ih =>
      obtain ⟨c, n, child, internal⟩ := present.2 i (Nat.le_refl i) (by omega)
      have below : i < maxChildren := by
        have := present.1
        omega
      obtain ⟨internal', sameName⟩ := internals i c n (Nat.le_refl i) (by omega) child internal
      have child' := (children i (Nat.le_refl i) (by omega)).trans child
      rw [searchChildren_succ below child internal, searchChildren_succ below child' internal',
        sameName, ih present.tail]
      · exact fun j lower upper => children j (by omega) (by omega)
      · exact fun j c n lower upper => internals j c n (by omega) (by omega)

/-- A longer search looks at one more child. -/
theorem searchChildren_last (present : Present g node i (left + 1)) {c n : Nat}
    (child : node.children (i + left) = some c) (internal : (g.vnodes c).internal = some n) :
    searchChildren g node name (left + 1) i =
      (searchChildren g node name left i).map fun found =>
        found.or (if (g.nodes n).name = name then some c else none) := by
  have limit := present.1
  induction left generalizing i with
  | zero =>
      rw [Nat.add_zero] at child
      rw [searchChildren_succ (by omega) child internal, searchChildren, searchChildren,
        Option.map_some, Option.none_or]
      split <;> rfl
  | succ left ih =>
      obtain ⟨c', n', child', internal'⟩ := present.2 i (Nat.le_refl i) (by omega)
      have below : i < maxChildren := by omega
      rw [searchChildren_succ below child' internal',
        @searchChildren_succ _ _ name i left _ _ below child' internal']
      by_cases same : (g.nodes n').name = name
      · rw [if_pos same, if_pos same, Option.map_some, Option.some_or]
      · rw [if_neg same, if_neg same]
        exact ih present.tail (by rwa [Nat.add_right_comm, Nat.add_assoc]) present.tail.1

end Children

theorem proper_of_clear (clear : (g.vnodes v).mount = none) : Proper g v := by
  intro m mount
  rw [clear] at mount
  cases mount

/-! ## One component -/

/-- The component names a child. -/
def IsName (name : Name) : Prop := name ≠ ['.'] ∧ name ≠ ['.', '.']

section Steps

variable {name : Name} {names : List Name}

theorem step_dot (current : Option Nat) : step g current ['.'] = some (0, current) := rfl

/-- What a step over a name does in the directory `e` that it enters. -/
theorem step_name {e n : Nat} {ops : FsType} (isName : IsName name) (crossed : g.cross v = some e)
    (hasOps : (g.vnodes e).vOps = some ops) (internal : (g.vnodes e).internal = some n) :
    step g (some v) name =
      if (g.nodes n).type ≠ .directory then some (eacces, some v)
      else (findChild g (g.nodes n) name).map fun found =>
        match found with
        | none => (enoent, some v)
        | some c => (0, g.cross c) := by
  have lookup : ops.lookup g e name = lookupNode g e name := by cases ops <;> rfl
  unfold step walkComponent
  rw [if_neg isName.1, if_neg isName.2]
  unfold walkDown
  simp only [Option.bind_eq_bind, Option.bind_some, crossed, hasOps, lookup]
  unfold lookupNode
  rw [internal]
  dsimp only
  by_cases directory : (g.nodes n).type = .directory
  · rw [if_neg (not_not_intro directory), if_neg (not_not_intro directory)]
    cases findChild g (g.nodes n) name with
    | none => rfl
    | some found => cases found <;> rfl
  · rw [if_pos directory, if_pos directory]
    rfl

variable (tree : Tree g root V)
include tree

theorem Tree.present (member : v ∈ V) {n : Nat} (internal : (g.vnodes v).internal = some n) :
    Present g (g.nodes n) 0 (g.nodes n).numChildren.toNat := by
  obtain ⟨nonneg, atMost⟩ := tree.count member internal
  refine ⟨by omega, fun j _ upper => ?_⟩
  obtain ⟨c, inTree, child, _⟩ := tree.child member internal (by omega : j < _)
  obtain ⟨n', internal'⟩ := tree.internal inTree
  exact ⟨c, n', child, internal'⟩

/-- A search in a directory of the tree finds one of its children, or none. -/
theorem Tree.find (member : v ∈ V) {n : Nat} (internal : (g.vnodes v).internal = some n)
    (name : Name) :
    ∃ found, findChild g (g.nodes n) name = some found ∧ ∀ c, found = some c →
      c ∈ V ∧ (g.vnodes c).parent = some v ∧ (g.vnodes c).parentIsMount = false ∧
        ∃ n', (g.vnodes c).internal = some n' ∧ (g.nodes n').name = name := by
  obtain ⟨found, result, first, _⟩ :=
    @searchChildren_spec g _ name _ _ (tree.present member internal)
  refine ⟨found, result, fun c isFound => ?_⟩
  obtain ⟨j, n', _, upper, child, internal', same⟩ := first c isFound
  obtain ⟨c', inTree, child', parent, notRoot⟩ := tree.child member internal (by omega : j < _)
  rw [child] at child'
  cases child'
  exact ⟨inTree, parent, notRoot, n', internal', same⟩

theorem Tree.parent_mem (member : v ∈ V) {p : Nat} (parent : (g.vnodes v).parent = some p) :
    p ∈ V := by
  have other : v ≠ root := by
    rintro rfl
    rw [tree.rootParent] at parent
    cases parent
  obtain ⟨p', inTree, parent', _⟩ := tree.parent member other
  rw [parent] at parent'
  cases parent'
  exact inTree

/-- Crossing a mount leads to a vnode of the tree without a mount. -/
theorem Tree.cross (member : v ∈ V) :
    ∃ e ∈ V, g.cross v = some e ∧ (g.vnodes e).mount = none := by
  unfold Graph.cross
  cases mount : (g.vnodes v).mount with
  | none => exact ⟨v, member, rfl, mount⟩
  | some m =>
      obtain ⟨k, inTree, _, _, on, _⟩ := tree.mount member mount
      exact ⟨k, inTree, on.root, on.clear⟩

theorem Tree.child_proper (member : v ∈ V) {p : Nat} (parent : (g.vnodes v).parent = some p)
    (clear : (g.vnodes p).mount = none) : Proper g v := by
  intro m mount
  obtain ⟨k, _, t, _, on, rfl | ⟨p', parent', copied⟩⟩ := tree.mount member mount
  · exact ⟨k, on.root, on.parent⟩
  · rw [parent] at parent'
    cases parent'
    rw [clear] at copied
    cases copied

/-- A root that is mounted on a proper vnode has the same place. -/
theorem Tree.cross_path (member : v ∈ V) (proper : Proper g v) {e : Nat}
    (crossed : g.cross v = some e) (path : PathOf g root v names) : PathOf g root e names := by
  unfold Graph.cross at crossed
  cases mount : (g.vnodes v).mount with
  | none =>
      rw [mount] at crossed
      cases crossed
      exact path
  | some m =>
      rw [mount] at crossed
      dsimp only at crossed
      obtain ⟨k, isRoot, parent⟩ := proper m mount
      rw [isRoot] at crossed
      cases crossed
      obtain ⟨k', _, _, _, on, _⟩ := tree.mount member mount
      have same := on.root
      rw [isRoot] at same
      cases same
      refine .mounted ?_ on.isRoot parent path
      rintro rfl
      rw [tree.rootParent] at parent
      cases parent

/-- A mounted root is recognised by the flag `parent_is_mount`. -/
theorem Tree.mountRoot_iff (member : v ∈ V) {p : Nat} (inTree : p ∈ V)
    (parent : (g.vnodes v).parent = some p) :
    g.mountRoot p = some v ↔ (g.vnodes v).parentIsMount = true := by
  have other : v ≠ root := by
    rintro rfl
    rw [tree.rootParent] at parent
    cases parent
  unfold Graph.mountRoot
  constructor
  · intro isRoot
    obtain ⟨m, mount, root'⟩ := Option.bind_eq_some_iff.mp isRoot
    obtain ⟨k, _, _, _, on, _⟩ := tree.mount inTree mount
    rw [on.root] at root'
    cases root'
    exact on.isRoot
  · intro isRoot
    obtain ⟨m, t, _, on⟩ := tree.mounted member isRoot other
    have same := on.parent
    rw [parent] at same
    cases same
    rw [on.target]
    exact on.root

/-- Where ".." leads: past the vnode that a mounted root covers. -/
theorem Tree.step_up (member : v ∈ V) (other : v ≠ root) :
    ∃ p ∈ V, ∃ u ∈ V, (g.vnodes v).parent = some p ∧ Proper g u ∧
      (((g.vnodes v).parentIsMount = false ∧ u = p) ∨
        ((g.vnodes v).parentIsMount = true ∧ p ≠ root ∧ (g.vnodes p).parent = some u)) ∧
      step g (some v) ['.', '.'] = some (0, some u) := by
  obtain ⟨p, inTree, parent, proper⟩ := tree.parent member other
  have notRoot : ¬ some v = some root := fun same => other (Option.some.inj same)
  have start : step g (some v) ['.', '.'] = (walkUp g ⟨some v, none⟩).map
      fun after => (after.1, after.2.current) := rfl
  unfold walkUp at start
  rw [tree.rootVnode] at start
  simp only [Option.bind_eq_bind, Option.bind_some, if_neg notRoot, parent] at start
  cases flag : (g.vnodes v).parentIsMount with
  | false =>
      refine ⟨p, inTree, p, inTree, parent, proper, Or.inl ⟨rfl, rfl⟩, ?_⟩
      have regular : g.mountRoot p ≠ some v := by
        intro isRoot
        rw [(tree.mountRoot_iff member inTree parent).mp isRoot] at flag
        cases flag
      rw [start, if_neg regular]
      rfl
  | true =>
      have isRoot := (tree.mountRoot_iff member inTree parent).mpr flag
      have below : p ≠ root := by
        rintro rfl
        unfold Graph.mountRoot at isRoot
        rw [tree.rootMount] at isRoot
        cases isRoot
      obtain ⟨u, inTree', parent', proper'⟩ := tree.parent inTree below
      refine ⟨p, inTree, u, inTree', parent, proper', Or.inr ⟨rfl, below, parent'⟩, ?_⟩
      have notRoot' : ¬ some p = some root := fun same => below (Option.some.inj same)
      rw [start, if_pos isRoot, if_neg notRoot', parent']
      rfl

theorem Tree.step_up_root : step g (some root) ['.', '.'] = some (0, some root) := by
  have start : step g (some root) ['.', '.'] = (walkUp g ⟨some root, none⟩).map
      fun after => (after.1, after.2.current) := rfl
  unfold walkUp at start
  rw [tree.rootVnode] at start
  simp only [Option.bind_eq_bind, Option.bind_some, if_true] at start
  rw [start]
  rfl

end Steps

/-! ## Walks -/

/-- The lexical meaning of names and ".." from a place on. -/
def normalise (place : List Name) : List Name → List Name
  | [] => place
  | name :: names =>
      normalise (if name = ['.', '.'] then place.dropLast else place ++ [name]) names

section Walks

variable {name : Name} {names place : List Name} (tree : Tree g root V)
include tree

theorem Tree.path_up (member : v ∈ V) (other : v ≠ root) {u : Nat} (path : PathOf g root v place)
    (up : step g (some v) ['.', '.'] = some (0, some u)) : PathOf g root u place.dropLast := by
  obtain ⟨p, _, u', _, parent, _, cases_, result⟩ := tree.step_up member other
  rw [result] at up
  cases up
  cases path with
  | root => exact absurd rfl other
  | child _ isChild parent' _ path' =>
      rcases cases_ with ⟨_, rfl⟩ | ⟨isRoot, _⟩
      · rw [parent] at parent'
        cases parent'
        rwa [List.dropLast_concat]
      · rw [isChild] at isRoot
        cases isRoot
  | mounted _ isRoot parent' path' =>
      rcases cases_ with ⟨isChild, _⟩ | ⟨_, below, above⟩
      · rw [isRoot] at isChild
        cases isChild
      · rw [parent] at parent'
        cases parent'
        obtain ⟨m, t, _, on⟩ := tree.mounted member isRoot other
        have same := on.parent
        rw [parent] at same
        cases same
        cases path' with
        | root => exact absurd rfl below
        | child _ _ parent'' _ path'' =>
            rw [above] at parent''
            cases parent''
            rwa [List.dropLast_concat]
        | mounted _ isRoot' =>
            rw [on.covered] at isRoot'
            cases isRoot'

/-- A step that succeeds leads to a proper vnode at the place that its name says. -/
theorem Tree.step_located (member : v ∈ V) (proper : Proper g v) (path : PathOf g root v place)
    (notDot : name ≠ ['.']) {u : Option Nat} (stepped : step g (some v) name = some (0, u)) :
    ∃ w ∈ V, u = some w ∧ Proper g w ∧ PathOf g root w (normalise place [name]) := by
  by_cases up : name = ['.', '.']
  · subst up
    unfold normalise
    rw [if_pos rfl]
    by_cases atRoot : v = root
    · subst atRoot
      rw [tree.step_up_root] at stepped
      cases stepped
      refine ⟨v, member, rfl, proper, ?_⟩
      rw [path.unique .root]
      exact .root
    · obtain ⟨_, _, w, inTree, _, proper', _, result⟩ := tree.step_up member atRoot
      have path' := tree.path_up member atRoot path result
      rw [result] at stepped
      cases stepped
      exact ⟨w, inTree, rfl, proper', path'⟩
  · unfold normalise
    rw [if_neg up]
    obtain ⟨e, inTree, crossed, clear⟩ := tree.cross member
    obtain ⟨ops, hasOps⟩ := tree.ops inTree
    obtain ⟨n, internal⟩ := tree.internal inTree
    obtain ⟨found, result, isChild⟩ := tree.find inTree internal name
    rw [step_name ⟨notDot, up⟩ crossed hasOps internal, result] at stepped
    split at stepped
    · cases stepped
    · cases found with
      | none => cases stepped
      | some c =>
          obtain ⟨childInTree, parent, notRoot, n', internal', rfl⟩ := isChild c rfl
          obtain ⟨w, inTree', crossed', clear'⟩ := tree.cross childInTree
          have isSome : u = some w := by
            cases stepped
            exact crossed'
          have other : c ≠ root := by
            rintro rfl
            rw [tree.rootIsMount] at notRoot
            cases notRoot
          have childPath : PathOf g root c (place ++ [(g.nodes n').name]) :=
            .child other notRoot parent internal' (tree.cross_path member proper crossed path)
          have childProper := tree.child_proper childInTree parent clear
          exact ⟨w, inTree', isSome, proper_of_clear clear',
            tree.cross_path childInTree childProper crossed' childPath⟩

omit tree in
theorem normalise_append (place names later : List Name) :
    normalise place (names ++ later) = normalise (normalise place names) later := by
  induction names generalizing place with
  | nil => rfl
  | cons name names ih => exact ih _

/-- A walk that succeeds leads to a proper vnode at the place that its path says. -/
theorem Tree.walk_located (member : v ∈ V) (proper : Proper g v) (path : PathOf g root v place)
    (noDots : ∀ name ∈ names, name ≠ ['.']) {u : Option Nat}
    (walked : walk g (some v) names = some (0, u)) :
    ∃ w ∈ V, u = some w ∧ Proper g w ∧ PathOf g root w (normalise place names) := by
  induction names generalizing v place with
  | nil =>
      cases walked
      exact ⟨v, member, rfl, proper, path⟩
  | cons name names ih =>
      rw [walk] at walked
      obtain ⟨⟨result, next⟩, stepped, rest⟩ := Option.bind_eq_some_iff.mp walked
      dsimp only at rest
      by_cases failed : result = 0
      · subst failed
        rw [if_neg (not_not_intro rfl)] at rest
        obtain ⟨w, inTree, rfl, proper', path'⟩ := tree.step_located member proper path
          (noDots name List.mem_cons_self) stepped
        exact ih inTree proper' path' (fun name later => noDots name (List.mem_cons_of_mem _ later))
          rest
      · rw [if_pos failed] at rest
        cases rest
        exact absurd rfl failed

end Walks

end OsdiKernel.Fs
