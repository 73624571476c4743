import OsdiKernel.Fs.Growth

/-!
# What the operations do

For each function, what it allocates and releases and which structures it
writes.  New structures have addresses that were not in use.
-/

namespace OsdiKernel.Fs

open Allocator (Holds)

variable {H : Type} [Allocator H]

/-! ## Updates -/

section Updates

variable {g : Graph} {n n' : Nat}

@[simp] theorem setNode_self (node : Node) : (g.setNode n node).nodes n = node := by
  unfold Graph.setNode
  dsimp only
  rw [Function.update_self]

theorem setNode_of_ne (node : Node) (other : n' ≠ n) : (g.setNode n node).nodes n' = g.nodes n' := by
  unfold Graph.setNode
  dsimp only
  rw [Function.update_of_ne other]

theorem setNode_setNode (node node' : Node) :
    (g.setNode n node).setNode n node' = g.setNode n node' := by
  unfold Graph.setNode
  rw [Function.update_idem]

@[simp] theorem setVnode_self (vnode : Vnode) : (g.setVnode n vnode).vnodes n = vnode := by
  unfold Graph.setVnode
  dsimp only
  rw [Function.update_self]

theorem setVnode_of_ne (vnode : Vnode) (other : n' ≠ n) :
    (g.setVnode n vnode).vnodes n' = g.vnodes n' := by
  unfold Graph.setVnode
  dsimp only
  rw [Function.update_of_ne other]

@[simp] theorem setMount_self (mount : Mount) : (g.setMount n mount).mounts n = mount := by
  unfold Graph.setMount
  dsimp only
  rw [Function.update_self]

theorem setMount_of_ne (mount : Mount) (other : n' ≠ n) :
    (g.setMount n mount).mounts n' = g.mounts n' := by
  unfold Graph.setMount
  dsimp only
  rw [Function.update_of_ne other]

end Updates

/-! ## Memory -/

section Memory

variable {s : State H} {live temps : List Nat} {size p : Nat}

@[simp] theorem alloc_toGraph (s : State H) (size : Nat) :
    (s.alloc size).1.toGraph = s.toGraph := rfl

@[simp] theorem free_toGraph (s : State H) (p : Nat) : (s.free p).toGraph = s.toGraph := rfl

@[simp] theorem freePtr_toGraph (s : State H) (p : Option Nat) :
    (s.freePtr p).toGraph = s.toGraph := rfl

@[simp] theorem alloc_filesystems (s : State H) (size : Nat) :
    (s.alloc size).1.filesystems = s.filesystems := rfl

@[simp] theorem free_filesystems (s : State H) (p : Nat) :
    (s.free p).filesystems = s.filesystems := rfl

theorem alloc_eq {r : Option Nat} (result : (s.alloc size).2 = r) :
    s.alloc size = ((s.alloc size).1, r) := Prod.ext rfl result

theorem alloc_some (holds : Holds s.heap live) (result : (s.alloc size).2 = some p) :
    p ∉ live ∧ Holds (s.alloc size).1.heap (p :: live) :=
  Allocator.alloc_some holds result

theorem alloc_none (holds : Holds s.heap live) (result : (s.alloc size).2 = none) :
    Holds (s.alloc size).1.heap live :=
  Allocator.alloc_none holds result

/-- Whether or not the request succeeds. -/
theorem alloc_holds (holds : Holds s.heap live) (size : Nat) :
    Holds (s.alloc size).1.heap ((s.alloc size).2.toList ++ live) := by
  cases allocated : (s.alloc size).2 with
  | none => exact alloc_none holds allocated
  | some p => exact (alloc_some holds allocated).2

theorem free_head (holds : Holds s.heap (p :: live)) : Holds (s.free p).heap live :=
  Allocator.holds_free_head holds

theorem freePtr_holds {q : Option Nat} (holds : Holds s.heap (q.toList ++ live)) :
    Holds (s.freePtr q).heap live := by
  cases q with
  | none => exact holds
  | some q => exact free_head holds

/-- A pointer may be released while later ones are still in use. -/
theorem free_later (holds : Holds s.heap (temps ++ p :: live)) :
    Holds (s.free p).heap (temps ++ live) :=
  free_head (Allocator.perm holds List.perm_middle)

end Memory

/-! ## Lookup -/

section Lookup

variable {s s' : State H} {live : List Nat} {cwd target : Option Nat} {pathname : Name}
  {result : Int}

/-- A lookup changes nothing but the state of the heap. -/
structure Looked (s s' : State H) (live : List Nat) : Prop where
  graph : s'.toGraph = s.toGraph
  files : s'.files = s.files
  filesystems : s'.filesystems = s.filesystems
  holds : Holds s'.heap live

theorem vfsLookup_looked (holds : Holds s.heap live)
    (looked : vfsLookup s cwd pathname = some (s', result, target)) :
    Looked s s' live ∧ ((result, target) = (enomem, none) ∨
      resolve s.toGraph cwd pathname = some (result, target)) := by
  rw [vfsLookup_eq] at looked
  cases copied : (s.alloc (pathname.length + 1)).2 with
  | none =>
      rw [copied] at looked
      cases looked
      exact ⟨⟨rfl, rfl, rfl, alloc_none holds copied⟩, Or.inl rfl⟩
  | some pathCopy =>
      rw [copied] at looked
      obtain ⟨outcome, resolved, same⟩ := Option.map_eq_some_iff.mp looked
      cases same
      exact ⟨⟨rfl, rfl, rfl, free_head (alloc_some holds copied).2⟩, Or.inr resolved⟩

theorem Looked.refl (holds : Holds s.heap live) : Looked s s live := ⟨rfl, rfl, rfl, holds⟩

end Lookup

/-! ## New nodes -/

/-- Only structures at addresses that were not in use have changed. -/
structure Untouched {H : Type} (s s' : State H) (live : List Nat) : Prop where
  vnodes : s'.vnodes = s.vnodes
  nodes : ∀ n ∈ live, s'.nodes n = s.nodes n
  mounts : ∀ m ∈ live, s'.mounts m = s.mounts m
  rootfs : s'.rootfs = s.rootfs
  filesystems : s'.filesystems = s.filesystems

theorem Untouched.of_graph {H : Type} {s s' : State H} {live : List Nat}
    (graph : s'.toGraph = s.toGraph) (filesystems : s'.filesystems = s.filesystems) :
    Untouched s s' live := by
  refine ⟨?_, fun n _ => ?_, fun m _ => ?_, ?_, filesystems⟩ <;> rw [graph]

section Nodes

variable {s : State H} {live : List Nat}

/-- The pointers that a new node brings. -/
def nodePointers (node : Node) (n : Nat) : List Nat := node.data.toList ++ [n]

/-- A node that was just created. -/
structure NewNode (s s' : State H) (live : List Nat) (name : Name) (type : Tmpfs.NodeType)
    (parent : Option Nat) (n : Nat) : Prop where
  fresh : n ∉ live
  node : ∃ data capacity, s'.toGraph =
    s.toGraph.setNode n ⟨name, type, parent, data, 0, capacity, fun _ => none, 0⟩
  filesystems : s'.filesystems = s.filesystems
  holds : Holds s'.heap (nodePointers (s'.nodes n) n ++ live)

theorem tmpfsCreateInternalNode_spec (holds : Holds s.heap live) (name : Name)
    (type : Tmpfs.NodeType) (parent : Option Nat) :
    (∃ n, (tmpfsCreateInternalNode s name type parent).2 = some n ∧
        NewNode s (tmpfsCreateInternalNode s name type parent).1 live name type parent n) ∨
      (tmpfsCreateInternalNode s name type parent).2 = none ∧
        Untouched s (tmpfsCreateInternalNode s name type parent).1 live ∧
        Holds (tmpfsCreateInternalNode s name type parent).1.heap live := by
  unfold tmpfsCreateInternalNode
  cases first : (s.alloc nodeSize).2 with
  | none =>
      right
      rw [alloc_eq first]
      exact ⟨rfl, .of_graph rfl rfl, alloc_none holds first⟩
  | some n =>
      obtain ⟨fresh, held⟩ := alloc_some holds first
      rw [alloc_eq first]
      dsimp only
      cases type with
      | directory =>
          left
          refine ⟨n, rfl, fresh, ⟨none, 0, rfl⟩, rfl, ?_⟩
          have self : ((s.alloc nodeSize).1.setNode n
              ⟨name, .directory, parent, none, 0, 0, fun _ => none, 0⟩).nodes n =
                ⟨name, .directory, parent, none, 0, 0, fun _ => none, 0⟩ := setNode_self _
          unfold nodePointers
          rw [if_neg (by decide)]
          dsimp only
          rw [self]
          exact held
      | file =>
          rw [if_pos rfl]
          generalize written : (s.alloc nodeSize).1.setNode n
            ⟨name, .file, parent, none, 0, 0, fun _ => none, 0⟩ = s₁
          have graph : s₁.toGraph = s.toGraph.setNode n
              ⟨name, .file, parent, none, 0, 0, fun _ => none, 0⟩ := by
            rw [← written]
            rfl
          have others : s₁.filesystems = s.filesystems := by
            rw [← written]
            rfl
          have held₁ : Holds s₁.heap (n :: live) := by
            rw [← written]
            exact held
          cases second : (s₁.alloc defaultFileSize).2 with
          | none =>
              right
              rw [alloc_eq second]
              refine ⟨rfl, ⟨?_, fun n' member => ?_, fun m _ => ?_, ?_, others⟩,
                free_head (alloc_none held₁ second)⟩
              · dsimp only
                rw [free_toGraph, alloc_toGraph, graph]
                rfl
              · dsimp only
                rw [free_toGraph, alloc_toGraph, graph]
                apply setNode_of_ne
                rintro rfl
                exact fresh member
              · dsimp only
                rw [free_toGraph, alloc_toGraph, graph]
                rfl
              · dsimp only
                rw [free_toGraph, alloc_toGraph, graph]
                rfl
          | some data =>
              left
              rw [alloc_eq second]
              have node : ((s₁.alloc defaultFileSize).1.nodes n) =
                  ⟨name, .file, parent, none, 0, 0, fun _ => none, 0⟩ := by
                rw [alloc_toGraph, graph]
                exact setNode_self _
              refine ⟨n, rfl, fresh, ⟨some data, defaultFileSize, ?_⟩, others, ?_⟩
              · dsimp only
                rw [node]
                unfold State.setNode
                dsimp only
                rw [alloc_toGraph, graph, setNode_setNode]
              · unfold nodePointers
                dsimp only
                have self : ((s₁.alloc defaultFileSize).1.setNode n
                    { (s₁.alloc defaultFileSize).1.nodes n with
                      data := some data, capacity := defaultFileSize }).nodes n =
                        { (s₁.alloc defaultFileSize).1.nodes n with
                          data := some data, capacity := defaultFileSize } := setNode_self _
                rw [self]
                exact (alloc_some held₁ second).2

end Nodes

/-! ## New children -/

section Children

variable {s s' : State H} {live : List Nat} {d : Nat} {target target' : Option Nat} {name : Name}
  {type : Tmpfs.NodeType} {result : Int}

/-- The vnode of a new child of `d`. -/
def childVnode (g : Graph) (d n : Nat) (ops : FsType) (fOps : FileOps) : Vnode where
  mount := (g.vnodes d).mount
  vOps := some ops
  fOps := some fOps
  internal := some n
  parent := some d
  parentIsMount := false

/-- A node with one more child. -/
def Node.push (node : Node) (child : Nat) : Node :=
  { node with
    children := Function.update node.children node.numChildren.toNat (some child)
    numChildren := node.numChildren + 1 }

/-- The directory `d` with the node `nd` has a new child. -/
structure Entered {H : Type} [Allocator H] (s s' : State H) (live : List Nat) (d nd w n : Nat)
    (name : Name) (type : Tmpfs.NodeType) : Prop where
  internal : (s.vnodes d).internal = some nd
  directory : (s.nodes nd).type = .directory
  nonempty : name ≠ []
  short : name.length < maxFileName
  absent : findChild s.toGraph (s.nodes nd) name = some none
  room : 0 ≤ (s.nodes nd).numChildren ∧ (s.nodes nd).numChildren < maxChildren
  freshVnode : w ∉ live
  freshNode : n ∉ live
  graph : ∃ data capacity, s'.toGraph =
    ((s.toGraph.setNode n ⟨name, type, some nd, data, 0, capacity, fun _ => none, 0⟩).setVnode w
      (childVnode s.toGraph d n .tmpfs .tmpfs)).setNode nd ((s.nodes nd).push w)
  filesystems : s'.filesystems = s.filesystems
  holds : ∃ new, w ∈ new ∧ n ∈ new ∧ Holds s'.heap (new ++ live)

theorem storeChild_eq {H : Type} {s s' : State H} {n child : Nat}
    (stored : storeChild s n child = some s') :
    (0 ≤ (s.nodes n).numChildren ∧ (s.nodes n).numChildren < maxChildren) ∧
      s' = s.setNode n ((s.nodes n).push child) := by
  unfold storeChild at stored
  split at stored
  · next room =>
      cases stored
      exact ⟨room, rfl⟩
  · cases stored

/-- A child that cannot be allocated leaves nothing behind. -/
theorem tmpfsAddChild_failed {nd : Nat} (holds : Holds s.heap live)
    (made : tmpfsAddChild s d nd name type = some (s', result, target')) (failed : result ≠ 0) :
    Untouched s s' live ∧ Holds s'.heap live := by
  have node := tmpfsCreateInternalNode_spec holds name type (some nd)
  unfold tmpfsAddChild at made
  generalize tmpfsCreateInternalNode s name type (some nd) = created at *
  obtain ⟨s₁, new⟩ := created
  dsimp only at node made
  rcases node with ⟨n, rfl, created⟩ | ⟨rfl, untouched, held⟩
  · obtain ⟨data, capacity, graph⟩ := created.node
    dsimp only at made
    cases second : (s₁.alloc vnodeSize).2 with
    | none =>
        rw [alloc_eq second] at made
        cases made
        refine ⟨⟨?_, fun n' member => ?_, fun m _ => ?_, ?_, created.filesystems⟩, ?_⟩
        · rw [free_toGraph, freePtr_toGraph, alloc_toGraph, graph]
          rfl
        · rw [free_toGraph, freePtr_toGraph, alloc_toGraph, graph]
          apply setNode_of_ne
          rintro rfl
          exact created.fresh member
        · rw [free_toGraph, freePtr_toGraph, alloc_toGraph, graph]
          rfl
        · rw [free_toGraph, freePtr_toGraph, alloc_toGraph, graph]
          rfl
        · have held := alloc_none created.holds second
          unfold nodePointers at held
          rw [List.append_assoc] at held
          exact free_head (freePtr_holds held)
    | some w =>
        rw [alloc_eq second] at made
        obtain ⟨_, _, same⟩ := Option.bind_eq_some_iff.mp made
        cases same
        exact absurd rfl failed
  · cases made
    exact ⟨untouched, held⟩

theorem tmpfsAddChild_spec (holds : Holds s.heap live) {nd : Nat}
    (internal : (s.vnodes d).internal = some nd) (used : nd ∈ live)
    (directory : (s.nodes nd).type = .directory) (nonempty : name ≠ [])
    (short : name.length < maxFileName)
    (absent : findChild s.toGraph (s.nodes nd) name = some none)
    (made : tmpfsAddChild s d nd name type = some (s', result, target')) :
    (result ≠ 0 ∧ Untouched s s' live ∧ Holds s'.heap live) ∨
      result = 0 ∧ ∃ nd w n, target' = some w ∧ Entered s s' live d nd w n name type := by
  by_cases failed : result ≠ 0
  · exact Or.inl ⟨failed, tmpfsAddChild_failed holds made failed⟩
  · have node := tmpfsCreateInternalNode_spec holds name type (some nd)
    unfold tmpfsAddChild at made
    generalize tmpfsCreateInternalNode s name type (some nd) = created at *
    obtain ⟨s₁, new⟩ := created
    dsimp only at node made
    rcases node with ⟨n, rfl, created⟩ | ⟨rfl, _⟩
    · obtain ⟨data, capacity, graph⟩ := created.node
      dsimp only at made
      cases second : (s₁.alloc vnodeSize).2 with
      | none =>
          rw [alloc_eq second] at made
          cases made
          exact absurd (by decide) failed
      | some w =>
          rw [alloc_eq second] at made
          obtain ⟨freshVnode, held⟩ := alloc_some created.holds second
          have other : nd ≠ n := by
            rintro rfl
            exact created.fresh used
          obtain ⟨s₃, stored, same⟩ := Option.bind_eq_some_iff.mp made
          cases same
          obtain ⟨room, rfl⟩ := storeChild_eq stored
          have vnodes : (s₁.alloc vnodeSize).1.vnodes = s.vnodes := by
            rw [alloc_toGraph, graph]
            rfl
          have sameNode : (s₁.alloc vnodeSize).1.nodes nd = s.nodes nd := by
            rw [alloc_toGraph, graph]
            exact setNode_of_ne _ other
          change 0 ≤ ((s₁.alloc vnodeSize).1.nodes nd).numChildren ∧
            ((s₁.alloc vnodeSize).1.nodes nd).numChildren < maxChildren at room
          rw [sameNode] at room
          right
          refine ⟨rfl, nd, w, n, rfl, internal, directory, nonempty, short, absent, room, ?_,
            created.fresh, ?_, created.filesystems, w :: nodePointers (s₁.nodes n) n,
            List.mem_cons_self, ?_, held⟩
          · intro member
            exact freshVnode (List.mem_append_right _ member)
          · refine ⟨data, capacity, ?_⟩
            rw [← graph]
            unfold State.setNode State.setVnode childVnode
            dsimp only
            rw [alloc_toGraph] at vnodes sameNode
            rw [alloc_toGraph, vnodes]
            exact congrArg (fun node : Node => Graph.setNode _ nd (node.push w)) sameNode
          · unfold nodePointers
            simp
    · cases made
      exact absurd (by decide) failed

/-- A creation that fails leaves nothing behind. -/
theorem tmpfsCreateOrMkdir_failed (holds : Holds s.heap live)
    (made : tmpfsCreateOrMkdir s d target name type = some (s', result, target'))
    (failed : result ≠ 0) : Untouched s s' live ∧ Holds s'.heap live := by
  unfold tmpfsCreateOrMkdir at made
  repeat' split at made
  all_goals try
    cases made
    try exact ⟨.of_graph rfl rfl, holds⟩
  exact tmpfsAddChild_failed holds made failed

theorem tmpfsCreateOrMkdir_spec (holds : Holds s.heap live)
    (inUse : ∀ {nd}, (s.vnodes d).internal = some nd → nd ∈ live)
    (made : tmpfsCreateOrMkdir s d target name type = some (s', result, target')) :
    (result ≠ 0 ∧ Untouched s s' live ∧ Holds s'.heap live) ∨
      result = 0 ∧ ∃ nd w n, target' = some w ∧ Entered s s' live d nd w n name type := by
  by_cases failed : result ≠ 0
  · exact Or.inl ⟨failed, tmpfsCreateOrMkdir_failed holds made failed⟩
  · have nothing : ∀ {r : Int} {t : Option Nat}, r ≠ 0 → some (s, r, t) ≠ some (s', result, target') := by
      intro r t nonzero same
      cases same
      exact failed nonzero
    unfold tmpfsCreateOrMkdir at made
    split at made
    · exact absurd made (nothing (by decide))
    · next nd internal =>
        have used := inUse internal
        split at made
        · exact absurd made (nothing (by decide))
        · next nonempty =>
            split at made
            · exact absurd made (nothing (by decide))
            · next directory =>
                split at made
                · exact absurd made (nothing (by decide))
                · next short =>
                    split at made
                    · cases made
                    · exact absurd made (nothing (by decide))
                    · next absent =>
                        split at made
                        · exact absurd made (nothing (by decide))
                        · exact tmpfsAddChild_spec holds internal used (not_not.mp directory)
                            nonempty (Nat.lt_of_not_le short) absent made

end Children

end OsdiKernel.Fs
