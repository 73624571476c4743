import OsdiKernel.Fs.Twins

/-!
# The same operations in different memory

Two kernels whose heaps are equal and that agree on what is known go through an
operation together: both stop, or both return the same and agree on what they
have written as well.
-/

namespace OsdiKernel.Fs

open Allocator (Holds)
open Parallel (Both)

variable {H : Type} [Allocator H]

/-- Two states that agree on what is known.  The pointers `rest` are in use for
something else. -/
structure Twin (k : Known) (rest : List Nat) (s t : State H) : Prop where
  shared : Shared k s.toGraph t.toGraph
  heap : t.heap = s.heap
  systems : t.filesystems = s.filesystems
  registered : Registered s
  holds : Holds s.heap (rest ++ k.own)
  file : ∀ {f}, f ∈ k.files → t.files f = s.files f
  opened : ∀ {f}, f ∈ k.files → Within k.vnodes (s.files f).vnode

/-- Both operations stop, or both have the same result, which satisfies `ok`. -/
def Together {ρ : Type} (rest : ρ → List Nat) (ok : Known → ρ → Prop) (k : Known)
    (first second : Option (State H × ρ)) : Prop :=
  Both (fun k result s t => Twin k (rest result) s t ∧ ok k result) k first second

/-- A return value with a pointer to a known vnode. -/
def KnownTarget (k : Known) (result : Int × Option Nat) : Prop := Within k.vnodes result.2

section Memory

variable {k : Known} {rest temps : List Nat} {s t : State H} {p size : Nat}

namespace Twin

/-- The graphs change, and what is known with them. -/
theorem graph {k' : Known} {rest' : List Nat} {g g' : Graph} (twin : Twin k rest s t)
    (larger : k.vnodes ⊆ k'.vnodes) (files : k'.files = k.files)
    (same : (rest ++ k.own).Perm (rest' ++ k'.own)) (shared : Shared k' g g') :
    Twin k' rest' { s with toGraph := g } { t with toGraph := g' } where
  shared := shared
  heap := twin.heap
  systems := twin.systems
  registered := twin.registered
  holds := Allocator.perm twin.holds same
  file member := twin.file (files ▸ member)
  opened member := (twin.opened (files ▸ member)).mono larger

theorem rearrange {rest' : List Nat} (twin : Twin k rest s t) (same : rest.Perm rest') : Twin k rest' s t :=
  { twin with holds := Allocator.perm twin.holds (same.append_right k.own) }

theorem addOwn {new : List Nat} (twin : Twin k (new ++ rest) s t) : Twin (k.addOwn new) rest s t :=
  { twin with
    shared := twin.shared.addOwn new
    holds := by
      refine Allocator.perm twin.holds ?_
      rw [List.append_assoc]
      exact (List.perm_append_comm_assoc new rest k.own) }

theorem addBytes (twin : Twin k rest s t) (new : Set Nat) : Twin (k.addBytes new) rest s t :=
  { twin with shared := twin.shared.addBytes new }

variable (twin : Twin k rest s t)
include twin

theorem alloc_result (size : Nat) : (t.alloc size).2 = (s.alloc size).2 := by
  unfold State.alloc
  rw [twin.heap]

theorem alloc_heap (size : Nat) : (t.alloc size).1.heap = (s.alloc size).1.heap := by
  unfold State.alloc
  rw [twin.heap]

theorem alloc_none (failed : (s.alloc size).2 = none) :
    Twin k rest (s.alloc size).1 (t.alloc size).1 :=
  { twin with
    heap := twin.alloc_heap size
    holds := Fs.alloc_none twin.holds failed }

theorem alloc_some (allocated : (s.alloc size).2 = some p) :
    p ∉ k.own ∧ Twin k (p :: rest) (s.alloc size).1 (t.alloc size).1 := by
  obtain ⟨fresh, holds⟩ := Fs.alloc_some twin.holds allocated
  exact ⟨fun old => fresh (List.mem_append_right rest old),
    { twin with heap := twin.alloc_heap size, holds := holds }⟩

theorem alloc_pair {r : Option Nat} (allocated : (s.alloc size).2 = r) :
    s.alloc size = ((s.alloc size).1, r) ∧ t.alloc size = ((t.alloc size).1, r) :=
  ⟨alloc_eq allocated, alloc_eq ((twin.alloc_result size).trans allocated)⟩

omit twin in
theorem free_later (twin : Twin k (temps ++ p :: rest) s t) :
    Twin k (temps ++ rest) (s.free p) (t.free p) :=
  { twin with
    heap := congrArg (Allocator.free · p) twin.heap
    holds := by
      have holds := twin.holds
      rw [List.append_assoc, List.cons_append] at holds
      rw [List.append_assoc]
      exact Fs.free_later holds }

omit twin in
theorem free (twin : Twin k (p :: rest) s t) : Twin k rest (s.free p) (t.free p) :=
  @free_later H _ k rest [] s t p twin

omit twin in
theorem freePtr {q : Option Nat} (twin : Twin k (q.toList ++ rest) s t) :
    Twin k rest (s.freePtr q) (t.freePtr q) := by
  cases q with
  | none => exact twin
  | some p => exact free twin

theorem setFile {f : Nat} {file : File} (known : Within k.vnodes file.vnode) :
    Twin (k.addFile f) rest (s.setFile f file) (t.setFile f file) where
  shared := { twin.shared with
    node := fun member internal => (twin.shared.node member internal).mono (Known.le_addFile k f) fun _ => rfl }
  heap := twin.heap
  systems := twin.systems
  registered := twin.registered
  holds := twin.holds
  file {f'} member := by
    unfold State.setFile
    dsimp only
    by_cases here : f' = f
    · rw [here, Function.update_self, Function.update_self]
    · rw [Function.update_of_ne here, Function.update_of_ne here]
      exact twin.file (member.resolve_left here)
  opened {f'} member := by
    unfold State.setFile
    dsimp only
    by_cases here : f' = f
    · rw [here, Function.update_self]
      exact known
    · rw [Function.update_of_ne here]
      exact twin.opened (member.resolve_left here)

end Twin

namespace Together

variable {ρ τ : Type} {after after' : ρ → List Nat} {ok : Known → ρ → Prop} {result : ρ}
  {first second : Option (State H × ρ)}

theorem pure (twin : Twin k (after result) s t) (holds : ok k result) :
    Together after ok k (some (s, result)) (some (t, result)) :=
  Both.pure ⟨twin, holds⟩

theorem go {k' : Known} (larger : k ≤ k') (twin : Twin k' (after result) s t) (holds : ok k' result) :
    Together after ok k (some (s, result)) (some (t, result)) :=
  Both.go larger ⟨twin, holds⟩

theorem stop : Together after ok k (none : Option (State H × ρ)) none := Both.stop

theorem ite {c : Prop} [Decidable c] {other other' : Option (State H × ρ)}
    (holds : c → Together after ok k first second) (fails : ¬ c → Together after ok k other other') :
    Together after ok k (if c then first else other) (if c then second else other') :=
  Parallel.rel_ite holds fails

theorem bind {f g : State H × ρ → Option (State H × τ)} {later : τ → List Nat}
    {ok' : Known → τ → Prop} (together : Together after ok k first second)
    (next : ∀ k' result s t, k ≤ k' → Twin k' (after result) s t → ok k' result →
      Together later ok' k' (f (s, result)) (g (t, result))) :
    Together later ok' k (first.bind f) (second.bind g) :=
  Both.bind together fun k' result s t larger related => next k' result s t larger related.1 related.2

end Together

/-- Both kernels get the same memory, for something else. -/
theorem Twin.allocates (twin : Twin k rest s t) (size : Nat) :
    Together (fun target => target.toList ++ rest) (fun _ _ => True) k (some (s.alloc size))
      (some (t.alloc size)) := by
  cases allocated : (s.alloc size).2 with
  | none =>
      obtain ⟨first, second⟩ := twin.alloc_pair allocated
      rw [first, second]
      exact .pure (twin.alloc_none allocated) trivial
  | some p =>
      obtain ⟨first, second⟩ := twin.alloc_pair allocated
      rw [first, second]
      exact .pure (twin.alloc_some allocated).2 trivial

end Memory

/-! ## Lookups -/

section Lookup

variable {k : Known} {rest : List Nat} {s t : State H} {cwd : Option Nat} {pathname name : Name}

/-- A lookup adds nothing to what is known. -/
theorem Twin.looked (twin : Twin k rest s t) (known : Within k.vnodes cwd) :
    Option.Rel (fun a b => b.2 = a.2 ∧ Twin k rest a.1 b.1 ∧ KnownTarget k a.2)
      (vfsLookup s cwd pathname) (vfsLookup t cwd pathname) := by
  unfold vfsLookup
  cases allocated : (s.alloc (pathname.length + 1)).2 with
  | none =>
      obtain ⟨first, second⟩ := twin.alloc_pair allocated
      rw [first, second]
      exact .some ⟨rfl, twin.alloc_none allocated, within_none⟩
  | some pathCopy =>
      obtain ⟨first, second⟩ := twin.alloc_pair allocated
      obtain ⟨_, copied⟩ := twin.alloc_some allocated
      have outcome := @Shared.resolve _ _ _ copied.shared cwd pathname known
      rw [first, second]
      dsimp only
      rw [outcome.same]
      cases resolved : resolve (s.alloc (pathname.length + 1)).1.toGraph cwd pathname with
      | none => exact .none
      | some after => exact .some ⟨rfl, copied.free, outcome.known _ resolved⟩

theorem Twin.lookup (twin : Twin k rest s t) (known : Within k.vnodes cwd) :
    Together (fun _ => rest) KnownTarget k (vfsLookup s cwd pathname) (vfsLookup t cwd pathname) := by
  have looked := @Twin.looked _ _ _ _ _ _ _ pathname twin known
  generalize vfsLookup s cwd pathname = after at *
  generalize vfsLookup t cwd pathname = after' at *
  cases looked with
  | none => exact .stop
  | some related => exact .some ⟨related.1, k, le_refl k, related.2⟩

end Lookup

/-! ## Creation -/

section Creation

variable {k : Known} {rest : List Nat} {s t : State H} {cwd target : Option Nat} {pathname name : Name}
  {type : Tmpfs.NodeType} {d n c : Nat}

/-- The nodes that both kernels create. -/
structure NewNodes (k : Known) (rest : List Nat) (old s t : State H) (name : Name)
    (type : Tmpfs.NodeType) (n : Nat) (data : Option Nat) : Prop where
  fresh : n ∉ k.own
  vnodes : s.vnodes = old.vnodes
  twin : Twin k (data.toList ++ n :: rest) s t
  node : ∃ parent capacity, s.nodes n = ⟨name, type, parent, data, 0, capacity, fun _ => none, 0⟩
  same : t.nodes n = s.nodes n

theorem Twin.createInternalNode (twin : Twin k rest s t) (name : Name) (type : Tmpfs.NodeType)
    (parent : Option Nat) :
    (∃ s' t', tmpfsCreateInternalNode s name type parent = (s', none) ∧
        tmpfsCreateInternalNode t name type parent = (t', none) ∧ Twin k rest s' t') ∨
      ∃ s' t' n data, tmpfsCreateInternalNode s name type parent = (s', some n) ∧
        tmpfsCreateInternalNode t name type parent = (t', some n) ∧
        NewNodes k rest s s' t' name type n data := by
  unfold tmpfsCreateInternalNode
  cases allocated : (s.alloc nodeSize).2 with
  | none =>
      obtain ⟨first, second⟩ := twin.alloc_pair allocated
      rw [first, second]
      exact .inl ⟨_, _, rfl, rfl, twin.alloc_none allocated⟩
  | some n =>
      obtain ⟨first, second⟩ := twin.alloc_pair allocated
      obtain ⟨fresh, twin₁⟩ := twin.alloc_some allocated
      rw [first, second]
      have vnodes₁ : (s.alloc nodeSize).1.vnodes = s.vnodes := rfl
      generalize (s.alloc nodeSize).1 = s₁ at *
      generalize (t.alloc nodeSize).1 = t₁ at *
      dsimp only
      have twin₂ := twin₁.graph subset_rfl rfl (.refl _)
        (twin₁.shared.setNode fresh ⟨name, type, parent, none, 0, 0, fun _ => none, 0⟩
          ⟨name, type, parent, none, 0, 0, fun _ => none, 0⟩)
      change Twin k (n :: rest) (s₁.setNode n _) (t₁.setNode n _) at twin₂
      have node₂ : (s₁.setNode n ⟨name, type, parent, none, 0, 0, fun _ => none, 0⟩).nodes n =
          ⟨name, type, parent, none, 0, 0, fun _ => none, 0⟩ := setNode_self _
      have node₂' : (t₁.setNode n ⟨name, type, parent, none, 0, 0, fun _ => none, 0⟩).nodes n =
          ⟨name, type, parent, none, 0, 0, fun _ => none, 0⟩ := setNode_self _
      have vnodes₂ : (s₁.setNode n ⟨name, type, parent, none, 0, 0, fun _ => none, 0⟩).vnodes = s.vnodes :=
        vnodes₁
      generalize s₁.setNode n _ = s₂ at *
      generalize t₁.setNode n _ = t₂ at *
      by_cases isFile : type = .file
      · rw [if_pos isFile, if_pos isFile]
        cases gotData : (s₂.alloc defaultFileSize).2 with
        | none =>
            obtain ⟨first, second⟩ := twin₂.alloc_pair gotData
            rw [first, second]
            exact .inl ⟨_, _, rfl, rfl, (twin₂.alloc_none gotData).free⟩
        | some data =>
            obtain ⟨first, second⟩ := twin₂.alloc_pair gotData
            obtain ⟨_, twin₃⟩ := twin₂.alloc_some gotData
            rw [first, second]
            refine .inr ⟨_, _, n, some data, rfl, rfl, fresh, vnodes₂, ?_, ⟨parent, defaultFileSize, ?_⟩, ?_⟩
            · exact twin₃.graph subset_rfl rfl (.refl _) (twin₃.shared.setNode fresh _ _)
            · refine (setNode_self _).trans ?_
              rw [alloc_toGraph, node₂]
            · refine (setNode_self _).trans (Eq.trans ?_ (setNode_self _).symm)
              rw [alloc_toGraph, alloc_toGraph, node₂, node₂']
      · rw [if_neg isFile, if_neg isFile]
        exact .inr ⟨_, _, n, none, rfl, rfl, fresh, vnodes₂, twin₂, ⟨parent, 0, node₂⟩, node₂'.trans node₂.symm⟩

/-- A new vnode is stored in both directories, or in none. -/
theorem Twin.enter {w x : Nat} {new : List Nat} {vnode : Vnode} (twin : Twin k (w :: (new ++ rest)) s t)
    (member : d ∈ k.vnodes) (internal : (s.vnodes d).internal = some n) (fresh : w ∉ k.own)
    (inNew : x ∈ new) (same : t.nodes x = s.nodes x) (empty : (s.nodes x).numChildren = 0)
    (contents : (s.nodes x).type = .file → ∀ p, (s.nodes x).data = some p →
      ∀ i < (s.nodes x).size, p + i ∈ k.bytes)
    (mount : Within k.mounts vnode.mount) (parent : Within k.vnodes vnode.parent)
    (isNode : vnode.internal = some x) (isChild : vnode.parentIsMount = false) :
    (storeChild (s.setVnode w vnode) n w = none ∧ storeChild (t.setVnode w vnode) n w = none) ∨
      ∃ s' t', storeChild (s.setVnode w vnode) n w = some s' ∧
        storeChild (t.setVnode w vnode) n w = some t' ∧
        Twin (k.addVnode w (w :: new)) rest s' t' := by
  have shared : Shared (k.addVnode w (w :: new)) (s.toGraph.setVnode w vnode)
      (t.toGraph.setVnode w vnode) :=
    twin.shared.addVnode fresh List.mem_cons_self parent mount isNode (List.mem_cons_of_mem w inNew)
      (by rw [isChild, same]; exact .fresh empty contents)
  have accounts : (w :: (new ++ rest) ++ k.own).Perm (rest ++ (w :: new ++ k.own)) := by
    rw [← List.cons_append, List.append_assoc]
    exact List.perm_append_comm_assoc (w :: new) rest k.own
  have twin₁ : Twin (k.addVnode w (w :: new)) rest (s.setVnode w vnode) (t.setVnode w vnode) :=
    twin.graph (Set.subset_insert w k.vnodes) rfl accounts shared
  have other : d ≠ w := fun here => fresh (here ▸ twin.shared.inUse member)
  have internal₁ : ((s.setVnode w vnode).vnodes d).internal = some n := by
    change ((s.toGraph.setVnode w vnode).vnodes d).internal = some n
    rw [setVnode_of_ne _ other]
    exact internal
  have flag : ((s.setVnode w vnode).vnodes w).parentIsMount = false :=
    (congrArg Vnode.parentIsMount (setVnode_self vnode)).trans isChild
  generalize s.setVnode w vnode = s₁ at *
  generalize t.setVnode w vnode = t₁ at *
  have count := (twin₁.shared.node (Set.mem_insert_of_mem w member) internal₁).listing.count
  unfold storeChild
  rw [count]
  split
  · next room =>
      refine .inr ⟨_, _, rfl, rfl, ?_⟩
      have pushed := twin₁.shared.push room.1 (Set.mem_insert w k.vnodes) flag
      unfold Node.push at pushed
      rw [count] at pushed
      exact twin₁.graph subset_rfl rfl (.refl _) pushed
  · exact .inl ⟨rfl, rfl⟩

theorem Twin.addChild (twin : Twin k rest s t) (member : d ∈ k.vnodes)
    (internal : (s.vnodes d).internal = some n) :
    Together (fun _ => rest) KnownTarget k (tmpfsAddChild s d n name type)
      (tmpfsAddChild t d n name type) := by
  unfold tmpfsAddChild
  rcases twin.createInternalNode name type (some n) with
    ⟨s₁, t₁, first, second, twin₁⟩ | ⟨s₁, t₁, x, data, first, second, new⟩
  · rw [first, second]
    exact .pure twin₁ within_none
  · rw [first, second]
    dsimp only
    obtain ⟨freshNode, vnodes₁, twin₁, ⟨parent, capacity, node⟩, same⟩ := new
    cases allocated : (s₁.alloc vnodeSize).2 with
    | none =>
        obtain ⟨first, second⟩ := twin₁.alloc_pair allocated
        have hasData : ((s₁.alloc vnodeSize).1.nodes x).data = data := by
          rw [alloc_toGraph, node]
        have hasData' : ((t₁.alloc vnodeSize).1.nodes x).data = data := by
          rw [alloc_toGraph, same, node]
        rw [first, second]
        dsimp only
        rw [hasData, hasData']
        exact .pure (twin₁.alloc_none allocated).freePtr.free within_none
    | some w =>
        obtain ⟨first, second⟩ := twin₁.alloc_pair allocated
        obtain ⟨fresh, twin₂⟩ := twin₁.alloc_some allocated
        have atVnode : (t₁.alloc vnodeSize).1.vnodes d = (s₁.alloc vnodeSize).1.vnodes d :=
          twin₂.shared.vnode member
        have internal₂ : ((s₁.alloc vnodeSize).1.vnodes d).internal = some n := by
          rw [alloc_toGraph, vnodes₁]
          exact internal
        have node₂ : (s₁.alloc vnodeSize).1.nodes x =
          ⟨name, type, parent, data, 0, capacity, fun _ => none, 0⟩ := node
        have same₂ : (t₁.alloc vnodeSize).1.nodes x = (s₁.alloc vnodeSize).1.nodes x := same
        have grouped : data.toList ++ x :: rest = (data.toList ++ [x]) ++ rest := by
          rw [List.append_assoc]
          rfl
        rw [grouped] at twin₂
        rw [first, second]
        dsimp only
        rw [atVnode]
        generalize (s₁.alloc vnodeSize).1 = s₂ at *
        generalize (t₁.alloc vnodeSize).1 = t₂ at *
        have contents : (s₂.nodes x).type = .file → ∀ p, (s₂.nodes x).data = some p →
            ∀ i < (s₂.nodes x).size, p + i ∈ k.bytes := by
          rw [node₂]
          exact fun _ _ _ i below => absurd below (Nat.not_lt_zero i)
        have entered := @Twin.enter _ _ k rest s₂ t₂ d n w x _ (childVnode s₂.toGraph d x .tmpfs .tmpfs)
          twin₂ member internal₂ fresh (by simp) same₂ (by rw [node₂]) contents
          (twin₂.shared.mounted member) (within_some member) rfl rfl
        unfold childVnode at entered
        rcases entered with ⟨first, second⟩ | ⟨s₃, t₃, first, second, twin₃⟩
        · rw [first, second]
          exact .stop
        · rw [first, second]
          exact .go (Known.le_addVnode k w _) twin₃ (within_some (Set.mem_insert w k.vnodes))

theorem Twin.createOrMkdir (twin : Twin k rest s t) (member : d ∈ k.vnodes)
    (known : Within k.vnodes target) :
    Together (fun _ => rest) KnownTarget k (tmpfsCreateOrMkdir s d target name type)
      (tmpfsCreateOrMkdir t d target name type) := by
  unfold tmpfsCreateOrMkdir
  rw [twin.shared.vnode member]
  cases internal : (s.vnodes d).internal with
  | none => exact .pure twin known
  | some n =>
      have node := twin.shared.node member internal
      have found := @Shared.findChild _ _ _ twin.shared d name n member internal
      dsimp only
      rw [node.listing.type, node.listing.count, found.same]
      refine .ite (fun _ => .pure twin known) fun _ => ?_
      refine .ite (fun _ => .pure twin within_none) fun _ => ?_
      refine .ite (fun _ => .pure twin within_none) fun _ => ?_
      cases findChild s.toGraph (s.nodes n) name with
      | none => exact .stop
      | some result =>
          cases result with
          | some other => exact .pure twin within_none
          | none => exact .ite (fun _ => .pure twin within_none) fun _ => twin.addChild member internal

theorem Twin.create (twin : Twin k rest s t) (ops : FsType) (member : d ∈ k.vnodes)
    (known : Within k.vnodes target) :
    Together (fun _ => rest) KnownTarget k (ops.create s d target name) (ops.create t d target name) := by
  cases ops with
  | tmpfs => exact twin.createOrMkdir member known
  | initramfs => exact .pure twin known

theorem Twin.mkdir (twin : Twin k rest s t) (ops : FsType) (member : d ∈ k.vnodes)
    (known : Within k.vnodes target) :
    Together (fun _ => rest) KnownTarget k (ops.mkdir s d target name) (ops.mkdir t d target name) := by
  cases ops with
  | tmpfs => exact twin.createOrMkdir member known
  | initramfs => exact .pure twin known

/-! ### Paths -/

theorem Twin.lookupParent {i : Nat} (twin : Twin k rest s t) (known : Within k.vnodes cwd) :
    Together (fun _ => rest) KnownTarget k (Fs.lookupParent s cwd pathname i)
      (Fs.lookupParent t cwd pathname i) :=
  .ite (fun _ => twin.lookup known) fun _ => twin.lookup known

theorem Twin.mkdirParent (twin : Twin k rest s t) (known : Within k.vnodes cwd) :
    Together (fun _ => rest) KnownTarget k (Fs.mkdirParent s cwd pathname)
      (Fs.mkdirParent t cwd pathname) := by
  unfold Fs.mkdirParent
  cases lastSlash pathname with
  | none => exact .ite (fun _ => .pure twin within_none) fun _ => .pure twin known
  | some i => exact twin.lookupParent known

theorem Twin.openParent (twin : Twin k rest s t) (known : Within k.vnodes cwd) :
    Together (fun _ => rest) KnownTarget k (Fs.openParent s cwd pathname)
      (Fs.openParent t cwd pathname) := by
  unfold Fs.openParent
  cases lastSlash pathname with
  | none =>
      cases cwd with
      | some d => exact .pure twin known
      | none =>
          have isRoot := twin.shared.rootVnode
          dsimp only
          rw [isRoot.same]
          cases rootVnode : s.rootVnode with
          | none => exact .stop
          | some root => exact .pure twin (isRoot.known root rootVnode)
  | some i => exact twin.lookupParent known

theorem Twin.vfsMkdir (twin : Twin k rest s t) (known : Within k.vnodes cwd) :
    Together (fun _ => rest) KnownTarget k (Fs.vfsMkdir s cwd pathname) (Fs.vfsMkdir t cwd pathname) := by
  unfold Fs.vfsMkdir
  cases allocated : (s.alloc (pathname.length + 1)).2 with
  | none =>
      obtain ⟨first, second⟩ := twin.alloc_pair allocated
      rw [first, second]
      exact .pure (twin.alloc_none allocated) within_none
  | some pathCopy =>
      obtain ⟨first, second⟩ := twin.alloc_pair allocated
      obtain ⟨_, copied⟩ := twin.alloc_some allocated
      rw [first, second]
      refine (copied.mkdirParent known).bind fun k₁ after s₁ t₁ _ twin₁ parentKnown => ?_
      obtain ⟨result, parentVnode⟩ := after
      refine .ite (fun _ => .pure twin₁.free within_none) fun _ => ?_
      refine .ite (fun _ => .pure twin₁.free within_none) fun _ => ?_
      cases parentVnode with
      | none => exact .pure twin₁.free within_none
      | some dir =>
          have member := parentKnown dir rfl
          dsimp only
          rw [twin₁.shared.vnode member]
          cases (s₁.vnodes dir).vOps with
          | none => exact .pure twin₁.free within_none
          | some ops =>
              refine (twin₁.mkdir ops member within_none).bind fun k₂ made s₂ t₂ _ twin₂ newKnown => ?_
              exact .pure twin₂.free newKnown

/-- What the creation of a file leaves to `vfs_open`. -/
def KnownCreated (k : Known) : Except Int (Int × Option Nat) → Prop
  | .error result => result ≠ 0
  | .ok (_, vnode) => Within k.vnodes vnode

theorem Twin.openCreate {vnode : Option Nat} (twin : Twin k rest s t) (known : Within k.vnodes cwd)
    (vnodeKnown : Within k.vnodes vnode) :
    Together (fun _ => rest) KnownCreated k (Fs.openCreate s cwd pathname vnode)
      (Fs.openCreate t cwd pathname vnode) := by
  unfold Fs.openCreate
  cases allocated : (s.alloc (pathname.length + 1)).2 with
  | none =>
      obtain ⟨first, second⟩ := twin.alloc_pair allocated
      rw [first, second]
      exact .pure (twin.alloc_none allocated) (by decide : enomem ≠ 0)
  | some pathCopy =>
      obtain ⟨first, second⟩ := twin.alloc_pair allocated
      obtain ⟨_, copied⟩ := twin.alloc_some allocated
      rw [first, second]
      refine (copied.openParent known).bind fun k₁ after s₁ t₁ larger twin₁ parentKnown => ?_
      obtain ⟨result, parentVnode⟩ := after
      refine .ite (fun failed => .pure twin₁.free failed) fun _ => ?_
      cases parentVnode with
      | none => exact .pure twin₁.free (by decide : eacces ≠ 0)
      | some dir =>
          have member := parentKnown dir rfl
          dsimp only
          rw [twin₁.shared.vnode member]
          cases (s₁.vnodes dir).vOps with
          | none => exact .pure twin₁.free (by decide : eacces ≠ 0)
          | some ops =>
              refine (twin₁.create ops member (vnodeKnown.mono (Known.vnodes_mono larger))).bind
                fun k₂ made s₂ t₂ _ twin₂ newKnown => ?_
              exact .pure twin₂.free newKnown

end Creation

/-! ## Open files -/

section Open

variable {k : Known} {rest : List Nat} {s t : State H} {cwd target : Option Nat} {pathname : Name}
  {flags v f : Nat}

/-- The file that an operation has opened is in use for its caller. -/
def withOpened (rest : List Nat) (result : Int × Option Nat) : List Nat :=
  if result.1 = 0 then result.2.toList ++ rest else rest

/-- A return value with an open file. -/
def KnownFile (k : Known) (result : Int × Option Nat) : Prop :=
  result.1 = 0 → ∃ f, result.2 = some f ∧ f ∈ k.files

/-- What `vfs_open` does after `open`. -/
def endOpen (flags : Nat) (outcome : State H × Int × Option Nat) :
    Option (State H × Int × Option Nat) :=
  if outcome.2.1 ≠ 0 then some (outcome.1.freePtr outcome.2.2, outcome.2.1, outcome.2.2)
  else outcome.2.2.bind fun f =>
    some (outcome.1.setFile f { outcome.1.files f with flags := flags }, 0, some f)

theorem openVnode_eq (s : State H) (vnode : Option Nat) (flags : Nat) :
    openVnode s vnode flags = vnode.bind fun v =>
      ((s.alloc fileSize).1.vnodes v).fOps.bind fun ops =>
        endOpen flags (ops.open (s.alloc fileSize).1 v (s.alloc fileSize).2) := rfl

theorem endOpen_setFile (s : State H) (file : File) :
    endOpen flags (s.setFile f file, 0, some f) =
      some (s.setFile f { file with flags := flags }, 0, some f) := by
  unfold endOpen State.setFile
  simp only [ne_eq, not_true_eq_false, if_false, Option.bind_some, Function.update_self,
    Function.update_idem]

/-- A new file is known, whatever its flags were. -/
theorem Twin.opensFile {fOps : Option FileOps} (twin : Twin k (f :: rest) s t) (member : v ∈ k.vnodes) :
    Together (withOpened rest) KnownFile k
      (endOpen flags (s.setFile f { s.files f with vnode := some v, fPos := 0, fOps := fOps }, 0, some f))
      (endOpen flags (t.setFile f { t.files f with vnode := some v, fPos := 0, fOps := fOps }, 0, some f)) := by
  rw [endOpen_setFile, endOpen_setFile]
  exact .go (Known.le_addFile k f) (twin.setFile (within_some member))
    fun _ => ⟨f, rfl, Set.mem_insert f k.files⟩

theorem Twin.openNode (twin : Twin k (target.toList ++ rest) s t) (member : v ∈ k.vnodes) :
    Together (withOpened rest) KnownFile k (endOpen flags (Fs.openNode s v target))
      (endOpen flags (Fs.openNode t v target)) := by
  cases target with
  | none => exact .pure twin nofun
  | some f =>
      unfold Fs.openNode
      dsimp only
      rw [twin.shared.vnode member]
      exact twin.opensFile member

/-- The first structure that was allocated for a device is not used. -/
theorem Twin.openDevice {device : FileOps} (twin : Twin k (target.toList ++ rest) s t)
    (member : v ∈ k.vnodes) :
    Together (withOpened rest) KnownFile k (endOpen flags (Fs.openDevice s v device))
      (endOpen flags (Fs.openDevice t v device)) := by
  unfold Fs.openDevice
  have larger := Known.le_addOwn k target.toList
  have kept := twin.addOwn
  cases allocated : (s.alloc fileSize).2 with
  | none =>
      obtain ⟨first, second⟩ := kept.alloc_pair allocated
      rw [first, second]
      exact .go larger (kept.alloc_none allocated) nofun
  | some f =>
      obtain ⟨first, second⟩ := kept.alloc_pair allocated
      obtain ⟨_, twin₁⟩ := kept.alloc_some allocated
      rw [first, second]
      exact Both.earlier larger (twin₁.opensFile member)

theorem Twin.openVnode {vnode : Option Nat} (twin : Twin k rest s t) (known : Within k.vnodes vnode) :
    Together (withOpened rest) KnownFile k (Fs.openVnode s vnode flags) (Fs.openVnode t vnode flags) := by
  rw [openVnode_eq, openVnode_eq, twin.alloc_result]
  cases vnode with
  | none => exact .stop
  | some v =>
      have member := known v rfl
      have twin₁ : Twin k ((s.alloc fileSize).2.toList ++ rest) (s.alloc fileSize).1 (t.alloc fileSize).1 := by
        cases allocated : (s.alloc fileSize).2 with
        | none => exact twin.alloc_none allocated
        | some f => exact (twin.alloc_some allocated).2
      rw [Option.bind_some, Option.bind_some, twin₁.shared.vnode member]
      cases ((s.alloc fileSize).1.vnodes v).fOps with
      | none => exact .stop
      | some ops =>
          cases ops with
          | tmpfs => exact twin₁.openNode member
          | initramfs => exact twin₁.openNode member
          | uart => exact twin₁.openDevice member
          | framebuffer => exact twin₁.openDevice member

theorem Twin.vfsOpen (twin : Twin k rest s t) (known : Within k.vnodes cwd) :
    Together (withOpened rest) KnownFile k (Fs.vfsOpen s cwd pathname flags)
      (Fs.vfsOpen t cwd pathname flags) := by
  unfold Fs.vfsOpen
  refine (twin.lookup known).bind fun k₁ looked s₁ t₁ larger twin₁ vnodeKnown => ?_
  obtain ⟨lookupResult, vnode⟩ := looked
  refine .ite (fun failed => ?_) fun _ => twin₁.openVnode vnodeKnown
  refine .ite (fun _ => ?_) fun _ => ?_
  · refine (twin₁.openCreate (known.mono (Known.vnodes_mono larger)) vnodeKnown).bind
      fun k₂ created s₂ t₂ _ twin₂ newKnown => ?_
    cases created with
    | error result =>
        refine .pure ?_ fun success => absurd success newKnown
        unfold withOpened
        rw [if_neg newKnown]
        exact twin₂
    | ok made => exact twin₂.openVnode newKnown
  · refine .pure ?_ fun success => absurd success failed
    unfold withOpened
    rw [if_neg failed]
    exact twin₁

/-- The structure of a closed file of a file system stays allocated. -/
theorem Twin.vfsClose (twin : Twin k rest s t) (isOpen : f ∈ k.files) (inUse : f ∈ rest) :
    Together (fun _ => rest.erase f) (fun _ _ => True) k (some (Fs.vfsClose s f))
      (some (Fs.vfsClose t f)) := by
  have split : rest.Perm (f :: rest.erase f) := List.perm_cons_erase inUse
  have kept : Twin (k.addOwn [f]) (rest.erase f) s t := (twin.rearrange split).addOwn
  have larger := Known.le_addOwn k [f]
  have closed : Together (fun _ => rest.erase f) (fun _ _ => True) k
      (some (s.setFile f ⟨none, 0, none, 0⟩, (0 : Int))) (some (t.setFile f ⟨none, 0, none, 0⟩, 0)) :=
    .go (larger.trans (Known.le_addFile _ f)) (kept.setFile within_none) trivial
  have freed : Together (fun _ => rest.erase f) (fun _ _ => True) k (some (s.free f, (0 : Int)))
      (some (t.free f, 0)) := .pure (twin.rearrange split).free trivial
  unfold Fs.vfsClose
  rw [twin.file isOpen]
  cases (s.files f).fOps with
  | none => exact .go larger kept trivial
  | some ops =>
      cases ops with
      | tmpfs => exact closed
      | initramfs => exact closed
      | uart => exact freed
      | framebuffer => exact freed

theorem Twin.vfsMknod {fOps : FileOps} (twin : Twin k rest s t) (known : Within k.vnodes cwd) :
    Together (fun _ => rest) (fun _ _ => True) k (Fs.vfsMknod s cwd pathname fOps)
      (Fs.vfsMknod t cwd pathname fOps) := by
  unfold Fs.vfsMknod
  refine (twin.vfsOpen known).bind fun k₁ opened s₁ t₁ _ twin₁ isFile => ?_
  obtain ⟨result, dev⟩ := opened
  unfold withOpened at twin₁
  by_cases failed : result ≠ 0
  · dsimp only at twin₁ ⊢
    rw [if_neg failed] at twin₁
    rw [if_pos failed, if_pos failed]
    exact .pure twin₁ trivial
  · obtain ⟨f, isDev, member⟩ := isFile (not_not.mp failed)
    dsimp only at twin₁ isDev ⊢
    subst isDev
    rw [if_pos (not_not.mp failed)] at twin₁
    rw [if_neg failed, if_neg failed]
    simp only [Option.bind_eq_bind, Option.bind_some, twin₁.file member]
    cases isVnode : (s₁.files f).vnode with
    | none => exact .stop
    | some v =>
        have known := twin₁.opened member v isVnode
        have atVnode := twin₁.shared.vnode known
        simp only [Option.bind_some]
        rw [atVnode]
        have revised : Twin k₁ (f :: rest) (s₁.setVnode v { s₁.vnodes v with fOps := some fOps })
            (t₁.setVnode v { s₁.vnodes v with fOps := some fOps }) :=
          twin₁.graph subset_rfl rfl (.refl _)
            (twin₁.shared.revise rfl rfl rfl (twin₁.shared.mounted known))
        have closed := revised.vfsClose member List.mem_cons_self
        rw [List.erase_cons_head] at closed
        exact closed

end Open

end OsdiKernel.Fs
