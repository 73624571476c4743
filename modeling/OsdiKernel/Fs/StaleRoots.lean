import OsdiKernel.Fs.Together

/-!
# Mounts in different memory

The root node of a mount of initramfs is not written.  Two kernels that mount
it together agree afterwards if the memory of this node has no children in
both, up to its type, which only the start of the kernel writes.
-/

namespace OsdiKernel.Fs

open Allocator (Holds)
open Parallel (Both)

variable {H : Type} [Allocator H]

/-! ## Setting up a mount -/

section Setup

variable {k : Known} {rest : List Nat} {s t : State H} {m n v : Nat} {ops : FsType} {fOps : FileOps}
  {data : Option Nat}

/-- The node becomes a directory. -/
def State.retype (s : State H) (n : Nat) : State H :=
  s.setNode n { s.nodes n with type := .directory }

omit [Allocator H] in
theorem retype_self (directory : (s.nodes n).type = .directory) : s.retype n = s := by
  have same : ({ s.nodes n with type := .directory } : Node) = s.nodes n := by
    rw [← directory]
  unfold State.retype State.setNode Graph.setNode
  rw [same, Function.update_eq_self]

/-- The root vnode gets its parent. -/
def State.setParent (s : State H) (v : Nat) (parent : Option Nat) : State H :=
  s.setVnode v { s.vnodes v with parent := parent }

/-- Both kernels set up a mount, or both fail.  The root node is only known
once it is a directory. -/
inductive SetupTogether (k : Known) (rest : List Nat) (m : Nat) (old : Nat → Vnode) :
    State H × Int → State H × Int → Prop
  | failed {k' : Known} {s t : State H} {result : Int} (nonzero : result ≠ 0) (larger : k ≤ k')
      (twin : Twin k' rest s t) : SetupTogether k rest m old (s, result) (t, result)
  | done {s t : State H} {v n : Nat} {new : List Nat} (freshVnode : v ∉ k.own) (freshNode : n ∉ k.own)
      (vnodes : ∀ u, u ≠ v → s.vnodes u = old u) (root : (s.mounts m).root = some v) (root' : (t.mounts m).root = some v) (internal : (s.vnodes v).internal = some n)
      (internal' : (t.vnodes v).internal = some n)
      (twin : ∀ parent, Within k.vnodes parent → Twin ((k.addVnode v new).addMount m) rest
        ((s.setParent v parent).retype n) ((t.setParent v parent).retype n)) :
      SetupTogether k rest m old (s, 0) (t, 0)

omit [Allocator H] in
/-- What is written of a root that becomes a directory does not depend on what it was. -/
theorem setupRoot_graph (s : State H) (parent : Option Nat) :
    (((s.setMount m ⟨some v⟩).setVnode v
        { (s.setMount m ⟨some v⟩).vnodes v with
          mount := none
          vOps := some ops
          fOps := some fOps
          internal := some n
          parentIsMount := true }).setParent v parent).retype n =
      { s with
        toGraph := ((s.toGraph.setNode n { s.nodes n with type := .directory }).setVnode v
          (rootOf n ops fOps parent)).setMount m ⟨some v⟩ } := by
  unfold State.retype State.setParent State.setVnode State.setMount State.setNode Graph.setVnode
    Graph.setMount Graph.setNode
  simp only [Function.update_self, Function.update_idem]
  rfl

theorem Twin.setupRoot (twin : Twin k (data.toList ++ n :: rest) s t) (fresh : n ∉ k.own)
    (empty : (s.alloc vnodeSize).2 ≠ none → (s.nodes n).numChildren = 0 ∧ (t.nodes n).numChildren = 0)
    (hasData : (s.alloc vnodeSize).2 = none → (s.nodes n).data = data ∧ (t.nodes n).data = data) :
    SetupTogether k rest m s.vnodes (setupRoot s m n ops fOps) (setupRoot t m n ops fOps) := by
  unfold Fs.setupRoot
  cases allocated : (s.alloc vnodeSize).2 with
  | none =>
      obtain ⟨first, second⟩ := twin.alloc_pair allocated
      obtain ⟨atNode, atNode'⟩ := hasData allocated
      have twin₁ := twin.alloc_none allocated
      have same : ((s.alloc vnodeSize).1.setMount m ⟨none⟩).nodes n = s.nodes n := rfl
      have same' : ((t.alloc vnodeSize).1.setMount m ⟨none⟩).nodes n = t.nodes n := rfl
      have twin₂ : Twin (k.addMount m) (data.toList ++ n :: rest) ((s.alloc vnodeSize).1.setMount m ⟨none⟩)
          ((t.alloc vnodeSize).1.setMount m ⟨none⟩) :=
        twin₁.graph subset_rfl rfl (.refl _) (twin₁.shared.addMount within_none)
      rw [first, second]
      dsimp only
      rw [same, same', atNode, atNode']
      exact .failed (by decide) (Known.le_addMount k m) twin₂.freePtr.free
  | some v =>
      obtain ⟨first, second⟩ := twin.alloc_pair allocated
      obtain ⟨count, count'⟩ := empty (by rw [allocated]; exact Option.some_ne_none v)
      obtain ⟨freshVnode, twin₁⟩ := twin.alloc_some allocated
      have vnodes : (s.alloc vnodeSize).1.vnodes = s.vnodes := rfl
      have nodes : (s.alloc vnodeSize).1.nodes = s.nodes := rfl
      have nodes' : (t.alloc vnodeSize).1.nodes = t.nodes := rfl
      rw [first, second]
      dsimp only
      generalize (s.alloc vnodeSize).1 = s₁ at *
      generalize (t.alloc vnodeSize).1 = t₁ at *
      refine @SetupTogether.done H _ k rest m _ _ _ v n (v :: (data.toList ++ [n])) freshVnode fresh
        (fun u other => (setVnode_of_ne _ other).trans (congrFun vnodes u)) (congrArg Mount.root (setMount_self _)) (congrArg Mount.root (setMount_self _))
        (congrArg Vnode.internal (setVnode_self _)) (congrArg Vnode.internal (setVnode_self _))
        fun parent known => ?_
      rw [setupRoot_graph, setupRoot_graph]
      have retyped := twin₁.shared.setNode fresh { s₁.nodes n with type := .directory }
        { t₁.nodes n with type := .directory }
      have node := @SharedNode.emptyRoot k s₁.vnodes { s₁.nodes n with type := .directory }
        { t₁.nodes n with type := .directory } (by rw [nodes]; exact count)
        (by rw [nodes']; exact count') rfl rfl
      have inNew : n ∈ v :: (data.toList ++ [n]) := by simp
      have rooted := @Shared.addVnode _ _ _ retyped v n (rootOf n ops fOps parent) _ freshVnode
        List.mem_cons_self known within_none rfl inNew (by rw [setNode_self, setNode_self]; exact node)
      refine twin₁.graph (Set.subset_insert v k.vnodes) rfl ?_
        (rooted.addMount (within_some (Set.mem_insert v k.vnodes)))
      change (v :: (data.toList ++ n :: rest) ++ k.own).Perm
        (rest ++ (v :: (data.toList ++ [n]) ++ k.own))
      have grouped : v :: (data.toList ++ n :: rest) = (v :: (data.toList ++ [n])) ++ rest := by simp
      rw [grouped, List.append_assoc]
      exact List.perm_append_comm_assoc _ rest k.own

theorem Twin.tmpfsSetupMount (twin : Twin k rest s t) :
    SetupTogether k rest m s.vnodes (Fs.tmpfsSetupMount s m) (Fs.tmpfsSetupMount t m) := by
  unfold Fs.tmpfsSetupMount
  rcases twin.createInternalNode ['/'] .directory none with
    ⟨s₁, t₁, first, second, twin₁⟩ | ⟨s₁, t₁, n, data, first, second, new⟩
  · rw [first, second]
    exact .failed (by decide : enomem ≠ 0) (le_refl k) twin₁
  · rw [first, second]
    obtain ⟨fresh, vnodes₁, twin₁, ⟨parent, capacity, node⟩, same⟩ := new
    rw [← vnodes₁]
    refine twin₁.setupRoot fresh (fun _ => ?_) fun _ => ?_
    · rw [same, node]
      exact ⟨rfl, rfl⟩
    · rw [same, node]
      exact ⟨rfl, rfl⟩

/-- The memory that the next root node is allocated in has no children; it has no
data either if there is no memory for the root vnode. -/
theorem Twin.initramfsSetupMount (twin : Twin k rest s t) (clean : CleanRoot s) (clean' : CleanRoot t) :
    SetupTogether k rest m s.vnodes (Fs.initramfsSetupMount s m) (Fs.initramfsSetupMount t m) := by
  unfold Fs.initramfsSetupMount
  cases allocated : (s.alloc nodeSize).2 with
  | none =>
      obtain ⟨first, second⟩ := twin.alloc_pair allocated
      rw [first, second]
      exact .failed (by decide : enomem ≠ 0) (le_refl k) (twin.alloc_none allocated)
  | some n =>
      obtain ⟨first, second⟩ := twin.alloc_pair allocated
      obtain ⟨fresh, twin₁⟩ := twin.alloc_some allocated
      obtain ⟨empty, hasData⟩ := clean n allocated
      obtain ⟨empty', hasData'⟩ := clean' n ((twin.alloc_result nodeSize).trans allocated)
      rw [twin₁.alloc_result] at empty' hasData'
      rw [first, second]
      exact @Twin.setupRoot H _ k rest _ _ m n _ _ none twin₁ fresh (fun served => ⟨empty served, empty' served⟩)
        fun failed => ⟨hasData failed, hasData' failed⟩

theorem Twin.setupMount (twin : Twin k rest s t) (fs : FsType) (clean : fs = .initramfs → CleanRoot s)
    (clean' : fs = .initramfs → CleanRoot t) :
    SetupTogether k rest m s.vnodes (fs.setupMount s m) (fs.setupMount t m) := by
  cases fs with
  | tmpfs => exact twin.tmpfsSetupMount
  | initramfs => exact twin.initramfsSetupMount (clean rfl) (clean' rfl)

theorem CleanRoot.congr {s' : State H} (clean : CleanRoot s) (heap : s'.heap = s.heap)
    (nodes : s'.nodes = s.nodes) : CleanRoot s' := by
  unfold CleanRoot State.alloc at *
  rw [heap, nodes]
  exact clean

end Setup

/-! ## Mounting on a path -/

section Mount

variable {k : Known} {rest : List Nat} {s t : State H} {cwd : Option Nat}
  {targetPathname filesystemName : Name} {d : Nat} {fsToMount : Filesystem}

/-- Both kernels mount a file system, or both fail with the same result.  After a
mount they agree up to the type of the new root node. -/
inductive MountTogether (k : Known) (rest : List Nat) (isTarget : Nat → Prop) :
    State H × Int → State H × Int → Prop
  | failed {k' : Known} {s t : State H} {result : Int} (nonzero : result ≠ 0) (larger : k ≤ k')
      (twin : Twin k' rest s t) : MountTogether k rest isTarget (s, result) (t, result)
  | done {k' : Known} {s t : State H} {d m v n : Nat} (target : isTarget d)
      (mount : (s.vnodes d).mount = some m) (root : (s.mounts m).root = some v) (larger : k ≤ k')
      (known : v ∈ k'.vnodes) (fresh : n ∉ k.own) (internal : (s.vnodes v).internal = some n)
      (internal' : (t.vnodes v).internal = some n)
      (twin : Twin k' rest (s.retype n) (t.retype n)) : MountTogether k rest isTarget (s, 0) (t, 0)

theorem MountTogether.imp {isTarget isTarget' : Nat → Prop} {after after' : State H × Int}
    (together : MountTogether k rest isTarget after after') (implies : ∀ d, isTarget d → isTarget' d) :
    MountTogether k rest isTarget' after after' := by
  cases together with
  | failed nonzero larger twin => exact .failed nonzero larger twin
  | done target mount root larger known fresh internal internal' twin =>
      exact .done (implies _ target) mount root larger known fresh internal internal' twin

theorem Twin.mountOnto (twin : Twin k rest s t) (member : d ∈ k.vnodes)
    (clean : fsToMount.setupMount = some .initramfs → (s.alloc mountSize).2 ≠ none →
      CleanRoot (s.alloc mountSize).1)
    (clean' : fsToMount.setupMount = some .initramfs → (t.alloc mountSize).2 ≠ none →
      CleanRoot (t.alloc mountSize).1) :
    Option.Rel (MountTogether k rest (· = d)) (Fs.mountOnto s d fsToMount) (Fs.mountOnto t d fsToMount) := by
  unfold Fs.mountOnto
  cases allocated : (s.alloc mountSize).2 with
  | none =>
      obtain ⟨first, second⟩ := twin.alloc_pair allocated
      rw [first, second]
      exact .some (.failed (by decide : enomem ≠ 0) (le_refl k) (twin.alloc_none allocated))
  | some m =>
      obtain ⟨first, second⟩ := twin.alloc_pair allocated
      obtain ⟨_, twin₁⟩ := twin.alloc_some allocated
      have cleanRoot := fun isInitramfs => clean isInitramfs (by rw [allocated]; exact Option.some_ne_none m)
      have cleanRoot' := fun isInitramfs =>
        clean' isInitramfs (by rw [twin.alloc_result, allocated]; exact Option.some_ne_none m)
      rw [first, second]
      dsimp only
      generalize (s.alloc mountSize).1 = s₁ at *
      generalize (t.alloc mountSize).1 = t₁ at *
      have twin₂ : Twin (k.addMount m) (m :: rest) (s₁.setMount m ⟨none⟩) (t₁.setMount m ⟨none⟩) :=
        twin₁.graph subset_rfl rfl (.refl _) (twin₁.shared.addMount within_none)
      have nodes : (s₁.setMount m ⟨none⟩).nodes = s₁.nodes := rfl
      have nodes' : (t₁.setMount m ⟨none⟩).nodes = t₁.nodes := rfl
      have heap : (s₁.setMount m ⟨none⟩).heap = s₁.heap := rfl
      have heap' : (t₁.setMount m ⟨none⟩).heap = t₁.heap := rfl
      have atTarget := twin₂.shared.vnode member
      rw [atTarget]
      generalize s₁.setMount m ⟨none⟩ = s₂ at *
      generalize t₁.setMount m ⟨none⟩ = t₂ at *
      have twin₃ : Twin (k.addMount m) (m :: rest)
          (s₂.setVnode d { s₂.vnodes d with mount := some m })
          (t₂.setVnode d { s₂.vnodes d with mount := some m }) :=
        twin₂.graph subset_rfl rfl (.refl _)
          (twin₂.shared.revise rfl rfl rfl (within_some (Set.mem_insert m k.mounts)))
      have member₃ : d ∈ (k.addMount m).vnodes := member
      cases setup : fsToMount.setupMount with
      | none => exact .some (.failed (by decide : enosys ≠ 0) (Known.le_addMount k m) twin₃.free)
      | some fs =>
          have together : SetupTogether (k.addMount m) (m :: rest) m
              (s₂.setVnode d { s₂.vnodes d with mount := some m }).vnodes
              (fs.setupMount (s₂.setVnode d { s₂.vnodes d with mount := some m }) m)
              (fs.setupMount (t₂.setVnode d { s₂.vnodes d with mount := some m }) m) := by
            refine twin₃.setupMount fs (fun isInitramfs => ?_) fun isInitramfs => ?_
            · exact (cleanRoot (by rw [setup, isInitramfs])).congr heap nodes
            · exact (cleanRoot' (by rw [setup, isInitramfs])).congr heap' nodes'
          dsimp only
          generalize fs.setupMount (s₂.setVnode d _) m = after at *
          generalize fs.setupMount (t₂.setVnode d _) m = after' at *
          cases together with
          | @failed k' s₄ t₄ result nonzero larger twin₄ =>
              have member₄ := Known.vnodes_mono larger member₃
              rw [if_pos nonzero, if_pos nonzero, twin₄.shared.vnode member₄]
              have twin₅ : Twin k' (m :: rest) (s₄.setVnode d { s₄.vnodes d with mount := none })
                  (t₄.setVnode d { s₄.vnodes d with mount := none }) :=
                twin₄.graph subset_rfl rfl (.refl _)
                  (twin₄.shared.revise rfl rfl rfl within_none)
              exact .some (.failed nonzero ((Known.le_addMount k m).trans larger) twin₅.free)
          | @done s₄ t₄ v n new freshVnode fresh vnodes root root' internal internal' twin₄ =>
              rw [if_neg (not_not_intro rfl), if_neg (not_not_intro rfl), root, root']
              have finished := twin₄ (some d) (within_some member₃)
              have larger : k ≤ (((k.addMount m).addVnode v new).addMount m).addOwn [m] :=
                (Known.le_addMount k m).trans ((Known.le_addVnode _ v new).trans
                  ((Known.le_addMount _ m).trans (Known.le_addOwn _ [m])))
              have known : v ∈ ((((k.addMount m).addVnode v new).addMount m).addOwn [m]).vnodes :=
                Set.mem_insert v k.vnodes
              have other : d ≠ v := fun same => freshVnode (same ▸ twin₃.shared.inUse member₃)
              have kept : ((s₄.setParent v (some d)).vnodes d).mount = some m := by
                refine (congrArg Vnode.mount (setVnode_of_ne _ other)).trans ?_
                rw [vnodes d other]
                exact congrArg Vnode.mount (setVnode_self _)
              refine .some (.done (v := v) (n := n) rfl kept root larger known fresh ?_ ?_ finished.addOwn)
              · exact (congrArg Vnode.internal (setVnode_self _)).trans internal
              · exact (congrArg Vnode.internal (setVnode_self _)).trans internal'

theorem Twin.vfsMount (twin : Twin k rest s t) (known : Within k.vnodes cwd)
    (clean : filesystemName = initramfsName → CleanMemory s cwd targetPathname)
    (clean' : filesystemName = initramfsName → CleanMemory t cwd targetPathname) :
    Option.Rel (MountTogether k rest fun d => resolve s.toGraph cwd targetPathname = some (0, some d))
      (Fs.vfsMount s cwd targetPathname filesystemName)
      (Fs.vfsMount t cwd targetPathname filesystemName) := by
  have looked := @Twin.looked _ _ _ _ _ _ _ targetPathname twin known
  unfold Fs.vfsMount
  rw [twin.systems]
  cases found : s.filesystems.find? (fun fs => fs.name = filesystemName) with
  | none => exact .some (.failed (by decide : enodev ≠ 0) (le_refl k) twin)
  | some fs =>
      have isInitramfs : fs.setupMount = some .initramfs → filesystemName = initramfsName := by
        intro setup
        rcases twin.registered.find found with ⟨_, other⟩ | ⟨named, _⟩
        · rw [other] at setup
          cases setup
        · exact named
      dsimp only
      cases first : vfsLookup s cwd targetPathname with
      | none =>
          rw [first] at looked
          rw [Parallel.rel_none looked]
          exact .none
      | some after =>
          obtain ⟨s₁, lookupResult, targetVnode⟩ := after
          rw [first] at looked
          obtain ⟨⟨t₁, _⟩, second, same, twin₁, targetKnown⟩ := Parallel.rel_some looked
          cases same
          rw [second]
          dsimp only at twin₁
          refine Parallel.rel_ite (fun failed => .some (.failed failed (le_refl k) twin₁)) fun success => ?_
          have zero : lookupResult = 0 := not_not.mp success
          subst zero
          cases targetVnode with
          | none => exact .none
          | some d =>
              have member := targetKnown d rfl
              have same := twin₁.shared.vnode member
              simp only [Option.bind_eq_bind, Option.bind_some, same]
              refine Parallel.rel_ite
                (fun _ => .some (.failed (by decide : enosys ≠ 0) (le_refl k) twin₁)) fun hasOps => ?_
              refine Parallel.rel_ite
                (fun _ => .some (.failed (by decide : ebusy ≠ 0) (le_refl k) twin₁)) fun clear => ?_
              have target := mountTarget_iff.mpr ⟨first, hasOps, clear⟩
              have target' := mountTarget_iff.mpr ⟨second, same.symm ▸ hasOps, same.symm ▸ clear⟩
              have mounted := twin₁.mountOnto member (fun setup => clean (isInitramfs setup) s₁ d target)
                fun setup => clean' (isInitramfs setup) t₁ d target'
              have resolved := mountTarget_resolved twin.holds target
              exact Parallel.rel_imp mounted fun _ _ together =>
                together.imp fun _ same => same ▸ resolved

end Mount

end OsdiKernel.Fs
