import OsdiKernel.Fs.Creation
import OsdiKernel.Fs.Start

/-!
# The entries of a directory

What the functions write to the list of children of a directory: a child is stored
behind the others, after the checks of its name, and its own list is empty.
-/

namespace OsdiKernel.Fs

variable {H : Type} [Allocator H]

/-! ## Nodes without children -/

/-- A node of this name without children. -/
structure Bare (node : Node) (name : Name) : Prop where
  name : node.name = name
  count : node.numChildren = 0
  children : ∀ i, node.children i = none

/-- The checks of `tmpfs_create_or_mkdir` on the node of a directory. -/
structure Admits (g : Graph) (nd : Nat) (name : Name) : Prop where
  nonempty : name ≠ []
  short : name.length < maxFileName
  directory : (g.nodes nd).type = .directory
  absent : findChild g (g.nodes nd) name = some none

/-- A directory that has gained a child has it behind the others, and the child has a
name that is allowed, and no children. -/
def Appends (g g' : Graph) (ok : Nat → Name → Prop) : Prop :=
  ∀ nd, 0 ≤ (g.nodes nd).numChildren → (g'.nodes nd).numChildren = (g.nodes nd).numChildren + 1 →
    ∃ w n, (g'.nodes nd).children (g.nodes nd).numChildren.toNat = some w ∧
      (g'.vnodes w).internal = some n ∧ (n = nd ∨ ∀ i, (g'.nodes n).children i = none) ∧
        ok nd (g'.nodes n).name

section Appends

variable {g g' g'' : Graph} {ok ok' : Nat → Name → Prop}

/-- No directory has gained a child. -/
theorem appends_of_kept (kept : ∀ n, g'.nodes n = g.nodes n ∨ (g'.nodes n).numChildren = 0) :
    Appends g g' ok := by
  intro nd nonneg more
  rcases kept nd with same | empty
  · rw [same] at more
    omega
  · omega

theorem appends_refl (g : Graph) : Appends g g ok := appends_of_kept fun _ => Or.inl rfl

theorem Appends.mono (appends : Appends g g' ok) (weaker : ∀ nd name, ok nd name → ok' nd name) :
    Appends g g' ok' := by
  intro nd nonneg more
  obtain ⟨w, n, child, internal, empty, allowed⟩ := appends nd nonneg more
  exact ⟨w, n, child, internal, empty, weaker _ _ allowed⟩

/-- Only the nodes and the pointers to them matter. -/
theorem Appends.congr (appends : Appends g g' ok) (nodes : g''.nodes = g'.nodes)
    (internals : ∀ v, (g''.vnodes v).internal = (g'.vnodes v).internal) : Appends g g'' ok := by
  intro nd nonneg more
  rw [nodes] at more ⊢
  obtain ⟨w, n, child, internal, rest⟩ := appends nd nonneg more
  exact ⟨w, n, child, (internals w).trans internal, rest⟩

/-- A new vnode is stored behind the others.  Its node may be written over that of the directory. -/
theorem appends_of_push {w n nd : Nat} {name : Name}
    (kept : ∀ x, g'.nodes x = g.nodes x ∨ (g'.nodes x).numChildren = 0)
    (internal : (g'.vnodes w).internal = some n) (bare : Bare (g'.nodes n) name) :
    Appends g (g'.setNode nd ((g'.nodes nd).push w)) fun nd' name' => nd' = nd ∧ name' = name := by
  have self : (g'.setNode nd ((g'.nodes nd).push w)).nodes nd = (g'.nodes nd).push w := setNode_self _
  have others : ∀ x, x ≠ nd → (g'.setNode nd ((g'.nodes nd).push w)).nodes x = g'.nodes x :=
    fun x other => setNode_of_ne _ other
  intro x nonneg more
  by_cases here : x = nd
  · subst here
    rw [self] at more ⊢
    have count : (g'.nodes x).numChildren = (g.nodes x).numChildren := add_right_cancel more
    refine ⟨w, n, ?_, internal, ?_, rfl, ?_⟩
    · unfold Node.push
      rw [count]
      exact Function.update_self _ _ _
    · by_cases alias_ : n = x
      · exact Or.inl alias_
      · rw [others n alias_]
        exact Or.inr bare.children
    · by_cases alias_ : n = x
      · subst alias_
        exact (congrArg Node.name self).trans bare.name
      · exact (congrArg Node.name (others n alias_)).trans bare.name
  · rw [others x here] at more
    rcases kept x with same | empty
    · rw [same] at more
      omega
    · omega

end Appends

/-! ## One function at a time -/

section Creation

variable {s s' : State H} {d nd n : Nat} {target target' cwd vnode : Option Nat} {name pathname : Name}
  {type : Tmpfs.NodeType} {parent : Option Nat} {result : Int} {flags : Nat} {fOps : FileOps}

/-- The vnodes stay, and only the new node is written. -/
theorem tmpfsCreateInternalNode_writes (s : State H) (name : Name) (type : Tmpfs.NodeType)
    (parent : Option Nat) :
    (tmpfsCreateInternalNode s name type parent).1.vnodes = s.vnodes ∧
      (∀ x, (tmpfsCreateInternalNode s name type parent).1.nodes x = s.nodes x ∨
        Bare ((tmpfsCreateInternalNode s name type parent).1.nodes x) name) ∧
      ∀ n, (tmpfsCreateInternalNode s name type parent).2 = some n →
        Bare ((tmpfsCreateInternalNode s name type parent).1.nodes n) name := by
  unfold tmpfsCreateInternalNode
  cases first : (s.alloc nodeSize).2 with
  | none =>
      rw [alloc_eq first]
      exact ⟨rfl, fun _ => Or.inl rfl, nofun⟩
  | some n =>
      rw [alloc_eq first]
      dsimp only
      generalize made : (s.alloc nodeSize).1.setNode n ⟨name, type, parent, none, 0, 0, fun _ => none, 0⟩ = s₁
      have vnodes : s₁.vnodes = s.vnodes := by
        rw [← made]
        rfl
      have self : s₁.nodes n = ⟨name, type, parent, none, 0, 0, fun _ => none, 0⟩ := by
        rw [← made]
        exact setNode_self _
      have others : ∀ x, x ≠ n → s₁.nodes x = s.nodes x := by
        intro x other
        rw [← made]
        exact setNode_of_ne _ other
      have bare : Bare (s₁.nodes n) name := by
        rw [self]
        exact ⟨rfl, rfl, fun _ => rfl⟩
      have either : ∀ x, s₁.nodes x = s.nodes x ∨ Bare (s₁.nodes x) name := by
        intro x
        by_cases here : x = n
        · exact Or.inr (here ▸ bare)
        · exact Or.inl (others x here)
      split
      · cases second : (s₁.alloc defaultFileSize).2 with
        | none =>
            rw [alloc_eq second]
            exact ⟨vnodes, either, nofun⟩
        | some data =>
            rw [alloc_eq second]
            dsimp only
            have filled : ((s₁.alloc defaultFileSize).1.setNode n
                { (s₁.alloc defaultFileSize).1.nodes n with data := some data, capacity := defaultFileSize }).nodes n =
                  { s₁.nodes n with data := some data, capacity := defaultFileSize } := setNode_self _
            have bare' : Bare (((s₁.alloc defaultFileSize).1.setNode n
                { (s₁.alloc defaultFileSize).1.nodes n with
                  data := some data, capacity := defaultFileSize }).nodes n) name := by
              rw [filled]
              exact ⟨bare.name, bare.count, bare.children⟩
            refine ⟨vnodes, fun x => ?_, fun n' same => ?_⟩
            · by_cases here : x = n
              · exact Or.inr (here ▸ bare')
              · refine Or.inl (Eq.trans ?_ (others x here))
                exact setNode_of_ne _ here
            · cases same
              exact bare'
      · refine ⟨vnodes, either, fun n' same => ?_⟩
        cases same
        exact bare

theorem tmpfsAddChild_appends (made : tmpfsAddChild s d nd name type = some (s', result, target')) :
    Appends s.toGraph s'.toGraph fun nd' name' => nd' = nd ∧ name' = name := by
  have created := tmpfsCreateInternalNode_writes s name type (some nd)
  unfold tmpfsAddChild at made
  generalize tmpfsCreateInternalNode s name type (some nd) = after at *
  obtain ⟨s₁, new⟩ := after
  dsimp only at created made
  obtain ⟨_, written, bare⟩ := created
  have kept : ∀ x, s₁.nodes x = s.nodes x ∨ (s₁.nodes x).numChildren = 0 :=
    fun x => (written x).imp_right Bare.count
  cases new with
  | none =>
      cases made
      exact appends_of_kept kept
  | some n =>
      dsimp only at made
      cases second : (s₁.alloc vnodeSize).2 with
      | none =>
          rw [alloc_eq second] at made
          cases made
          exact appends_of_kept kept
      | some w =>
          rw [alloc_eq second] at made
          obtain ⟨s₃, stored, same⟩ := Option.bind_eq_some_iff.mp made
          cases same
          obtain ⟨_, rfl⟩ := storeChild_eq stored
          generalize entered : (s₁.alloc vnodeSize).1.setVnode w _ = s₂
          have nodes : s₂.nodes = s₁.nodes := by
            rw [← entered]
            rfl
          have internal : (s₂.vnodes w).internal = some n := by
            rw [← entered]
            exact congrArg Vnode.internal (setVnode_self _)
          refine @appends_of_push _ s₂.toGraph w n nd name ?_ internal ?_
          · rw [nodes]
            exact kept
          · rw [nodes]
            exact bare n rfl

/-- What a directory that gains a child has admitted. -/
def Admitted (g : Graph) (name : Name) (nd : Nat) (name' : Name) : Prop := name' = name ∧ Admits g nd name

theorem tmpfsCreateOrMkdir_appends
    (made : tmpfsCreateOrMkdir s d target name type = some (s', result, target')) :
    Appends s.toGraph s'.toGraph (Admitted s.toGraph name) := by
  unfold tmpfsCreateOrMkdir at made
  split at made
  · cases made
    exact appends_refl _
  · next nd internal =>
      split at made
      · cases made
        exact appends_refl _
      · next nonempty =>
          split at made
          · cases made
            exact appends_refl _
          · next directory =>
              split at made
              · cases made
                exact appends_refl _
              · next short =>
                  split at made
                  · cases made
                  · cases made
                    exact appends_refl _
                  · next absent =>
                      split at made
                      · cases made
                        exact appends_refl _
                      · refine (tmpfsAddChild_appends made).mono ?_
                        rintro _ _ ⟨rfl, rfl⟩
                        exact ⟨rfl, nonempty, Nat.lt_of_not_le short, not_not.mp directory, absent⟩

theorem mkdir_appends (ops : FsType) (made : ops.mkdir s d target name = some (s', result, target')) :
    Appends s.toGraph s'.toGraph (Admitted s.toGraph name) := by
  cases ops with
  | tmpfs => exact tmpfsCreateOrMkdir_appends made
  | initramfs =>
      cases made
      exact appends_refl _

theorem create_appends (ops : FsType) (made : ops.create s d target name = some (s', result, target')) :
    Appends s.toGraph s'.toGraph (Admitted s.toGraph name) := by
  cases ops with
  | tmpfs => exact tmpfsCreateOrMkdir_appends made
  | initramfs =>
      cases made
      exact appends_refl _

/-! ### By path -/

theorem vfsLookup_graph (looked : vfsLookup s cwd pathname = some (s', result, target)) :
    s'.toGraph = s.toGraph := by
  rw [vfsLookup_eq] at looked
  split at looked
  · cases looked
    rfl
  · obtain ⟨outcome, _, same⟩ := Option.map_eq_some_iff.mp looked
    cases same
    rfl

theorem lookupParent_graph {i : Nat} (looked : lookupParent s cwd pathname i = some (s', result, target)) :
    s'.toGraph = s.toGraph := by
  rw [lookupParent_eq] at looked
  exact vfsLookup_graph looked

theorem mkdirParent_graph (looked : mkdirParent s cwd pathname = some (s', result, target)) :
    s'.toGraph = s.toGraph := by
  unfold mkdirParent at looked
  split at looked
  · split at looked
    · cases looked
      rfl
    · cases looked
      rfl
  · exact lookupParent_graph looked

theorem openParent_graph (looked : openParent s cwd pathname = some (s', result, target)) :
    s'.toGraph = s.toGraph := by
  unfold openParent at looked
  split at looked
  · split at looked
    · cases looked
      rfl
    · obtain ⟨root, _, same⟩ := Option.bind_eq_some_iff.mp looked
      cases same
      rfl
  · exact lookupParent_graph looked

theorem vfsMkdir_appends (made : vfsMkdir s cwd pathname = some (s', result, target)) :
    Appends s.toGraph s'.toGraph (Admitted s.toGraph (baseName pathname)) := by
  unfold vfsMkdir at made
  cases copied : (s.alloc (pathname.length + 1)).2 with
  | none =>
      rw [alloc_eq copied] at made
      cases made
      exact appends_refl _
  | some pathCopy =>
      rw [alloc_eq copied] at made
      obtain ⟨⟨s₁, found, parentVnode⟩, looked, rest⟩ := Option.bind_eq_some_iff.mp made
      have graph : s₁.toGraph = s.toGraph := (mkdirParent_graph looked).trans (alloc_toGraph s _)
      have stays : Appends s.toGraph (s₁.free pathCopy).toGraph (Admitted s.toGraph (baseName pathname)) := by
        rw [free_toGraph, graph]
        exact appends_refl _
      dsimp only at rest
      split at rest
      · cases rest
        exact stays
      · split at rest
        · cases rest
          exact stays
        · split at rest
          · cases rest
            exact stays
          · split at rest
            · cases rest
              exact stays
            · next ops _ =>
                obtain ⟨⟨s₂, r, w⟩, added, same⟩ := Option.bind_eq_some_iff.mp rest
                cases same
                rw [free_toGraph, ← graph]
                exact mkdir_appends ops added

theorem openCreate_appends {outcome : Except Int (Int × Option Nat)}
    (made : openCreate s cwd pathname vnode = some (s', outcome)) :
    Appends s.toGraph s'.toGraph (Admitted s.toGraph (baseName pathname)) := by
  unfold openCreate at made
  cases copied : (s.alloc (pathname.length + 1)).2 with
  | none =>
      rw [alloc_eq copied] at made
      cases made
      exact appends_refl _
  | some pathCopy =>
      rw [alloc_eq copied] at made
      obtain ⟨⟨s₁, found, parentVnode⟩, looked, rest⟩ := Option.bind_eq_some_iff.mp made
      have graph : s₁.toGraph = s.toGraph := (openParent_graph looked).trans (alloc_toGraph s _)
      have stays : Appends s.toGraph (s₁.free pathCopy).toGraph (Admitted s.toGraph (baseName pathname)) := by
        rw [free_toGraph, graph]
        exact appends_refl _
      dsimp only at rest
      split at rest
      · cases rest
        exact stays
      · split at rest
        · cases rest
          exact stays
        · split at rest
          · cases rest
            exact stays
          · next ops _ =>
              obtain ⟨⟨s₂, r, w⟩, added, same⟩ := Option.bind_eq_some_iff.mp rest
              cases same
              rw [free_toGraph, ← graph]
              exact create_appends ops added

theorem open_graph (ops : FileOps) (s : State H) (fileNode : Nat) (target : Option Nat) :
    (ops.open s fileNode target).1.toGraph = s.toGraph := by
  have device : ∀ device, (openDevice s fileNode device).1.toGraph = s.toGraph := by
    intro device
    unfold openDevice
    cases allocated : (s.alloc fileSize).2 with
    | none =>
        rw [alloc_eq allocated]
        rfl
    | some f =>
        rw [alloc_eq allocated]
        rfl
  cases ops with
  | tmpfs => cases target <;> rfl
  | initramfs => cases target <;> rfl
  | uart => exact device .uart
  | framebuffer => exact device .framebuffer

theorem openVnode_graph (opened : openVnode s vnode flags = some (s', result, target)) :
    s'.toGraph = s.toGraph := by
  unfold openVnode at opened
  obtain ⟨v, _, rest⟩ := Option.bind_eq_some_iff.mp opened
  obtain ⟨ops, _, rest⟩ := Option.bind_eq_some_iff.mp rest
  have graph := open_graph ops (s.alloc fileSize).1 v (s.alloc fileSize).2
  dsimp only at rest
  split at rest
  · cases rest
    exact graph
  · obtain ⟨f, _, same⟩ := Option.bind_eq_some_iff.mp rest
    cases same
    exact graph

theorem vfsOpen_appends (opened : vfsOpen s cwd pathname flags = some (s', result, target)) :
    Appends s.toGraph s'.toGraph (Admitted s.toGraph (baseName pathname)) := by
  unfold vfsOpen at opened
  obtain ⟨⟨s₁, lookupResult, v⟩, looked, rest⟩ := Option.bind_eq_some_iff.mp opened
  have graph : s₁.toGraph = s.toGraph := vfsLookup_graph looked
  rw [← graph]
  dsimp only at rest
  split at rest
  · split at rest
    · obtain ⟨⟨s₂, outcome⟩, created, rest⟩ := Option.bind_eq_some_iff.mp rest
      have appends := openCreate_appends created
      cases outcome with
      | error r =>
          cases rest
          exact appends
      | ok pair =>
          rw [openVnode_graph rest]
          exact appends
    · cases rest
      exact appends_refl _
  · rw [openVnode_graph rest]
    exact appends_refl _

theorem vfsClose_graph (s : State H) (f : Nat) : (vfsClose s f).1.toGraph = s.toGraph := by
  unfold vfsClose
  cases (s.files f).fOps with
  | none => rfl
  | some ops => cases ops <;> rfl

theorem vfsMknod_appends (made : vfsMknod s cwd pathname fOps = some (s', result)) :
    Appends s.toGraph s'.toGraph (Admitted s.toGraph (baseName pathname)) := by
  unfold vfsMknod at made
  obtain ⟨⟨s₁, r, dev⟩, opened, rest⟩ := Option.bind_eq_some_iff.mp made
  have appends := vfsOpen_appends opened
  dsimp only at rest
  split at rest
  · cases rest
    exact appends
  · obtain ⟨f, _, rest⟩ := Option.bind_eq_some_iff.mp rest
    obtain ⟨v, _, rest⟩ := Option.bind_eq_some_iff.mp rest
    have same : (vfsClose _ f).1 = s' := congrArg Prod.fst (Option.some.inj rest)
    rw [← same, vfsClose_graph]
    refine appends.congr rfl fun x => ?_
    by_cases here : x = v
    · rw [here]
      exact (congrArg Vnode.internal (setVnode_self _)).trans rfl
    · exact congrArg Vnode.internal (setVnode_of_ne _ here)

/-- An entry of the archive. -/
theorem initramfsEntry_appends {filename : Name} {filesize : Nat}
    (entered : initramfsEntry s d filename filesize = some s') :
    Appends s.toGraph s'.toGraph fun _ _ => True := by
  unfold initramfsEntry at entered
  obtain ⟨n, _, entered⟩ := Option.bind_eq_some_iff.mp entered
  dsimp only at entered
  split at entered
  · cases entered
  · split at entered
    · cases entered
    · obtain ⟨w, _, entered⟩ := Option.bind_eq_some_iff.mp entered
      obtain ⟨nd, _, stored⟩ := Option.bind_eq_some_iff.mp entered
      obtain ⟨_, rfl⟩ := storeChild_eq stored
      clear stored entered
      generalize made : State.setVnode _ w _ = s₂
      have self : s₂.nodes n = ⟨filename, .file, none, (((s.alloc nodeSize).1).alloc filesize).2, filesize,
          filesize, fun _ => none, 0⟩ := by
        rw [← made]
        exact setNode_self _
      have others : ∀ x, x ≠ n → s₂.nodes x = s.nodes x := by
        intro x other
        rw [← made]
        exact setNode_of_ne _ other
      have internal : (s₂.vnodes w).internal = some n := by
        rw [← made]
        exact congrArg Vnode.internal (setVnode_self _)
      have bare : Bare (s₂.nodes n) filename := by
        rw [self]
        exact ⟨rfl, rfl, fun _ => rfl⟩
      refine (appends_of_push (fun x => ?_) internal bare).mono fun _ _ _ => trivial
      by_cases here : x = n
      · rw [here]
        exact Or.inr bare.count
      · exact Or.inl (others x here)

end Creation

/-! ## Mounted roots -/

/-- A root that is mounted somewhere for the first time is of this kind, and it has no
children if it is a root of tmpfs. -/
def RootsBare (g g' : Graph) (kind : Option FsType → Prop) : Prop :=
  ∀ t m k, (g.vnodes t).mount = none → (g'.vnodes t).mount = some m → (g'.mounts m).root = some k →
    kind (g'.vnodes k).vOps ∧ ((g'.vnodes k).vOps = some .tmpfs →
      ∃ n, (g'.vnodes k).internal = some n ∧ ∀ i, (g'.nodes n).children i = none)

theorem rootsBare_of_mounts {g g' : Graph} {kind : Option FsType → Prop}
    (same : ∀ t, (g'.vnodes t).mount = (g.vnodes t).mount) : RootsBare g g' kind := by
  intro t m k clear mount
  rw [same, clear] at mount
  cases mount

theorem RootsBare.mono {g g' : Graph} {kind kind' : Option FsType → Prop}
    (bare : RootsBare g g' kind) (weaker : ∀ ops, kind ops → kind' ops) : RootsBare g g' kind' := by
  intro t m k clear mount root
  obtain ⟨isKind, empty⟩ := bare t m k clear mount root
  exact ⟨weaker _ isKind, empty⟩

/-- The root vnode of a mount that was set up. -/
structure RootWritten {H : Type} (s s' : State H) (m v n : Nat) (ops : FsType) : Prop where
  root : (s'.mounts m).root = some v
  others : ∀ x, x ≠ v → s'.vnodes x = s.vnodes x
  clear : (s'.vnodes v).mount = none
  internal : (s'.vnodes v).internal = some n
  hasOps : (s'.vnodes v).vOps = some ops
  bare : ops = .tmpfs → ∀ i, (s'.nodes n).children i = none

section Mounting

variable {s s' : State H} {m n t : Nat} {cwd : Option Nat} {targetPathname filesystemName : Name} {result : Int}

theorem setupRoot_writes (s : State H) (m n : Nat) (ops : FsType) (fOps : FileOps)
    (bare : ops = .tmpfs → ∀ i, (s.nodes n).children i = none) :
    ((setupRoot s m n ops fOps).2 ≠ 0 ∧ (setupRoot s m n ops fOps).1.vnodes = s.vnodes) ∨
      (setupRoot s m n ops fOps).2 = 0 ∧ ∃ v, RootWritten s (setupRoot s m n ops fOps).1 m v n ops := by
  unfold setupRoot
  cases allocated : (s.alloc vnodeSize).2 with
  | none =>
      rw [alloc_eq allocated]
      exact Or.inl ⟨(by decide : enomem ≠ 0), rfl⟩
  | some v =>
      rw [alloc_eq allocated]
      refine Or.inr ⟨rfl, v, ?_⟩
      dsimp only
      generalize written : (((s.alloc vnodeSize).1.setMount m ⟨some v⟩).setVnode v _) = s₁
      have root : s₁.mounts m = ⟨some v⟩ := by
        rw [← written]
        exact setMount_self _
      have nodes : s₁.nodes = s.nodes := by
        rw [← written]
        rfl
      have atRoot : (s₁.vnodes v).mount = none ∧ (s₁.vnodes v).internal = some n ∧
          (s₁.vnodes v).vOps = some ops := by
        rw [← written]
        have self := @setVnode_self ((s.alloc vnodeSize).1.setMount m ⟨some v⟩).toGraph v
        exact ⟨congrArg Vnode.mount (self _), congrArg Vnode.internal (self _), congrArg Vnode.vOps (self _)⟩
      refine ⟨congrArg Mount.root root, fun x other => ?_, atRoot.1, atRoot.2.1, atRoot.2.2,
        fun isTmpfs i => ?_⟩
      · rw [← written]
        exact setVnode_of_ne _ other
      · rw [nodes]
        exact bare isTmpfs i

theorem setupMount_writes (fs : FsType) (s : State H) (m : Nat) :
    ((fs.setupMount s m).2 ≠ 0 ∧ (fs.setupMount s m).1.vnodes = s.vnodes) ∨
      (fs.setupMount s m).2 = 0 ∧ ∃ v n, RootWritten s (fs.setupMount s m).1 m v n fs := by
  have set : ∀ {s₁ : State H} {n : Nat} {ops : FsType} {fOps : FileOps}, s₁.vnodes = s.vnodes →
      (ops = .tmpfs → ∀ i, (s₁.nodes n).children i = none) →
        ((setupRoot s₁ m n ops fOps).2 ≠ 0 ∧ (setupRoot s₁ m n ops fOps).1.vnodes = s.vnodes) ∨
          (setupRoot s₁ m n ops fOps).2 = 0 ∧ ∃ v n', RootWritten s (setupRoot s₁ m n ops fOps).1 m v n' ops := by
    intro s₁ n ops fOps vnodes bare
    refine (setupRoot_writes s₁ m n ops fOps bare).imp (fun failed => ⟨failed.1, failed.2.trans vnodes⟩) ?_
    rintro ⟨success, v, written⟩
    exact ⟨success, v, n, { written with others := fun x other => (written.others x other).trans (congrFun vnodes x) }⟩
  cases fs with
  | tmpfs =>
      obtain ⟨vnodes, _, bare⟩ := tmpfsCreateInternalNode_writes s ['/'] .directory none
      unfold FsType.setupMount tmpfsSetupMount
      generalize tmpfsCreateInternalNode s ['/'] .directory none = created at *
      obtain ⟨s₁, node⟩ := created
      cases node with
      | none => exact Or.inl ⟨(by decide : enomem ≠ 0), vnodes⟩
      | some n => exact set vnodes fun _ => (bare n rfl).children
  | initramfs =>
      unfold FsType.setupMount initramfsSetupMount
      cases allocated : (s.alloc nodeSize).2 with
      | none =>
          rw [alloc_eq allocated]
          exact Or.inl ⟨(by decide : enomem ≠ 0), rfl⟩
      | some n =>
          rw [alloc_eq allocated]
          exact set rfl nofun

theorem setupRoot_rootfs (s : State H) (m n : Nat) (ops : FsType) (fOps : FileOps) :
    (setupRoot s m n ops fOps).1.rootfs = s.rootfs := by
  unfold setupRoot
  cases allocated : (s.alloc vnodeSize).2 with
  | none =>
      rw [alloc_eq allocated]
      rfl
  | some v =>
      rw [alloc_eq allocated]
      rfl

theorem setupMount_rootfs (fs : FsType) (s : State H) (m : Nat) :
    (fs.setupMount s m).1.rootfs = s.rootfs := by
  cases fs with
  | tmpfs =>
      unfold FsType.setupMount tmpfsSetupMount tmpfsCreateInternalNode
      cases allocated : (s.alloc nodeSize).2 with
      | none =>
          rw [alloc_eq allocated]
          rfl
      | some n =>
          rw [alloc_eq allocated]
          exact setupRoot_rootfs ..
  | initramfs =>
      unfold FsType.setupMount initramfsSetupMount
      cases allocated : (s.alloc nodeSize).2 with
      | none =>
          rw [alloc_eq allocated]
          rfl
      | some n =>
          rw [alloc_eq allocated]
          exact setupRoot_rootfs ..

theorem mountOnto_rootsBare {fsToMount : Filesystem} (mounted : mountOnto s t fsToMount = some (s', result)) :
    RootsBare s.toGraph s'.toGraph fun ops => ops = fsToMount.setupMount := by
  unfold mountOnto at mounted
  cases allocated : (s.alloc mountSize).2 with
  | none =>
      rw [alloc_eq allocated] at mounted
      cases mounted
      exact rootsBare_of_mounts fun _ => rfl
  | some m =>
      rw [alloc_eq allocated] at mounted
      dsimp only at mounted
      generalize written : ((s.alloc mountSize).1.setMount m ⟨none⟩).setVnode t _ = s₁ at mounted
      have mountNull : s₁.mounts m = ⟨none⟩ := by
        rw [← written]
        exact setMount_self _
      have atTarget : (s₁.vnodes t).mount = some m := by
        rw [← written]
        exact congrArg Vnode.mount (setVnode_self _)
      have others : ∀ x, x ≠ t → s₁.vnodes x = s.vnodes x := by
        intro x other
        rw [← written]
        exact setVnode_of_ne _ other
      split at mounted
      · cases mounted
        intro t' m' k clear mount root
        by_cases here : t' = t
        · subst here
          cases atTarget.symm.trans mount
          cases (congrArg Mount.root mountNull).symm.trans root
        · cases ((congrArg Vnode.mount (others t' here)).trans clear).symm.trans mount
      · next fs known =>
          have outcome := setupMount_writes fs s₁ m
          generalize fs.setupMount s₁ m = after at *
          obtain ⟨s₂, r⟩ := after
          dsimp only at outcome mounted
          rcases outcome with ⟨failed, vnodes⟩ | ⟨rfl, v, n, set⟩
          · rw [if_pos failed] at mounted
            have final : _ = s' := congrArg Prod.fst (Option.some.inj mounted)
            intro t' m' k clear mount
            by_cases here : t' = t
            · subst here
              have dropped : (s'.vnodes t').mount = none := by
                rw [← final]
                exact congrArg Vnode.mount (setVnode_self _)
              cases dropped.symm.trans mount
            · have same : s'.vnodes t' = s.vnodes t' := by
                rw [← final]
                exact ((setVnode_of_ne _ here).trans (congrFun vnodes t')).trans (others t' here)
              cases ((congrArg Vnode.mount same).trans clear).symm.trans mount
          · rw [if_neg (not_not_intro rfl), Option.bind_eq_bind, set.root, Option.bind_some] at mounted
            have final : _ = s' := congrArg Prod.fst (Option.some.inj mounted)
            have atRoot : s'.vnodes v = { s₂.vnodes v with parent := some t } := by
              rw [← final]
              exact setVnode_self _
            have atOthers : ∀ x, x ≠ v → s'.vnodes x = s₁.vnodes x := by
              intro x other
              rw [← final]
              exact (setVnode_of_ne _ other).trans (set.others x other)
            have mounts : s'.mounts = s₂.mounts := by
              rw [← final]
              rfl
            have nodes : s'.nodes = s₂.nodes := by
              rw [← final]
              rfl
            intro t' m' k clear mount root
            by_cases new : t' = v
            · subst new
              rw [atRoot] at mount
              cases set.clear.symm.trans mount
            · rw [atOthers t' new] at mount
              by_cases here : t' = t
              · subst here
                cases atTarget.symm.trans mount
                rw [mounts, set.root] at root
                cases root
                rw [atRoot, nodes, known]
                refine ⟨set.hasOps, fun isTmpfs => ⟨n, set.internal, set.bare ?_⟩⟩
                exact Option.some.inj (set.hasOps.symm.trans isTmpfs)
              · rw [others t' here, clear] at mount
                cases mount

theorem vfsMount_rootsBare (mounted : vfsMount s cwd targetPathname filesystemName = some (s', result)) :
    RootsBare s.toGraph s'.toGraph fun ops => ∃ fs,
      s.filesystems.find? (fun fs => fs.name = filesystemName) = some fs ∧ ops = fs.setupMount := by
  unfold vfsMount at mounted
  split at mounted
  · cases mounted
    exact rootsBare_of_mounts fun _ => rfl
  · next fsToMount found =>
    obtain ⟨⟨s₁, lookupResult, target⟩, looked, rest⟩ := Option.bind_eq_some_iff.mp mounted
    rw [← vfsLookup_graph looked]
    dsimp only at rest
    split at rest
    · cases rest
      exact rootsBare_of_mounts fun _ => rfl
    · obtain ⟨v, _, rest⟩ := Option.bind_eq_some_iff.mp rest
      split at rest
      · cases rest
        exact rootsBare_of_mounts fun _ => rfl
      · split at rest
        · cases rest
          exact rootsBare_of_mounts fun _ => rfl
        · exact (mountOnto_rootsBare rest).mono fun ops same => ⟨fsToMount, found, same⟩

end Mounting

end OsdiKernel.Fs
