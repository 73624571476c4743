import OsdiKernel.Fs.Invariant

/-!
# The operations on paths

Each operation that fails leaves the tree as it is.  One that succeeds adds a
child to the directory that its path names, or mounts a root on a vnode.
-/

namespace OsdiKernel.Fs

open Allocator (Holds)

variable {H : Type} [Allocator H]

/-! ## The parent directory -/

/-- The path that is looked up for the parent, given the last slash. -/
def parentPath (pathname : Name) (lastSlashIndex : Nat) : Name :=
  if lastSlashIndex = 0 then ['/'] else pathname.take lastSlashIndex

/-- The directory in which the last component of a path is created. -/
def ParentOf (g : Graph) (root : Nat) (cwd : Option Nat) (pathname : Name) (d : Nat) : Prop :=
  match lastSlash pathname with
  | none => cwd = some d ∨ cwd = none ∧ d = root
  | some i => resolve g cwd (parentPath pathname i) = some (0, some d)

section Parent

variable {s s' : State H} {root : Nat} {V : Set Nat} {live : List Nat}
  {cwd target : Option Nat} {pathname : Name} {result : Int}

theorem lookupParent_eq (s : State H) (cwd : Option Nat) (pathname : Name) (i : Nat) :
    lookupParent s cwd pathname i = vfsLookup s cwd (parentPath pathname i) := by
  unfold lookupParent parentPath
  split <;> rfl

theorem ParentOf.proper {g : Graph} {d : Nat} (tree : Tree g root V) (ok : CwdOk g V cwd)
    (parent : ParentOf g root cwd pathname d) : d ∈ V ∧ Proper g d := by
  unfold ParentOf at parent
  split at parent
  · rcases parent with isCwd | ⟨_, rfl⟩
    · exact ok d isCwd
    · exact ⟨tree.root_mem, proper_of_clear tree.rootMount⟩
  · obtain ⟨v, _, _, isSome, inTree, proper, _⟩ := resolve_located tree ok parent
    cases isSome
    exact ⟨inTree, proper⟩

/-- What the lookup of a parent directory returns. -/
structure ParentFound (s s' : State H) (root : Nat) (live : List Nat) (cwd : Option Nat)
    (pathname : Name) (result : Int) (target : Option Nat) : Prop where
  looked : Looked s s' live
  parent : result = 0 → ∃ d, target = some d ∧ ParentOf s.toGraph root cwd pathname d

theorem lookupParent_spec {i : Nat} (tree : Tree s.toGraph root V) (holds : Holds s.heap live)
    (ok : CwdOk s.toGraph V cwd) (slash : lastSlash pathname = some i)
    (found : lookupParent s cwd pathname i = some (s', result, target)) :
    ParentFound s s' root live cwd pathname result target := by
  rw [lookupParent_eq] at found
  obtain ⟨looked, outcome⟩ := vfsLookup_looked holds found
  refine ⟨looked, ?_⟩
  rintro rfl
  rcases outcome with failed | resolved
  · cases failed
  · obtain ⟨v, _, _, rfl, _⟩ := resolve_located tree ok resolved
    refine ⟨v, rfl, ?_⟩
    unfold ParentOf
    rw [slash]
    exact resolved

theorem mkdirParent_spec (tree : Tree s.toGraph root V) (holds : Holds s.heap live)
    (ok : CwdOk s.toGraph V cwd) (found : mkdirParent s cwd pathname = some (s', result, target)) :
    ParentFound s s' root live cwd pathname result target := by
  unfold mkdirParent at found
  cases slash : lastSlash pathname with
  | some i =>
      rw [slash] at found
      exact lookupParent_spec tree holds ok slash found
  | none =>
      rw [slash] at found
      dsimp only at found
      cases cwd with
      | none =>
          cases found
          exact ⟨.refl holds, fun impossible => by cases impossible⟩
      | some v =>
          cases found
          refine ⟨.refl holds, fun _ => ⟨v, rfl, ?_⟩⟩
          unfold ParentOf
          rw [slash]
          exact Or.inl rfl

theorem openParent_spec (tree : Tree s.toGraph root V) (holds : Holds s.heap live)
    (ok : CwdOk s.toGraph V cwd) (found : openParent s cwd pathname = some (s', result, target)) :
    ParentFound s s' root live cwd pathname result target := by
  unfold openParent at found
  cases slash : lastSlash pathname with
  | some i =>
      rw [slash] at found
      exact lookupParent_spec tree holds ok slash found
  | none =>
      rw [slash] at found
      dsimp only at found
      have parent : ∀ d, (cwd = some d ∨ cwd = none ∧ d = root) →
          ParentOf s.toGraph root cwd pathname d := by
        intro d isParent
        unfold ParentOf
        rw [slash]
        exact isParent
      cases cwd with
      | none =>
          rw [tree.rootVnode] at found
          cases found
          exact ⟨.refl holds, fun _ => ⟨root, rfl, parent root (Or.inr ⟨rfl, rfl⟩)⟩⟩
      | some v =>
          cases found
          exact ⟨.refl holds, fun _ => ⟨v, rfl, parent v (Or.inl rfl)⟩⟩

end Parent

/-! ## Creation -/

/-- A directory with room for a child of a name that it does not have. -/
structure Creatable (g : Graph) (d : Nat) (name : Name) : Prop where
  directory : ∃ nd, (g.vnodes d).internal = some nd ∧ (g.nodes nd).type = .directory ∧
    findChild g (g.nodes nd) name = some none ∧ (g.nodes nd).numChildren < maxChildren
  nonempty : name ≠ []
  short : name.length < maxFileName

/-- A new child `w` of a directory `d` that had none of this name. -/
structure NewChild (g g' : Graph) (V : Set Nat) (live new : List Nat) (d w : Nat) (name : Name)
    (type : Tmpfs.NodeType) : Prop where
  created : ∃ n, n ∈ new ∧ Created g g' V d w n name ∧ (g'.nodes n).type = type
  proper : Proper g d
  creatable : Creatable g d name
  fresh : w ∉ live
  vnode : w ∈ new

/-- The result of `create` or `mkdir` of a directory, in a graph `g`. -/
inductive CreateResult (g : Graph) (s' : State H) (V : Set Nat) (live : List Nat) (d : Nat)
    (name : Name) (type : Tmpfs.NodeType) : Int → Option Nat → Prop
  | failed {result : Int} {target : Option Nat} (nonzero : result ≠ 0)
      (agree : Agree g s'.toGraph V) (holds : Holds s'.heap live) :
      CreateResult g s' V live d name type result target
  | made {w : Nat} {new : List Nat} (child : NewChild g s'.toGraph V live new d w name type)
      (holds : Holds s'.heap (new ++ live)) : CreateResult g s' V live d name type 0 (some w)

section Create

variable {s s' : State H} {g : Graph} {root d : Nat} {V : Set Nat} {live : List Nat}
  {target target' : Option Nat} {name : Name} {type : Tmpfs.NodeType} {result : Int}

/-- A path copy that is released afterwards plays no part. -/
theorem CreateResult.release {pathCopy : Nat}
    (outcome : CreateResult g s' V (pathCopy :: live) d name type result target) :
    CreateResult g (s'.free pathCopy) V live d name type result target := by
  cases outcome with
  | failed nonzero agree holds => exact .failed nonzero agree (free_head holds)
  | made child holds =>
      exact .made { child with fresh := fun member => child.fresh (List.mem_cons_of_mem _ member) }
        (free_later holds)

theorem tmpfsCreateOrMkdir_result (tree : Tree s.toGraph root V) (holds : Holds s.heap live)
    (used : InUse s.toGraph V live) (member : d ∈ V) (proper : Proper s.toGraph d)
    (made : tmpfsCreateOrMkdir s d target name type = some (s', result, target')) :
    CreateResult s.toGraph s' V live d name type result target' ∧ s'.filesystems = s.filesystems := by
  rcases tmpfsCreateOrMkdir_spec holds (used.nodes member) made with
    ⟨nonzero, untouched, held⟩ | ⟨rfl, nd, w, n, rfl, entered⟩
  · exact ⟨.failed nonzero (untouched.agree used) held, untouched.filesystems⟩
  · obtain ⟨new, vnode, node, held⟩ := entered.holds
    obtain ⟨_, _, atNode⟩ := entered.node used member
    have isType : (s'.nodes n).type = type := by rw [atNode]
    exact ⟨.made ⟨⟨n, node, entered.created tree used member, isType⟩, proper,
      ⟨⟨nd, entered.internal, entered.directory, entered.absent, entered.room.2⟩, entered.nonempty,
        entered.short⟩, entered.freshVnode, vnode⟩ held, entered.filesystems⟩

theorem mkdir_result (tree : Tree s.toGraph root V) (holds : Holds s.heap live)
    (used : InUse s.toGraph V live) (member : d ∈ V) (proper : Proper s.toGraph d) (ops : FsType)
    (made : ops.mkdir s d target name = some (s', result, target')) :
    CreateResult s.toGraph s' V live d name .directory result target' ∧ s'.filesystems = s.filesystems := by
  cases ops with
  | tmpfs => exact tmpfsCreateOrMkdir_result tree holds used member proper made
  | initramfs =>
      cases made
      exact ⟨.failed (by decide) (.refl _ _) holds, rfl⟩

theorem create_result (tree : Tree s.toGraph root V) (holds : Holds s.heap live)
    (used : InUse s.toGraph V live) (member : d ∈ V) (proper : Proper s.toGraph d) (ops : FsType)
    (made : ops.create s d target name = some (s', result, target')) :
    CreateResult s.toGraph s' V live d name .file result target' ∧ s'.filesystems = s.filesystems := by
  cases ops with
  | tmpfs => exact tmpfsCreateOrMkdir_result tree holds used member proper made
  | initramfs =>
      cases made
      exact ⟨.failed (by decide) (.refl _ _) holds, rfl⟩

end Create

/-! ## Directories -/

section Mkdir

variable {s s' : State H} {root : Nat} {V : Set Nat} {live : List Nat}
  {cwd target : Option Nat} {pathname : Name} {result : Int}

/-- What an operation that may create the last component of a path has done. -/
def Creates (g : Graph) (s' : State H) (root : Nat) (V : Set Nat) (live : List Nat)
    (cwd : Option Nat) (pathname : Name) (result : Int) (target : Option Nat) : Prop :=
  (result ≠ 0 ∧ Agree g s'.toGraph V ∧ Holds s'.heap live) ∨
    ∃ d, ParentOf g root cwd pathname d ∧
      CreateResult g s' V live d (baseName pathname) .directory result target

theorem vfsMkdir_spec (inv : Inv s root V live) (ok : CwdOk s.toGraph V cwd)
    (made : vfsMkdir s cwd pathname = some (s', result, target)) :
    Creates s.toGraph s' root V live cwd pathname result target ∧
      s'.filesystems = s.filesystems := by
  unfold vfsMkdir at made
  cases copied : (s.alloc (pathname.length + 1)).2 with
  | none =>
      rw [alloc_eq copied] at made
      cases made
      exact ⟨Or.inl ⟨by decide, .refl _ _, alloc_none inv.holds copied⟩, rfl⟩
  | some pathCopy =>
      rw [alloc_eq copied] at made
      have held := (alloc_some inv.holds copied).2
      have used := inv.used.mono (List.subset_cons_self pathCopy live)
      have graph := alloc_toGraph s (pathname.length + 1)
      have systems := alloc_filesystems s (pathname.length + 1)
      generalize (s.alloc (pathname.length + 1)).1 = s₁ at *
      obtain ⟨⟨s₂, found, parent⟩, looked, rest⟩ := Option.bind_eq_some_iff.mp made
      rw [← graph] at ok used ⊢
      rw [← systems]
      have tree : Tree s₁.toGraph root V := graph ▸ inv.tree
      obtain ⟨⟨graph', _, systems', held'⟩, located⟩ := mkdirParent_spec tree held ok looked
      have stays : ∀ {r : Int}, r ≠ 0 →
          Creates s₁.toGraph (s₂.free pathCopy) root V live cwd pathname r none := by
        intro r nonzero
        refine Or.inl ⟨nonzero, ?_, free_head held'⟩
        rw [free_toGraph, graph']
        exact .refl _ _
      dsimp only at rest
      split at rest
      · next failed =>
          cases rest
          exact ⟨stays failed, systems'⟩
      · next success =>
          obtain ⟨d, rfl, isParent⟩ := located (not_not.mp success)
          obtain ⟨member, proper⟩ := isParent.proper tree ok
          split at rest
          · cases rest
            exact ⟨stays (by decide), systems'⟩
          · dsimp only at rest
            split at rest
            · cases rest
              exact ⟨stays (by decide), systems'⟩
            · next ops _ =>
                obtain ⟨⟨s₃, r, w⟩, added, same⟩ := Option.bind_eq_some_iff.mp rest
                cases same
                rw [← graph'] at tree used proper
                obtain ⟨outcome, systems''⟩ := mkdir_result tree held' used member proper ops added
                rw [graph'] at outcome
                exact ⟨Or.inr ⟨d, isParent, outcome.release⟩, systems''.trans systems'⟩

end Mkdir

/-! ## Files -/

section Open

variable {s s' : State H} {root : Nat} {V : Set Nat} {live : List Nat}
  {cwd target vnode : Option Nat} {pathname : Name} {result : Int} {flags : Nat}

theorem Inv.looked (inv : Inv s root V live) (looked : Looked s s' live) : Inv s' root V live where
  tree := looked.graph.symm ▸ inv.tree
  holds := looked.holds
  used := looked.graph.symm ▸ inv.used

/-- What the part of `vfs_open` that creates the file has done. -/
def OpenCreated (g : Graph) (s' : State H) (root : Nat) (V : Set Nat) (live : List Nat)
    (cwd : Option Nat) (pathname : Name) : Except Int (Int × Option Nat) → Prop
  | .error result => result ≠ 0 ∧ Agree g s'.toGraph V ∧ Holds s'.heap live
  | .ok (result, target) => ∃ d, ParentOf g root cwd pathname d ∧
      CreateResult g s' V live d (baseName pathname) .file result target

theorem openCreate_spec (inv : Inv s root V live) (ok : CwdOk s.toGraph V cwd)
    {outcome : Except Int (Int × Option Nat)}
    (made : openCreate s cwd pathname vnode = some (s', outcome)) :
    OpenCreated s.toGraph s' root V live cwd pathname outcome ∧
      s'.filesystems = s.filesystems := by
  unfold openCreate at made
  cases copied : (s.alloc (pathname.length + 1)).2 with
  | none =>
      rw [alloc_eq copied] at made
      cases made
      exact ⟨⟨by decide, .refl _ _, alloc_none inv.holds copied⟩, rfl⟩
  | some pathCopy =>
      rw [alloc_eq copied] at made
      have held := (alloc_some inv.holds copied).2
      have used := inv.used.mono (List.subset_cons_self pathCopy live)
      have graph := alloc_toGraph s (pathname.length + 1)
      have systems := alloc_filesystems s (pathname.length + 1)
      generalize (s.alloc (pathname.length + 1)).1 = s₁ at *
      obtain ⟨⟨s₂, found, parent⟩, looked, rest⟩ := Option.bind_eq_some_iff.mp made
      rw [← graph] at ok used ⊢
      rw [← systems]
      have tree : Tree s₁.toGraph root V := graph ▸ inv.tree
      obtain ⟨⟨graph', _, systems', held'⟩, located⟩ := openParent_spec tree held ok looked
      have stays : ∀ {r : Int}, r ≠ 0 →
          OpenCreated s₁.toGraph (s₂.free pathCopy) root V live cwd pathname (.error r) := by
        intro r nonzero
        refine ⟨nonzero, ?_, free_head held'⟩
        rw [free_toGraph, graph']
        exact .refl _ _
      dsimp only at rest
      split at rest
      · next failed =>
          cases rest
          exact ⟨stays failed, systems'⟩
      · next success =>
          obtain ⟨d, rfl, isParent⟩ := located (not_not.mp success)
          obtain ⟨member, proper⟩ := isParent.proper tree ok
          dsimp only at rest
          split at rest
          · cases rest
            exact ⟨stays (by decide), systems'⟩
          · next ops _ =>
              obtain ⟨⟨s₃, r, w⟩, added, same⟩ := Option.bind_eq_some_iff.mp rest
              cases same
              rw [← graph'] at tree used proper
              obtain ⟨outcome, systems''⟩ := create_result tree held' used member proper ops added
              rw [graph'] at outcome
              exact ⟨⟨d, isParent, outcome.release⟩, systems''.trans systems'⟩

/-- The pointers in use after a file was opened, or was not. -/
structure Opened (s' : State H) (live : List Nat) (result : Int) (target : Option Nat) : Prop where
  failed : result ≠ 0 → ∃ leaked, Holds s'.heap (leaked ++ live)
  opened : result = 0 → ∃ f leaked, target = some f ∧ Holds s'.heap (f :: (leaked ++ live))

theorem Opened.success {f : Nat} {leaked : List Nat} (holds : Holds s'.heap (f :: (leaked ++ live))) :
    Opened s' live 0 (some f) :=
  ⟨fun nonzero => absurd rfl nonzero, fun _ => ⟨f, leaked, rfl, holds⟩⟩

theorem Opened.failure (leaked : List Nat) (nonzero : result ≠ 0)
    (holds : Holds s'.heap (leaked ++ live)) : Opened s' live result target :=
  ⟨fun _ => ⟨leaked, holds⟩, fun zero => absurd zero nonzero⟩

/-- The outcome of the function `open` of a vnode, given the file that was allocated for it. -/
structure OpenStep (s s' : State H) (live : List Nat) (target : Option Nat) (result : Int)
    (target' : Option Nat) : Prop where
  graph : s'.toGraph = s.toGraph
  filesystems : s'.filesystems = s.filesystems
  failed : result ≠ 0 → target' = none ∧ Holds s'.heap (target.toList ++ live)
  opened : result = 0 → ∃ f leaked, target' = some f ∧ Holds s'.heap (f :: (leaked ++ live))

theorem openNode_step (fileNode : Nat) (holds : Holds s.heap (target.toList ++ live)) :
    OpenStep s (openNode s fileNode target).1 live target (openNode s fileNode target).2.1
      (openNode s fileNode target).2.2 := by
  cases target with
  | none => exact ⟨rfl, rfl, fun _ => ⟨rfl, holds⟩, fun impossible => by cases impossible⟩
  | some f => exact ⟨rfl, rfl, fun nonzero => absurd rfl nonzero, fun _ => ⟨f, [], rfl, holds⟩⟩

theorem openDevice_step (fileNode : Nat) (device : FileOps)
    (holds : Holds s.heap (target.toList ++ live)) :
    OpenStep s (openDevice s fileNode device).1 live target (openDevice s fileNode device).2.1
      (openDevice s fileNode device).2.2 := by
  unfold openDevice
  cases allocated : (s.alloc fileSize).2 with
  | none =>
      rw [alloc_eq allocated]
      exact ⟨rfl, rfl, fun _ => ⟨rfl, alloc_none holds allocated⟩,
        fun impossible => by cases impossible⟩
  | some f =>
      rw [alloc_eq allocated]
      exact ⟨rfl, rfl, fun nonzero => absurd rfl nonzero,
        fun _ => ⟨f, target.toList, rfl, (alloc_some holds allocated).2⟩⟩

theorem open_step (ops : FileOps) (fileNode : Nat) (holds : Holds s.heap (target.toList ++ live)) :
    OpenStep s (ops.open s fileNode target).1 live target (ops.open s fileNode target).2.1
      (ops.open s fileNode target).2.2 := by
  cases ops with
  | tmpfs => exact openNode_step fileNode holds
  | initramfs => exact openNode_step fileNode holds
  | uart => exact openDevice_step fileNode .uart holds
  | framebuffer => exact openDevice_step fileNode .framebuffer holds

theorem openVnode_spec (holds : Holds s.heap live)
    (opened : openVnode s vnode flags = some (s', result, target)) :
    s'.toGraph = s.toGraph ∧ s'.filesystems = s.filesystems ∧ Opened s' live result target := by
  have held := alloc_holds holds fileSize
  have graph := alloc_toGraph s fileSize
  have systems := alloc_filesystems s fileSize
  unfold openVnode at opened
  generalize s.alloc fileSize = allocated at *
  obtain ⟨s₀, file⟩ := allocated
  dsimp only at held graph systems opened
  obtain ⟨v, _, rest⟩ := Option.bind_eq_some_iff.mp opened
  obtain ⟨ops, _, rest⟩ := Option.bind_eq_some_iff.mp rest
  have stepped := open_step ops v held
  generalize ops.open s₀ v file = after at *
  obtain ⟨s₁, r, file'⟩ := after
  dsimp only at stepped rest
  rw [← graph, ← systems]
  split at rest
  · next nonzero =>
      cases rest
      obtain ⟨rfl, held'⟩ := stepped.failed nonzero
      exact ⟨stepped.graph, stepped.filesystems, .failure _ nonzero held'⟩
  · next success =>
      obtain ⟨f, leaked, rfl, held'⟩ := stepped.opened (not_not.mp success)
      cases rest
      exact ⟨stepped.graph, stepped.filesystems, .success held'⟩

/-- What `vfs_open` has done to the tree and the heap. -/
def Opens (g : Graph) (s' : State H) (root : Nat) (V : Set Nat) (live : List Nat)
    (cwd : Option Nat) (pathname : Name) (flags : Nat) (result : Int) (target : Option Nat) : Prop :=
  (Agree g s'.toGraph V ∧ Opened s' live result target) ∨
    flags &&& oCreat ≠ 0 ∧ ∃ d w new, ParentOf g root cwd pathname d ∧
      NewChild g s'.toGraph V live new d w (baseName pathname) .file ∧
        Opened s' (new ++ live) result target

theorem vfsOpen_spec (inv : Inv s root V live) (ok : CwdOk s.toGraph V cwd)
    (opened : vfsOpen s cwd pathname flags = some (s', result, target)) :
    Opens s.toGraph s' root V live cwd pathname flags result target ∧
      s'.filesystems = s.filesystems := by
  unfold vfsOpen at opened
  obtain ⟨⟨s₁, lookupResult, v⟩, found, rest⟩ := Option.bind_eq_some_iff.mp opened
  obtain ⟨looked, _⟩ := vfsLookup_looked inv.holds found
  have inv₁ := inv.looked looked
  have graph := looked.graph
  rw [← graph] at ok ⊢
  rw [← looked.filesystems]
  dsimp only at rest
  split at rest
  · next failed =>
      split at rest
      · next creates =>
          obtain ⟨⟨s₂, outcome⟩, created, rest⟩ := Option.bind_eq_some_iff.mp rest
          obtain ⟨made, systems⟩ := openCreate_spec inv₁ ok created
          cases outcome with
          | error r =>
              cases rest
              obtain ⟨nonzero, agree, holds⟩ := made
              exact ⟨Or.inl ⟨agree, .failure [] nonzero holds⟩, systems⟩
          | ok pair =>
              obtain ⟨r, w⟩ := pair
              obtain ⟨d, isParent, outcome⟩ := made
              cases outcome with
              | failed nonzero agree holds =>
                  obtain ⟨graph', systems', held⟩ := openVnode_spec holds rest
                  refine ⟨Or.inl ⟨?_, held⟩, systems'.trans systems⟩
                  rw [graph']
                  exact agree
              | @made w new child holds =>
                  obtain ⟨graph', systems', held⟩ := openVnode_spec holds rest
                  refine ⟨Or.inr ⟨creates, d, w, new, isParent, ?_, held⟩, systems'.trans systems⟩
                  rw [graph']
                  exact child
      · cases rest
        exact ⟨Or.inl ⟨.refl _ _, .failure [] failed looked.holds⟩, rfl⟩
  · obtain ⟨graph', systems', held⟩ := openVnode_spec looked.holds rest
    refine ⟨Or.inl ⟨?_, held⟩, systems'⟩
    rw [graph']
    exact .refl _ _

end Open

/-! ## Devices -/

section Mknod

variable {s s' : State H} {root : Nat} {V : Set Nat} {live : List Nat} {cwd : Option Nat}
  {pathname : Name} {result : Int} {fOps : FileOps}

/-- Closing a file that is in use. -/
theorem vfsClose_spec {f : Nat} (holds : Holds s.heap (f :: live)) :
    (vfsClose s f).1.toGraph = s.toGraph ∧ (vfsClose s f).1.filesystems = s.filesystems ∧
      ∃ kept, Holds (vfsClose s f).1.heap (kept ++ live) := by
  have released : Holds (s.free f).heap ([] ++ live) := free_head holds
  unfold vfsClose
  cases (s.files f).fOps with
  | none => exact ⟨rfl, rfl, [f], holds⟩
  | some ops =>
      cases ops with
      | tmpfs => exact ⟨rfl, rfl, [f], holds⟩
      | initramfs => exact ⟨rfl, rfl, [f], holds⟩
      | uart => exact ⟨rfl, rfl, [], released⟩
      | framebuffer => exact ⟨rfl, rfl, [], released⟩

omit [Allocator H] in
/-- The file operations of a vnode are none of its links. -/
theorem agree_setFOps (g : Graph) (V : Set Nat) (v : Nat) (fOps : FileOps) :
    Agree g (g.setVnode v { g.vnodes v with fOps := some fOps }) V := by
  have links : ∀ x, (g.setVnode v { g.vnodes v with fOps := some fOps }).vnodes x =
      { g.vnodes x with fOps := if x = v then some fOps else (g.vnodes x).fOps } := by
    intro x
    by_cases here : x = v
    · rw [here, setVnode_self, if_pos rfl]
    · rw [setVnode_of_ne _ here, if_neg here]
  constructor
  · constructor
    · rfl
    · rfl
    · intro x _
      rw [links]
    · intro x _
      rw [links]
    · intro x _
      rw [links]
    · intro x _
      rw [links]
    · intro x m _ mount
      rw [links]
      exact ⟨mount, rfl⟩
    · exact fun _ _ => ⟨rfl, rfl⟩
  · intro x _
    rw [links]
  · exact fun _ _ => ⟨rfl, rfl⟩

omit [Allocator H] in
theorem NewChild.agree {g g' g'' : Graph} {new : List Nat} {d w : Nat} {name : Name}
    {type : Tmpfs.NodeType} (child : NewChild g g' V live new d w name type)
    (agree : Agree g' g'' (insert w V)) : NewChild g g'' V live new d w name type := by
  obtain ⟨n, node, created, isType⟩ := child.created
  have label := agree.label (Set.mem_insert w V) created.internalNew
  exact { child with created := ⟨n, node, created.agree agree, label.2.trans isType⟩ }

/-- What `vfs_mknod` has done to the tree and the heap. -/
def Mknods (g : Graph) (s' : State H) (root : Nat) (V : Set Nat) (live : List Nat)
    (cwd : Option Nat) (pathname : Name) : Prop :=
  (Agree g s'.toGraph V ∧ ∃ kept, Holds s'.heap (kept ++ live)) ∨
    ∃ d w new, ParentOf g root cwd pathname d ∧
      NewChild g s'.toGraph V live new d w (baseName pathname) .file ∧
        ∃ kept, Holds s'.heap (kept ++ (new ++ live))

theorem vfsMknod_spec (inv : Inv s root V live) (ok : CwdOk s.toGraph V cwd)
    (made : vfsMknod s cwd pathname fOps = some (s', result)) :
    Mknods s.toGraph s' root V live cwd pathname ∧ s'.filesystems = s.filesystems := by
  unfold vfsMknod at made
  obtain ⟨⟨s₁, r, dev⟩, opened, rest⟩ := Option.bind_eq_some_iff.mp made
  obtain ⟨opens, systems⟩ := vfsOpen_spec inv ok opened
  dsimp only at rest
  split at rest
  · next failed =>
      cases rest
      refine ⟨?_, systems⟩
      rcases opens with ⟨agree, opened⟩ | ⟨_, d, w, new, parent, child, opened⟩
      · exact Or.inl ⟨agree, opened.failed failed⟩
      · exact Or.inr ⟨d, w, new, parent, child, opened.failed failed⟩
  · next success =>
      obtain ⟨f, rfl, later⟩ := Option.bind_eq_some_iff.mp rest
      obtain ⟨v, _, last⟩ := Option.bind_eq_some_iff.mp later
      have closes := Option.some.inj last
      have agree := fun W => agree_setFOps s₁.toGraph W v fOps
      generalize marked : s₁.setVnode v { s₁.vnodes v with fOps := some fOps } = s₂ at closes
      have graph : s₂.toGraph =
          s₁.toGraph.setVnode v { s₁.vnodes v with fOps := some fOps } := by
        rw [← marked]
        rfl
      have heap : s₂.heap = s₁.heap := by
        rw [← marked]
        rfl
      have systems' : s₂.filesystems = s₁.filesystems := by
        rw [← marked]
        rfl
      rw [← graph] at agree
      have closed : ∀ {live : List Nat}, Opened s₁ live r (some f) →
          s'.toGraph = s₂.toGraph ∧ s'.filesystems = s₂.filesystems ∧
            ∃ kept, Holds s'.heap (kept ++ live) := by
        intro live opened
        obtain ⟨f', leaked, same, holds⟩ := opened.opened (not_not.mp success)
        cases same
        rw [← heap] at holds
        obtain ⟨graph', systems'', kept, held⟩ := vfsClose_spec holds
        rw [closes] at graph' systems'' held
        exact ⟨graph', systems'', kept ++ leaked, by rwa [List.append_assoc]⟩
      rcases opens with ⟨same, opened⟩ | ⟨_, d, w, new, parent, child, opened⟩
      · obtain ⟨graph', systems'', held⟩ := closed opened
        refine ⟨Or.inl ⟨?_, held⟩, systems''.trans (systems'.trans systems)⟩
        rw [graph']
        exact same.trans (agree V)
      · obtain ⟨graph', systems'', held⟩ := closed opened
        refine ⟨Or.inr ⟨d, w, new, parent, ?_, held⟩, systems''.trans (systems'.trans systems)⟩
        rw [graph']
        exact child.agree (agree _)

end Mknod

end OsdiKernel.Fs
