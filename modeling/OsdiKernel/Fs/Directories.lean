import OsdiKernel.Fs.Entries
import OsdiKernel.Fs.Hiding

/-!
# The directories of tmpfs

The children of a directory fill the front of its array, their names differ and
fit into the array for a name, and a file has no children.  The checks of
`tmpfs_create_or_mkdir` and the way in which a path is split keep this for every
path.
-/

namespace OsdiKernel.Fs

open Allocator (Holds)

/-! ## One directory -/

/-- A name of an entry.  It fits into `name[MAX_FILE_NAME]` with its terminating null. -/
structure EntryName (name : Name) : Prop where
  nonempty : name ≠ []
  short : name.length < maxFileName
  noSlash : '/' ∉ name

/-- What holds of a node of tmpfs, as the directory of its children. -/
structure Listing (g : Graph) (n : Nat) : Prop where
  packed : ∀ i, (g.nodes n).numChildren.toNat ≤ i → (g.nodes n).children i = none
  file : (g.nodes n).type ≠ .directory → (g.nodes n).numChildren = 0
  named : ∀ {i c m}, i < (g.nodes n).numChildren.toNat → (g.nodes n).children i = some c →
    (g.vnodes c).internal = some m → EntryName (g.nodes m).name
  distinct : ∀ {i j c c' m m'}, i < j → j < (g.nodes n).numChildren.toNat →
    (g.nodes n).children i = some c → (g.nodes n).children j = some c' →
      (g.vnodes c).internal = some m → (g.vnodes c').internal = some m' →
        (g.nodes m).name ≠ (g.nodes m').name

/-- The directories of tmpfs among the vnodes `V`. -/
def Listings (g : Graph) (V : Set Nat) : Prop :=
  ∀ ⦃v n⦄, v ∈ V → (g.vnodes v).vOps = some .tmpfs → (g.vnodes v).internal = some n → Listing g n

section Listing

variable {g g' : Graph} {root v d w n nd : Nat} {V : Set Nat} {name : Name}

/-- A node without children. -/
theorem listing_of_none (children : ∀ i, (g.nodes n).children i = none)
    (file : (g.nodes n).type ≠ .directory → (g.nodes n).numChildren = 0) : Listing g n where
  packed i _ := children i
  file := file
  named _ child := by
    rw [children] at child
    cases child
  distinct _ _ child := by
    rw [children] at child
    cases child

/-- The same children, with their names. -/
theorem Listing.kept (listing : Listing g n) (tree : Tree g root V) (pre : Preserves g g' V)
    (member : v ∈ V) (internal : (g.vnodes v).internal = some n)
    (count : (g'.nodes n).numChildren = (g.nodes n).numChildren)
    (children : (g'.nodes n).children = (g.nodes n).children) : Listing g' n := by
  have old : ∀ {i c m}, i < (g.nodes n).numChildren.toNat → (g.nodes n).children i = some c →
      (g'.vnodes c).internal = some m →
        (g.vnodes c).internal = some m ∧ (g'.nodes m).name = (g.nodes m).name := by
    intro i c m below child internal'
    obtain ⟨c', inTree, child', _⟩ := tree.child member internal below
    rw [child] at child'
    cases child'
    rw [pre.internal inTree] at internal'
    exact ⟨internal', (pre.label inTree internal').1⟩
  constructor
  · rw [count, children]
    exact listing.packed
  · rw [count, (pre.label member internal).2]
    exact listing.file
  · intro i c m below child internal'
    rw [count] at below
    rw [children] at child
    obtain ⟨internal', same⟩ := old below child internal'
    rw [same]
    exact listing.named below child internal'
  · intro i j c c' m m' before below child child' first second
    rw [count] at below
    rw [children] at child child'
    obtain ⟨first, same⟩ := old (before.trans below) child first
    obtain ⟨second, same'⟩ := old below child' second
    rw [same, same']
    exact listing.distinct before below child child' first second

/-- No child of the directory has a name that was not found. -/
theorem Tree.absent (tree : Tree g root V) (member : d ∈ V)
    (internal : (g.vnodes d).internal = some nd) (absent : findChild g (g.nodes nd) name = some none)
    {i c m : Nat} (below : i < (g.nodes nd).numChildren.toNat)
    (child : (g.nodes nd).children i = some c) (node : (g.vnodes c).internal = some m) :
    (g.nodes m).name ≠ name := by
  obtain ⟨found, result, _, missing⟩ := @searchChildren_spec g _ name _ _ (tree.present member internal)
  have nothing : found = none := Option.some.inj (result.symm.trans absent)
  exact missing nothing i c m (Nat.zero_le i) (by omega) child node

/-- A new last child, after the checks. -/
theorem Listing.pushed (listing : Listing g nd) (tree : Tree g root V)
    (made : Created g g' V d w n name) (internal : (g.vnodes d).internal = some nd)
    (admits : Admits g nd name) (noSlash : '/' ∉ name) : Listing g' nd := by
  obtain ⟨count, children⟩ := made.listed internal
  have nonneg := (tree.count made.dir internal).1
  -- Each child of the new list is the new one, or a child of the old list.
  have cases_ : ∀ {i c m}, i < (g'.nodes nd).numChildren.toNat → (g'.nodes nd).children i = some c →
      (g'.vnodes c).internal = some m →
        i = (g.nodes nd).numChildren.toNat ∧ (g'.nodes m).name = name ∨
          i < (g.nodes nd).numChildren.toNat ∧ (g.nodes nd).children i = some c ∧
            (g.vnodes c).internal = some m ∧ (g'.nodes m).name = (g.nodes m).name := by
    intro i c m below child node
    rw [children] at child
    by_cases last : i = (g.nodes nd).numChildren.toNat
    · subst last
      rw [Function.update_self] at child
      cases child
      rw [made.internalNew] at node
      cases node
      exact Or.inl ⟨rfl, made.nodeName⟩
    · have below' : i < (g.nodes nd).numChildren.toNat := by omega
      rw [Function.update_of_ne last] at child
      obtain ⟨c', inTree, child', _⟩ := tree.child made.dir internal below'
      rw [child] at child'
      cases child'
      rw [made.internal inTree] at node
      exact Or.inr ⟨below', child, node, (made.label inTree node).1⟩
  constructor
  · intro i beyond
    rw [children, Function.update_of_ne (by omega)]
    exact listing.packed i (by omega)
  · intro isFile
    rw [(made.label made.dir internal).2] at isFile
    exact absurd admits.directory isFile
  · intro i c m below child node
    rcases cases_ below child node with ⟨_, same⟩ | ⟨below', child', node', same⟩
    · rw [same]
      exact ⟨admits.nonempty, admits.short, noSlash⟩
    · rw [same]
      exact listing.named below' child' node'
  · intro i j c c' m m' before below child child' first second
    rcases cases_ (before.trans below) child first with ⟨last, _⟩ | ⟨below₁, child₁, first, same₁⟩
    · omega
    · rw [same₁]
      rcases cases_ below child' second with ⟨_, same₂⟩ | ⟨below₂, child₂, second, same₂⟩
      · rw [same₂]
        exact tree.absent made.dir internal admits.absent below₁ child₁ first
      · rw [same₂]
        exact listing.distinct before below₂ child₁ child₂ first second

end Listing

/-! ## All directories -/

section Listings

variable {g g' : Graph} {root d w n t k m : Nat} {V V' : Set Nat} {name : Name}
  {ok : Nat → Name → Prop} {effect : Effect} (listings : Listings g V) (tree : Tree g root V)
include listings tree

theorem Listings.agree (agree : Agree g g' V) : Listings g' V := by
  intro v n member isTmpfs internal
  rw [agree.ops member] at isTmpfs
  rw [agree.internal member] at internal
  obtain ⟨count, children⟩ := agree.children member internal
  exact (listings member isTmpfs internal).kept tree agree.toPreserves member internal count children

theorem Listings.created (made : Created g g' V d w n name) (appends : Appends g g' ok)
    (allowed : (g.vnodes d).vOps = some .tmpfs →
      ∀ nd name, ok nd name → Admits g nd name ∧ '/' ∉ name) : Listings g' (insert w V) := by
  obtain ⟨nd, internalDir⟩ := tree.internal made.dir
  obtain ⟨count, children⟩ := made.listed internalDir
  obtain ⟨w', n', child, internal', empty, allowed'⟩ :=
    appends nd (tree.count made.dir internalDir).1 count
  rw [children, Function.update_self] at child
  cases child
  rw [made.internalNew] at internal'
  cases internal'
  rw [made.nodeName] at allowed'
  intro v n' member isTmpfs internal
  rcases Set.mem_insert_iff.mp member with rfl | member
  · rw [made.internalNew] at internal
    cases internal
    refine listing_of_none (empty.resolve_left ?_) fun _ => made.empty
    rintro rfl
    exact made.newNode made.dir internalDir
  · rw [made.ops member] at isTmpfs
    rw [made.internal member] at internal
    have listing := listings member isTmpfs internal
    by_cases here : v = d
    · subst here
      rw [internal] at internalDir
      cases internalDir
      obtain ⟨admits, noSlash⟩ := allowed isTmpfs _ _ allowed'
      exact listing.pushed tree made internal admits noSlash
    · obtain ⟨count, children⟩ := made.children member here internal
      exact listing.kept tree made.toPreserves member internal count children

theorem Listings.mounted {kind : Option FsType → Prop} (made : Mounted g g' V t k m n)
    (bare : RootsBare g g' kind) :
    Listings g' (insert k V) := by
  intro v n' member isTmpfs internal
  rcases Set.mem_insert_iff.mp member with rfl | member
  · obtain ⟨n'', internal'', children⟩ :=
      (bare t m v made.targetClear made.mountNew made.rootNew).2 isTmpfs
    rw [internal] at internal''
    cases internal''
    rw [made.internalNew] at internal
    cases internal
    exact listing_of_none children fun _ => made.empty
  · rw [made.ops member] at isTmpfs
    rw [made.internal member] at internal
    obtain ⟨count, children⟩ := made.children member internal
    exact (listings member isTmpfs internal).kept tree made.toPreserves member internal count children

/-- What is created is admitted in a directory of tmpfs, and a root that is mounted is bare. -/
theorem Listings.change (change : Change g g' V effect V')
    (creates : ∀ d type, effect = .child d type → ∃ ok, Appends g g' ok ∧
      ((g.vnodes d).vOps = some .tmpfs → ∀ nd name, ok nd name → Admits g nd name ∧ '/' ∉ name))
    (mounts : ∀ t, effect = .mount t → ∃ kind, RootsBare g g' kind) : Listings g' V' := by
  cases change with
  | same agree => exact listings.agree tree agree
  | child made _ =>
      obtain ⟨ok, appends, allowed⟩ := creates _ _ rfl
      exact listings.created tree made appends allowed
  | mount made =>
      obtain ⟨kind, bare⟩ := mounts _ rfl
      exact listings.mounted tree made bare

/-- An operation that creates at most the last component of a path. -/
theorem Listings.grown {cwd : Option Nat} {pathname : Name} {type : Tmpfs.NodeType}
    (change : Change g g' V effect V') (may : MayCreate g root cwd pathname type effect)
    (appends : Appends g g' (Admitted g (baseName pathname))) : Listings g' V' := by
  apply listings.change tree change
  · intro d type _
    refine ⟨_, appends, fun _ nd name admitted => ?_⟩
    obtain ⟨rfl, admits⟩ := admitted
    exact ⟨admits, baseName_noSlash pathname⟩
  · rintro t rfl
    rcases may with impossible | ⟨_, impossible, _⟩ <;> cases impossible

/-- An operation that does nothing to the tree. -/
theorem Listings.quiet (change : Change g g' V effect V') (nothing : Quiet effect) : Listings g' V' := by
  cases nothing
  exact listings.change tree change nofun nofun

/-- An operation that mounts at most one file system. -/
theorem Listings.remounted {kind : Option FsType → Prop} (change : Change g g' V effect V')
    (may : effect = .none ∨ ∃ t, effect = .mount t) (bare : RootsBare g g' kind) : Listings g' V' := by
  apply listings.change tree change
  · rintro d type rfl
    rcases may with impossible | ⟨_, impossible⟩ <;> cases impossible
  · exact fun _ _ => ⟨kind, bare⟩

end Listings

/-! ## The start -/

section Start

variable {H : Type} [Allocator H] {s s' : State H} {root d : Nat} {V : Set Nat} {own others : List Nat}
  {archive : List (Name × Nat)}

/-- The root of the file system has no children yet. -/
theorem vfsInitRoot_bare (made : vfsInitRoot s = some s') (running : s'.rootfs ≠ none) :
    ∃ k, s'.rootVnode = some (some k) ∧ ((s'.vnodes k).vOps = some .tmpfs →
      ∃ n, (s'.vnodes k).internal = some n ∧ ∀ i, (s'.nodes n).children i = none) := by
  unfold vfsInitRoot at made
  obtain ⟨⟨s₁, r⟩, _, rest⟩ := Option.bind_eq_some_iff.mp made
  dsimp only at rest
  cases allocated : (s₁.alloc mountSize).2 with
  | none =>
      rw [alloc_eq allocated] at rest
      cases rest
      exact absurd rfl running
  | some m =>
      rw [alloc_eq allocated] at rest
      dsimp only at rest
      generalize started : ({ (s₁.alloc mountSize).1 with rootfs := some m } : State H) = s₂ at rest
      have isFirst : s₂.rootfs = some m := by rw [← started]
      obtain ⟨fs, _, rest⟩ := Option.bind_eq_some_iff.mp rest
      obtain ⟨setup, _, rest⟩ := Option.bind_eq_some_iff.mp rest
      have outcome := setupMount_writes setup s₂ m
      have rootfs := setupMount_rootfs setup s₂ m
      generalize setup.setupMount s₂ m = after at *
      obtain ⟨s₃, r₃⟩ := after
      dsimp only at outcome rootfs rest
      rcases outcome with ⟨failed, _⟩ | ⟨rfl, v, n, set⟩
      · rw [if_pos failed] at rest
        cases rest
      · rw [if_neg (not_not_intro rfl), Option.bind_eq_bind, set.root, Option.bind_some] at rest
        have final : _ = s' := Option.some.inj rest
        have atRoot : s'.vnodes v = { s₃.vnodes v with parent := none } := by
          rw [← final]
          exact setVnode_self _
        have others : s'.rootfs = s₃.rootfs ∧ s'.mounts = s₃.mounts ∧ s'.nodes = s₃.nodes := by
          rw [← final]
          exact ⟨rfl, rfl, rfl⟩
        refine ⟨v, ?_, fun isTmpfs => ⟨n, ?_, ?_⟩⟩
        · unfold Graph.rootVnode
          rw [others.1, rootfs, isFirst, others.2.1, Option.map_some, set.root]
        · rw [atRoot]
          exact set.internal
        · rw [atRoot] at isTmpfs
          rw [others.2.2]
          exact set.bare (Option.some.inj (set.hasOps.symm.trans isTmpfs))

theorem vfsInitRoot_listings (sound : Sound s' root {root} own others)
    (directory : IsDirectory s'.toGraph root) (made : vfsInitRoot s = some s')
    (running : s'.rootfs ≠ none) : Listings s'.toGraph {root} := by
  obtain ⟨k, isRoot, bare⟩ := vfsInitRoot_bare made running
  rw [sound.tree.rootVnode] at isRoot
  cases isRoot
  rintro v n rfl isTmpfs internal
  obtain ⟨n', internal', children⟩ := bare isTmpfs
  rw [internal] at internal'
  cases internal'
  refine listing_of_none children fun isFile => ?_
  obtain ⟨n', internal', isDirectory⟩ := directory
  rw [internal] at internal'
  cases internal'
  exact absurd isDirectory isFile

/-- Only the type of a node changes, and it becomes a directory. -/
theorem Listings.retype {g : Graph} (listings : Listings g V) (n : Nat) :
    Listings (g.setNode n { g.nodes n with type := .directory }) V := by
  intro v m member isTmpfs internal
  have same : ∀ x, ((g.setNode n { g.nodes n with type := .directory }).nodes x).name = (g.nodes x).name ∧
      ((g.setNode n { g.nodes n with type := .directory }).nodes x).numChildren = (g.nodes x).numChildren ∧
      ((g.setNode n { g.nodes n with type := .directory }).nodes x).children = (g.nodes x).children ∧
      (((g.setNode n { g.nodes n with type := .directory }).nodes x).type ≠ .directory →
        (g.nodes x).type ≠ .directory) := by
    intro x
    by_cases here : x = n
    · subst here
      rw [setNode_self]
      exact ⟨rfl, rfl, rfl, fun impossible => absurd rfl impossible⟩
    · rw [setNode_of_ne _ here]
      exact ⟨rfl, rfl, rfl, id⟩
  have listing : Listing g m := listings member isTmpfs internal
  obtain ⟨_, count, children, type⟩ := same m
  constructor
  · rw [count, children]
    exact listing.packed
  · rw [count]
    exact fun isFile => listing.file (type isFile)
  · rw [count, children]
    intro i c m' below child node
    rw [(same m').1]
    exact listing.named below child node
  · rw [count, children]
    intro i j c c' m₁ m₂ before below child child' first second
    rw [(same m₁).1, (same m₂).1]
    exact listing.distinct before below child child' first second

theorem Change.preserves {g g' : Graph} {V' : Set Nat} {effect : Effect}
    (change : Change g g' V effect V') : Preserves g g' V := by
  cases change with
  | same agree => exact agree.toPreserves
  | child made _ => exact made.toPreserves
  | mount made => exact made.toPreserves

theorem prepareArchive_listings (sound : Sound s root {root} own others)
    (listings : Listings s.toGraph {root}) (made : prepareArchive s = some s') :
    ∃ V' own', Sound s' root V' own' others ∧ Listings s'.toGraph V' := by
  unfold prepareArchive at made
  obtain ⟨⟨s₂, r₂, t₂⟩, entered, made⟩ := Option.bind_eq_some_iff.mp made
  obtain ⟨V₂, own₂, effect₂, _, sound₂, may₂, change₂⟩ := sound.mkdir cwdOk_none entered
  have listings₂ := listings.grown sound.tree change₂ may₂ (vfsMkdir_appends entered)
  obtain ⟨⟨s₃, r₃⟩, registers, made⟩ := Option.bind_eq_some_iff.mp made
  cases made
  obtain ⟨graph₃, ⟨p, held₃⟩, systems₃⟩ := registerFs_spec sound₂.holds registers
  refine ⟨V₂, p :: own₂, ⟨graph₃.symm ▸ sound₂.tree, ?_, held₃,
    sound₂.registered.register (Or.inr ⟨rfl, rfl⟩) systems₃⟩, ?_⟩
  · exact (graph₃.symm ▸ sound₂.used : InUse s'.toGraph V₂ own₂).mono (List.subset_cons_self p own₂)
  · rw [graph₃]
    exact listings₂

/-- If the archive is mounted, its files are added to its root. -/
theorem mountArchive_listings {node : Nat} (sound : Sound s root V own others)
    (listings : Listings s.toGraph V) (clean : CleanMemory s none ('/' :: initramfsName))
    (mounts : mountArchive s = some (s', node)) (mounted : archiveTarget s ≠ none) :
    ∃ V' own', Sound s' root V' own' others ∧ Listings s'.toGraph V' ∧ node ∈ V' ∧
      (s'.vnodes node).mount = none ∧ (s'.vnodes node).vOps = some .initramfs := by
  unfold mountArchive at mounts
  obtain ⟨⟨s₄, r₄⟩, made, mounts⟩ := Option.bind_eq_some_iff.mp mounts
  obtain ⟨V₄, own₄, effect₄, _, sound₄, may₄, change₄⟩ :=
    sound.mount cwdOk_none (fun _ => clean) made
  have bare := vfsMount_rootsBare made
  have listings₄ : Listings s₄.toGraph V₄ := by
    refine listings.remounted sound.tree change₄ ?_ bare
    rcases may₄ with ⟨_, nothing⟩ | ⟨_, t, isMount, _⟩
    · exact Or.inl nothing
    · exact Or.inr ⟨t, isMount⟩
  obtain ⟨⟨s₅, r₅, found⟩, looked, mounts⟩ := Option.bind_eq_some_iff.mp mounts
  obtain ⟨initramfsNode, rfl⟩ : ∃ v, found = some v := by
    cases found with
    | none => cases mounts
    | some v => exact ⟨v, rfl⟩
  cases mounts
  obtain ⟨looks, outcome⟩ := vfsLookup_looked sound₄.holds looked
  obtain ⟨V₅, own₅, effect₅, _, sound₅, nothing, change₅⟩ := sound₄.lookup looked
  have listings₅ := listings₄.quiet sound₄.tree change₅ nothing
  have resolved : resolve s₄.toGraph none ('/' :: initramfsName) = some (0, some node) := by
    rcases outcome with failed | resolved
    · cases failed
    · have success := resolve_single (by decide) resolved
      rw [success] at resolved
      exact resolved
  obtain ⟨v, inTree, same, visible⟩ := (sound₄.tree.resolve_visible rfl resolved).1 rfl
  cases same
  refine ⟨V₅, own₅, sound₅, listings₅, change₅.larger inTree, ?_, ?_⟩
  · rw [looks.graph]
    exact sound₄.tree.visible_clear visible
  · rw [looks.graph]
    rcases may₄ with ⟨failed, _⟩ | ⟨rfl, t, rfl, target⟩
    · exfalso
      apply mounted
      unfold archiveTarget
      rw [made, Option.bind_some]
      simp only [if_neg failed]
      exact Option.bind_fun_none _
    · cases change₄ with
      | @mount _ k m n made₄ =>
          have names : components ('/' :: initramfsName) = [initramfsName] := by decide
          have starts : StartsAt root none ('/' :: initramfsName) root := by
            unfold StartsAt
            rw [if_pos (by decide)]
          have descends : Descends (components ('/' :: initramfsName)) := by
            rw [names]
            intro name isName
            rw [List.mem_singleton.mp isName]
            decide
          have before := (settle_resolve_of_starts sound.tree starts).symm.trans (map_settle_success target)
          have after := made₄.walk_target sound.tree descends (components_ne_dot _) before
          rw [← settle_resolve_of_starts sound₄.tree starts] at after
          have atRoot := success_of_map_settle after
          rw [resolved] at atRoot
          cases atRoot
          obtain ⟨⟨fs, registered, ops⟩, _⟩ := bare t m node made₄.targetClear made₄.mountNew made₄.rootNew
          rw [ops]
          rcases sound.registered.find registered with ⟨impossible, _⟩ | ⟨_, setup⟩
          · exact absurd impossible (by decide)
          · exact setup

theorem initramfsEntries_listings (sound : Sound s root V own others) (listings : Listings s.toGraph V)
    (member : d ∈ V) (clear : (s.vnodes d).mount = none) (ops : (s.vnodes d).vOps = some .initramfs)
    (entered : archive.foldlM (fun s entry => initramfsEntry s d entry.1 entry.2) s = some s') :
    ∃ V' own', Sound s' root V' own' others ∧ Listings s'.toGraph V' := by
  induction archive generalizing s V own with
  | nil =>
      cases entered
      exact ⟨V, own, sound, listings⟩
  | cons entry archive ih =>
      rw [List.foldlM_cons] at entered
      obtain ⟨s₁, first, rest⟩ := Option.bind_eq_some_iff.mp entered
      obtain ⟨⟨V₁, own₁, effect, _, sound₁, rfl, change⟩, clear₁⟩ :=
        initramfsEntry_spec sound member clear first
      have listings₁ : Listings s₁.toGraph V₁ := by
        apply listings.change sound.tree change
        · intro d' type same
          cases same
          refine ⟨_, initramfsEntry_appends first, fun isTmpfs => ?_⟩
          rw [ops] at isTmpfs
          cases isTmpfs
        · nofun
      exact ih sound₁ listings₁ (change.larger member) clear₁ ((change.preserves.ops member).trans ops) rest

theorem makeDevices_listings (sound : Sound s root V own others) (listings : Listings s.toGraph V)
    (made : makeDevices s = some s') : ∃ V' own', Sound s' root V' own' others ∧ Listings s'.toGraph V' := by
  unfold makeDevices at made
  obtain ⟨⟨s₇, r₇, t₇⟩, made₇, made⟩ := Option.bind_eq_some_iff.mp made
  obtain ⟨V₇, own₇, effect₇, _, sound₇, may₇, change₇⟩ := sound.mkdir cwdOk_none made₇
  have listings₇ := listings.grown sound.tree change₇ may₇ (vfsMkdir_appends made₇)
  obtain ⟨⟨s₈, r₈⟩, made₈, made⟩ := Option.bind_eq_some_iff.mp made
  obtain ⟨V₈, own₈, effect₈, _, sound₈, may₈, change₈⟩ := sound₇.mknod cwdOk_none made₈
  have listings₈ := listings₇.grown sound₇.tree change₈ may₈ (vfsMknod_appends made₈)
  obtain ⟨⟨s₉, r₉⟩, made₉, made⟩ := Option.bind_eq_some_iff.mp made
  obtain ⟨V₉, own₉, effect₉, _, sound₉, may₉, change₉⟩ := sound₈.mknod cwdOk_none made₉
  have listings₉ := listings₈.grown sound₈.tree change₉ may₉ (vfsMknod_appends made₉)
  cases made
  exact ⟨V₉, own₉, sound₉, listings₉⟩

/-- The start keeps the directories, if it can mount the archive. -/
theorem vfsInit_listings (holds : Holds s.heap others) (blank : Blank s.toGraph others)
    (unregistered : s.filesystems = []) (booted : vfsInit s archive = some s')
    (running : s'.rootfs ≠ none) (mounted : bootTarget s ≠ none) :
    ∃ root V own, Sound s' root V own others ∧ Listings s'.toGraph V := by
  have clean := blank.cleanStart holds unregistered
  rw [vfsInit_eq] at booted
  obtain ⟨s₁, atRoot, booted⟩ := Option.bind_eq_some_iff.mp booted
  split at booted
  · next missing =>
      cases booted
      exact absurd missing running
  · next present =>
      obtain ⟨root, own, sound, directory, _⟩ := vfsInitRoot_spec holds unregistered atRoot present
      have listings := vfsInitRoot_listings sound directory atRoot present
      obtain ⟨s₃, prepared, booted⟩ := Option.bind_eq_some_iff.mp booted
      obtain ⟨V₃, own₃, sound₃, listings₃⟩ := prepareArchive_listings sound listings prepared
      rw [bootTarget_eq atRoot prepared] at mounted
      obtain ⟨⟨s₅, node⟩, mounts, booted⟩ := Option.bind_eq_some_iff.mp booted
      obtain ⟨V₅, own₅, sound₅, listings₅, member, clear, ops⟩ :=
        mountArchive_listings sound₃ listings₃ (clean s₁ s₃ atRoot present prepared) mounts mounted
      obtain ⟨s₆, entered, booted⟩ := Option.bind_eq_some_iff.mp booted
      unfold initramfsInit at entered
      obtain ⟨n, _, entries⟩ := Option.bind_eq_some_iff.mp entered
      obtain ⟨V₆, own₆, sound₆, listings₆⟩ := initramfsEntries_listings (sound₅.retype n .directory)
        (listings₅.retype n) member clear ops entries
      obtain ⟨V₉, own₉, sound₉, listings₉⟩ := makeDevices_listings sound₆ listings₆ booted
      exact ⟨root, V₉, own₉, sound₉, listings₉⟩

end Start

/-! ## Runs -/

section Run

variable {H : Type} [Allocator H] {sys sys' : System H} {op : Op} {root : Nat} {V V' : Set Nat}
  {own : List Nat} {effect : Effect}

/-- The system after the root was set up, or after a start that has mounted the archive.  Where
the archive cannot be mounted, its files are added to the directory below the mount. -/
inductive Started : System H → Prop
  | root {s s' : State H} {others : List Nat} (holds : Holds s.heap others)
      (unregistered : s.filesystems = []) (made : vfsInitRoot s = some s')
      (running : s'.rootfs ≠ none) : Started ⟨s', fun _ => none, others, ∅⟩
  | init {sys : System H} (booted : Booted sys) (archive : sys.mounted.Nonempty) : Started sys

/-- The states that are reached from there. -/
inductive Grown : System H → Prop
  | start {sys : System H} (started : Started sys) : Grown sys
  | step {sys sys' : System H} {op : Op} (grown : Grown sys) (stepped : Step sys op sys') : Grown sys'

theorem Running.listings (running : Running sys root V own) (listings : Listings sys.state.toGraph V)
    (stepped : Step sys op sys') (may : op.may sys root effect)
    (change : Change sys.state.toGraph sys'.state.toGraph V effect V') :
    Listings sys'.state.toGraph V' := by
  have tree := running.sound.tree
  cases stepped with
  | spawn => exact listings.quiet tree change may
  | chdir => exact listings.quiet tree change may
  | mkdir made => exact listings.grown tree change may (vfsMkdir_appends made)
  | «open» opened =>
      rcases may with nothing | ⟨_, may⟩
      · exact listings.quiet tree change nothing
      · exact listings.grown tree change may (vfsOpen_appends opened)
  | mknod made => exact listings.grown tree change may (vfsMknod_appends made)
  | mount _ made =>
      refine listings.remounted tree change ?_ (vfsMount_rootsBare made)
      rcases may with nothing | ⟨t, isMount, _⟩
      · exact Or.inl nothing
      · exact Or.inr ⟨t, isMount⟩
  | close => exact listings.quiet tree change may
  | alloc => exact listings.quiet tree change may
  | free => exact listings.quiet tree change may

theorem Started.running (started : Started sys) :
    ∃ root V own, Running sys root V own ∧ Listings sys.state.toGraph V := by
  cases started with
  | root holds unregistered made running =>
      obtain ⟨root, own, sound, directory, _⟩ := vfsInitRoot_spec holds unregistered made running
      exact ⟨root, {root}, own, ⟨sound, fun _ => cwdOk_none⟩,
        vfsInitRoot_listings sound directory made running⟩
  | init booted archive =>
      cases booted with
      | init holds blank unregistered booted running =>
          obtain ⟨t, target⟩ := archive
          have mounted : bootTarget _ ≠ none := ne_of_eq_of_ne target (Option.some_ne_none t)
          obtain ⟨root, V, own, sound, listings⟩ :=
            vfsInit_listings holds blank unregistered booted running mounted
          exact ⟨root, V, own, ⟨sound, fun _ => cwdOk_none⟩, listings⟩

theorem Grown.running (grown : Grown sys) :
    ∃ root V own, Running sys root V own ∧ Listings sys.state.toGraph V := by
  induction grown with
  | start started => exact started.running
  | step _ stepped ih =>
      obtain ⟨root, V, own, running, listings⟩ := ih
      obtain ⟨V', own', effect, running', may, _, change⟩ := running.step stepped
      exact ⟨root, V', own', running', running.listings listings stepped may change⟩

/-- A vnode of tmpfs with its node, as a directory or as a file. -/
structure TmpfsDirectory (g : Graph) (v n : Nat) : Prop where
  atMost : 0 ≤ (g.nodes n).numChildren ∧ (g.nodes n).numChildren ≤ maxChildren
  front : ∀ i, (g.nodes n).children i ≠ none ↔ i < (g.nodes n).numChildren.toNat
  named : ∀ i c, (g.nodes n).children i = some c →
    ∃ m, (g.vnodes c).internal = some m ∧ EntryName (g.nodes m).name
  distinct : ∀ i j c c' m m', i ≠ j → (g.nodes n).children i = some c →
    (g.nodes n).children j = some c' → (g.vnodes c).internal = some m →
      (g.vnodes c').internal = some m' → (g.nodes m).name ≠ (g.nodes m').name
  parent : ∀ i c, (g.nodes n).children i = some c → (g.vnodes c).parent = some v
  once : ∀ i c v' n' j, (g.nodes n).children i = some c → Linked g v' →
    (g.vnodes v').internal = some n' → j < (g.nodes n').numChildren.toNat →
      (g.nodes n').children j = some c → v' = v ∧ j = i
  file : (g.nodes n).type ≠ .directory → ∀ i, (g.nodes n).children i = none

/-- An entry of a directory, as it was. -/
structure EntryKept (g g' : Graph) (v n i c : Nat) : Prop where
  directory : Linked g' v ∧ (g'.vnodes v).vOps = some .tmpfs ∧ (g'.vnodes v).internal = some n
  child : (g'.nodes n).children i = some c
  node : (g'.vnodes c).internal = (g.vnodes c).internal
  name : ∀ m, (g.vnodes c).internal = some m → (g'.nodes m).name = (g.nodes m).name

theorem Listing.directory {g : Graph} {v n : Nat} (listing : Listing g n) (tree : Tree g root V)
    (member : v ∈ V) (internal : (g.vnodes v).internal = some n) : TmpfsDirectory g v n := by
  obtain ⟨nonneg, atMost⟩ := tree.count member internal
  have below : ∀ {i c}, (g.nodes n).children i = some c → i < (g.nodes n).numChildren.toNat := by
    intro i c child
    by_contra beyond
    rw [listing.packed i (Nat.le_of_not_lt beyond)] at child
    cases child
  have distinct : ∀ i j c c' m m', i ≠ j → (g.nodes n).children i = some c →
      (g.nodes n).children j = some c' → (g.vnodes c).internal = some m →
        (g.vnodes c').internal = some m' → (g.nodes m).name ≠ (g.nodes m').name := by
    intro i j c c' m m' other child child' first second
    rcases Nat.lt_or_gt_of_ne other with before | after
    · exact listing.distinct before (below child') child child' first second
    · exact (listing.distinct after (below child) child' child second first).symm
  have inTree : ∀ {i c}, (g.nodes n).children i = some c → c ∈ V ∧ (g.vnodes c).parent = some v := by
    intro i c child
    obtain ⟨c', inTree, child', parent, _⟩ := tree.child member internal (below child)
    rw [child] at child'
    cases child'
    exact ⟨inTree, parent⟩
  constructor
  · exact ⟨nonneg, atMost⟩
  · intro i
    constructor
    · intro isSome
      obtain ⟨c, child⟩ := Option.ne_none_iff_exists'.mp isSome
      exact below child
    · intro inside
      obtain ⟨c, _, child, _⟩ := tree.child member internal inside
      rw [child]
      exact Option.some_ne_none c
  · intro i c child
    obtain ⟨m, node⟩ := tree.internal (inTree child).1
    exact ⟨m, node, listing.named (below child) child node⟩
  · exact distinct
  · exact fun i c child => (inTree child).2
  · intro i c v' n' j child linked internal' inside child'
    obtain ⟨c', _, child'', parent, _⟩ := tree.child (tree.linked linked) internal' inside
    rw [child'] at child''
    cases child''
    have same : v' = v := Option.some.inj (parent.symm.trans (inTree child).2)
    subst same
    rw [internal] at internal'
    cases internal'
    refine ⟨rfl, by_contra fun other => ?_⟩
    obtain ⟨m, node⟩ := tree.internal (inTree child).1
    exact distinct j i c c m m other child' child node node rfl
  · intro isFile i
    have empty : (g.nodes n).numChildren.toNat = 0 := by rw [listing.file isFile, Int.toNat_zero]
    exact listing.packed i (empty ▸ Nat.zero_le i)

/-- Children keep their places. -/
theorem Change.keeps_child {g g' : Graph} {v n i c : Nat} (change : Change g g' V effect V')
    (tree : Tree g root V) (member : v ∈ V) (internal : (g.vnodes v).internal = some n)
    (below : i < (g.nodes n).numChildren.toNat) (child : (g.nodes n).children i = some c) :
    i < (g'.nodes n).numChildren.toNat ∧ (g'.nodes n).children i = some c := by
  have nonneg := (tree.count member internal).1
  cases change with
  | same agree =>
      obtain ⟨count, children⟩ := agree.children member internal
      rw [count, children]
      exact ⟨below, child⟩
  | @child d w n' name made _ =>
      by_cases here : v = d
      · subst here
        obtain ⟨count, children⟩ := made.listed internal
        rw [count, children, Function.update_of_ne (Nat.ne_of_lt below)]
        exact ⟨by omega, child⟩
      · obtain ⟨count, children⟩ := made.children member here internal
        rw [count, children]
        exact ⟨below, child⟩
  | mount made =>
      obtain ⟨count, children⟩ := made.children member internal
      rw [count, children]
      exact ⟨below, child⟩

theorem Linked.change {g g' : Graph} {v : Nat} (linked : Linked g v) (tree : Tree g root V)
    (change : Change g g' V effect V') : Linked g' v := by
  have pre := change.preserves
  induction linked with
  | root isRoot => exact .root (pre.rootVnode.trans isRoot)
  | child above internal below child ih =>
      have member := tree.linked above
      obtain ⟨below', child'⟩ := change.keeps_child tree member internal below child
      exact .child ih ((pre.internal member).trans internal) below' child'
  | mounted above mount root ih =>
      obtain ⟨mount', same⟩ := pre.mount (tree.linked above) mount
      exact .mounted ih mount' (same.symm ▸ root)

/-- The directories of tmpfs are in order, and the next step keeps their entries. -/
structure DirectoriesOk (sys : System H) : Prop where
  each : ∀ v n, Linked sys.state.toGraph v → (sys.state.vnodes v).vOps = some .tmpfs →
    (sys.state.vnodes v).internal = some n → TmpfsDirectory sys.state.toGraph v n
  kept : ∀ op sys', Step sys op sys' → ∀ v n i c, Linked sys.state.toGraph v →
    (sys.state.vnodes v).vOps = some .tmpfs → (sys.state.vnodes v).internal = some n →
      (sys.state.nodes n).children i = some c → EntryKept sys.state.toGraph sys'.state.toGraph v n i c

/-- In every state that is reached, the directories of tmpfs are in order. -/
theorem run_directories (sys : System H) (grown : Grown sys) : DirectoriesOk sys := by
  obtain ⟨root, V, own, running, listings⟩ := grown.running
  have tree := running.sound.tree
  have directories : ∀ v n, Linked sys.state.toGraph v → (sys.state.vnodes v).vOps = some .tmpfs →
      (sys.state.vnodes v).internal = some n → TmpfsDirectory sys.state.toGraph v n :=
    fun v n linked isTmpfs internal =>
      (listings (tree.linked linked) isTmpfs internal).directory tree (tree.linked linked) internal
  refine ⟨directories, fun op sys' stepped v n i c linked isTmpfs internal child => ?_⟩
  obtain ⟨V', own', effect, _, may, _, change⟩ := running.step stepped
  have pre := change.preserves
  have member := tree.linked linked
  have below : i < (sys.state.nodes n).numChildren.toNat :=
    ((directories v n linked isTmpfs internal).front i).mp (child ▸ Option.some_ne_none c)
  obtain ⟨c', inTree, child', _⟩ := tree.child member internal below
  rw [child] at child'
  cases child'
  exact
    { directory := ⟨linked.change tree change, (pre.ops member).trans isTmpfs, (pre.internal member).trans internal⟩
      child := (change.keeps_child tree member internal below child).2
      node := pre.internal inTree
      name := fun m node => (pre.label inTree node).1 }

end Run

/-- A thread makes a directory. -/
theorem Grown.mkdir {H : Type} [Allocator H] {sys : System H} {thread : Nat} {path : Name}
    {made : State H × Int × Option Nat} (grown : Grown sys)
    (last : vfsMkdir sys.state (sys.cwd thread) path = some made) : Grown (sys.setState made.1) :=
  grown.step (@Step.mkdir _ _ _ thread path made.1 made.2.1 made.2.2 last)

/-- The directory "/a", made after the start. -/
def dirA : State BootHeap × Int × Option Nat :=
  (vfsMkdir initState none ['/', 'a']).get (by decide +kernel)

theorem run_directories_dirA : DirectoriesOk (initSystem.setState dirA.1) := by
  have archive : (bootTarget emptyState).isSome = true := by decide +kernel
  have cwd : initSystem.cwd 0 = none := by
    unfold initSystem
    dsimp only
  have made : vfsMkdir initState none ['/', 'a'] = some dirA := (Option.some_get _).symm
  rw [← initSystem_state, ← cwd] at made
  have started : Started initSystem := .init init_booted ⟨_, Option.eq_some_of_isSome archive⟩
  have grown : Grown (initSystem.setState dirA.1) := Grown.mkdir (.start started) made
  exact run_directories _ grown

end OsdiKernel.Fs
