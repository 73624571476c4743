import OsdiKernel.Fs.Soundness
import OsdiKernel.Lib.Parallel

/-!
# Two file systems in different memory

Memory that was not written may differ between two kernels with the same heap.
They agree on the vnodes, mounts and open files that they have written.  The
root node of a mount may be written in part, so only what a lookup reads of it
is the same.  Lookups then have the same results.
-/

namespace OsdiKernel.Fs

open Allocator (Holds)

/-! ## What is known -/

/-- The addresses of the vnodes, the mounts and the open files on which two
kernels agree, those of bytes, and the pointers that they have in use for them. -/
structure Known where
  vnodes : Set Nat
  mounts : Set Nat
  files : Set Nat
  bytes : Set Nat
  own : List Nat

/-- More is known, but of the same bytes. -/
instance : Preorder Known where
  le k k' := k.vnodes ⊆ k'.vnodes ∧ k.mounts ⊆ k'.mounts ∧ k.files ⊆ k'.files ∧ k'.bytes = k.bytes
  le_refl _ := ⟨subset_rfl, subset_rfl, subset_rfl, rfl⟩
  le_trans _ _ _ first second :=
    ⟨first.1.trans second.1, first.2.1.trans second.2.1, first.2.2.1.trans second.2.2.1,
      second.2.2.2.trans first.2.2.2⟩

namespace Known

def addVnode (k : Known) (w : Nat) (new : List Nat) : Known :=
  { k with vnodes := insert w k.vnodes, own := new ++ k.own }

def addMount (k : Known) (m : Nat) : Known := { k with mounts := insert m k.mounts }

def addFile (k : Known) (f : Nat) : Known := { k with files := insert f k.files }

def addOwn (k : Known) (new : List Nat) : Known := { k with own := new ++ k.own }

def addBytes (k : Known) (new : Set Nat) : Known := { k with bytes := new ∪ k.bytes }

variable {k k' : Known}

theorem le_iff : k ≤ k' ↔
    k.vnodes ⊆ k'.vnodes ∧ k.mounts ⊆ k'.mounts ∧ k.files ⊆ k'.files ∧ k'.bytes = k.bytes := Iff.rfl

theorem vnodes_mono (larger : k ≤ k') : k.vnodes ⊆ k'.vnodes := (le_iff.mp larger).1

theorem files_mono (larger : k ≤ k') : k.files ⊆ k'.files := (le_iff.mp larger).2.2.1

theorem bytes_eq (larger : k ≤ k') : k'.bytes = k.bytes := (le_iff.mp larger).2.2.2

theorem le_addVnode (k : Known) (w : Nat) (new : List Nat) : k ≤ k.addVnode w new :=
  le_iff.mpr ⟨Set.subset_insert _ _, subset_rfl, subset_rfl, rfl⟩

theorem le_addMount (k : Known) (m : Nat) : k ≤ k.addMount m :=
  le_iff.mpr ⟨subset_rfl, Set.subset_insert _ _, subset_rfl, rfl⟩

theorem le_addFile (k : Known) (f : Nat) : k ≤ k.addFile f :=
  le_iff.mpr ⟨subset_rfl, subset_rfl, Set.subset_insert _ _, rfl⟩

theorem le_addOwn (k : Known) (new : List Nat) : k ≤ k.addOwn new :=
  le_iff.mpr ⟨subset_rfl, subset_rfl, subset_rfl, rfl⟩

end Known

/-- A pointer that is null or known. -/
def Within (V : Set Nat) (p : Option Nat) : Prop := ∀ v, p = some v → v ∈ V

theorem within_none {V : Set Nat} : Within V none := nofun

theorem within_some {V : Set Nat} {v : Nat} (member : v ∈ V) : Within V (some v) := by
  intro _ same
  cases same
  exact member

theorem Within.mono {V V' : Set Nat} {p : Option Nat} (within : Within V p) (larger : V ⊆ V') :
    Within V' p :=
  fun v same => larger (within v same)

/-! ## Agreement -/

/-- Two nodes with the same children. -/
structure SameListing (node node' : Node) : Prop where
  type : node'.type = node.type
  count : node'.numChildren = node.numChildren
  children : ∀ i < node.numChildren.toNat, node'.children i = node.children i

theorem SameListing.refl (node : Node) : SameListing node node := ⟨rfl, rfl, fun _ _ => rfl⟩

/-- The node of a known vnode: it is the same in both memories, unless it is the
root of a mount, where what a lookup reads is. -/
structure SharedNode (k : Known) (vnodes : Nat → Vnode) (isRoot : Bool) (node node' : Node) : Prop where
  listing : SameListing node node'
  whole : isRoot = false → node' = node
  directory : isRoot = true → node.type = .directory
  children : ∀ i < node.numChildren.toNat, ∀ c, node.children i = some c →
    c ∈ k.vnodes ∧ (vnodes c).parentIsMount = false
  contents : node.type = .file → ∀ p, node.data = some p → ∀ i < node.size, p + i ∈ k.bytes

/-- Two graphs that agree on what is known, from where nothing else can be reached. -/
structure Shared (k : Known) (g g' : Graph) : Prop where
  rootfs : g'.rootfs = g.rootfs
  rootMount : ∀ {m}, g.rootfs = some m → m ∈ k.mounts
  inUse : ∀ {v}, v ∈ k.vnodes → v ∈ k.own
  vnode : ∀ {v}, v ∈ k.vnodes → g'.vnodes v = g.vnodes v
  parent : ∀ {v}, v ∈ k.vnodes → Within k.vnodes (g.vnodes v).parent
  mounted : ∀ {v}, v ∈ k.vnodes → Within k.mounts (g.vnodes v).mount
  mount : ∀ {m}, m ∈ k.mounts → g'.mounts m = g.mounts m
  root : ∀ {m}, m ∈ k.mounts → Within k.vnodes (g.mounts m).root
  nodeInUse : ∀ {v n}, v ∈ k.vnodes → (g.vnodes v).internal = some n → n ∈ k.own
  node : ∀ {v n}, v ∈ k.vnodes → (g.vnodes v).internal = some n →
    SharedNode k g.vnodes (g.vnodes v).parentIsMount (g.nodes n) (g'.nodes n)

variable {k : Known} {g g' : Graph}

/-! ## Lookups -/

/-- A part of a lookup has the same outcome in both graphs, which is known. -/
structure SameOutcome {α : Type} (ok : α → Prop) (outcome outcome' : Option α) : Prop where
  same : outcome' = outcome
  known : ∀ a, outcome = some a → ok a

namespace SameOutcome

variable {α β : Type} {ok : α → Prop} {ok' : β → Prop} {a : α} {outcome outcome' : Option α}

theorem stuck : SameOutcome ok none none := ⟨rfl, nofun⟩

theorem done (holds : ok a) : SameOutcome ok (some a) (some a) := by
  refine ⟨rfl, fun b same => ?_⟩
  cases same
  exact holds

theorem bind {f f' : α → Option β} (first : SameOutcome ok outcome outcome')
    (next : ∀ a, ok a → SameOutcome ok' (f a) (f' a)) :
    SameOutcome ok' (outcome.bind f) (outcome'.bind f') := by
  rw [first.same]
  cases isOutcome : outcome with
  | none => exact stuck
  | some a => exact next a (first.known a isOutcome)

theorem ite {c : Prop} [Decidable c] {other other' : Option α}
    (holds : c → SameOutcome ok outcome outcome') (fails : ¬ c → SameOutcome ok other other') :
    SameOutcome ok (if c then outcome else other) (if c then outcome' else other') := by
  split
  · next yes => exact holds yes
  · next no => exact fails no

end SameOutcome

namespace Shared

variable (shared : Shared k g g')
include shared

theorem rootVnode : SameOutcome (Within k.vnodes) g.rootVnode g'.rootVnode := by
  unfold Graph.rootVnode
  rw [shared.rootfs]
  cases isRoot : g.rootfs with
  | none => exact .stuck
  | some m =>
      rw [Option.map_some, Option.map_some, shared.mount (shared.rootMount isRoot)]
      exact .done (shared.root (shared.rootMount isRoot))

variable {v : Nat}

theorem mountRoot (member : v ∈ k.vnodes) : g'.mountRoot v = g.mountRoot v := by
  unfold Graph.mountRoot
  rw [shared.vnode member]
  cases mount : (g.vnodes v).mount with
  | none => rfl
  | some m => exact congrArg Mount.root (shared.mount (shared.mounted member m mount))

theorem cross (member : v ∈ k.vnodes) : g'.cross v = g.cross v ∧ Within k.vnodes (g.cross v) := by
  unfold Graph.cross
  rw [shared.vnode member]
  cases mount : (g.vnodes v).mount with
  | none => exact ⟨rfl, within_some member⟩
  | some m =>
      have known := shared.mounted member m mount
      exact ⟨congrArg Mount.root (shared.mount known), shared.root known⟩

variable {name : Name} {node node' : Node} {left i : Nat}

/-- The search goes through children that are known. -/
theorem searchChildren (same : ∀ j, i ≤ j → j < i + left → node'.children j = node.children j)
    (known : ∀ j, i ≤ j → j < i + left → ∀ c, node.children j = some c →
      c ∈ k.vnodes ∧ (g.vnodes c).parentIsMount = false) :
    SameOutcome (Within k.vnodes) (Fs.searchChildren g node name left i)
      (Fs.searchChildren g' node' name left i) := by
  induction left generalizing i with
  | zero => exact .done within_none
  | succ left ih =>
      have rest := @ih (i + 1) (fun j above below => same j (by omega) (by omega))
        fun j above below => known j (by omega) (by omega)
      rw [Fs.searchChildren, Fs.searchChildren, same i (Nat.le_refl i) (by omega)]
      refine .ite (fun _ => .stuck) fun _ => ?_
      cases child : node.children i with
      | none => exact .stuck
      | some c =>
          obtain ⟨member, isChild⟩ := known i (Nat.le_refl i) (by omega) c child
          simp only [Option.bind_eq_bind, Option.bind_some, shared.vnode member]
          cases internal : (g.vnodes c).internal with
          | none => exact .stuck
          | some n =>
              simp only [Option.bind_some, (shared.node member internal).whole isChild]
              exact .ite (fun _ => .done (within_some member)) fun _ => rest

theorem findChild {n : Nat} (member : v ∈ k.vnodes) (internal : (g.vnodes v).internal = some n) :
    SameOutcome (Within k.vnodes) (Fs.findChild g (g.nodes n) name)
      (Fs.findChild g' (g'.nodes n) name) := by
  have node := shared.node member internal
  unfold Fs.findChild
  rw [node.listing.count]
  exact shared.searchChildren (fun j _ below => node.listing.children j (by omega))
    fun j _ below => node.children j (by omega)

theorem lookupNode (member : v ∈ k.vnodes) :
    SameOutcome (fun outcome => Within k.vnodes outcome.2) (Fs.lookupNode g v name)
      (Fs.lookupNode g' v name) := by
  unfold Fs.lookupNode
  rw [shared.vnode member]
  cases internal : (g.vnodes v).internal with
  | none => exact .done within_none
  | some n =>
      dsimp only
      rw [(shared.node member internal).listing.type]
      refine .ite (fun _ => .done within_none) fun _ => ?_
      refine (shared.findChild member internal).bind fun found known => ?_
      cases found with
      | none => exact .done within_none
      | some c => exact .done known

theorem lookup (ops : FsType) (member : v ∈ k.vnodes) :
    SameOutcome (fun outcome => Within k.vnodes outcome.2) (ops.lookup g v name)
      (ops.lookup g' v name) := by
  cases ops <;> exact shared.lookupNode member

end Shared

/-! ### Paths -/

/-- The variables of a lookup in progress are known. -/
structure Walk.Known (V : Set Nat) (w : Walk) : Prop where
  current : Within V w.current
  target : Within V w.target

namespace Shared

variable (shared : Shared k g g') {w : Walk} {name : Name}
include shared

theorem walkUp (known : w.Known k.vnodes) :
    SameOutcome (fun after => after.2.Known k.vnodes) (Fs.walkUp g w) (Fs.walkUp g' w) := by
  obtain ⟨current, target⟩ := w
  unfold Fs.walkUp
  refine shared.rootVnode.bind fun root rootKnown => ?_
  refine .ite (fun _ => .done known) fun _ => ?_
  cases current with
  | none => exact .stuck
  | some v =>
      have member := known.current v rfl
      simp only [Option.bind_eq_bind, Option.bind_some, shared.vnode member]
      cases parent : (g.vnodes v).parent with
      | none => exact .done known
      | some p =>
          have parentKnown := shared.parent member p parent
          simp only [shared.mountRoot parentKnown, shared.vnode parentKnown]
          refine .ite (fun _ => ?_) fun _ => .done ⟨within_some parentKnown, within_some parentKnown⟩
          refine .ite (fun _ => .done ⟨rootKnown, rootKnown⟩) fun _ => ?_
          cases grandparent : (g.vnodes p).parent with
          | none => exact .done known
          | some u =>
              have inside := within_some (shared.parent parentKnown u grandparent)
              exact .done ⟨inside, inside⟩

theorem walkDown (known : w.Known k.vnodes) :
    SameOutcome (fun after => after.2.Known k.vnodes) (Fs.walkDown g w name) (Fs.walkDown g' w name) := by
  unfold Fs.walkDown
  cases isCurrent : w.current with
  | none => exact .stuck
  | some v =>
      obtain ⟨sameCross, crossKnown⟩ := shared.cross (known.current v isCurrent)
      simp only [Option.bind_eq_bind, Option.bind_some, sameCross]
      cases crossed : g.cross v with
      | none => exact .stuck
      | some e =>
          have member := crossKnown e crossed
          simp only [Option.bind_some, shared.vnode member]
          cases (g.vnodes e).vOps with
          | none => exact .done known
          | some ops =>
              refine (shared.lookup ops member).bind fun outcome nextKnown => ?_
              refine .ite (fun _ => .done known) fun _ => ?_
              obtain ⟨_, next⟩ := outcome
              cases next with
              | none => exact .stuck
              | some c =>
                  obtain ⟨sameNext, inside⟩ := shared.cross (nextKnown c rfl)
                  simp only [Option.bind_some, sameNext]
                  exact .done ⟨inside, known.target⟩

theorem walkComponent (known : w.Known k.vnodes) :
    SameOutcome (fun after => after.2.Known k.vnodes) (Fs.walkComponent g w name)
      (Fs.walkComponent g' w name) :=
  .ite (fun _ => .done known) fun _ =>
    .ite (fun _ => shared.walkUp known) fun _ => shared.walkDown known

theorem walkAll {names : List Name} (known : w.Known k.vnodes) :
    SameOutcome (fun outcome => Within k.vnodes outcome.2) (Fs.walkAll g w names)
      (Fs.walkAll g' w names) := by
  induction names generalizing w with
  | nil => exact .done known.current
  | cons name names ih =>
      refine (shared.walkComponent known).bind fun after known' => ?_
      exact .ite (fun _ => .done known'.target) fun _ => ih known'

/-- A lookup has the same outcome in both graphs. -/
theorem resolve {cwd : Option Nat} {pathname : Name} (known : Within k.vnodes cwd) :
    SameOutcome (fun outcome => Within k.vnodes outcome.2) (Fs.resolve g cwd pathname)
      (Fs.resolve g' cwd pathname) := by
  rw [resolve_eq, resolve_eq]
  refine .ite (fun _ => ?_) fun _ => .ite (fun _ => .done within_none) fun _ => ?_
  · exact shared.rootVnode.bind fun root rootKnown => shared.walkAll ⟨rootKnown, within_none⟩
  · exact shared.walkAll ⟨known, within_none⟩

end Shared

/-! ## Updates -/

namespace SharedNode

variable {k' : Known} {vnodes vnodes' : Nat → Vnode} {isRoot : Bool} {node node' : Node}

/-- Only a root may differ, and a root is no file. -/
theorem same_file (shared : SharedNode k vnodes isRoot node node') (regular : node.type = .file) :
    node' = node := by
  cases isRoot with
  | false => exact shared.whole rfl
  | true =>
      rw [shared.directory rfl] at regular
      cases regular

theorem widen (shared : SharedNode k vnodes isRoot node node') (more : k.vnodes ⊆ k'.vnodes)
    (moreBytes : k.bytes ⊆ k'.bytes)
    (flags : ∀ {c}, c ∈ k.vnodes → (vnodes' c).parentIsMount = (vnodes c).parentIsMount) :
    SharedNode k' vnodes' isRoot node node' := by
  obtain ⟨listing, whole, directory, children, contents⟩ := shared
  refine ⟨listing, whole, directory, fun i below c child => ?_,
    fun isFile p data i below => moreBytes (contents isFile p data i below)⟩
  obtain ⟨member, isChild⟩ := children i below c child
  exact ⟨more member, (flags member).trans isChild⟩

theorem mono (shared : SharedNode k vnodes isRoot node node') (larger : k ≤ k')
    (flags : ∀ {c}, c ∈ k.vnodes → (vnodes' c).parentIsMount = (vnodes c).parentIsMount) :
    SharedNode k' vnodes' isRoot node node' :=
  shared.widen (Known.vnodes_mono larger) (Known.bytes_eq larger).superset flags

/-- Both directories get the same child. -/
theorem push {c : Nat} (shared : SharedNode k vnodes isRoot node node') (nonneg : 0 ≤ node.numChildren)
    (member : c ∈ k.vnodes) (isChild : (vnodes c).parentIsMount = false) :
    SharedNode k vnodes isRoot (node.push c) (node'.push c) := by
  have count : (node.push c).numChildren.toNat = node.numChildren.toNat + 1 := by
    unfold Node.push
    dsimp only
    omega
  obtain ⟨listing, whole, directory, children, contents⟩ := shared
  refine ⟨⟨listing.type, congrArg (· + 1) listing.count, fun i below => ?_⟩,
    fun flag => congrArg (Node.push · c) (whole flag), directory, fun i below c' child => ?_, contents⟩
  · rw [count] at below
    unfold Node.push
    dsimp only
    rw [listing.count]
    by_cases last : i = node.numChildren.toNat
    · rw [last, Function.update_self, Function.update_self]
    · rw [Function.update_of_ne last, Function.update_of_ne last]
      exact listing.children i (by omega)
  · rw [count] at below
    unfold Node.push at child
    dsimp only at child
    by_cases last : i = node.numChildren.toNat
    · rw [last, Function.update_self] at child
      cases child
      exact ⟨member, isChild⟩
    · rw [Function.update_of_ne last] at child
      exact children i (by omega) c' child

/-- Both nodes become directories. -/
theorem retype (shared : SharedNode k vnodes isRoot node node') :
    SharedNode k vnodes isRoot { node with type := .directory } { node' with type := .directory } where
  listing := ⟨rfl, shared.listing.count, shared.listing.children⟩
  whole flag := congrArg (fun node : Node => { node with type := .directory }) (shared.whole flag)
  directory _ := rfl
  children := shared.children
  contents isFile := by cases isFile

/-- A node without children that is the same in both memories. -/
theorem fresh (empty : node.numChildren = 0)
    (contents : node.type = .file → ∀ p, node.data = some p → ∀ i < node.size, p + i ∈ k.bytes) :
    SharedNode k vnodes false node node where
  listing := .refl node
  whole _ := rfl
  directory := nofun
  children i below := by
    rw [empty] at below
    exact absurd below (Nat.not_lt_zero i)
  contents := contents

/-- The root of a mount that is empty in both memories. -/
theorem emptyRoot (empty : node.numChildren = 0) (empty' : node'.numChildren = 0)
    (type : node.type = .directory) (type' : node'.type = .directory) :
    SharedNode k vnodes true node node' where
  listing := ⟨type'.trans type.symm, empty'.trans empty.symm, fun i below => by
    rw [empty] at below
    exact absurd below (Nat.not_lt_zero i)⟩
  whole := nofun
  directory _ := type
  children i below := by
    rw [empty] at below
    exact absurd below (Nat.not_lt_zero i)
  contents isFile := by
    rw [type] at isFile
    cases isFile

end SharedNode

namespace Shared

variable (shared : Shared k g g')
include shared

theorem addOwn (new : List Nat) : Shared (k.addOwn new) g g' :=
  { shared with
    inUse := fun member => List.mem_append_right new (shared.inUse member)
    nodeInUse := fun member internal => List.mem_append_right new (shared.nodeInUse member internal)
    node := fun member internal => (shared.node member internal).mono (Known.le_addOwn k new) fun _ => rfl }

theorem addBytes (new : Set Nat) : Shared (k.addBytes new) g g' :=
  { shared with
    node := fun member internal => (shared.node member internal).widen subset_rfl Set.subset_union_right fun _ => rfl }

/-- A node that is not in use is no part of what is known. -/
theorem setNode {n : Nat} (fresh : n ∉ k.own) (node node' : Node) :
    Shared k (g.setNode n node) (g'.setNode n node') :=
  { shared with
    node := fun {_ n'} member internal => by
      have other : n' ≠ n := fun same => fresh (same ▸ shared.nodeInUse member internal)
      rw [setNode_of_ne _ other, setNode_of_ne _ other]
      exact shared.node member internal }

theorem retype (n : Nat) :
    Shared k (g.setNode n { g.nodes n with type := .directory })
      (g'.setNode n { g'.nodes n with type := .directory }) :=
  { shared with
    node := fun {_ n'} known internal => by
      have old := shared.node known internal
      by_cases here : n' = n
      · subst here
        rw [setNode_self, setNode_self]
        exact old.retype
      · rw [setNode_of_ne _ here, setNode_of_ne _ here]
        exact old }

theorem push {n c : Nat} (nonneg : 0 ≤ (g.nodes n).numChildren) (member : c ∈ k.vnodes)
    (isChild : (g.vnodes c).parentIsMount = false) :
    Shared k (g.setNode n ((g.nodes n).push c)) (g'.setNode n ((g'.nodes n).push c)) :=
  { shared with
    node := fun {_ n'} known internal => by
      have old := shared.node known internal
      by_cases here : n' = n
      · subst here
        rw [setNode_self, setNode_self]
        exact old.push nonneg member isChild
      · rw [setNode_of_ne _ here, setNode_of_ne _ here]
        exact old }

/-- A vnode gets another mount or other operations. -/
theorem revise {v : Nat} {vnode : Vnode}
    (parent : vnode.parent = (g.vnodes v).parent) (internal : vnode.internal = (g.vnodes v).internal)
    (flag : vnode.parentIsMount = (g.vnodes v).parentIsMount) (mount : Within k.mounts vnode.mount) :
    Shared k (g.setVnode v vnode) (g'.setVnode v vnode) := by
  have fields : ∀ u, ((g.setVnode v vnode).vnodes u).parent = (g.vnodes u).parent ∧
      ((g.setVnode v vnode).vnodes u).internal = (g.vnodes u).internal ∧
      ((g.setVnode v vnode).vnodes u).parentIsMount = (g.vnodes u).parentIsMount := fun u => by
    by_cases here : u = v
    · rw [here, setVnode_self]
      exact ⟨parent, internal, flag⟩
    · rw [setVnode_of_ne _ here]
      exact ⟨rfl, rfl, rfl⟩
  refine ⟨shared.rootfs, shared.rootMount, shared.inUse, fun {u} known => ?_, fun {u} known => ?_,
    fun {u} known => ?_, shared.mount, shared.root, fun {u n} known isNode => ?_,
    fun {u n} known isNode => ?_⟩
  · by_cases here : u = v
    · rw [here, setVnode_self, setVnode_self]
    · rw [setVnode_of_ne _ here, setVnode_of_ne _ here]
      exact shared.vnode known
  · rw [(fields u).1]
    exact shared.parent known
  · by_cases here : u = v
    · rw [here, setVnode_self]
      exact mount
    · rw [setVnode_of_ne _ here]
      exact shared.mounted known
  · rw [(fields u).2.1] at isNode
    exact shared.nodeInUse known isNode
  · rw [(fields u).2.1] at isNode
    rw [(fields u).2.2]
    exact (shared.node known isNode).mono (le_refl k) fun _ => (fields _).2.2

/-- A new vnode whose node has no children. -/
theorem addVnode {w n : Nat} {vnode : Vnode} {new : List Nat} (fresh : w ∉ k.own) (inNew : w ∈ new)
    (parent : Within k.vnodes vnode.parent) (mount : Within k.mounts vnode.mount)
    (internal : vnode.internal = some n) (nodeInNew : n ∈ new)
    (node : SharedNode k g.vnodes vnode.parentIsMount (g.nodes n) (g'.nodes n)) :
    Shared (k.addVnode w new) (g.setVnode w vnode) (g'.setVnode w vnode) := by
  have larger := Known.le_addVnode k w new
  have others : ∀ {u}, u ∈ k.vnodes → u ≠ w := fun known same => fresh (same ▸ shared.inUse known)
  have kept : ∀ {u}, u ∈ k.vnodes → ((g.setVnode w vnode).vnodes u).parentIsMount =
      (g.vnodes u).parentIsMount := fun known => by rw [setVnode_of_ne _ (others known)]
  refine ⟨shared.rootfs, shared.rootMount, ?_, ?_, ?_, ?_, shared.mount,
    fun known => (shared.root known).mono (Known.vnodes_mono larger), ?_, ?_⟩
  · rintro u (rfl | known)
    · exact List.mem_append_left _ inNew
    · exact List.mem_append_right _ (shared.inUse known)
  · rintro u (rfl | known)
    · rw [setVnode_self, setVnode_self]
    · rw [setVnode_of_ne _ (others known), setVnode_of_ne _ (others known)]
      exact shared.vnode known
  · rintro u (rfl | known)
    · rw [setVnode_self]
      exact parent.mono (Known.vnodes_mono larger)
    · rw [setVnode_of_ne _ (others known)]
      exact (shared.parent known).mono (Known.vnodes_mono larger)
  · rintro u (rfl | known)
    · rw [setVnode_self]
      exact mount
    · rw [setVnode_of_ne _ (others known)]
      exact shared.mounted known
  · rintro u n' (rfl | known) isNode
    · rw [setVnode_self, internal] at isNode
      cases isNode
      exact List.mem_append_left _ nodeInNew
    · rw [setVnode_of_ne _ (others known)] at isNode
      exact List.mem_append_right _ (shared.nodeInUse known isNode)
  · rintro u n' (rfl | known) isNode
    · rw [setVnode_self, internal] at isNode
      cases isNode
      rw [setVnode_self]
      exact node.mono larger kept
    · rw [setVnode_of_ne _ (others known)] at isNode ⊢
      exact (shared.node known isNode).mono larger kept

theorem addMount {m : Nat} {mount : Mount} (root : Within k.vnodes mount.root) :
    Shared (k.addMount m) (g.setMount m mount) (g'.setMount m mount) := by
  have larger := Known.le_addMount k m
  have more : k.mounts ⊆ (k.addMount m).mounts := Set.subset_insert m k.mounts
  refine ⟨shared.rootfs, fun isRoot => more (shared.rootMount isRoot), shared.inUse, shared.vnode,
    shared.parent, fun known => (shared.mounted known).mono more, ?_, ?_, shared.nodeInUse,
    fun known internal => (shared.node known internal).mono larger fun _ => rfl⟩
  · intro m' known
    by_cases here : m' = m
    · rw [here, setMount_self, setMount_self]
    · rw [setMount_of_ne _ here, setMount_of_ne _ here]
      exact shared.mount (known.resolve_left here)
  · intro m' known
    by_cases here : m' = m
    · rw [here, setMount_self]
      exact root
    · rw [setMount_of_ne _ here]
      exact shared.root (known.resolve_left here)

end Shared

end OsdiKernel.Fs
