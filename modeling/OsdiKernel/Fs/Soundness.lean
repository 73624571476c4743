import OsdiKernel.Fs.Mounts

/-!
# The file system stays in order

Whatever an operation returns, the vnodes form a tree afterwards, which may be
larger, and the current directories of all threads are still good ones.
-/

namespace OsdiKernel.Fs

open Allocator (Holds)

variable {H : Type} [Allocator H]

/-! ## The state of the file system -/

/-- The file system uses the pointers `own`, and the rest of the kernel the pointers `others`. -/
structure Sound (s : State H) (root : Nat) (V : Set Nat) (own others : List Nat) : Prop where
  tree : Tree s.toGraph root V
  used : InUse s.toGraph V own
  holds : Holds s.heap (own ++ others)
  registered : Registered s

/-- What an operation does to the tree: nothing, a new child of a directory, or
a root mounted on a vnode. -/
inductive Effect where
  | none
  | child (d : Nat) (type : Tmpfs.NodeType)
  | mount (t : Nat)

inductive Change (g g' : Graph) (V : Set Nat) : Effect → Set Nat → Prop
  | same (agree : Agree g g' V) : Change g g' V .none V
  | child {d w n : Nat} {name : Name} (created : Created g g' V d w n name)
      (proper : Proper g d) : Change g g' V (.child d (g'.nodes n).type) (insert w V)
  | mount {t k m n : Nat} (mounted : Mounted g g' V t k m n) : Change g g' V (.mount t) (insert k V)

/-- The file system is in order after an operation with one of the effects that it may have. -/
def Continues (g : Graph) (s' : State H) (root : Nat) (V : Set Nat) (own others : List Nat)
    (may : Effect → Prop) : Prop :=
  ∃ V' own' effect, own ⊆ own' ∧ Sound s' root V' own' others ∧ may effect ∧
    Change g s'.toGraph V effect V'

section Change

variable {g g' : Graph} {root v : Nat} {V V' : Set Nat} {effect : Effect} {cwd : Option Nat}
  (change : Change g g' V effect V')
include change

theorem Change.larger : V ⊆ V' := by
  cases change with
  | same => exact subset_refl V
  | child => exact Set.subset_insert _ V
  | mount => exact Set.subset_insert _ V

theorem Change.proper (tree : Tree g root V) (member : v ∈ V) (proper : Proper g v) :
    Proper g' v := by
  cases change with
  | same agree => exact agree.proper tree member proper
  | child created => exact created.proper tree member proper
  | mount mounted => exact mounted.proper tree member proper

theorem Change.cwdOk (tree : Tree g root V) (ok : CwdOk g V cwd) : CwdOk g' V' cwd := by
  intro v isCwd
  obtain ⟨member, proper⟩ := ok v isCwd
  exact ⟨change.larger member, change.proper tree member proper⟩

end Change

section Sound

variable {s s' : State H} {root d w n t k m : Nat} {V : Set Nat}
  {own own' new others others' : List Nat} {cwd target : Option Nat} {name pathname : Name}
  {result : Int}

theorem Sound.inv (sound : Sound s root V own others) : Inv s root V (own ++ others) where
  tree := sound.tree
  holds := sound.holds
  used := sound.used.mono (List.subset_append_left own others)

omit [Allocator H] in
theorem Registered.of_eq (registered : Registered s) (systems : s'.filesystems = s.filesystems) :
    Registered s' := by
  unfold Registered
  rw [systems]
  exact registered

variable {may : Effect → Prop} (sound : Sound s root V own others)
  (systems : s'.filesystems = s.filesystems)
include sound systems

theorem Sound.agree (agree : Agree s.toGraph s'.toGraph V) (allowed : may .none)
    (larger : own ⊆ own') (holds : Holds s'.heap (own' ++ others')) :
    Continues s.toGraph s' root V own others' may :=
  ⟨V, own', .none, larger, ⟨agree.isTree sound.tree, (sound.used.mono larger).agree agree, holds,
    sound.registered.of_eq systems⟩, allowed, .same agree⟩

theorem Sound.created (created : Created s.toGraph s'.toGraph V d w n name)
    (proper : Proper s.toGraph d) (allowed : may (.child d (s'.nodes n).type)) (larger : own ⊆ own')
    (vnode : w ∈ own') (node : n ∈ own') (holds : Holds s'.heap (own' ++ others')) :
    Continues s.toGraph s' root V own others' may :=
  ⟨insert w V, own', .child d (s'.nodes n).type, larger, ⟨created.isTree sound.tree proper,
    (sound.used.mono larger).created created vnode node, holds, sound.registered.of_eq systems⟩,
    allowed, .child created proper⟩

theorem Sound.newChild {live : List Nat} {type : Tmpfs.NodeType}
    (child : NewChild s.toGraph s'.toGraph V live new d w name type) (allowed : may (.child d type))
    (larger : own ⊆ own') (contains : new ⊆ own') (holds : Holds s'.heap (own' ++ others')) :
    Continues s.toGraph s' root V own others' may := by
  obtain ⟨n, node, created, rfl⟩ := child.created
  exact sound.created systems created child.proper allowed larger (contains child.vnode) (contains node)
    holds

theorem Sound.mounted (mounted : Mounted s.toGraph s'.toGraph V t k m n) (allowed : may (.mount t))
    (larger : own ⊆ own') (vnode : k ∈ own') (node : n ∈ own') (mount : m ∈ own')
    (holds : Holds s'.heap (own' ++ others')) : Continues s.toGraph s' root V own others' may :=
  ⟨insert k V, own', .mount t, larger, ⟨mounted.isTree sound.tree,
    (sound.used.mono larger).mounted mounted vnode node mount, holds,
    sound.registered.of_eq systems⟩, allowed, .mount mounted⟩

end Sound

/-! ## The operations -/

/-- The operation leaves the tree as it is. -/
def Quiet (effect : Effect) : Prop := effect = .none

theorem quiet : Quiet .none := rfl

/-- The operation may create the last component of a path. -/
def MayCreate (g : Graph) (root : Nat) (cwd : Option Nat) (pathname : Name)
    (type : Tmpfs.NodeType) (effect : Effect) : Prop :=
  effect = .none ∨ ∃ d, effect = .child d type ∧ ParentOf g root cwd pathname d ∧
    Creatable g d (baseName pathname)

/-- A mount that succeeds is on the vnode of its path. -/
def MayMount (g : Graph) (cwd : Option Nat) (pathname : Name) (result : Int) (effect : Effect) :
    Prop :=
  result ≠ 0 ∧ effect = .none ∨
    result = 0 ∧ ∃ t, effect = .mount t ∧ resolve g cwd pathname = some (0, some t)

section Operations

variable {s s' : State H} {root : Nat} {V : Set Nat} {own others : List Nat}
  {cwd target : Option Nat} {pathname filesystemName : Name} {result : Int} {flags : Nat}
  {fOps : FileOps} (sound : Sound s root V own others)
include sound

theorem Sound.lookup (looked : vfsLookup s cwd pathname = some (s', result, target)) :
    Continues s.toGraph s' root V own others Quiet := by
  obtain ⟨graph, _, systems, holds⟩ := (vfsLookup_looked sound.holds looked).1
  apply sound.agree systems ?_ quiet (List.Subset.refl own) holds
  rw [graph]
  exact .refl _ _

theorem Sound.mkdir (ok : CwdOk s.toGraph V cwd)
    (made : vfsMkdir s cwd pathname = some (s', result, target)) :
    Continues s.toGraph s' root V own others
      (MayCreate s.toGraph root cwd pathname .directory) := by
  obtain ⟨creates, systems⟩ := vfsMkdir_spec sound.inv ok made
  rcases creates with ⟨_, agree, holds⟩ | ⟨d, parent, outcome⟩
  · exact sound.agree systems agree (Or.inl rfl) (List.Subset.refl own) holds
  · cases outcome with
    | failed _ agree holds =>
        exact sound.agree systems agree (Or.inl rfl) (List.Subset.refl own) holds
    | @made w new child holds =>
        rw [← List.append_assoc] at holds
        exact sound.newChild systems child (Or.inr ⟨d, rfl, parent, child.creatable⟩)
          (List.subset_append_right new own) (List.subset_append_left new own) holds

/-- The new file, if there is one, is in use by the rest of the kernel. -/
theorem Sound.open (ok : CwdOk s.toGraph V cwd)
    (opened : vfsOpen s cwd pathname flags = some (s', result, target)) :
    Continues s.toGraph s' root V own (if result = 0 then target.toList ++ others else others)
      fun effect => effect = .none ∨
        flags &&& oCreat ≠ 0 ∧ MayCreate s.toGraph root cwd pathname .file effect := by
  obtain ⟨opens, systems⟩ := vfsOpen_spec sound.inv ok opened
  have handed : ∀ {live rest : List Nat}, live = rest ++ others → Opened s' live result target →
      ∃ leaked, Holds s'.heap
        ((leaked ++ rest) ++ if result = 0 then target.toList ++ others else others) := by
    rintro _ rest rfl opened
    by_cases success : result = 0
    · obtain ⟨f, leaked, rfl, holds⟩ := opened.opened success
      rw [if_pos success]
      rw [← List.append_assoc] at holds
      exact ⟨leaked, Allocator.perm holds List.perm_middle.symm⟩
    · obtain ⟨leaked, holds⟩ := opened.failed success
      rw [if_neg success]
      rw [← List.append_assoc] at holds
      exact ⟨leaked, holds⟩
  rcases opens with ⟨agree, opened⟩ | ⟨creates, d, w, new, parent, child, opened⟩
  · obtain ⟨leaked, holds⟩ := handed rfl opened
    exact sound.agree systems agree (Or.inl rfl) (List.subset_append_right leaked own) holds
  · obtain ⟨leaked, holds⟩ := handed (List.append_assoc new own others).symm opened
    exact sound.newChild systems child
      (Or.inr ⟨creates, Or.inr ⟨d, rfl, parent, child.creatable⟩⟩)
      (List.Subset.trans (List.subset_append_right new own) (List.subset_append_right leaked _))
      (List.Subset.trans (List.subset_append_left new own) (List.subset_append_right leaked _)) holds

theorem Sound.mknod (ok : CwdOk s.toGraph V cwd)
    (made : vfsMknod s cwd pathname fOps = some (s', result)) :
    Continues s.toGraph s' root V own others (MayCreate s.toGraph root cwd pathname .file) := by
  obtain ⟨outcome, systems⟩ := vfsMknod_spec sound.inv ok made
  rcases outcome with ⟨agree, kept, holds⟩ | ⟨d, w, new, parent, child, kept, holds⟩
  · rw [← List.append_assoc] at holds
    exact sound.agree systems agree (Or.inl rfl) (List.subset_append_right kept own) holds
  · rw [← List.append_assoc new, ← List.append_assoc] at holds
    exact sound.newChild systems child (Or.inr ⟨d, rfl, parent, child.creatable⟩)
      (List.Subset.trans (List.subset_append_right new own) (List.subset_append_right kept _))
      (List.Subset.trans (List.subset_append_left new own) (List.subset_append_right kept _)) holds

theorem Sound.mount (ok : CwdOk s.toGraph V cwd)
    (clean : filesystemName = initramfsName → CleanMemory s cwd pathname)
    (mounted : vfsMount s cwd pathname filesystemName = some (s', result)) :
    Continues s.toGraph s' root V own others (MayMount s.toGraph cwd pathname result) := by
  obtain ⟨outcome, systems⟩ := vfsMount_spec sound.inv ok sound.registered clean mounted
  cases outcome with
  | failed nonzero agree holds =>
      exact sound.agree systems agree (Or.inl ⟨nonzero, rfl⟩) (List.Subset.refl own) holds
  | @done t k m n new target made _ _ vnode node mount holds =>
      rw [← List.append_assoc] at holds
      exact sound.mounted systems made (Or.inr ⟨rfl, t, rfl, target⟩)
        (List.subset_append_right new own) (List.mem_append_left own vnode)
        (List.mem_append_left own node) (List.mem_append_left own mount) holds

/-- A file that is closed is not in use any more by the rest of the kernel. -/
theorem Sound.close {f : Nat} (inUse : f ∈ others) :
    Continues s.toGraph (vfsClose s f).1 root V own (others.erase f) Quiet := by
  have split : (own ++ others).Perm (f :: (own ++ others.erase f)) :=
    ((List.perm_cons_erase inUse).append_left own).trans List.perm_middle
  obtain ⟨graph, systems, kept, holds⟩ := vfsClose_spec (Allocator.perm sound.holds split)
  rw [← List.append_assoc] at holds
  apply sound.agree systems ?_ quiet (List.subset_append_right kept own) holds
  rw [graph]
  exact .refl _ _

/-- The rest of the kernel uses the same heap. -/
theorem Sound.alloc (size : Nat) :
    Continues s.toGraph (s.alloc size).1 root V own ((s.alloc size).2.toList ++ others) Quiet := by
  have agree : Agree s.toGraph (s.alloc size).1.toGraph V := .refl _ _
  apply sound.agree (alloc_filesystems s size) agree quiet (List.Subset.refl own)
  cases allocated : (s.alloc size).2 with
  | none => exact alloc_none sound.holds allocated
  | some p => exact Allocator.perm (alloc_some sound.holds allocated).2 List.perm_middle.symm

theorem Sound.free {p : Nat} (inUse : p ∈ others) :
    Continues s.toGraph (s.free p) root V own (others.erase p) Quiet := by
  have agree : Agree s.toGraph (s.free p).toGraph V := .refl _ _
  apply sound.agree (free_filesystems s p) agree quiet (List.Subset.refl own)
  exact free_head (Allocator.perm sound.holds
    (((List.perm_cons_erase inUse).append_left own).trans List.perm_middle))

end Operations

/-! ## What a failed lookup leaves behind -/

section Target

variable {g : Graph} {root : Nat} {V : Set Nat} {cwd target : Option Nat} {pathname : Name}
  {result : Int} {w w' : Walk} {names : List Name}

theorem cwdOk_none : CwdOk g V none := fun _ impossible => by cases impossible

/-- The vnode that a component stores is the one it leads to. -/
theorem walkComponent_target {name : Name}
    (stepped : walkComponent g w name = some (result, w')) :
    w'.target = w.target ∨ w'.target = w'.current := by
  unfold walkComponent at stepped
  split at stepped
  · cases stepped
    exact Or.inl rfl
  · split at stepped
    · unfold walkUp at stepped
      obtain ⟨root, _, rest⟩ := Option.bind_eq_some_iff.mp stepped
      split at rest
      · cases rest
        exact Or.inl rfl
      · obtain ⟨current, _, rest⟩ := Option.bind_eq_some_iff.mp rest
        repeat' split at rest
        all_goals cases rest
        all_goals first | exact Or.inl rfl | exact Or.inr rfl
    · unfold walkDown at stepped
      obtain ⟨current, _, rest⟩ := Option.bind_eq_some_iff.mp stepped
      obtain ⟨dir, _, rest⟩ := Option.bind_eq_some_iff.mp rest
      split at rest
      · cases rest
        exact Or.inl rfl
      · obtain ⟨found, _, rest⟩ := Option.bind_eq_some_iff.mp rest
        dsimp only at rest
        split at rest
        · cases rest
          exact Or.inl rfl
        · obtain ⟨next, _, rest⟩ := Option.bind_eq_some_iff.mp rest
          cases rest
          exact Or.inl rfl

/-- A component that is not found leaves both variables as they are. -/
theorem walkComponent_failed {name : Name} (stepped : walkComponent g w name = some (result, w'))
    (failed : result ≠ 0) : w' = w := by
  unfold walkComponent at stepped
  split at stepped
  · cases stepped
    rfl
  · split at stepped
    · unfold walkUp at stepped
      obtain ⟨root, _, rest⟩ := Option.bind_eq_some_iff.mp stepped
      split at rest
      · cases rest
        rfl
      · obtain ⟨current, _, rest⟩ := Option.bind_eq_some_iff.mp rest
        repeat' split at rest
        all_goals cases rest
        all_goals first | rfl | exact absurd rfl failed
    · unfold walkDown at stepped
      obtain ⟨current, _, rest⟩ := Option.bind_eq_some_iff.mp stepped
      obtain ⟨dir, _, rest⟩ := Option.bind_eq_some_iff.mp rest
      split at rest
      · cases rest
        rfl
      · obtain ⟨found, _, rest⟩ := Option.bind_eq_some_iff.mp rest
        dsimp only at rest
        split at rest
        · cases rest
          rfl
        · obtain ⟨next, _, rest⟩ := Option.bind_eq_some_iff.mp rest
          cases rest
          exact absurd rfl failed

variable (tree : Tree g root V)
include tree

theorem Tree.component_ok {name : Name} (current : CwdOk g V w.current)
    (target : CwdOk g V w.target) (stepped : walkComponent g w name = some (result, w')) :
    CwdOk g V w'.current ∧ CwdOk g V w'.target := by
  by_cases failed : result = 0
  · subst failed
    have moved : CwdOk g V w'.current := by
      by_cases dot : name = ['.']
      · subst dot
        cases stepped
        exact current
      · have forgets := @walkComponent_current g w name
        rw [stepped] at forgets
        cases here : w.current with
        | none =>
            rw [here] at forgets
            have stuck : step g none name = none := by
              unfold step walkComponent
              rw [if_neg dot]
              split
              · unfold walkUp
                rw [tree.rootVnode]
                rfl
              · rfl
            rw [stuck] at forgets
            cases forgets
        | some v =>
            rw [here] at forgets
            obtain ⟨member, proper⟩ := current v here
            obtain ⟨names, path⟩ := tree.path member
            obtain ⟨v', inTree, isSome, proper', _⟩ :=
              tree.step_located member proper path dot forgets.symm
            intro u isCurrent
            rw [isSome] at isCurrent
            cases isCurrent
            exact ⟨inTree, proper'⟩
    refine ⟨moved, ?_⟩
    rcases walkComponent_target stepped with same | same
    · rw [same]
      exact target
    · rw [same]
      exact moved
  · rw [walkComponent_failed stepped failed]
    exact ⟨current, target⟩

theorem Tree.walkAll_ok (current : CwdOk g V w.current) (target : CwdOk g V w.target)
    {outcome : Option Nat} (walked : walkAll g w names = some (result, outcome)) :
    CwdOk g V outcome := by
  induction names generalizing w with
  | nil =>
      cases walked
      exact current
  | cons name names ih =>
      rw [walkAll] at walked
      obtain ⟨⟨r, w'⟩, stepped, rest⟩ := Option.bind_eq_some_iff.mp walked
      obtain ⟨current', target'⟩ := tree.component_ok current target stepped
      dsimp only at rest
      split at rest
      · cases rest
        exact target'
      · exact ih current' target' rest

/-- Whatever a lookup returns, what it stores is a good current directory. -/
theorem Tree.resolve_ok (ok : CwdOk g V cwd)
    (resolved : resolve g cwd pathname = some (result, target)) : CwdOk g V target := by
  rw [resolve_eq] at resolved
  split at resolved
  · obtain ⟨start, isRoot, walked⟩ := Option.bind_eq_some_iff.mp resolved
    rw [tree.rootVnode] at isRoot
    cases isRoot
    refine tree.walkAll_ok ?_ cwdOk_none walked
    rintro v isRoot
    cases isRoot
    exact ⟨tree.root_mem, proper_of_clear tree.rootMount⟩
  · split at resolved
    · cases resolved
      exact cwdOk_none
    · exact tree.walkAll_ok ok cwdOk_none resolved

end Target

end OsdiKernel.Fs
