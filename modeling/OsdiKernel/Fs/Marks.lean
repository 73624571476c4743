import OsdiKernel.Fs.Soundness
import OsdiKernel.Fs.Visible

/-!
# Mount points

A vnode is marked by its field `mount`.  The marks are exact as long as no child
is created in a directory that is covered by a mount, and nothing but
directories is covered.
-/

namespace OsdiKernel.Fs

/-- The node of the vnode is a directory. -/
def IsDirectory (g : Graph) (v : Nat) : Prop :=
  ∃ n, (g.vnodes v).internal = some n ∧ (g.nodes n).type = .directory

/-- The vnodes `T`, and no others, are covered by a mount. -/
structure Marks (g : Graph) (V T : Set Nat) : Prop where
  only : ∀ {v}, v ∈ V → (g.vnodes v).mount ≠ none → v ∈ T
  member : ∀ {v}, v ∈ T → v ∈ V
  point : ∀ {v}, v ∈ T → ∃ m k, (g.vnodes v).mount = some m ∧ (g.mounts m).root = some k ∧
    (g.vnodes k).parent = some v
  directory : ∀ {v}, v ∈ T → IsDirectory g v

namespace Effect

/-- A child of a directory that is not covered, or a mount on a directory. -/
def Calm (g : Graph) : Effect → Prop
  | none => True
  | child d _ => (g.vnodes d).mount = Option.none
  | mount t => IsDirectory g t

/-- The new mount points. -/
def points : Effect → Set Nat
  | none => ∅
  | child _ _ => ∅
  | mount t => {t}

end Effect

section Change

variable {g g' : Graph} {root v : Nat} {V V' T : Set Nat} {effect : Effect}

theorem Preserves.directory (pre : Preserves g g' V) (member : v ∈ V)
    (directory : IsDirectory g v) : IsDirectory g' v := by
  obtain ⟨n, internal, type⟩ := directory
  exact ⟨n, (pre.internal member).trans internal, (pre.label member internal).2.trans type⟩

/-- A mount point stays one. -/
theorem Marks.point_preserved (marks : Marks g V T) (tree : Tree g root V)
    (pre : Preserves g g' V) (inT : v ∈ T) :
    ∃ m k, (g'.vnodes v).mount = some m ∧ (g'.mounts m).root = some k ∧
      (g'.vnodes k).parent = some v := by
  obtain ⟨m, k, mount, isRoot, parent⟩ := marks.point inT
  obtain ⟨k', rootInTree, _, _, on, _⟩ := tree.mount (marks.member inT) mount
  rw [on.root] at isRoot
  cases isRoot
  obtain ⟨mount', same⟩ := pre.mount (marks.member inT) mount
  refine ⟨m, k, mount', ?_, (pre.parent rootInTree).trans parent⟩
  rw [same]
  exact on.root

theorem Marks.change (marks : Marks g V T) (tree : Tree g root V)
    (change : Change g g' V effect V') (calm : effect.Calm g) :
    Marks g' V' (effect.points ∪ T) := by
  cases change with
  | same agree =>
      rw [show Effect.none.points = ∅ from rfl, Set.empty_union]
      constructor
      · intro v member mounted
        rw [agree.mounts member] at mounted
        exact marks.only member mounted
      · exact marks.member
      · exact marks.point_preserved tree agree.toPreserves
      · exact fun inT => agree.toPreserves.directory (marks.member inT) (marks.directory inT)
  | @child d w n name created proper =>
      rw [show (Effect.child d (g'.nodes n).type).points = ∅ from rfl, Set.empty_union]
      constructor
      · intro v member mounted
        rcases Set.mem_insert_iff.mp member with rfl | old
        · rw [created.mountCopied] at mounted
          exact absurd calm mounted
        · rw [created.mounts old] at mounted
          exact marks.only old mounted
      · exact fun inT => Set.mem_insert_of_mem w (marks.member inT)
      · exact marks.point_preserved tree created.toPreserves
      · exact fun inT => created.toPreserves.directory (marks.member inT) (marks.directory inT)
  | @mount t k m n mounted =>
      constructor
      · intro v member isMount
        rcases Set.mem_insert_iff.mp member with rfl | old
        · exact absurd mounted.clear isMount
        · by_cases here : v = t
          · exact Or.inl here
          · rw [mounted.mounts old here] at isMount
            exact Or.inr (marks.only old isMount)
      · intro v inT
        rcases inT with rfl | inT
        · exact Set.mem_insert_of_mem k mounted.target
        · exact Set.mem_insert_of_mem k (marks.member inT)
      · intro v inT
        rcases inT with rfl | inT
        · exact ⟨m, k, mounted.mountNew, mounted.rootNew, mounted.parentNew⟩
        · exact marks.point_preserved tree mounted.toPreserves inT
      · intro v inT
        rcases inT with rfl | inT
        · exact mounted.toPreserves.directory mounted.target calm
        · exact mounted.toPreserves.directory (marks.member inT) (marks.directory inT)

/-- The operation makes no file. -/
def Effect.NoFile : Effect → Prop
  | none => True
  | child _ type => type = .directory
  | mount _ => False

/-- Where there are only directories, there are only directories afterwards. -/
theorem Change.directories (change : Change g g' V effect V')
    (directories : ∀ v ∈ V, IsDirectory g v) (noFile : effect.NoFile) :
    ∀ v ∈ V', IsDirectory g' v := by
  cases change with
  | same agree => exact fun v member => agree.toPreserves.directory member (directories v member)
  | @child d w n name created proper =>
      intro v member
      rcases Set.mem_insert_iff.mp member with rfl | old
      · exact ⟨n, created.internalNew, noFile⟩
      · exact created.toPreserves.directory old (directories v old)
  | mount => exact noFile.elim

end Change

/-! ## Absolute paths -/

section Absolute

variable {g g' : Graph} {root : Nat} {V V' T : Set Nat} {effect : Effect} {pathname : Name}
  {type : Tmpfs.NodeType} {i : Nat}

theorem MayCreate.points {cwd : Option Nat} (may : MayCreate g root cwd pathname type effect) :
    effect.points = ∅ := by
  rcases may with rfl | ⟨d, rfl, _⟩ <;> rfl

theorem startsWithSlash_parentPath (absolute : startsWithSlash pathname = true) :
    startsWithSlash (parentPath pathname i) = true := by
  unfold parentPath
  split
  · rfl
  · next positive =>
      cases pathname with
      | nil => exact absurd absolute (by decide)
      | cons c rest =>
          obtain ⟨j, rfl⟩ := Nat.exists_eq_succ_of_ne_zero positive
          exact absolute

/-- The parent of an absolute path is not covered. -/
theorem ParentOf.clear {cwd : Option Nat} {d : Nat} (tree : Tree g root V)
    (absolute : startsWithSlash pathname = true) (slash : lastSlash pathname ≠ none)
    (parent : ParentOf g root cwd pathname d) : (g.vnodes d).mount = none := by
  unfold ParentOf at parent
  split at parent
  · next missing => exact absurd missing slash
  · obtain ⟨v, _, same, visible⟩ :=
      (tree.resolve_visible (startsWithSlash_parentPath absolute) parent).1 rfl
    cases same
    exact tree.visible_clear visible

theorem lastSlashLoop_of_slash {k : Nat} (slash : pathname[i]? = some '/') (below : i < k) :
    lastSlashLoop pathname k ≠ none := by
  induction k with
  | zero => exact absurd below (Nat.not_lt_zero i)
  | succ k ih =>
      unfold lastSlashLoop
      split
      · exact Option.some_ne_none k
      · next other =>
          apply ih
          have : i ≠ k := by
            rintro rfl
            exact other slash
          omega

theorem lastSlash_absolute (absolute : startsWithSlash pathname = true) :
    lastSlash pathname ≠ none := by
  cases pathname with
  | nil => exact absurd absolute (by decide)
  | cons c rest =>
      have slash : c = '/' := by simpa [startsWithSlash] using absolute
      subst slash
      exact lastSlashLoop_of_slash rfl (Nat.succ_pos rest.length)

theorem Tree.create_calm {cwd : Option Nat} (tree : Tree g root V)
    (absolute : startsWithSlash pathname = true)
    (may : MayCreate g root cwd pathname type effect) : effect.Calm g := by
  rcases may with rfl | ⟨d, rfl, parent, _⟩
  · trivial
  · exact parent.clear tree absolute (lastSlash_absolute absolute)

/-- What is created by an absolute path is no mount point. -/
theorem Marks.created {cwd : Option Nat} (marks : Marks g V T) (tree : Tree g root V)
    (absolute : startsWithSlash pathname = true)
    (may : MayCreate g root cwd pathname type effect) (change : Change g g' V effect V') :
    Marks g' V' T := by
  have later := marks.change tree change (tree.create_calm absolute may)
  rwa [may.points, Set.empty_union] at later

end Absolute

end OsdiKernel.Fs
