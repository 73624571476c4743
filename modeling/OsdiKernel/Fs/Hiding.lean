import OsdiKernel.Fs.Ascent
import OsdiKernel.Fs.MountPoints

/-!
# What a mount hides

A mount replaces what is below its target by an empty directory.  Absolute
paths that do not go through the target lead where they led before.
-/

namespace OsdiKernel.Fs

open Allocator (Holds)

variable {H : Type} [Allocator H]

/-! ## Places -/

/-- The path does not go up. -/
def Descends (names : List Name) : Prop := ∀ name ∈ names, name ≠ ['.', '.']

theorem normalise_descends (place : List Name) {names : List Name} (descends : Descends names) :
    normalise place names = place ++ names := by
  induction names generalizing place with
  | nil => exact (List.append_nil place).symm
  | cons name names ih =>
      unfold normalise
      rw [if_neg (descends name List.mem_cons_self),
        ih _ fun later member => descends later (List.mem_cons_of_mem name member),
        List.append_assoc, List.singleton_append]

theorem Descends.initial {names before : List Name} (descends : Descends names)
    (isPrefix : before <+: names) : Descends before :=
  fun name member => descends name (isPrefix.subset member)

/-- A path that does not go up only goes through its prefixes. -/
theorem avoids_unless_begins {target names : List Name} (descends : Descends names)
    (other : ¬ target <+: names) : Avoids [] target names := by
  intro before isPrefix
  rw [normalise_descends [] (descends.initial isPrefix), List.nil_append]
  rintro rfl
  exact other isPrefix

section Mount

variable {g g' : Graph} {root v t k m n : Nat} {V : Set Nat} {names : List Name} {name : Name}

/-- A name leads to a vnode that is not covered. -/
theorem Tree.step_clear (tree : Tree g root V) (member : v ∈ V) (isName : IsName name) {w : Nat}
    (stepped : step g (some v) name = some (0, some w)) : (g.vnodes w).mount = none := by
  obtain ⟨e, inTree, crossed, _⟩ := tree.cross member
  obtain ⟨ops, hasOps⟩ := tree.ops inTree
  obtain ⟨n, internal⟩ := tree.internal inTree
  obtain ⟨found, result, isChild⟩ := tree.find inTree internal name
  rw [step_name isName crossed hasOps internal, result] at stepped
  split at stepped
  · cases stepped
  · cases found with
    | none => cases stepped
    | some c =>
        obtain ⟨w', _, crossed', clear⟩ := tree.cross (isChild c rfl).1
        rw [Option.map_some] at stepped
        dsimp only at stepped
        rw [crossed'] at stepped
        cases stepped
        exact clear

variable (tree : Tree g root V) (mounted : Mounted g g' V t k m n)
include tree mounted

/-- The path of the target leads to the new root. -/
theorem Mounted.walk_target (descends : Descends names) (noDots : ∀ name ∈ names, name ≠ ['.'])
    (reached : walk g (some root) names = some (0, some t)) :
    walk g' (some root) names = some (0, some k) := by
  have proper := proper_of_clear tree.rootMount
  have target : PathOf g root t names := by
    obtain ⟨t', _, same, _, path⟩ :=
      tree.walk_located tree.root_mem proper .root noDots reached
    cases same
    rwa [normalise_descends [] descends, List.nil_append] at path
  rcases List.eq_nil_or_concat names with rfl | ⟨above, name, rfl⟩
  · cases reached
    have flag := mounted.targetChild
    rw [tree.rootIsMount] at flag
    cases flag
  · rw [List.concat_eq_append] at *
    have isName : IsName name := ⟨noDots name (by simp), descends name (by simp)⟩
    have aboveDots : ∀ x ∈ above, x ≠ ['.'] := fun x member => noDots x (by simp [member])
    have avoids : Avoids [] (above ++ [name]) above := by
      apply avoids_unless_begins fun x member => descends x (by simp [member])
      intro isPrefix
      have shorter := isPrefix.length_le
      rw [List.length_append, List.length_singleton] at shorter
      omega
    have frame := walk_frame tree (mounted.sameOff tree target) tree.root_mem proper .root
      aboveDots avoids
    rw [walk_append] at reached ⊢
    rw [frame]
    obtain ⟨⟨r, mid⟩, first, rest⟩ := Option.bind_eq_some_iff.mp reached
    dsimp only at rest
    have success : r = 0 := by
      by_contra failed
      rw [if_pos failed] at rest
      cases rest
      exact failed rfl
    subst success
    rw [if_neg (not_not_intro rfl)] at rest
    obtain ⟨u, member, rfl, _, path⟩ :=
      tree.walk_located tree.root_mem proper .root aboveDots first
    have stepped : Fs.step g (some u) name = some (0, some t) := step_of_walk rest
    have other : u ≠ t := by
      rintro rfl
      rw [normalise_descends [] fun x member => descends x (by simp [member])] at path
      have lengths := congrArg List.length (path.unique target)
      simp at lengths
    rw [first, Option.bind_some, if_neg (not_not_intro rfl), walk]
    rcases mounted.step tree member other name with same | ⟨_, _, _, _, _, _, _, _, later⟩
    · have clear := (mounted.isTree tree).step_clear (Set.mem_insert_of_mem k member) isName
        (same.trans stepped)
      rw [mounted.mountNew] at clear
      cases clear
    · rw [later]
      rfl

omit tree in
/-- No name is found in the new root. -/
theorem Mounted.walk_hidden (directory : (g'.nodes n).type = .directory) (isName : IsName name) :
    walk g' (some k) (name :: names) = some (enoent, none) := by
  rw [walk, mounted.step_empty isName directory]
  rfl

end Mount

/-! ## The effect of a mount -/

/-- A mount of a file system on a path that is already a mount point is refused. -/
def RefusesMount (s : State H) (cwd : Option Nat) (p name : Name) : Prop :=
  ∃ s', vfsMount s cwd p name =
      some (s', if CopyAllocated s p then ebusy else enomem) ∧
    s'.toGraph = s.toGraph ∧ s'.files = s.files ∧ s'.filesystems = s.filesystems

/-- The path leads to a new directory, which is empty.  Nothing is found below
it, and other paths are not affected. -/
structure Hides (s s' : State H) (p : Name) (k : Nat) : Prop where
  fresh : ¬ Linked s.toGraph k
  target : ∀ cwd, Yields s' cwd p k
  empty : ∃ n, (s'.vnodes k).internal = some n ∧ (s'.nodes n).type = .directory ∧
    (s'.nodes n).numChildren = 0
  hidden : ∀ cwd q, components q ≠ [] → Descends (components q) →
    lookupOutcome s' cwd (p ++ '/' :: q) =
      some (if CopyAllocated s' (p ++ '/' :: q) then enoent else enomem, none)
  elsewhere : ∀ cwd r, startsWithSlash r = true → Descends (components r) →
    ¬ components p <+: components r → CopyAllocated s r → CopyAllocated s' r →
      lookupOutcome s' cwd r = lookupOutcome s cwd r
  refuses : ∀ cwd name, (∃ fs ∈ s'.filesystems, fs.name = name) → RefusesMount s' cwd p name

section Effect

variable {s s' : State H} {root v k : Nat} {V : Set Nat} {live : List Nat} {cwd : Option Nat}
  {p name : Name}

omit [Allocator H] in
theorem settle_result {outcome : Int × Option Nat} {result : Int} {target : Option Nat}
    (same : settle outcome = (result, target)) : outcome.1 = result := by
  unfold settle at same
  split at same <;> cases same <;> rfl

omit [Allocator H] in
theorem settle_success {outcome : Int × Option Nat} {target : Option Nat}
    (same : settle outcome = (0, target)) : outcome = (0, target) := by
  have success := settle_result same
  unfold settle at same
  rwa [if_pos success] at same

/-- The root of a mount is not mounted on. -/
theorem vfsMount_refused (yields : Yields s cwd p v) (hasOps : (s.vnodes v).vOps ≠ none)
    (isRoot : (s.vnodes v).parentIsMount = true) (known : ∃ fs ∈ s.filesystems, fs.name = name)
    (holds : Holds s.heap live) : RefusesMount s cwd p name := by
  obtain ⟨fs, found⟩ : ∃ fs, s.filesystems.find? (fun fs => fs.name = name) = some fs := by
    apply Option.isSome_iff_exists.mp
    simpa using known
  unfold Yields lookupOutcome at yields
  obtain ⟨⟨s₁, result, target⟩, looked, same⟩ := Option.map_eq_some_iff.mp yields
  obtain ⟨graph, files, systems, _⟩ := (vfsLookup_looked holds looked).1
  refine ⟨s₁, ?_, graph, files, systems⟩
  unfold vfsMount
  rw [found]
  dsimp only [Option.bind_eq_bind]
  rw [looked, Option.bind_some]
  dsimp only at same ⊢
  by_cases allocated : CopyAllocated s p
  · rw [if_pos allocated] at same ⊢
    cases settle_success same
    rw [if_neg (not_not_intro rfl), Option.bind_some, graph, if_neg hasOps,
      if_pos (Or.inr isRoot)]
    rfl
  · rw [if_neg allocated] at same ⊢
    have failed : result = enomem := settle_result same
    rw [failed, if_pos (by decide)]
    rfl

theorem Tree.hides {t m n : Nat} (tree : Tree s.toGraph root V)
    (mounted : Mounted s.toGraph s'.toGraph V t k m n) (holds : Holds s'.heap live)
    (directory : (s'.nodes n).type = .directory) (absolute : startsWithSlash p = true)
    (descends : Descends (components p))
    (reached : walk s.toGraph (some root) (components p) = some (0, some t)) :
    Hides s s' p k := by
  have tree' := mounted.isTree tree
  have proper := proper_of_clear tree.rootMount
  have walked := mounted.walk_target tree descends (components_ne_dot p) reached
  have yields : ∀ cwd, Yields s' cwd p k := fun cwd => yields_of_walk tree' absolute walked
  constructor
  · exact fun linked => mounted.newVnode (tree.linked linked)
  · exact yields
  · exact ⟨n, mounted.internalNew, directory, mounted.empty⟩
  · intro cwd q nonempty below
    have hidden : walk s'.toGraph (some root) (components (p ++ '/' :: q)) = some (enoent, none) := by
      rw [components_append, walk_append, walked]
      dsimp only [Option.bind_some]
      rw [if_neg (not_not_intro rfl)]
      cases names : components q with
      | nil => exact absurd names nonempty
      | cons name rest =>
          have member : name ∈ components q := names ▸ List.mem_cons_self
          exact mounted.walk_hidden directory ⟨components_ne_dot q name member, below name member⟩
    rw [lookupOutcome_absolute tree' (startsWithSlash_extend absolute ('/' :: q)), hidden]
    split <;> rfl
  · intro cwd r absolute' descends' other allocated allocated'
    rw [lookupOutcome_absolute tree' absolute', lookupOutcome_absolute tree absolute',
      if_pos allocated', if_pos allocated]
    obtain ⟨t', _, same, _, path⟩ :=
      tree.walk_located tree.root_mem proper .root (components_ne_dot p) reached
    cases same
    rw [normalise_descends [] descends, List.nil_append] at path
    exact walk_frame tree (mounted.sameOff tree path) tree.root_mem proper .root
      (components_ne_dot r) (avoids_unless_begins descends' other)
  · intro cwd name known
    obtain ⟨ops, hasOps⟩ := mounted.hasOps
    exact vfsMount_refused (yields cwd) (hasOps ▸ Option.some_ne_none ops) mounted.isRoot known holds

end Effect

/-- In every state that is reached, a mount of a tmpfs on an absolute path that
does not go up hides what is below the path, and nothing else. -/
theorem run_mount_hides {allowed : System H → Op → Prop} (sys : System H)
    (reached : Reachable allowed sys) (thread : Nat) (p : Name) (s' : State H)
    (absolute : startsWithSlash p = true) (descends : Descends (components p))
    (mounted : vfsMount sys.state (sys.cwd thread) p tmpfsName = some (s', 0)) :
    ∃ k, Hides sys.state s' p k := by
  obtain ⟨root, V, own, running⟩ := reached.running
  have tree := running.sound.tree
  have outcome := (vfsMount_spec running.sound.inv (running.cwds thread) running.sound.registered
    (fun impossible => by cases impossible) mounted).1
  cases outcome with
  | failed nonzero _ _ => exact absurd rfl nonzero
  | @done t k m n new target made directory _ _ _ _ holds =>
      refine ⟨k, tree.hides made holds (directory rfl) absolute descends ?_⟩
      have settled := settle_resolve sys.state.toGraph (sys.cwd thread) p
      rw [target, absolute] at settled
      unfold walkPath origin at settled
      rw [if_pos rfl, tree.rootVnode] at settled
      exact settled.symm

/-! ## A mount on "/dev" -/

def devPath : Name := ['/', 'd', 'e', 'v']

/-- The state after the mount. -/
def mountedDev : State BootHeap × Int :=
  (vfsMount initState none devPath tmpfsName).get (by decide +kernel)

theorem mountedDev_mounts : vfsMount initState none devPath tmpfsName = some (mountedDev.1, 0) := by
  have success : mountedDev.2 = 0 := by decide +kernel
  exact eq_some_get _ success

theorem run_mount_hides_dev : ∃ k, Hides initSystem.state mountedDev.1 devPath k := by
  apply run_mount_hides initSystem (@Reachable.boot _ _ (fun _ _ => True) _ init_booted) 0 devPath
    mountedDev.1 (by decide)
  · intro name member
    have only : components devPath = [['d', 'e', 'v']] := by decide +kernel
    rw [only, List.mem_singleton] at member
    subst member
    decide
  · rw [initSystem_state]
    exact mountedDev_mounts

/-- A second mount on "/dev" of a file system that is not registered. -/
def unknownOnDev : State BootHeap × Int :=
  (vfsMount mountedDev.1 none devPath []).get (by decide +kernel)

/-- A second mount on the path fails with another code if its file system is unknown. -/
theorem second_mount_unknown :
    ∃ sys : System BootHeap, Reachable (fun _ _ => True) sys ∧ ∃ p s' name s'' result,
      startsWithSlash p = true ∧ Descends (components p) ∧
        vfsMount sys.state none p tmpfsName = some (s', 0) ∧
        vfsMount s' none p name = some (s'', result) ∧ result ≠ ebusy := by
  refine ⟨initSystem, .boot init_booted, ?_⟩
  rw [initSystem_state]
  refine ⟨devPath, mountedDev.1, [], unknownOnDev.1, unknownOnDev.2, by decide, ?_, mountedDev_mounts,
    eq_some_get _ rfl, by decide +kernel⟩
  intro name member
  have only : components devPath = [['d', 'e', 'v']] := by decide +kernel
  rw [only, List.mem_singleton] at member
  subst member
  decide

end OsdiKernel.Fs
