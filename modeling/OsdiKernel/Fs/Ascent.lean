import OsdiKernel.Fs.MountPoints

/-!
# Going up again

In every state that is reached, a lookup of an absolute path stays among the
vnodes that are seen from the root.  From there ".." undoes the last component
of the path, across any number of mounts, and it never meets a vnode without a
parent.  Only the copy of the path may fail, for want of memory.
-/

namespace OsdiKernel.Fs

variable {H : Type} [Allocator H]

/-! ## Components -/

section Components

variable {c : Name}

/-- A component of a path that is a name. -/
structure IsComponent (c : Name) : Prop where
  nonempty : c ≠ []
  noSlash : '/' ∉ c
  isName : IsName c

theorem IsComponent.components (isComponent : IsComponent c) : components c = [c] := by
  unfold Fs.components
  rw [tokens_single isComponent.nonempty isComponent.noSlash]
  simp [isComponent.isName.1]

theorem components_child (p : Name) (isComponent : IsComponent c) :
    components (p ++ '/' :: c) = components p ++ [c] := by
  rw [components_append, isComponent.components]

theorem components_up (p : Name) :
    components (p ++ ['/', '.', '.']) = components p ++ [['.', '.']] := components_append p ['.', '.']

end Components

/-! ## Lookups of absolute paths -/

section Lookup

variable {s : State H} {root : Nat} {V : Set Nat} {cwd : Option Nat} {p c : Name}

theorem lookupOutcome_of_not_allocated (failed : ¬ CopyAllocated s p) :
    lookupOutcome s cwd p = some (enomem, none) := by
  unfold CopyAllocated at failed
  unfold lookupOutcome
  rw [vfsLookup_eq, not_not.mp failed]
  rfl

theorem allocated_of_success {v : Option Nat} (success : lookupOutcome s cwd p = some (0, v)) :
    CopyAllocated s p := by
  by_contra failed
  rw [lookupOutcome_of_not_allocated failed] at success
  cases success

variable (tree : Tree s.toGraph root V) (absolute : startsWithSlash p = true)
include tree absolute

/-- A lookup of an absolute path is a walk from the root. -/
theorem lookupOutcome_absolute :
    lookupOutcome s cwd p =
      if CopyAllocated s p then walk s.toGraph (some root) (components p)
      else some (enomem, none) := by
  split
  · next allocated =>
      rw [lookupOutcome_eq allocated, absolute]
      unfold walkPath origin
      rw [if_pos rfl, tree.rootVnode]
      rfl
  · next failed => exact lookupOutcome_of_not_allocated failed

theorem walk_of_lookup {v : Option Nat} (success : lookupOutcome s cwd p = some (0, v)) :
    walk s.toGraph (some root) (components p) = some (0, v) := by
  have allocated := allocated_of_success success
  rw [lookupOutcome_absolute tree absolute, if_pos allocated] at success
  exact success

omit tree in
theorem startsWithSlash_extend (q : Name) : startsWithSlash (p ++ q) = true := by
  rw [startsWithSlash_append ?_ q]
  · exact absolute
  · rintro rfl
    cases absolute

end Lookup

/-! ## The inverse of a descent -/

theorem step_of_walk {g : Graph} {current v : Option Nat} {name : Name}
    (walked : walk g current [name] = some (0, v)) : step g current name = some (0, v) := by
  rw [walk] at walked
  obtain ⟨⟨r, next⟩, stepped, last⟩ := Option.bind_eq_some_iff.mp walked
  rw [stepped]
  dsimp only at last
  split at last
  · next failed =>
      cases last
      exact absurd rfl failed
  · next success =>
      rw [not_not.mp success]
      exact last

/-- The lookup yields a vnode, or its copy of the path is not allocated. -/
def Yields (s : State H) (cwd : Option Nat) (pathname : Name) (v : Nat) : Prop :=
  lookupOutcome s cwd pathname =
    some (if CopyAllocated s pathname then (0, some v) else (enomem, none))

section Ascent

variable {s : State H} {root : Nat} {V : Set Nat} {cwd : Option Nat} {p c : Name}
  (tree : Tree s.toGraph root V)
include tree

theorem yields_of_walk {v : Nat} (absolute : startsWithSlash p = true)
    (walked : walk s.toGraph (some root) (components p) = some (0, some v)) : Yields s cwd p v := by
  unfold Yields
  rw [lookupOutcome_absolute tree absolute, walked]
  split <;> rfl

/-- If "p/c" is found, then "p/c/.." is what "p" is. -/
theorem Tree.up_inverts (absolute : startsWithSlash p = true) (isComponent : IsComponent c)
    {v : Option Nat} (found : lookupOutcome s cwd (p ++ '/' :: c) = some (0, v)) :
    ∃ u, Yields s cwd p u ∧ Yields s cwd (p ++ '/' :: c ++ ['/', '.', '.']) u := by
  have below := startsWithSlash_extend absolute ('/' :: c)
  have walked := walk_of_lookup tree below found
  rw [components_child p isComponent, walk_append] at walked
  obtain ⟨⟨r, mid⟩, first, rest⟩ := Option.bind_eq_some_iff.mp walked
  dsimp only at rest
  have success : r = 0 := by
    by_contra failed
    rw [if_pos failed] at rest
    cases rest
    exact failed rfl
  subst success
  rw [if_neg (not_not_intro rfl)] at rest
  obtain ⟨u, member, rfl, visible⟩ :=
    (tree.walk_visible tree.root_mem .root (components_ne_dot p) first).1 rfl
  have stepped : step s.toGraph (some u) c = some (0, v) := step_of_walk rest
  obtain ⟨w, _, rfl, _, up⟩ := tree.step_back member visible isComponent.isName stepped
  refine ⟨u, yields_of_walk tree absolute first, ?_⟩
  apply yields_of_walk tree (startsWithSlash_extend below _)
  rw [components_up, components_child p isComponent, List.append_assoc, walk_append, first]
  dsimp only [Option.bind_some]
  rw [if_neg (not_not_intro rfl), List.singleton_append, walk, stepped]
  dsimp only [Option.bind_eq_bind, Option.bind_some]
  rw [if_neg (not_not_intro rfl), walk, up]
  rfl

/-- In the root, ".." stays there. -/
theorem Tree.up_root (absolute : startsWithSlash p = true)
    (found : lookupOutcome s cwd p = some (0, some root)) :
    Yields s cwd (p ++ ['/', '.', '.']) root := by
  apply yields_of_walk tree (startsWithSlash_extend absolute _)
  rw [components_up, walk_append, walk_of_lookup tree absolute found]
  dsimp only [Option.bind_some]
  rw [if_neg (not_not_intro rfl), walk, tree.step_up_root]
  rfl

end Ascent

/-- What holds of the lookups of absolute paths. -/
structure Ascends (s : State H) (root : Nat) (cwd : Option Nat) : Prop where
  isRoot : s.rootVnode = some (some root)
  chain : ∀ p v, startsWithSlash p = true → lookupOutcome s cwd p = some (0, some v) →
    ParentChain s.toGraph root v
  inverse : ∀ p c v, startsWithSlash p = true → IsComponent c →
    lookupOutcome s cwd (p ++ '/' :: c) = some (0, v) →
      ∃ u, Yields s cwd p u ∧ Yields s cwd (p ++ '/' :: c ++ ['/', '.', '.']) u
  stays : ∀ p, startsWithSlash p = true → lookupOutcome s cwd p = some (0, some root) →
    Yields s cwd (p ++ ['/', '.', '.']) root
  noInternalError : ∀ p result v, startsWithSlash p = true →
    lookupOutcome s cwd p = some (result, v) → result ≠ einterr

/-- In every state that is reached, ".." inverts a descent, and no lookup of an
absolute path fails with an internal error. -/
theorem run_ascends {allowed : System H → Op → Prop} (sys : System H)
    (reached : Reachable allowed sys) (cwd : Option Nat) :
    ∃ root, Ascends sys.state root cwd := by
  obtain ⟨root, V, own, running⟩ := reached.running
  have tree := running.sound.tree
  refine ⟨root, tree.rootVnode, ?_, ?_, ?_, ?_⟩
  · intro p v absolute found
    obtain ⟨u, member, same, _⟩ := (tree.walk_visible tree.root_mem .root (components_ne_dot p)
      (walk_of_lookup tree absolute found)).1 rfl
    cases same
    obtain ⟨names, path⟩ := tree.path member
    exact path.chain
  · exact fun p c v absolute isComponent found => tree.up_inverts absolute isComponent found
  · exact fun p absolute found => tree.up_root absolute found
  · intro p result v absolute found
    rw [lookupOutcome_absolute tree absolute] at found
    split at found
    · exact (tree.walk_visible tree.root_mem .root (components_ne_dot p) found).2
    · cases found
      decide

/-- After a mount on "/m" and one on "/m/n". -/
theorem run_ascends_nested : ∃ root, Ascends nestedSystem.state root none :=
  run_ascends nestedSystem nestedSystem_reachable none

/-! ## A path that is too long -/

theorem components_slashes (k : Nat) (q : Name) :
    components (List.replicate k '/' ++ q) = components q := by
  induction k with
  | zero => rfl
  | succ k ih => exact (components_append [] _).trans ih

theorem copyAllocated_of_length {s : State H} {p : Name} {size : Nat} (length : p.length + 1 = size) :
    CopyAllocated s p ↔ (s.alloc size).2 ≠ none := by
  subst length
  rfl

/-- For a path with many slashes in front of "dev", the copy still fits, but it
does not once "/.." is added. -/
theorem up_needs_memory :
    ∃ sys : System BootHeap, Reachable (fun _ _ => True) sys ∧
      ∃ p c v, startsWithSlash p = true ∧ IsComponent c ∧
        lookupOutcome sys.state none (p ++ '/' :: c) = some (0, some v) ∧
        lookupOutcome sys.state none (p ++ '/' :: c ++ ['/', '.', '.']) = some (enomem, none) := by
  refine ⟨initSystem, .boot init_booted, ?_⟩
  rw [initSystem_state]
  have isComponent : IsComponent ['d', 'e', 'v'] := ⟨by decide, by decide, by decide, by decide⟩
  have fits : (initState.alloc (33554427 + 4 + 1)).2 ≠ none := by decide +kernel
  have exceeds : (initState.alloc (33554427 + 4 + 3 + 1)).2 = none := by decide +kernel
  have positive : 0 < 33554427 := by decide
  have found : walk initState.toGraph (some initRoot) (components ['/', 'd', 'e', 'v']) =
      some (0, some initDev) := by decide +kernel
  generalize 33554427 = k at *
  have absolute : startsWithSlash (List.replicate k '/') = true := by
    obtain ⟨j, rfl⟩ := Nat.exists_eq_succ_of_ne_zero (Nat.ne_of_gt positive)
    rfl
  refine ⟨List.replicate k '/', ['d', 'e', 'v'], initDev, absolute, isComponent, ?_, ?_⟩
  · have allocated : CopyAllocated initState (List.replicate k '/' ++ ['/', 'd', 'e', 'v']) := by
      refine (copyAllocated_of_length ?_).mpr fits
      rw [List.length_append, List.length_replicate]
      rfl
    rw [lookupOutcome_eq allocated, startsWithSlash_extend absolute, components_slashes]
    unfold walkPath origin
    rw [if_pos rfl, init_root, Option.map_some, Option.bind_some, if_neg (not_not_intro rfl)]
    exact found
  · apply lookupOutcome_of_not_allocated
    refine mt (copyAllocated_of_length ?_).mp (not_not.mpr exceeds)
    rw [List.length_append, List.length_append, List.length_replicate]
    rfl

end OsdiKernel.Fs
