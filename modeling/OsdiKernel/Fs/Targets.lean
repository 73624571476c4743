import OsdiKernel.Fs.System

/-!
# What a failed lookup leaves in its target

The loop of the lookup stores the vnode in `*target` when a component ".." has
moved it, and no error takes the vnode back.  A lookup that fails further on has
therefore set its target to the vnode where the last such ".." arrived.
-/

namespace OsdiKernel.Fs

variable {g : Graph} {current : Option Nat} {name : Name} {names : List Name}

/-! ## Components that move up -/

/-- Among the components, before one that fails, some ".." leaves a vnode that
is not the root. -/
inductive Climbs (g : Graph) : Option Nat → List Name → Prop
  | here {current next : Option Nat} {names : List Name}
      (notRoot : g.rootVnode ≠ some current)
      (moved : step g current ['.', '.'] = some (0, next)) :
      Climbs g current (['.', '.'] :: names)
  | later {current next : Option Nat} {name : Name} {names : List Name}
      (walked : step g current name = some (0, next)) (climbs : Climbs g next names) :
      Climbs g current (name :: names)

/-- After a component that is found, only the rest of the path can move up,
unless the component does. -/
theorem climbs_cons {next : Option Nat} (walked : step g current name = some (0, next)) :
    Climbs g current (name :: names) ↔
      name = ['.', '.'] ∧ g.rootVnode ≠ some current ∨ Climbs g next names := by
  constructor
  · intro climbs
    cases climbs with
    | here notRoot moved => exact .inl ⟨rfl, notRoot⟩
    | later walked' climbs =>
        rw [walked] at walked'
        cases walked'
        exact .inr climbs
  · rintro (⟨rfl, notRoot⟩ | climbs)
    · exact .here notRoot walked
    · exact .later walked climbs

theorem climbs_failed {result : Int} {next : Option Nat}
    (failed : step g current name = some (result, next)) (nonzero : result ≠ 0) :
    ¬ Climbs g current (name :: names) := by
  intro climbs
  cases climbs with
  | here notRoot moved =>
      rw [failed] at moved
      cases moved
      exact nonzero rfl
  | later walked climbs =>
      rw [failed] at walked
      cases walked
      exact nonzero rfl

/-! ## One component -/

/-- What one component leaves in the target. -/
inductive Stored (g : Graph) (w : Walk) (name : Name) : Int × Walk → Prop
  | kept {result : Int} {current : Option Nat} (unchanged : ¬ (result = 0 ∧ name = ['.', '.'] ∧
      g.rootVnode ≠ some w.current)) : Stored g w name (result, ⟨current, w.target⟩)
  | moved {v : Nat} (up : name = ['.', '.']) (notRoot : g.rootVnode ≠ some w.current) :
      Stored g w name (0, ⟨some v, some v⟩)

theorem walkUp_stored {w : Walk} {after : Int × Walk} (walked : walkUp g w = some after) :
    Stored g w ['.', '.'] after := by
  unfold walkUp at walked
  obtain ⟨root, isRoot, walked⟩ := Option.bind_eq_some_iff.mp walked
  split at walked
  · next atRoot =>
      cases walked
      exact .kept fun ⟨_, _, notRoot⟩ => notRoot (by rw [isRoot, atRoot])
  · next notRoot =>
      have notRoot' : g.rootVnode ≠ some w.current := by
        rw [isRoot]
        exact fun same => notRoot (Option.some.inj same).symm
      obtain ⟨v, _, walked⟩ := Option.bind_eq_some_iff.mp walked
      split at walked
      · cases walked
        exact .kept fun ⟨failed, _⟩ => absurd failed (by decide)
      · split at walked
        · split at walked
          · next same =>
              cases walked
              rw [← same]
              exact .moved rfl notRoot'
          · split at walked
            · cases walked
              exact .moved rfl notRoot'
            · cases walked
              exact .kept fun ⟨failed, _⟩ => absurd failed (by decide)
        · cases walked
          exact .moved rfl notRoot'

theorem walkDown_target {w : Walk} {after : Int × Walk} (walked : walkDown g w name = some after) :
    after.2.target = w.target := by
  unfold walkDown at walked
  obtain ⟨_, _, walked⟩ := Option.bind_eq_some_iff.mp walked
  obtain ⟨_, _, walked⟩ := Option.bind_eq_some_iff.mp walked
  split at walked
  · cases walked
    rfl
  · obtain ⟨_, _, walked⟩ := Option.bind_eq_some_iff.mp walked
    dsimp only at walked
    split at walked
    · cases walked
      rfl
    · obtain ⟨_, _, walked⟩ := Option.bind_eq_some_iff.mp walked
      cases walked
      rfl

theorem walkComponent_stored {w : Walk} {after : Int × Walk}
    (walked : walkComponent g w name = some after) : Stored g w name after := by
  unfold walkComponent at walked
  split at walked
  · next dot =>
      cases walked
      exact .kept fun ⟨_, up, _⟩ => by cases dot.symm.trans up
  · split at walked
    · next up =>
        subst up
        exact walkUp_stored walked
    · next notUp =>
        obtain ⟨result, ⟨next, target⟩⟩ := after
        cases walkDown_target walked
        exact .kept fun ⟨_, up, _⟩ => notUp up

/-! ## The loop -/

/-- A walk that fails leaves its target null exactly if it was null and nothing moved up. -/
theorem walkAll_target {w : Walk} {result : Int} {target : Option Nat}
    (walked : walkAll g w names = some (result, target)) (nonzero : result ≠ 0) :
    target = none ↔ w.target = none ∧ ¬ Climbs g w.current names := by
  induction names generalizing w with
  | nil =>
      cases walked
      exact absurd rfl nonzero
  | cons name names ih =>
      rw [walkAll] at walked
      obtain ⟨⟨r, w'⟩, first, rest⟩ := Option.bind_eq_some_iff.mp walked
      have stepped : step g w.current name = some (r, w'.current) := by
        rw [← walkComponent_current, first]
        rfl
      have stored := walkComponent_stored first
      dsimp only at rest
      split at rest
      · next failed =>
          -- the component that fails leaves the target as it was
          cases rest
          have stays : ¬ Climbs g w.current (name :: names) := climbs_failed stepped failed
          cases stored with
          | kept unchanged => exact ⟨fun null => ⟨null, stays⟩, fun null => null.1⟩
          | moved => exact absurd rfl failed
      · next found =>
          cases not_not.mp found
          rw [ih rest, climbs_cons stepped]
          cases stored with
          | kept unchanged =>
              have notHere : ¬ (name = ['.', '.'] ∧ g.rootVnode ≠ some w.current) :=
                fun moves => unchanged ⟨rfl, moves⟩
              simp only [notHere, false_or]
          | moved up notRoot => simp [up, notRoot]

/-! ## The lookup -/

section Heap

variable {H : Type} [Allocator H]

/-- The path has a component ".." that moves up, before the one that fails. -/
def PathClimbs (s : State H) (cwd : Option Nat) (pathname : Name) : Prop :=
  ∃ start, origin s.toGraph cwd (startsWithSlash pathname) = some (0, start) ∧
    Climbs s.toGraph start (components pathname)

omit [Allocator H] in
theorem pathClimbs_iff {s : State H} {cwd start : Option Nat} {pathname : Name}
    (begins : origin s.toGraph cwd (startsWithSlash pathname) = some (0, start)) :
    PathClimbs s cwd pathname ↔ Climbs s.toGraph start (components pathname) := by
  constructor
  · rintro ⟨start', begins', climbs⟩
    rw [begins] at begins'
    cases begins'
    exact climbs
  · exact fun climbs => ⟨start, begins, climbs⟩

omit [Allocator H] in
theorem resolve_target {s : State H} {cwd : Option Nat} {pathname : Name} {result : Int}
    {target : Option Nat} (resolved : resolve s.toGraph cwd pathname = some (result, target))
    (nonzero : result ≠ 0) : target = none ↔ ¬ PathClimbs s cwd pathname := by
  rw [resolve_eq] at resolved
  split at resolved
  · next slash =>
      obtain ⟨root, isRoot, walked⟩ := Option.bind_eq_some_iff.mp resolved
      have begins : origin s.toGraph cwd (startsWithSlash pathname) = some (0, root) := by
        unfold origin
        rw [if_pos slash, isRoot]
        rfl
      rw [walkAll_target walked nonzero, pathClimbs_iff begins]
      exact and_iff_right rfl
  · next slash =>
      split at resolved
      · next null =>
          cases resolved
          refine iff_of_true rfl ?_
          rintro ⟨start, begins, _⟩
          unfold origin at begins
          rw [if_neg slash, if_pos null] at begins
          cases begins
      · next cwd_ =>
          have begins : origin s.toGraph cwd (startsWithSlash pathname) = some (0, cwd) := by
            unfold origin
            rw [if_neg slash, if_neg cwd_]
          rw [walkAll_target resolved nonzero, pathClimbs_iff begins]
          exact and_iff_right rfl

/-- A lookup that fails leaves a null target exactly if its path could not be
copied, or if it moved up nowhere before it failed. -/
theorem failed_target_iff {s s' : State H} {cwd target : Option Nat} {pathname : Name} {result : Int}
    (looked : vfsLookup s cwd pathname = some (s', result, target)) (failed : result ≠ 0) :
    target = none ↔ ¬ (CopyAllocated s pathname ∧ PathClimbs s cwd pathname) := by
  rw [vfsLookup_eq] at looked
  unfold CopyAllocated
  split at looked
  · next exhausted =>
      cases looked
      exact iff_of_true rfl fun climbs => climbs.1 exhausted
  · next pathCopy allocated =>
      obtain ⟨⟨r, t⟩, resolved, same⟩ := Option.map_eq_some_iff.mp looked
      cases same
      rw [resolve_target resolved failed, allocated]
      simp

end Heap

/-- A path whose file is missing, in a directory that exists. -/
def missingPath : Name := ['/', 'd', 'e', 'v', '/', 'x']

/-- A path that goes through a directory and back, to a file that is missing. -/
def throughDevPath : Name := ['/', 'd', 'e', 'v', '/', '.', '.', '/', 'x']

theorem failed_target_missing :
    ∃ s' target, vfsLookup initState none missingPath = some (s', enoent, target) ∧
      (target = none ↔
        ¬ (CopyAllocated initState missingPath ∧ PathClimbs initState none missingPath)) := by
  have looks : ((vfsLookup initState none missingPath).map fun after => after.2.1) =
      some enoent := by decide +kernel
  obtain ⟨⟨s', result, target⟩, looked, same⟩ := Option.map_eq_some_iff.mp looks
  cases same
  exact ⟨s', target, looked, failed_target_iff looked (by decide)⟩

/-- After a lookup of "/dev/../x", which fails, the target is the root. -/
theorem failed_lookup_has_target :
    ∃ sys : System BootHeap, Reachable (fun _ _ => True) sys ∧
      ∃ p s' result v, vfsLookup sys.state none p = some (s', result, some v) ∧ result ≠ 0 := by
  refine ⟨initSystem, .boot init_booted, throughDevPath, ?_⟩
  rw [initSystem_state]
  have looks : ((vfsLookup initState none throughDevPath).map fun after => after.2) =
      some (enoent, some initRoot) := by decide +kernel
  obtain ⟨⟨s', result, target⟩, looked, same⟩ := Option.map_eq_some_iff.mp looks
  cases same
  exact ⟨s', enoent, initRoot, looked, by decide⟩

end OsdiKernel.Fs
