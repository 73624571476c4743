import OsdiKernel.Fs.Model

/-!
# Path resolution is a fold over components

The loop of the lookup, which cuts its copy of the path into pieces, goes
through the components of the path one by one.  What it returns only depends on
the vnode at which it starts and on the components.
-/

namespace OsdiKernel.Fs

variable {g : Graph}

/-! ## From the loop to the components -/

/-- The loop of `vfs_lookup` on a list of components. -/
def walkAll (g : Graph) : Walk → List Name → Option (Int × Option Nat)
  | w, [] => some (0, w.current)
  | w, name :: names => do
      let (result, w) ← walkComponent g w name
      if result ≠ 0 then return (result, w.target)
      walkAll g w names

theorem walkLoop_eq {fuel i : Nat} {buf : Buffer} {rest : Name} (w : Walk)
    (reads : Reads buf i rest) (enough : rest.length < fuel) :
    walkLoop g fuel buf i w = walkAll g w (tokens rest) := by
  induction fuel generalizing buf i rest w with
  | zero => exact absurd enough (Nat.not_lt_zero _)
  | succ fuel ih =>
      have delivered := getNextComponent_delivered reads
      unfold walkLoop
      generalize getNextComponent buf i = next at *
      cases delivered with
      | nothing none_ =>
          rw [none_]
          rfl
      | component first shorter reads' =>
          rw [first, walkAll]
          have later := fun w => ih w reads' (Nat.lt_of_lt_of_le shorter (Nat.le_of_lt_succ enough))
          dsimp only
          simp only [later]

theorem walkAll_components (w : Walk) (path : Name) :
    walkAll g w (tokens path) = walkAll g w (components path) := by
  unfold components
  induction tokens path generalizing w with
  | nil => rfl
  | cons name names ih =>
      by_cases dot : name = ['.']
      · subst dot
        rw [List.filter_cons_of_neg (by decide), ← ih]
        rfl
      · rw [List.filter_cons_of_pos (by simpa using dot), walkAll, walkAll]
        simp only [ih]

theorem charAt_strdup (path : Name) :
    charAt (strdup path) 0 = some '/' ↔ startsWithSlash path = true := by
  cases path with
  | nil => simp [charAt, strdup, startsWithSlash]
  | cons c path => simp [charAt, strdup, startsWithSlash]

/-- A lookup is the walk over the components, from the root or from the current directory. -/
theorem resolve_eq (g : Graph) (cwd : Option Nat) (pathname : Name) :
    resolve g cwd pathname =
      if startsWithSlash pathname = true then
        g.rootVnode.bind fun root => walkAll g ⟨root, none⟩ (components pathname)
      else if cwd = none then some (einterr, none)
      else walkAll g ⟨cwd, none⟩ (components pathname) := by
  have loop : ∀ w, walkLoop g (strdup pathname).length (strdup pathname) 0 w =
      walkAll g w (components pathname) := by
    intro w
    rw [walkLoop_eq w (reads_strdup pathname) (reads_strdup pathname).length, walkAll_components]
  unfold resolve
  dsimp only
  simp only [loop]
  by_cases slash : startsWithSlash pathname = true
  · rw [if_pos slash, if_pos ((charAt_strdup pathname).mpr slash)]
    by_cases single : pathname = ['/']
    · subst single
      rfl
    · simp only [if_neg single]
      rfl
  · rw [if_neg slash, if_neg (fun starts => slash ((charAt_strdup pathname).mp starts))]
    by_cases special : pathname = [] ∨ pathname = ['.']
    · rw [if_pos special]
      rcases special with rfl | rfl <;> rfl
    · rw [if_neg special]
      rfl

/-! ## Return codes and vnodes -/

/-- The return value and, on success, the vnode. -/
def settle (outcome : Int × Option Nat) : Int × Option Nat :=
  if outcome.1 = 0 then outcome else (outcome.1, none)

/-- One component, without `*target`. -/
def step (g : Graph) (current : Option Nat) (name : Name) : Option (Int × Option Nat) :=
  (walkComponent g ⟨current, none⟩ name).map fun after => (after.1, after.2.current)

/-- The fold over the components. -/
def walk (g : Graph) : Option Nat → List Name → Option (Int × Option Nat)
  | current, [] => some (0, current)
  | current, name :: names => do
      let (result, current) ← step g current name
      if result ≠ 0 then return (result, none)
      walk g current names

theorem walkUp_current (current target : Option Nat) :
    (walkUp g ⟨current, target⟩).map (fun after => (after.1, after.2.current)) =
      (walkUp g ⟨current, none⟩).map fun after => (after.1, after.2.current) := by
  unfold walkUp
  cases g.rootVnode with
  | none => rfl
  | some root =>
      by_cases atRoot : current = root
      · simp [atRoot]
      · cases current with
        | none => simp [atRoot]
        | some v =>
            simp only [atRoot, if_false, Option.bind_eq_bind, Option.bind_some]
            repeat' split
            all_goals rfl

theorem walkDown_current (current target : Option Nat) (name : Name) :
    (walkDown g ⟨current, target⟩ name).map (fun after => (after.1, after.2.current)) =
      (walkDown g ⟨current, none⟩ name).map fun after => (after.1, after.2.current) := by
  unfold walkDown
  cases current with
  | none => rfl
  | some v =>
      dsimp only [Option.bind_eq_bind, Option.bind_some]
      cases g.cross v with
      | none => rfl
      | some dir =>
          dsimp only [Option.bind_some]
          cases (g.vnodes dir).vOps with
          | none => rfl
          | some ops =>
              dsimp only
              cases ops.lookup g dir name with
              | none => rfl
              | some found =>
                  obtain ⟨result, next⟩ := found
                  dsimp only [Option.bind_some]
                  split
                  · rfl
                  · cases next <;> rfl

/-- The field `target` takes no part in a walk. -/
theorem walkComponent_current (w : Walk) (name : Name) :
    (walkComponent g w name).map (fun after => (after.1, after.2.current)) =
      step g w.current name := by
  unfold step walkComponent
  split
  · rfl
  · split
    · exact walkUp_current w.current w.target
    · exact walkDown_current w.current w.target name

theorem settle_walkAll (w : Walk) (names : List Name) :
    (walkAll g w names).map settle = walk g w.current names := by
  induction names generalizing w with
  | nil => rfl
  | cons name names ih =>
      rw [walkAll, walk, ← walkComponent_current]
      cases walkComponent g w name with
      | none => rfl
      | some after =>
          obtain ⟨result, w'⟩ := after
          simp only [Option.bind_eq_bind, Option.bind_some, Option.map_some]
          by_cases failed : result = 0
          · rw [if_neg (not_not_intro failed), if_neg (not_not_intro failed)]
            exact ih w'
          · rw [if_pos failed, if_pos failed]
            unfold settle
            exact congrArg some (if_neg failed)

theorem walk_append (current : Option Nat) (names later : List Name) :
    walk g current (names ++ later) =
      (walk g current names).bind fun outcome =>
        if outcome.1 ≠ 0 then some outcome else walk g outcome.2 later := by
  induction names generalizing current with
  | nil => rfl
  | cons name names ih =>
      rw [List.cons_append, walk, walk]
      cases step g current name with
      | none => rfl
      | some after =>
          obtain ⟨result, next⟩ := after
          simp only [Option.bind_eq_bind, Option.bind_some]
          by_cases failed : result = 0
          · rw [if_neg (not_not_intro failed), if_neg (not_not_intro failed)]
            exact ih next
          · rw [if_pos failed, if_pos failed]
            exact (if_pos failed).symm

/-! ## Lookups -/

/-- The vnode at which the walk of a path begins, or the error if there is none. -/
def origin (g : Graph) (cwd : Option Nat) (absolute : Bool) : Option (Int × Option Nat) :=
  if absolute = true then g.rootVnode.map fun root => (0, root)
  else some (if cwd = none then (einterr, none) else (0, cwd))

/-- The fold of a path over its components. -/
def walkPath (g : Graph) (cwd : Option Nat) (absolute : Bool) (names : List Name) :
    Option (Int × Option Nat) :=
  (origin g cwd absolute).bind fun start =>
    if start.1 ≠ 0 then some start else walk g start.2 names

theorem settle_resolve (g : Graph) (cwd : Option Nat) (pathname : Name) :
    (resolve g cwd pathname).map settle =
      walkPath g cwd (startsWithSlash pathname) (components pathname) := by
  rw [resolve_eq]
  unfold walkPath origin
  by_cases slash : startsWithSlash pathname = true
  · rw [if_pos slash, if_pos slash]
    cases g.rootVnode with
    | none => rfl
    | some root => exact settle_walkAll ⟨root, none⟩ _
  · rw [if_neg slash, if_neg slash]
    by_cases null : cwd = none
    · rw [if_pos null, if_pos null]
      rfl
    · rw [if_neg null, if_neg null]
      exact settle_walkAll ⟨cwd, none⟩ _

section Heap

variable {H : Type} [Allocator H] {s : State H} {cwd : Option Nat}

/-- The heap can serve the copy of the path. -/
def CopyAllocated (s : State H) (pathname : Name) : Prop :=
  (s.alloc (pathname.length + 1)).2 ≠ none

instance (s : State H) (pathname : Name) : Decidable (CopyAllocated s pathname) :=
  inferInstanceAs (Decidable ((s.alloc (pathname.length + 1)).2 ≠ none))

/-- The return value of a lookup and, on success, its vnode. -/
def lookupOutcome (s : State H) (cwd : Option Nat) (pathname : Name) : Option (Int × Option Nat) :=
  (vfsLookup s cwd pathname).map fun after => settle after.2

theorem vfsLookup_eq (s : State H) (cwd : Option Nat) (pathname : Name) :
    vfsLookup s cwd pathname =
      match (s.alloc (pathname.length + 1)).2 with
      | none => some ((s.alloc (pathname.length + 1)).1, enomem, none)
      | some pathCopy => (resolve s.toGraph cwd pathname).map fun outcome =>
          (((s.alloc (pathname.length + 1)).1.free pathCopy), outcome) := by
  unfold vfsLookup State.alloc
  cases (Allocator.alloc s.heap (pathname.length + 1)).2 with
  | none => rfl
  | some pathCopy =>
      dsimp only
      cases resolve s.toGraph cwd pathname <;> rfl

theorem lookupOutcome_eq {pathname : Name} (allocated : CopyAllocated s pathname) :
    lookupOutcome s cwd pathname =
      walkPath s.toGraph cwd (startsWithSlash pathname) (components pathname) := by
  obtain ⟨pathCopy, success⟩ := Option.ne_none_iff_exists'.mp allocated
  unfold lookupOutcome
  rw [vfsLookup_eq, success, ← settle_resolve]
  dsimp only
  cases resolve s.toGraph cwd pathname <;> rfl

theorem startsWithSlash_append {p : Name} (nonempty : p ≠ []) (q : Name) :
    startsWithSlash (p ++ q) = startsWithSlash p := by
  cases p with
  | nil => exact absurd rfl nonempty
  | cons c p => rfl

theorem walkPath_append {g : Graph} {absolute : Bool} {names : List Name} {v : Nat}
    (reached : walkPath g cwd absolute names = some (0, some v)) (later : List Name) :
    walkPath g cwd absolute (names ++ later) = walkPath g (some v) false later := by
  unfold walkPath at *
  cases start : origin g cwd absolute with
  | none =>
      rw [start] at reached
      cases reached
  | some begin_ =>
      rw [start] at reached
      simp only [Option.bind_some] at reached ⊢
      by_cases failed : begin_.1 = 0
      · rw [if_neg (not_not_intro failed)] at reached ⊢
        rw [walk_append, reached]
        rfl
      · rw [if_pos failed] at reached
        cases reached
        exact absurd rfl failed

/-- What a lookup returns depends only on how the path begins and on its
components, and it goes on from the vnode of a prefix. -/
theorem lookup_is_fold (s : State H) (cwd : Option Nat) :
    (∀ p p', CopyAllocated s p → CopyAllocated s p' →
      startsWithSlash p = startsWithSlash p' → components p = components p' →
        lookupOutcome s cwd p = lookupOutcome s cwd p') ∧
    ∀ p q v, CopyAllocated s p → CopyAllocated s q → CopyAllocated s (p ++ '/' :: q) →
      p ≠ [] → lookupOutcome s cwd p = some (0, some v) → startsWithSlash q = false →
        lookupOutcome s cwd (p ++ '/' :: q) = lookupOutcome s (some v) q := by
  constructor
  · intro p p' allocated allocated' begins same
    rw [lookupOutcome_eq allocated, lookupOutcome_eq allocated', begins, same]
  · intro p q v allocated allocatedLater allocatedBoth nonempty reached relative
    rw [lookupOutcome_eq allocated] at reached
    rw [lookupOutcome_eq allocatedBoth, lookupOutcome_eq allocatedLater,
      startsWithSlash_append nonempty, components_append, relative]
    exact walkPath_append reached _

end Heap

end OsdiKernel.Fs
