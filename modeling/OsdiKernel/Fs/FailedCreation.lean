import OsdiKernel.Fs.Opening
import OsdiKernel.Fs.System

/-!
# Files that cannot be created

`vfs_open` with `O_CREAT` ignores the result of `create`, and goes on with a vnode
that is null, or that a failed lookup has left there.  What goes wrong before
`create` is called is reported.
-/

namespace OsdiKernel.Fs

open Allocator (Holds)

variable {H : Type} [Allocator H] {s s' : State H} {cwd vnode : Option Nat} {pathname : Name}
  {flags : Nat} {result : Int}

/-- There is no file, and none is created. -/
def CannotCreate (s : State H) (cwd : Option Nat) (pathname : Name) (flags : Nat) : Prop :=
  flags &&& oCreat ≠ 0 ∧ ∃ s₁ result vnode, vfsLookup s cwd pathname = some (s₁, result, vnode) ∧
    result ≠ 0 ∧ ∀ s₂ v, openCreate s₁ cwd pathname vnode ≠ some (s₂, .ok (0, v))

/-- `vfs_open` comes to the part that opens a vnode. -/
def OpensVnode (s : State H) (cwd : Option Nat) (pathname : Name) (flags : Nat) : Prop :=
  ∃ s₁ result vnode, vfsLookup s cwd pathname = some (s₁, result, vnode) ∧
    (result = 0 ∨ flags &&& oCreat ≠ 0 ∧
      ∃ s₂ created, openCreate s₁ cwd pathname vnode = some (s₂, .ok created))

/-- The result is a negative code, and nothing else has happened. -/
structure CleanError (s : State H) (cwd : Option Nat) (pathname : Name) (flags : Nat) : Prop where
  returned : ∃ s' code, vfsOpen s cwd pathname flags = some (s', code, none) ∧ code < 0 ∧
    s'.toGraph = s.toGraph ∧ s'.files = s.files ∧ s'.filesystems = s.filesystems ∧
      ∀ live, Holds s.heap live → Holds s'.heap live
  unopened : ¬ OpensVnode s cwd pathname flags

/-- The path cannot be copied, or the parent is not found, or it has no operations. -/
def NotCalled (s : State H) (cwd : Option Nat) (pathname : Name) : Prop :=
  (s.alloc (pathname.length + 1)).2 = none ∨
    ∃ s' result parent,
      openParent (s.alloc (pathname.length + 1)).1 cwd pathname = some (s', result, parent) ∧
        (result ≠ 0 ∨ ∀ d, parent = some d → (s'.vnodes d).vOps = none)

/-- After the lookup that fails, `create` is not called. -/
def CreateNotCalled (s : State H) (cwd : Option Nat) (pathname : Name) : Prop :=
  ∃ s₁ result vnode, vfsLookup s cwd pathname = some (s₁, result, vnode) ∧
    NotCalled s₁ cwd pathname

/-! ## What lookups leave -/

/-- Nothing but the heap is changed, and the same pointers are in use. -/
structure Untraced (s s' : State H) : Prop where
  graph : s'.toGraph = s.toGraph
  files : s'.files = s.files
  filesystems : s'.filesystems = s.filesystems
  holds : ∀ live, Holds s.heap live → Holds s'.heap live

theorem Untraced.refl (s : State H) : Untraced s s := ⟨rfl, rfl, rfl, fun _ holds => holds⟩

theorem Untraced.trans {s'' : State H} (first : Untraced s s') (second : Untraced s' s'') :
    Untraced s s'' where
  graph := second.graph.trans first.graph
  files := second.files.trans first.files
  filesystems := second.filesystems.trans first.filesystems
  holds live holds := second.holds live (first.holds live holds)

/-- Memory that is released again. -/
theorem untraced_of_released {size p : Nat} (allocated : (s.alloc size).2 = some p)
    (between : Untraced (s.alloc size).1 s') : Untraced s (s'.free p) where
  graph := between.graph
  files := between.files
  filesystems := between.filesystems
  holds _ holds := free_head (between.holds _ (alloc_some holds allocated).2)

theorem untraced_of_failed {size : Nat} (failed : (s.alloc size).2 = none) :
    Untraced s (s.alloc size).1 :=
  ⟨rfl, rfl, rfl, fun _ holds => alloc_none holds failed⟩

theorem vfsLookup_untraced (looked : vfsLookup s cwd pathname = some (s', result, vnode)) :
    Untraced s s' := by
  rw [vfsLookup_eq] at looked
  cases copied : (s.alloc (pathname.length + 1)).2 with
  | none =>
      rw [copied] at looked
      cases looked
      exact untraced_of_failed copied
  | some pathCopy =>
      rw [copied] at looked
      obtain ⟨outcome, _, same⟩ := Option.map_eq_some_iff.mp looked
      cases same
      exact untraced_of_released copied (.refl _)

theorem openParent_untraced (found : openParent s cwd pathname = some (s', result, vnode)) :
    Untraced s s' := by
  unfold openParent at found
  split at found
  · split at found
    · cases found
      exact .refl s
    · obtain ⟨root, _, same⟩ := Option.bind_eq_some_iff.mp found
      cases same
      exact .refl s
  · rw [lookupParent_eq] at found
    exact vfsLookup_untraced found

/-! ## The part that creates the file -/

/-- It is given up just when `create` is not called. -/
theorem openCreate_error_iff (vnode : Option Nat) :
    (∃ s' code, openCreate s cwd pathname vnode = some (s', .error code)) ↔
      NotCalled s cwd pathname := by
  unfold openCreate NotCalled
  cases copied : (s.alloc (pathname.length + 1)).2 with
  | none =>
      rw [alloc_eq copied]
      exact iff_of_true ⟨_, enomem, rfl⟩ (Or.inl rfl)
  | some pathCopy =>
      rw [alloc_eq copied, or_iff_right (Option.some_ne_none pathCopy)]
      generalize (s.alloc (pathname.length + 1)).1 = s₁
      dsimp only
      cases found : openParent s₁ cwd pathname with
      | none =>
          refine iff_of_false ?_ ?_
          · rintro ⟨_, _, impossible⟩
            cases impossible
          · rintro ⟨_, _, _, impossible, _⟩
            cases impossible
      | some outcome =>
          obtain ⟨s₂, r, parent⟩ := outcome
          constructor
          · rintro ⟨s', code, created⟩
            refine ⟨s₂, r, parent, rfl, ?_⟩
            by_contra called
            obtain ⟨zero, operations⟩ := not_or.mp called
            obtain ⟨d, operations⟩ := not_forall.mp operations
            obtain ⟨isParent, hasOps⟩ := Classical.not_imp.mp operations
            obtain ⟨ops, isOps⟩ := Option.ne_none_iff_exists'.mp hasOps
            subst isParent
            simp only [bind, Option.bind_some, if_neg zero, isOps] at created
            obtain ⟨_, _, same⟩ := Option.bind_eq_some_iff.mp created
            cases same
          · rintro ⟨_, _, _, same, early⟩
            cases same
            simp only [bind, Option.bind_some]
            by_cases failed : r ≠ 0
            · rw [if_pos failed]
              exact ⟨_, r, rfl⟩
            · rw [if_neg failed]
              cases parent with
              | none => exact ⟨_, eacces, rfl⟩
              | some d =>
                  dsimp only
                  rw [(early.resolve_left failed) d rfl]
                  exact ⟨_, eacces, rfl⟩

theorem openCreate_untraced {code : Int}
    (created : openCreate s cwd pathname vnode = some (s', .error code)) : Untraced s s' := by
  unfold openCreate at created
  cases copied : (s.alloc (pathname.length + 1)).2 with
  | none =>
      rw [alloc_eq copied] at created
      cases created
      exact untraced_of_failed copied
  | some pathCopy =>
      rw [alloc_eq copied] at created
      obtain ⟨⟨s₁, r, parent⟩, found, created⟩ := Option.bind_eq_some_iff.mp created
      have between := openParent_untraced found
      dsimp only at created
      split at created
      · cases created
        exact untraced_of_released copied between
      · split at created
        · cases created
          exact untraced_of_released copied between
        · split at created
          · cases created
            exact untraced_of_released copied between
          · obtain ⟨⟨s₂, r₂, child⟩, _, same⟩ := Option.bind_eq_some_iff.mp created
            cases same

/-! ## The whole function -/

/-- What follows a lookup that fails. -/
theorem vfsOpen_creating {s₁ : State H}
    (looked : vfsLookup s cwd pathname = some (s₁, result, vnode)) (missing : result ≠ 0)
    (creating : flags &&& oCreat ≠ 0) :
    vfsOpen s cwd pathname flags = (openCreate s₁ cwd pathname vnode).bind fun outcome =>
      match outcome.2 with
      | .error code => some (outcome.1, code, none)
      | .ok (_, v) => openVnode outcome.1 v flags := by
  unfold vfsOpen
  rw [looked]
  simp only [bind, Option.bind_some, if_pos missing, if_pos creating]
  cases openCreate s₁ cwd pathname vnode with
  | none => rfl
  | some outcome =>
      obtain ⟨s₂, created⟩ := outcome
      cases created <;> rfl

/-- A creation that fails is a clean error just when `create` is not called. -/
theorem cleanError_iff (cannot : CannotCreate s cwd pathname flags) :
    CleanError s cwd pathname flags ↔ CreateNotCalled s cwd pathname := by
  obtain ⟨creating, s₁, result, vnode, looked, missing, _⟩ := cannot
  have opens := vfsOpen_creating looked missing creating
  constructor
  · rintro ⟨⟨s', code, opened, _⟩, unopened⟩
    rw [opens] at opened
    obtain ⟨⟨s₂, outcome⟩, made, _⟩ := Option.bind_eq_some_iff.mp opened
    refine ⟨s₁, result, vnode, looked, (openCreate_error_iff vnode).mp ?_⟩
    cases outcome with
    | error code => exact ⟨s₂, code, made⟩
    | ok created =>
        exact absurd ⟨s₁, result, vnode, looked, Or.inr ⟨creating, s₂, created, made⟩⟩ unopened
  · rintro ⟨s₁', result', vnode', looked', early⟩
    rw [looked] at looked'
    cases looked'
    obtain ⟨s₂, code, made⟩ := (openCreate_error_iff vnode).mpr early
    obtain ⟨isCode, nonzero⟩ := openCreate_code made
    have untraced := (vfsLookup_untraced looked).trans (openCreate_untraced made)
    constructor
    · refine ⟨s₂, code, ?_, lt_of_le_of_ne isCode.2 nonzero, untraced.graph, untraced.files,
        untraced.filesystems, untraced.holds⟩
      rw [opens, made]
      rfl
    · rintro ⟨s₃, result₃, vnode₃, looked₃, reached⟩
      rw [looked] at looked₃
      cases looked₃
      rcases reached with zero | ⟨_, s₄, created, made'⟩
      · exact missing zero
      · rw [made] at made'
        cases made'

/-! ## Two paths -/

/-- `create` has made no file. -/
def notMade : Except Int (Int × Option Nat) → Bool
  | .ok (result, _) => result ≠ 0
  | .error _ => true

theorem cannotCreate_of (creating : flags &&& oCreat ≠ 0)
    (check : ((vfsLookup s cwd pathname).bind fun looked =>
      (openCreate looked.1 cwd pathname looked.2.2).map fun outcome =>
        (looked.2.1, notMade outcome.2)) = some (enoent, true)) :
    CannotCreate s cwd pathname flags := by
  obtain ⟨⟨s₁, result, vnode⟩, looked, check⟩ := Option.bind_eq_some_iff.mp check
  obtain ⟨⟨s₂, outcome⟩, made, same⟩ := Option.map_eq_some_iff.mp check
  obtain ⟨missing, failed⟩ := Prod.mk.inj same
  refine ⟨creating, s₁, result, vnode, looked, ?_, fun s₃ v made' => ?_⟩
  · have isMissing : result = enoent := missing
    rw [isMissing]
    decide
  · rw [made] at made'
    cases made'
    cases failed

theorem createNotCalled_of (check : ((vfsLookup s cwd pathname).bind fun looked =>
      (openParent (looked.1.alloc (pathname.length + 1)).1 cwd pathname).map fun found =>
        found.2.1) = some enoent) : CreateNotCalled s cwd pathname := by
  obtain ⟨⟨s₁, result, vnode⟩, looked, check⟩ := Option.bind_eq_some_iff.mp check
  obtain ⟨⟨s₂, r, parent⟩, found, missing⟩ := Option.map_eq_some_iff.mp check
  refine ⟨s₁, result, vnode, looked, Or.inr ⟨s₂, r, parent, found, Or.inl ?_⟩⟩
  have isMissing : r = enoent := missing
  rw [isMissing]
  decide

/-- A file in a directory that does not exist. -/
theorem cleanError_missing_parent : CleanError initState none ['/', 'd', '/', 'f'] oCreat :=
  (cleanError_iff (cannotCreate_of (by decide) (by decide +kernel))).mpr
    (createNotCalled_of (by decide +kernel))

/-- A file in the file system that is read only, by a way back to the root. -/
def readOnlyPath : Name :=
  ['/', 'i', 'n', 'i', 't', 'r', 'a', 'm', 'f', 's', '/', '.', '.', '/', 'i', 'n', 'i', 't', 'r', 'a',
    'm', 'f', 's', '/', 'x']

/-- The file is not created, but the root is opened in its place. -/
theorem failed_creation_opens : ∃ sys : System BootHeap, Reachable (fun _ _ => True) sys ∧
    CannotCreate sys.state none readOnlyPath oCreat ∧
      (vfsOpen sys.state none readOnlyPath oCreat).map (fun opened => opened.2.1) = some 0 ∧
        ¬ CleanError sys.state none readOnlyPath oCreat := by
  have opens : (vfsOpen initState none readOnlyPath oCreat).map (fun opened => opened.2.1) = some 0 := by
    decide +kernel
  refine ⟨initSystem, .boot init_booted, ?_⟩
  rw [initSystem_state]
  refine ⟨cannotCreate_of (by decide) (by decide +kernel), opens, ?_⟩
  rintro ⟨⟨s', code, opened, negative, _⟩, _⟩
  rw [opened] at opens
  have success : code = 0 := Option.some.inj opens
  rw [success] at negative
  exact absurd negative (by decide)

end OsdiKernel.Fs
