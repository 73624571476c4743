import OsdiKernel.Fs.Operations

/-!
# The result of `vfs_open`

Whatever the state of the file system, the return value is zero or one of the
negative codes, a failure leaves `*target` null, and a success leaves a file
there that was not in use before.
-/

namespace OsdiKernel.Fs

open Allocator (Holds)

/-- The file is a device, whose `close` releases the structure. -/
def FileOps.isDevice : FileOps → Bool
  | .tmpfs => false
  | .initramfs => false
  | .uart => true
  | .framebuffer => true

/-- Zero or the code of an error. -/
def IsCode (result : Int) : Prop := -11 ≤ result ∧ result ≤ 0

instance (result : Int) : Decidable (IsCode result) := by
  unfold IsCode
  infer_instance

/-! ## Codes of lookups -/

section Lookup

variable {g : Graph} {w w' : Walk} {componentName : Name} {result : Int} {target : Option Nat}

theorem lookupNode_code {dirNode : Nat}
    (found : lookupNode g dirNode componentName = some (result, target)) : IsCode result := by
  unfold lookupNode at found
  split at found
  · cases found
    decide
  · split at found
    · cases found
      decide
    · obtain ⟨child, _, same⟩ := Option.bind_eq_some_iff.mp found
      cases child <;> cases same <;> decide

theorem lookup_code {ops : FsType} {dirNode : Nat}
    (found : ops.lookup g dirNode componentName = some (result, target)) : IsCode result := by
  cases ops <;> exact lookupNode_code found

theorem walkUp_code (walked : walkUp g w = some (result, w')) : IsCode result := by
  unfold walkUp at walked
  obtain ⟨root, _, walked⟩ := Option.bind_eq_some_iff.mp walked
  split at walked
  · cases walked
    decide
  · obtain ⟨current, _, walked⟩ := Option.bind_eq_some_iff.mp walked
    repeat' split at walked
    all_goals
      cases walked
      decide

theorem walkDown_code (walked : walkDown g w componentName = some (result, w')) : IsCode result := by
  unfold walkDown at walked
  obtain ⟨current, _, walked⟩ := Option.bind_eq_some_iff.mp walked
  obtain ⟨current, _, walked⟩ := Option.bind_eq_some_iff.mp walked
  split at walked
  · cases walked
    decide
  · obtain ⟨⟨r, next⟩, found, walked⟩ := Option.bind_eq_some_iff.mp walked
    dsimp only at walked
    split at walked
    · cases walked
      exact lookup_code found
    · obtain ⟨next, _, same⟩ := Option.bind_eq_some_iff.mp walked
      cases same
      decide

theorem walkComponent_code (walked : walkComponent g w componentName = some (result, w')) :
    IsCode result := by
  unfold walkComponent at walked
  split at walked
  · cases walked
    decide
  · split at walked
    · exact walkUp_code walked
    · exact walkDown_code walked

theorem walkLoop_code {fuel : Nat} {pathCopy : Buffer} {currentPathPtr : Nat}
    (walked : walkLoop g fuel pathCopy currentPathPtr w = some (result, target)) :
    IsCode result := by
  induction fuel generalizing pathCopy currentPathPtr w with
  | zero => cases walked
  | succ fuel ih =>
      unfold walkLoop at walked
      split at walked
      · cases walked
        decide
      · obtain ⟨⟨r, w₁⟩, stepped, walked⟩ := Option.bind_eq_some_iff.mp walked
        dsimp only at walked
        split at walked
        · cases walked
          exact walkComponent_code stepped
        · exact ih walked

theorem resolve_code {cwd : Option Nat} {pathname : Name}
    (resolved : resolve g cwd pathname = some (result, target)) : IsCode result := by
  unfold resolve at resolved
  dsimp only at resolved
  split at resolved
  · obtain ⟨root, _, resolved⟩ := Option.bind_eq_some_iff.mp resolved
    split at resolved
    · cases resolved
      decide
    · exact walkLoop_code resolved
  · split at resolved
    · cases resolved
      decide
    · split at resolved
      · cases resolved
        decide
      · exact walkLoop_code resolved

end Lookup

section Open

variable {H : Type} [Allocator H] {s s' : State H} {live : List Nat}
  {cwd vnode target target' : Option Nat} {pathname name : Name} {result : Int} {flags : Nat}

theorem vfsLookup_code (looked : vfsLookup s cwd pathname = some (s', result, target)) :
    IsCode result := by
  unfold vfsLookup at looked
  split at looked
  · cases looked
    decide
  · obtain ⟨⟨r, t⟩, resolved, same⟩ := Option.bind_eq_some_iff.mp looked
    cases same
    exact resolve_code resolved

theorem openParent_code (found : openParent s cwd pathname = some (s', result, target)) :
    IsCode result := by
  unfold openParent at found
  split at found
  · split at found
    · cases found
      decide
    · obtain ⟨root, _, same⟩ := Option.bind_eq_some_iff.mp found
      cases same
      decide
  · rw [lookupParent_eq] at found
    exact vfsLookup_code found

/-- A creation that is given up returns the code of an error. -/
theorem openCreate_code (created : openCreate s cwd pathname vnode = some (s', .error result)) :
    IsCode result ∧ result ≠ 0 := by
  unfold openCreate at created
  split at created
  · cases created
    decide
  · obtain ⟨⟨s₁, r, parent⟩, found, created⟩ := Option.bind_eq_some_iff.mp created
    dsimp only at created
    split at created
    · next failed =>
        cases created
        exact ⟨openParent_code found, failed⟩
    · split at created
      · cases created
        decide
      · split at created
        · cases created
          decide
        · obtain ⟨⟨s₂, r₂, child⟩, _, same⟩ := Option.bind_eq_some_iff.mp created
          cases same

/-! ## The file -/

/-- The result of `open` of a vnode. -/
structure OpenResult (s' : State H) (v : Nat) (ops : FileOps) (result : Int)
    (target : Option Nat) : Prop where
  code : IsCode result
  failed : result ≠ 0 → target = none
  opened : result = 0 → ∃ f, target = some f ∧ (s'.files f).vnode = some v ∧
    (s'.files f).fPos = 0 ∧ (s'.files f).fOps = some ops

omit [Allocator H] in
theorem openNode_result {v : Nat} {ops : FileOps} (isOps : (s.vnodes v).fOps = some ops)
    (opened : openNode s v target = (s', result, target')) : OpenResult s' v ops result target' := by
  unfold openNode at opened
  cases target with
  | none =>
      cases opened
      exact ⟨by decide, fun _ => rfl, fun zero => absurd zero (by decide)⟩
  | some f =>
      cases opened
      refine ⟨by decide, fun nonzero => absurd rfl nonzero, fun _ => ⟨f, rfl, ?_⟩⟩
      dsimp only [State.setFile]
      rw [Function.update_self]
      exact ⟨rfl, rfl, isOps⟩

theorem openDevice_result {v : Nat} {device : FileOps}
    (opened : openDevice s v device = (s', result, target')) :
    OpenResult s' v device result target' := by
  unfold openDevice at opened
  split at opened
  · cases opened
    exact ⟨by decide, fun _ => rfl, fun zero => absurd zero (by decide)⟩
  · next f _ =>
      cases opened
      refine ⟨by decide, fun nonzero => absurd rfl nonzero, fun _ => ⟨f, rfl, ?_⟩⟩
      dsimp only [State.setFile]
      rw [Function.update_self]
      exact ⟨rfl, rfl, rfl⟩

theorem open_result {v : Nat} {ops : FileOps} (isOps : (s.vnodes v).fOps = some ops)
    (opened : ops.open s v target = (s', result, target')) : OpenResult s' v ops result target' := by
  cases ops with
  | tmpfs => exact openNode_result isOps opened
  | initramfs => exact openNode_result isOps opened
  | uart => exact openDevice_result opened
  | framebuffer => exact openDevice_result opened

/-- The result of `vfs_open`. -/
structure VfsOpened (s' : State H) (flags : Nat) (result : Int) (target : Option Nat) : Prop where
  code : IsCode result
  failed : result ≠ 0 → target = none
  opened : result = 0 → ∃ f v ops, target = some f ∧ s'.files f = ⟨some v, 0, some ops, flags⟩

theorem openVnode_result (opened : openVnode s vnode flags = some (s', result, target)) :
    VfsOpened s' flags result target := by
  unfold openVnode at opened
  have graph := alloc_toGraph s fileSize
  generalize s.alloc fileSize = pair at *
  obtain ⟨s₁, file⟩ := pair
  dsimp only at opened graph
  obtain ⟨v, _, opened⟩ := Option.bind_eq_some_iff.mp opened
  obtain ⟨ops, isOps, opened⟩ := Option.bind_eq_some_iff.mp opened
  cases after : ops.open s₁ v file with
  | mk s₂ rest =>
      obtain ⟨r, t⟩ := rest
      have found := open_result isOps after
      rw [after] at opened
      dsimp only at opened
      split at opened
      · next nonzero =>
          cases opened
          exact ⟨found.code, fun _ => found.failed nonzero, fun zero => absurd zero nonzero⟩
      · next success =>
          obtain ⟨f, isFile, isVnode, isPos, isOps⟩ := found.opened (not_not.mp success)
          rw [isFile] at opened
          cases opened
          refine ⟨by decide, fun nonzero => absurd rfl nonzero, fun _ => ⟨f, v, ops, rfl, ?_⟩⟩
          dsimp only [State.setFile]
          rw [Function.update_self, isVnode, isPos, isOps]

theorem vfsOpen_result (opened : vfsOpen s cwd pathname flags = some (s', result, target)) :
    VfsOpened s' flags result target := by
  unfold vfsOpen at opened
  obtain ⟨⟨s₁, lookupResult, v⟩, looked, opened⟩ := Option.bind_eq_some_iff.mp opened
  have error : ∀ {s₂ : State H} {r : Int}, IsCode r → r ≠ 0 → VfsOpened s₂ flags r none :=
    fun code nonzero => ⟨code, fun _ => rfl, fun zero => absurd zero nonzero⟩
  dsimp only at opened
  split at opened
  · next failed =>
      split at opened
      · obtain ⟨⟨s₂, outcome⟩, created, opened⟩ := Option.bind_eq_some_iff.mp opened
        cases outcome with
        | error r =>
            cases opened
            obtain ⟨code, nonzero⟩ := openCreate_code created
            exact error code nonzero
        | ok pair => exact openVnode_result opened
      · cases opened
        exact error (vfsLookup_code looked) failed
  · exact openVnode_result opened

/-! ## Pointers in use -/

/-- What was in use stays in use. -/
def Keeps (s' : State H) (live : List Nat) : Prop := ∃ more, Holds s'.heap (more ++ live)

theorem tmpfsCreateOrMkdir_keeps {type : Tmpfs.NodeType} {d : Nat} (holds : Holds s.heap live)
    (created : tmpfsCreateOrMkdir s d target name type = some (s', result, target')) :
    Keeps s' live := by
  by_cases failed : result ≠ 0
  · exact ⟨[], (tmpfsCreateOrMkdir_failed holds created failed).2⟩
  · unfold tmpfsCreateOrMkdir at created
    repeat' split at created
    all_goals try
      cases created
      try exact ⟨[], holds⟩
    next parentInternal _ _ _ _ _ _ _ =>
      have node := tmpfsCreateInternalNode_spec holds name type (some parentInternal)
      unfold tmpfsAddChild at created
      generalize tmpfsCreateInternalNode s name type (some parentInternal) = pair at *
      obtain ⟨s₁, new⟩ := pair
      rcases node with ⟨n, rfl, made⟩ | ⟨rfl, _⟩
      · dsimp only at created made
        cases second : (s₁.alloc vnodeSize).2 with
        | none =>
            rw [alloc_eq second] at created
            cases created
            exact absurd (by decide) failed
        | some w =>
            rw [alloc_eq second] at created
            obtain ⟨s₂, stored, same⟩ := Option.bind_eq_some_iff.mp created
            cases same
            obtain ⟨_, rfl⟩ := storeChild_eq stored
            exact ⟨w :: nodePointers (s₁.nodes n) n, (alloc_some made.holds second).2⟩
      · cases created
        exact absurd (by decide) failed

theorem create_keeps {ops : FsType} {d : Nat} (holds : Holds s.heap live)
    (created : ops.create s d target name = some (s', result, target')) : Keeps s' live := by
  cases ops with
  | initramfs =>
      cases created
      exact ⟨[], holds⟩
  | tmpfs => exact tmpfsCreateOrMkdir_keeps holds created

theorem mkdir_keeps {ops : FsType} {d : Nat} (holds : Holds s.heap live)
    (created : ops.mkdir s d target name = some (s', result, target')) : Keeps s' live := by
  cases ops with
  | initramfs =>
      cases created
      exact ⟨[], holds⟩
  | tmpfs => exact tmpfsCreateOrMkdir_keeps holds created

theorem openParent_keeps (holds : Holds s.heap live)
    (found : openParent s cwd pathname = some (s', result, target)) : Holds s'.heap live := by
  unfold openParent at found
  split at found
  · split at found
    · cases found
      exact holds
    · obtain ⟨root, _, same⟩ := Option.bind_eq_some_iff.mp found
      cases same
      exact holds
  · rw [lookupParent_eq] at found
    exact (vfsLookup_looked holds found).1.holds

theorem openCreate_keeps {outcome : Except Int (Int × Option Nat)} (holds : Holds s.heap live)
    (created : openCreate s cwd pathname vnode = some (s', outcome)) : Keeps s' live := by
  unfold openCreate at created
  cases copied : (s.alloc (pathname.length + 1)).2 with
  | none =>
      rw [alloc_eq copied] at created
      cases created
      exact ⟨[], alloc_none holds copied⟩
  | some pathCopy =>
      rw [alloc_eq copied] at created
      have held := (alloc_some holds copied).2
      obtain ⟨⟨s₁, r, parent⟩, found, created⟩ := Option.bind_eq_some_iff.mp created
      have held₁ := openParent_keeps held found
      dsimp only at created
      split at created
      · cases created
        exact ⟨[], free_head held₁⟩
      · split at created
        · cases created
          exact ⟨[], free_head held₁⟩
        · split at created
          · cases created
            exact ⟨[], free_head held₁⟩
          · obtain ⟨⟨s₂, r₂, child⟩, made, same⟩ := Option.bind_eq_some_iff.mp created
            cases same
            obtain ⟨more, held₂⟩ := create_keeps held₁ made
            exact ⟨more, free_later held₂⟩

/-! ## New files -/

/-- A file has been opened: `first` is the structure that `vfs_open` has allocated. -/
structure FileOpened (s s' : State H) (live : List Nat) (first : Option Nat) (f : Nat)
    (ops : FileOps) : Prop where
  fresh : f ∉ live
  fOps : (s'.files f).fOps = some ops
  others : ∀ g, g ≠ f → s'.files g = s.files g
  node : ops.isDevice = false → first = some f ∧ Holds s'.heap (f :: live)
  device : ops.isDevice = true → Holds s'.heap (f :: (first.toList ++ live))

theorem openNode_opened {v f : Nat} {ops : FileOps} {first : Option Nat} (isNode : ops.isDevice = false)
    (isOps : (s.vnodes v).fOps = some ops) (holds : Holds s.heap (first.toList ++ live))
    (unused : ∀ p, first = some p → p ∉ live) (opened : openNode s v first = (s', 0, some f)) :
    FileOpened s (s'.setFile f { s'.files f with flags := flags }) live first f ops := by
  cases first with
  | none => cases opened
  | some p =>
      cases opened
      constructor
      · exact unused _ rfl
      · simp [State.setFile, isOps]
      · intro g other
        simp [State.setFile, Function.update_of_ne other]
      · exact fun _ => ⟨rfl, holds⟩
      · intro isDevice
        rw [isNode] at isDevice
        cases isDevice

theorem openDevice_opened {v f : Nat} {device : FileOps} {first : Option Nat}
    (isDevice : device.isDevice = true) (holds : Holds s.heap (first.toList ++ live))
    (opened : openDevice s v device = (s', 0, some f)) :
    FileOpened s (s'.setFile f { s'.files f with flags := flags }) live first f device := by
  unfold openDevice at opened
  cases allocated : (s.alloc fileSize).2 with
  | none =>
      rw [alloc_eq allocated] at opened
      cases opened
  | some p =>
      rw [alloc_eq allocated] at opened
      cases opened
      obtain ⟨fresh, held⟩ := alloc_some holds allocated
      constructor
      · exact fun member => fresh (List.mem_append_right _ member)
      · simp [State.setFile]
      · intro g other
        simp [State.setFile, Function.update_of_ne other, State.alloc]
      · intro isNode
        rw [isDevice] at isNode
        cases isNode
      · exact fun _ => held

theorem openVnode_opened {f : Nat} (holds : Holds s.heap live)
    (opened : openVnode s vnode flags = some (s', 0, some f)) :
    ∃ ops, FileOpened s s' live (s.alloc fileSize).2 f ops := by
  have held := alloc_holds holds fileSize
  have unused : ∀ p, (s.alloc fileSize).2 = some p → p ∉ live := fun p allocated =>
    (alloc_some holds allocated).1
  have sameFiles : (s.alloc fileSize).1.files = s.files := rfl
  have graph := alloc_toGraph s fileSize
  unfold openVnode at opened
  generalize s.alloc fileSize = pair at *
  obtain ⟨s₁, first⟩ := pair
  obtain ⟨v, _, opened⟩ := Option.bind_eq_some_iff.mp opened
  obtain ⟨ops, isOps, opened⟩ := Option.bind_eq_some_iff.mp opened
  cases after : ops.open s₁ v first with
  | mk s₂ rest =>
      obtain ⟨r, t⟩ := rest
      rw [after] at opened
      dsimp only at opened
      split at opened
      · next nonzero =>
          cases opened
          exact absurd rfl nonzero
      · next success =>
          obtain ⟨f', isFile, same⟩ := Option.bind_eq_some_iff.mp opened
          cases same
          obtain rfl : t = some f := isFile
          obtain rfl : r = 0 := not_not.mp success
          refine ⟨ops, ?_⟩
          have result : FileOpened s₁ (s₂.setFile f { s₂.files f with flags := flags }) live first f
              ops := by
            cases ops with
            | tmpfs | initramfs => exact openNode_opened rfl isOps held unused after
            | uart | framebuffer => exact openDevice_opened rfl held after
          have others : ∀ g, g ≠ f → (s₂.setFile f { s₂.files f with flags := flags }).files g =
              s.files g := by
            intro g other
            rw [result.others g other, sameFiles]
          exact ⟨result.fresh, result.fOps, others, result.node, result.device⟩

theorem vfsOpen_fresh {f : Nat} (holds : Holds s.heap live)
    (opened : vfsOpen s cwd pathname flags = some (s', 0, some f)) : f ∉ live := by
  unfold vfsOpen at opened
  obtain ⟨⟨s₁, lookupResult, v⟩, looked, opened⟩ := Option.bind_eq_some_iff.mp opened
  have held := (vfsLookup_looked holds looked).1.holds
  dsimp only at opened
  split at opened
  · split at opened
    · obtain ⟨⟨s₂, outcome⟩, created, opened⟩ := Option.bind_eq_some_iff.mp opened
      cases outcome with
      | error r => cases opened
      | ok pair =>
          obtain ⟨more, held'⟩ := openCreate_keeps held created
          obtain ⟨_, file⟩ := openVnode_opened held' opened
          exact fun member => file.fresh (List.mem_append_right more member)
    · cases opened
  · obtain ⟨_, file⟩ := openVnode_opened held opened
    exact file.fresh

end Open

end OsdiKernel.Fs
