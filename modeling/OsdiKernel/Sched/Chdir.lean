import OsdiKernel.Sched.Results

/-!
# Changing the current directory

`sys_chdir` gives `vfs_lookup` the address of the field `cwd`, which is set to null
before a relative path is looked up, and which keeps what a failed lookup has left
there.
-/

namespace OsdiKernel.Sched

open Fs (Name einterr enomem startsWithSlash)

variable {H : Type} [Allocator H] {k : Kernel H} {curr : Nat} {frame : TrapFrame}
  {strings : Word → Name} {path : Name}

/-- The directory is changed to what the path is from the old one.  If the path is
nothing, the directory stays, and the error is returned. -/
def ChangesDir (strings : Word → Name) (k : Kernel H) (curr : Nat) (frame : TrapFrame) : Prop :=
  ∀ s ret target,
    Fs.vfsLookup k.toState (k.tasks curr).cwd (strings (frame.x 0)) = some (s, ret, target) →
      ∃ k' frame', sysChdir strings k frame = some (k', frame') ∧
        (ret = 0 → frame'.x 0 = 0 ∧ (k'.tasks curr).cwd = target) ∧
        (ret ≠ 0 → frame'.x 0 = BitVec.ofInt 64 ret ∧ (k'.tasks curr).cwd = (k.tasks curr).cwd)

/-- When it is: an absolute path leads somewhere, or its lookup stops where the thread
is.  A relative path is looked up only by a thread that has no directory. -/
def Resolved (k : Kernel H) (curr : Nat) (path : Name) : Prop :=
  if startsWithSlash path = true then
    ∀ s ret target, Fs.vfsLookup k.toState none path = some (s, ret, target) →
      ret = 0 ∨ target = (k.tasks curr).cwd
  else (k.tasks curr).cwd = none ∨ Fs.vfsLookup k.toState (k.tasks curr).cwd path = none

/-! ## Lookups without a directory -/

/-- An absolute path does not depend on the current directory. -/
theorem vfsLookup_absolute (absolute : startsWithSlash path = true) (s : Fs.State H)
    (cwd : Option Nat) : Fs.vfsLookup s cwd path = Fs.vfsLookup s none path := by
  have same : ∀ g, Fs.resolve g cwd path = Fs.resolve g none path := by
    intro g
    rw [Fs.resolve_eq, Fs.resolve_eq, if_pos absolute, if_pos absolute]
  unfold Fs.vfsLookup
  simp only [same]

/-- A relative path is not found, and the target is null. -/
theorem vfsLookup_relative (relative : ¬ startsWithSlash path = true) (s : Fs.State H) :
    ∃ s' ret, Fs.vfsLookup s none path = some (s', ret, none) ∧ ret < 0 ∧ Fs.IsCode ret := by
  have fails : ∀ g, Fs.resolve g none path = some (einterr, none) := by
    intro g
    rw [Fs.resolve_eq, if_neg relative, if_pos rfl]
  unfold Fs.vfsLookup
  split
  · exact ⟨_, enomem, rfl, by decide, by decide⟩
  · rw [fails]
    exact ⟨_, einterr, rfl, by decide, by decide⟩

/-! ## The system call -/

/-- The register and the directory after the call are those of the lookup. -/
theorem sysChdir_eq (isCurrent : k.current = some curr) (named : ¬ noString strings (frame.x 0))
    {s : Fs.State H} {ret : Int} {target : Option Nat}
    (looked : Fs.vfsLookup k.toState none (strings (frame.x 0)) = some (s, ret, target)) :
    ∃ k', sysChdir strings k frame = some (k', finish frame ret) ∧ (k'.tasks curr).cwd = target := by
  refine ⟨{ k with toState := s }.modify curr fun t => { t with cwd := target }, ?_, ?_⟩
  · unfold sysChdir
    rw [if_neg named]
    split
    · next missing =>
        rw [isCurrent] at missing
        cases missing
    · next found =>
        rw [isCurrent] at found
        cases found
        rw [lookupCwd_eq, looked]
        rfl
  · dsimp only [Kernel.modify]
    rw [Function.update_self]

theorem finish_x (frame : TrapFrame) {ret : Int} (code : Fs.IsCode ret) : (finish frame ret).x 0 = BitVec.ofInt 64 ret := by
  unfold finish
  split
  · exact setX_x frame _
  · next nonnegative =>
      have zero : ret = 0 := by
        have upper := code.2
        omega
      rw [setX_x, zero]
      rfl

/-- An absolute path. -/
theorem changesDir_absolute (isCurrent : k.current = some curr)
    (named : ¬ noString strings (frame.x 0)) (absolute : startsWithSlash (strings (frame.x 0)) = true) :
    ChangesDir strings k curr frame ↔
      ∀ s ret target, Fs.vfsLookup k.toState none (strings (frame.x 0)) = some (s, ret, target) →
        ret = 0 ∨ target = (k.tasks curr).cwd := by
  unfold ChangesDir
  rw [vfsLookup_absolute absolute]
  refine forall_congr' fun s => forall_congr' fun ret => forall_congr' fun target =>
    forall_congr' fun looked => ?_
  obtain ⟨k₁, called, cwd⟩ := sysChdir_eq isCurrent named looked
  have register := finish_x frame (Fs.vfsLookup_code looked)
  constructor
  · rintro ⟨k', frame', called', _, failed⟩
    rw [called] at called'
    cases called'
    by_cases success : ret = 0
    · exact Or.inl success
    · exact Or.inr (cwd.symm.trans (failed success).2)
  · intro safe
    refine ⟨k₁, _, called, ?_, fun failed => ⟨register, ?_⟩⟩
    · rintro rfl
      exact ⟨register, cwd⟩
    · exact cwd.trans (safe.resolve_left failed)

/-- A relative path. -/
theorem changesDir_relative (isCurrent : k.current = some curr)
    (named : ¬ noString strings (frame.x 0))
    (relative : ¬ startsWithSlash (strings (frame.x 0)) = true) :
    ChangesDir strings k curr frame ↔ (k.tasks curr).cwd = none ∨
      Fs.vfsLookup k.toState (k.tasks curr).cwd (strings (frame.x 0)) = none := by
  obtain ⟨s₀, ret₀, looked₀, negative, code⟩ := vfsLookup_relative relative k.toState
  obtain ⟨k₁, called, cwd⟩ := sysChdir_eq isCurrent named looked₀
  have register := finish_x frame code
  constructor
  · intro changes
    by_contra safe
    obtain ⟨somewhere, found⟩ := not_or.mp safe
    obtain ⟨⟨s, ret, target⟩, looked⟩ := Option.ne_none_iff_exists'.mp found
    obtain ⟨k', frame', called', succeeded, failed⟩ := changes s ret target looked
    rw [called] at called'
    cases called'
    by_cases success : ret = 0
    · have zero := register.symm.trans (succeeded success).1
      have value := toInt_code code
      rw [zero] at value
      have impossible : (0 : Word).toInt = 0 := by decide
      omega
    · exact somewhere ((failed success).2.symm.trans cwd)
  · rintro (nowhere | faults) s ret target looked
    · rw [nowhere, looked₀] at looked
      cases looked
      refine ⟨k₁, _, called, ?_, fun _ => ⟨register, cwd.trans nowhere.symm⟩⟩
      rintro rfl
      exact absurd negative (by decide)
    · rw [faults] at looked
      cases looked

/-- What `sys_chdir` does is what it should just when it looks up the right path. -/
theorem changesDir_iff (isCurrent : k.current = some curr)
    (named : ¬ noString strings (frame.x 0)) :
    ChangesDir strings k curr frame ↔ Resolved k curr (strings (frame.x 0)) := by
  unfold Resolved
  split
  · next absolute => exact changesDir_absolute isCurrent named absolute
  · next relative => exact changesDir_relative isCurrent named relative

/-! ## The root and the directory itself -/

open Fs (BootHeap)

theorem resolved_of_found (absolute : startsWithSlash path = true)
    (found : (Fs.vfsLookup k.toState none path).map (fun r => r.2.1) = some 0) :
    Resolved k curr path := by
  unfold Resolved
  rw [if_pos absolute]
  intro s ret target looked
  rw [looked] at found
  exact Or.inl (Option.some.inj found)

/-- The first thread changes to the root. -/
theorem changesDir_root : ChangesDir (fun _ => ['/']) secondRuns idleThread readFrame := by
  have named : ¬ noString (fun _ => ['/']) (readFrame.x 0) := by decide
  have found : (Fs.vfsLookup secondRuns.toState none ['/']).map (fun r => r.2.1) = some 0 := by
    decide +kernel
  exact (changesDir_iff idleThread_current named).mpr (resolved_of_found rfl found)

/-- A thread that changes to "." has no directory afterwards. -/
theorem chdir_dot_forgets : ∃ (k : Kernel BootHeap) (curr : Nat),
    Reachable (fun _ _ => True) k ∧ k.current = some curr ∧
      ¬ ChangesDir (fun _ => ['.']) k curr readFrame := by
  refine ⟨secondRuns, idleThread, secondRuns_reachable, idleThread_current, ?_⟩
  have named : ¬ noString (fun _ => ['.']) (readFrame.x 0) := by decide
  have somewhere : (secondRuns.tasks idleThread).cwd ≠ none := by decide +kernel
  have found : (Fs.vfsLookup secondRuns.toState (secondRuns.tasks idleThread).cwd ['.']).isSome := by
    decide +kernel
  rw [changesDir_relative idleThread_current named (by decide)]
  rintro (nowhere | faults)
  · exact somewhere nowhere
  · exact Option.isSome_iff_ne_none.mp found faults

end OsdiKernel.Sched
