import OsdiKernel.Sched.Exec
import OsdiKernel.Sched.Pending

/-!
# Tasks by their identifiers

`get_thread_task_by_id` searches the queues.  A task that runs was taken from the
ready queue, a caller of `exec` is in no queue, and identifiers need not differ: the
main thread has whatever was left in its memory, and the counter wraps around.
-/

namespace OsdiKernel.Sched

open Queue (Chain)

variable {H : Type}

/-- The task is a zombie, or it runs and becomes one when `schedule` takes another. -/
def ZombieBound (k : Kernel H) (p : Nat) : Prop :=
  k.InQueue .zombie p ∨ k.current = some p ∧ (k.tasks p).state = .exited

/-- The task can be found, killed and signalled by its identifier. -/
structure Addressed (k : Kernel H) (p : Nat) : Prop where
  found : getThreadTaskById k (k.tasks p).id = some (some p)
  killed : ∀ registers, ∃ k', kill k (k.tasks p).id registers = some (k', 0) ∧
    (k'.tasks p).state = .exited ∧ ¬ k'.InQueue .ready p ∧ ¬ k'.InQueue .wait p ∧ ZombieBound k' p
  signalled : ∀ (frame : TrapFrame) (sig : Fin sigNum), (frame.x 0).setWidth 32 = (k.tasks p).id →
    ((frame.x 1).setWidth 32).toInt = sig →
      ∃ k', sysSigkill k frame = some k' ∧ (k'.tasks p).pendingSig.getLsbD sig = true

/-- The task is ready, and the first of the ready tasks with its identifier. -/
def FirstWithId (k : Kernel H) (p : Nat) : Prop :=
  ∃ front back, Chain k.next k.readyQueue (front ++ p :: back) ∧
    ∀ q ∈ front, (k.tasks q).id ≠ (k.tasks p).id

section Tasks

variable {allowed : Kernel H → Op → Prop} {k k' : Kernel H} {a : Threads} {p : Nat}

theorem found_iff (ordered : a.Ordered) (represents : Represents k a) :
    getThreadTaskById k (k.tasks p).id = some (some p) ↔ FirstWithId k p := by
  rw [getThreadTaskById_spec ordered represents, Option.some.injEq, List.find?_eq_some_iff_append]
  constructor
  · rintro ⟨_, front, back, shape, others⟩
    refine ⟨front, back, shape ▸ represents.ready, fun q member same => ?_⟩
    simpa [same] using others q member
  · rintro ⟨front, back, chain, others⟩
    refine ⟨decide_eq_true rfl, front, back, represents.ready.unique chain, fun q member => ?_⟩
    simpa using others q member

/-! ## Killed tasks -/

theorem Represents.zombieBound (represents : Represents k a) :
    ZombieBound k p ↔ p ∈ a.zombies ∨ a.current = p ∧ a.state p = .exited := by
  unfold ZombieBound
  rw [represents.current, represents.state, Option.some.injEq]
  refine or_congr_left ⟨?_, fun member => ⟨a.zombies, represents.zombies, member⟩⟩
  rintro ⟨nodes, chain, member⟩
  exact chain.unique represents.zombies ▸ member

/-- What a thread is after it was killed. -/
theorem Threads.kill_retires (ordered : a.Ordered) (ready : p ∈ a.ready) :
    (a.kill p).state p = .exited ∧ p ∉ (a.kill p).ready ∧
      (p ∈ (a.kill p).zombies ∨ (a.kill p).current = p ∧ (a.kill p).state p = .exited) := by
  have exited : (a.retire p).state p = .exited := setState_self a p _
  have notReady : p ∉ (a.retire p).ready := ordered.ready.not_mem_erase
  by_cases self : a.current = p
  · subst self
    rw [kill_current]
    cases shape : a.ready.erase a.current with
    | nil =>
        have alone : a.exit = a.retire a.current := by
          unfold Threads.exit Threads.schedule
          have empty : (a.retire a.current).ready = [] := shape
          rw [empty]
        rw [alone]
        exact ⟨exited, notReady, Or.inr ⟨rfl, exited⟩⟩
    | cons next rest =>
        have inside : next ∈ a.ready.erase a.current := shape ▸ List.mem_cons_self
        have other : next ≠ a.current := ne_of_mem_of_not_mem inside ordered.ready.not_mem_erase
        rw [exit_eq shape other]
        refine ⟨(setState_of_ne other.symm _).trans (setState_self _ _ _), fun member => ?_,
          Or.inl (List.mem_append_right _ List.mem_cons_self)⟩
        exact ordered.ready.not_mem_erase (shape ▸ List.mem_cons_of_mem next member)
  · have whole : a.kill p = { a.retire p with zombies := a.zombies ++ [p] } := if_neg self
    rw [whole]
    exact ⟨exited, notReady, Or.inl (List.mem_append_right _ List.mem_cons_self)⟩

theorem kill_retires (ordered : a.Ordered) (represents : Represents k a)
    (found : getThreadTaskById k (k.tasks p).id = some (some p)) (registers : CpuContext) :
    ∃ k', kill k (k.tasks p).id registers = some (k', 0) ∧ (k'.tasks p).state = .exited ∧
      ¬ k'.InQueue .ready p ∧ ¬ k'.InQueue .wait p ∧ ZombieBound k' p := by
  obtain ⟨k', result, killed, outcome⟩ := kill_refines ordered represents (k.tasks p).id registers
  cases outcome with
  | missed missing =>
      obtain ⟨front, back, chain, _⟩ := (found_iff ordered represents).mp found
      have ready : p ∈ a.ready :=
        represents.ready.unique chain ▸ List.mem_append_right front List.mem_cons_self
      exact absurd rfl (missing p ready)
  | @hit q ready isFound represents' =>
      cases found.symm.trans isFound
      obtain ⟨exited, notReady, bound⟩ := Threads.kill_retires ordered ready
      refine ⟨k', killed, (represents'.state p).trans exited, ?_, ?_, represents'.zombieBound.mpr bound⟩
      · rintro ⟨nodes, chain, member⟩
        exact notReady (chain.unique represents'.ready ▸ member)
      · rintro ⟨nodes, chain, member⟩
        have none : k'.head .wait = none := represents'.wait
        rw [none] at chain
        rw [chain.empty] at member
        cases member

/-- A task that is bound to be a zombie is one as soon as another task runs. -/
theorem ZombieBound.schedule (bound : ZombieBound k p) (ordered : a.Ordered) (represents : Represents k a)
    {registers : CpuContext} (switched : schedule k registers = some k') (switches : k'.current ≠ k.current) :
    k'.InQueue .zombie p := by
  obtain ⟨k₁, switched', represents'⟩ := schedule_refines ordered represents registers
  cases switched.symm.trans switched'
  refine ⟨_, represents'.zombies, ?_⟩
  rcases represents.zombieBound.mp bound with zombie | ⟨isCurrent, exited⟩
  · exact Threads.zombies_schedule a zombie
  · subst isCurrent
    rw [represents'.current, represents.current] at switches
    unfold Threads.schedule at switches ⊢
    split at switches
    · exact absurd rfl switches
    · split at switches
      · exact absurd rfl switches
      · next other =>
          rw [if_neg other, exited]
          exact List.mem_append_right _ List.mem_cons_self

/-! ## The condition -/

/-- A task has its identifier to itself just when the search comes to it first. -/
theorem addressed_iff [Allocator H] (reached : Reachable allowed k) : Addressed k p ↔ FirstWithId k p := by
  obtain ⟨a, ordered, represents⟩ := reached.represented
  refine ⟨fun addressed => (found_iff ordered represents).mp addressed.found, fun first => ?_⟩
  have found := (found_iff ordered represents).mpr first
  refine ⟨found, kill_retires ordered represents found, fun frame sig isPid isSig => ?_⟩
  refine ⟨raiseSignal k p sig, sysSigkill_found (isPid ▸ found) isSig, ?_⟩
  have mask : ((raiseSignal k p sig).tasks p).pendingSig = (k.tasks p).pendingSig ||| sigBit sig :=
    congrArg Task.pendingSig (modify_self k p _)
  rw [mask, getLsbD_raised sig.isLt]
  exact Or.inl rfl

end Tasks

/-! ## The idle thread -/

open Fs (BootHeap)

theorem idleThread_addressed : Addressed started idleThread := by
  have head : started.readyQueue = some idleThread := (Option.some_get _).symm
  have last : started.next idleThread = none := by decide +kernel
  have reached : Reachable (fun _ _ => True) started := .boot started_booted
  exact (addressed_iff reached).mpr ⟨[], [], head ▸ .single last, nofun⟩

/-- The first program has called `exec`, and then the idle thread runs. -/
def idleRuns : Kernel BootHeap := (schedule firstExec.1 .zero).get (by decide +kernel)

theorem idleRuns_step : Step firstExec.1 .schedule idleRuns := .schedule (Option.some_get _).symm

/-- The thread that runs is not found by its identifier. -/
theorem idleRuns_not_addressed : Reachable (fun _ op => op ≠ .killZombies ∧ op ≠ .rest) idleRuns ∧
    idleThread ∈ idleRuns.live ∧ (idleRuns.tasks idleThread).state ≠ .exited ∧
      ¬ Addressed idleRuns idleThread := by
  have execed : Reachable (fun _ op => op ≠ .killZombies ∧ op ≠ .rest) firstExec.1 :=
    .step (.boot started_booted) (by decide) firstExec_step
  obtain ⟨live, running, missing⟩ : idleThread ∈ idleRuns.live ∧
      (idleRuns.tasks idleThread).state ≠ .exited ∧
      getThreadTaskById idleRuns (idleRuns.tasks idleThread).id ≠ some (some idleThread) := by
    decide +kernel
  exact ⟨.step execed (by decide) idleRuns_step, live, running, fun addressed => missing addressed.found⟩

end OsdiKernel.Sched
