import OsdiKernel.Fs.System
import OsdiKernel.Sched.Runs

/-!
# The queues of a run

The lists behind the queues are read back as a statement about the links.  A
first state of the kernel shows that there are runs.
-/

namespace OsdiKernel.Sched

open Fs (BootHeap initState)
open Queue (Chain)

variable {H : Type}

/-- The ready queue and the queue of zombies are lists without repetition and
without a common task, and the states of the tasks go with the queues. -/
structure QueuesInOrder (k : Kernel H) (ready zombies : List Nat) (current : Nat) : Prop where
  readyQueue : Chain k.next k.readyQueue ready
  zombieQueue : Chain k.next k.zombieQueue zombies
  readyNodup : ready.Nodup
  zombiesNodup : zombies.Nodup
  disjoint : ready.Disjoint zombies
  readyState : ∀ p ∈ ready, (k.tasks p).state = .ready
  zombiesState : ∀ p ∈ zombies, (k.tasks p).state = .exited
  isCurrent : k.current = some current
  currentNotZombie : current ∉ zombies
  currentReady : current ∈ ready → (k.tasks current).state = .ready
  addedUnlinked : k.addedUnlinked
  releasedZombies : k.releasedZombies

theorem Represents.queuesInOrder {k : Kernel H} {a : Threads} (represents : Represents k a)
    (ordered : a.Ordered) : QueuesInOrder k a.ready a.zombies a.current where
  readyQueue := represents.ready
  zombieQueue := represents.zombies
  readyNodup := ordered.ready
  zombiesNodup := ordered.zombies
  disjoint := fun _ => ordered.disjoint
  readyState p member := (represents.state p).trans (ordered.readyState p member)
  zombiesState p member := (represents.state p).trans (ordered.zombiesState p member)
  isCurrent := represents.current
  currentNotZombie := ordered.currentState.1
  currentReady member := (represents.state a.current).trans (ordered.readyState a.current member)
  addedUnlinked := represents.addedUnlinked
  releasedZombies := represents.releasedZombies

/-- The operations that walk the queues come to an end. -/
structure WalksEnd [Allocator H] (k : Kernel H) : Prop where
  schedule : ∀ registers, ∃ k', Sched.schedule k registers = some k'
  exit : ∀ registers, ∃ k', Sched.exit k registers = some k'
  kill : ∀ pid registers, ∃ k' result, Sched.kill k pid registers = some (k', result)
  killZombies : ∃ k', Sched.killZombies k = some k'
  addThreadTask : ∀ q task, (∀ q, ¬ k.InQueue q task) → ∃ k', Sched.addThreadTask k q task = some k'

theorem Represents.addThreadTask {k : Kernel H} {a : Threads} (represents : Represents k a)
    (ordered : a.Ordered) (q : TaskQueue) {task : Nat} (unlinked : ∀ q, ¬ k.InQueue q task) :
    ∃ k', Sched.addThreadTask k q task = some k' := by
  have chain : ∃ nodes, Chain k.next (k.head q) nodes ∧ nodes.length ≤ k.live.length := by
    rw [represents.live]
    cases q with
    | ready => exact ⟨a.ready, represents.ready, ordered.readyShort⟩
    | wait =>
        have empty : k.head .wait = none := represents.wait
        exact ⟨[], empty ▸ .nil, Nat.zero_le _⟩
    | zombie => exact ⟨a.zombies, represents.zombies, ordered.zombiesShort⟩
  obtain ⟨nodes, chain, short⟩ := chain
  obtain ⟨k', added, _⟩ :=
    addThreadTask_spec chain short fun member => unlinked q ⟨nodes, chain, member⟩
  exact ⟨k', added⟩

theorem Represents.walksEnd [Allocator H] {k : Kernel H} {a : Threads} (represents : Represents k a)
    (ordered : a.Ordered) : WalksEnd k where
  schedule registers := (schedule_refines ordered represents registers).imp fun _ => And.left
  exit registers := (exit_refines ordered represents registers).imp fun _ => And.left
  kill pid registers := by
    obtain ⟨k', result, killed, _⟩ := kill_refines ordered represents pid registers
    exact ⟨k', result, killed⟩
  killZombies := (killZombies_refines ordered represents).imp fun _ => And.left
  addThreadTask q _ unlinked := represents.addThreadTask ordered q unlinked

/-- In every run from `sched_init` the queues are in order. -/
theorem run_queuesInOrder [Allocator H] {allowed : Kernel H → Op → Prop} {k : Kernel H}
    (reached : Reachable allowed k) :
    (∃ ready zombies current, QueuesInOrder k ready zombies current) ∧ WalksEnd k := by
  obtain ⟨a, ordered, represents⟩ := reached.represented
  exact ⟨⟨a.ready, a.zombies, a.current, represents.queuesInOrder ordered⟩,
    represents.walksEnd ordered⟩

/-! ## A first state -/

def blankTask : Task :=
  ⟨.zero, 0, .ready, 0, 0, 0, none, none, 0, fun _ => .null, none, none, fun _ => none, none⟩

/-- Before `sched_init`, when the file system is there. -/
def beforeSched : Kernel BootHeap :=
  { initState with
    tasks := fun _ => blankTask
    readyQueue := none
    waitQueue := none
    zombieQueue := none
    threadCnt := 0
    current := none
    live := []
    addedUnlinked := True
    releasedZombies := True }

def started : Kernel BootHeap := (schedInit beforeSched 0).get (by decide +kernel)

/-- The task of the idle thread. -/
def idleTask : Nat := (beforeSched.alloc taskSize).2.get (by decide +kernel)

theorem started_booted : Booted started := by
  have first : (beforeSched.alloc taskSize).2 = some idleTask := (Option.some_get _).symm
  have fresh : ((beforeSched.alloc taskSize).1.alloc taskSize).2 ≠ some idleTask := by decide +kernel
  exact .init rfl trivial trivial first fresh (Option.some_get _).symm

theorem threadMade_returns : (threadCreate started 0).isSome := by decide +kernel

/-- A second thread is created. -/
def threadMade : Kernel BootHeap × Option Nat := (threadCreate started 0).get threadMade_returns

theorem threadMade_step : Step started .threadCreate threadMade.1 :=
  .threadCreate (freshTask_of (by decide +kernel)) (Fs.eq_some_get threadMade_returns rfl)

/-- The first task exits. -/
def threadExits : Kernel BootHeap := (exit threadMade.1 .zero).get (by decide +kernel)

theorem threadExits_step : Step threadMade.1 .exit threadExits := .exit (Option.some_get _).symm

def blankFrame : TrapFrame := ⟨fun _ => 0, 0, 0, 0⟩

/-- The thread that runs now forks. -/
def threadForks : Kernel BootHeap × TrapFrame × Option (Nat × TrapFrame) :=
  (sysFork threadExits blankFrame 0 0).get (by decide +kernel)

theorem threadForks_step : Step threadExits .fork threadForks.1 := by
  have returned : some threadForks = sysFork threadExits blankFrame 0 0 := Option.some_get _
  have made : sysFork threadExits blankFrame 0 0 =
      some (threadForks.1, threadForks.2.1, threadForks.2.2) := by
    rw [← returned, Prod.mk.eta]
  exact .fork (freshTask_of (by decide +kernel)) made

theorem run_queuesInOrder_forks :
    (∃ ready zombies current, QueuesInOrder threadForks.1 ready zombies current) ∧
      WalksEnd threadForks.1 := by
  have made : Reachable (fun _ _ => True) threadMade.1 :=
    .step (.boot started_booted) trivial threadMade_step
  have exited : Reachable (fun _ _ => True) threadExits := .step made trivial threadExits_step
  exact run_queuesInOrder (.step exited trivial threadForks_step)

end OsdiKernel.Sched
