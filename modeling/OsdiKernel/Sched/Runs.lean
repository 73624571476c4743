import OsdiKernel.Fs.System
import OsdiKernel.Sched.Lifecycle

/-!
# Runs of the scheduler

The task that runs calls the functions of the scheduler in any order, and the
rest of the kernel uses the heap and the memory that no task occupies.  In every
state that is reached the queues are in order.
-/

namespace OsdiKernel.Sched

open Queue (Chain)

variable {H : Type} [Allocator H]

inductive Op where
  | threadCreate
  | fork
  | exec
  | schedule
  | exit
  | kill (pid : BitVec 32)
  | killZombies
  | rest
  deriving DecidableEq

/-- One operation of the current task.  The heap returns no task that is in
use.  A call of `exec` does not return. -/
inductive Step (k : Kernel H) : Op → Kernel H → Prop
  | threadCreate {k' : Kernel H} {callback : Word} {result : Option Nat} (fresh : FreshTask k)
      (made : Sched.threadCreate k callback = some (k', result)) : Step k .threadCreate k'
  | fork {k' : Kernel H} {frame frame' : TrapFrame} {currSp forkEnd : Word}
      {child : Option (Nat × TrapFrame)} (fresh : FreshTask k)
      (made : sysFork k frame currSp forkEnd = some (k', frame', child)) : Step k .fork k'
  | exec {k' : Kernel H} {execSize p : Nat} (fresh : FreshTask (k.alloc execSize).1)
      (made : Sched.exec k execSize = some (k', some p)) : Step k .exec k'
  | schedule {k' : Kernel H} {registers : CpuContext}
      (switched : Sched.schedule k registers = some k') : Step k .schedule k'
  | exit {k' : Kernel H} {registers : CpuContext} (exited : Sched.exit k registers = some k') :
      Step k .exit k'
  | kill {k' : Kernel H} {pid : BitVec 32} {registers : CpuContext} {result : Int}
      (killed : Sched.kill k pid registers = some (k', result)) : Step k (.kill pid) k'
  | killZombies {k' : Kernel H} (reaped : Sched.killZombies k = some k') : Step k .killZombies k'
  | rest {s : Fs.State H} {tasks : Nat → Task}
      (same : ∀ p ∈ k.live, (tasks p).state = (k.tasks p).state ∧ (tasks p).next = (k.tasks p).next) :
      Step k .rest { k with toState := s, tasks := tasks }

/-- The kernel after `sched_init`, which found memory for the first task. -/
inductive Booted : Kernel H → Prop
  | init {k k' : Kernel H} {idle : Word} {idleTask : Nat} (unused : k.live = [])
      (added : k.addedUnlinked) (released : k.releasedZombies)
      (first : (k.alloc taskSize).2 = some idleTask)
      (fresh : ((k.alloc taskSize).1.alloc taskSize).2 ≠ some idleTask)
      (booted : schedInit k idle = some k') : Booted k'

/-- The states that are reached by steps which are all allowed. -/
inductive Reachable (allowed : Kernel H → Op → Prop) : Kernel H → Prop
  | boot {k : Kernel H} (booted : Booted k) : Reachable allowed k
  | step {k k' : Kernel H} {op : Op} (reached : Reachable allowed k) (ok : allowed k op)
      (stepped : Step k op k') : Reachable allowed k'

/-! ## Simulation -/

/-- What an operation does to the lists. -/
inductive Moves (k : Kernel H) (a : Threads) : Op → Threads → Prop
  | none {op : Op} {state : Nat → TaskState} (same : ∀ p ∈ a.live, state p = a.state p)
      (quiet : op ≠ .exec ∧ op ≠ .schedule ∧ op ≠ .exit ∧ op ≠ .killZombies) :
      Moves k a op { a with state := state }
  | create {op : Op} {p : Nat} (creates : op = .threadCreate ∨ op = .fork) (fresh : p ∉ a.live) :
      Moves k a op (a.create p)
  | exec {p : Nat} (fresh : p ∉ a.live) : Moves k a .exec (a.exec p)
  | schedule : Moves k a .schedule a.schedule
  | exit : Moves k a .exit a.exit
  | kill {p : Nat} {pid : BitVec 32} (ready : p ∈ a.ready)
      (found : getThreadTaskById k pid = some (some p)) : Moves k a (.kill pid) (a.kill p)
  | killZombies : Moves k a .killZombies a.reap

section Simulation

variable {k k' : Kernel H} {a b : Threads} {op : Op}

omit [Allocator H] in
/-- Every operation keeps the invariant. -/
theorem Moves.ordered (moves : Moves k a op b) (ordered : a.Ordered) : b.Ordered := by
  cases moves with
  | none same => exact ordered.rest same
  | create _ fresh => exact ordered.create fresh
  | exec fresh => exact ordered.exec fresh
  | schedule => exact ordered.schedule
  | exit => exact ordered.exit
  | kill ready _ => exact ordered.kill ready
  | killZombies => exact ordered.reap

/-- The lists follow the links, step by step. -/
theorem Step.refines (stepped : Step k op k') (ordered : a.Ordered) (represents : Represents k a) :
    ∃ b, Moves k a op b ∧ Represents k' b := by
  cases stepped with
  | threadCreate fresh made =>
      cases threadCreate_refines ordered.toTidy represents fresh made with
      | failed same represents' => exact ⟨_, .none same (by decide), represents'⟩
      | made fresh represents' => exact ⟨_, .create (Or.inl rfl) fresh, represents'⟩
  | @fork _ _ _ _ _ child fresh made =>
      have outcome := sysFork_refines ordered.toTidy represents fresh made
      generalize child.map Prod.fst = result at outcome
      cases outcome with
      | failed same represents' => exact ⟨_, .none same (by decide), represents'⟩
      | made fresh represents' => exact ⟨_, .create (Or.inr rfl) fresh, represents'⟩
  | exec fresh made =>
      obtain ⟨fresh', represents'⟩ := exec_refines ordered.toTidy represents fresh made
      exact ⟨_, .exec fresh', represents'⟩
  | @schedule _ registers switched =>
      obtain ⟨k₁, switched₁, represents'⟩ := schedule_refines ordered represents registers
      rw [switched] at switched₁
      cases switched₁
      exact ⟨_, .schedule, represents'⟩
  | @exit _ registers exited =>
      obtain ⟨k₁, exited₁, represents'⟩ := exit_refines ordered represents registers
      rw [exited] at exited₁
      cases exited₁
      exact ⟨_, .exit, represents'⟩
  | @kill _ pid registers result killed =>
      obtain ⟨k₁, result₁, killed₁, outcome⟩ := kill_refines ordered represents pid registers
      rw [killed] at killed₁
      cases killed₁
      cases outcome with
      | missed _ same =>
          subst same
          exact ⟨a, .none (fun _ _ => rfl) ⟨nofun, nofun, nofun, nofun⟩, represents⟩
      | hit ready found represents' => exact ⟨_, .kill ready found, represents'⟩
  | killZombies reaped =>
      obtain ⟨k₁, reaped₁, represents'⟩ := killZombies_refines ordered represents
      rw [reaped] at reaped₁
      cases reaped₁
      exact ⟨_, .killZombies, represents'⟩
  | @rest s tasks same =>
      refine ⟨_, @Moves.none H k a .rest (fun p => (tasks p).state) (fun p member => ?_) (by decide), ?_⟩
      · rw [← represents.live] at member
        exact (same p member).1.trans (represents.state p)
      · have links : ∀ p ∈ a.live, (tasks p).next = k.next p := by
          intro p member
          rw [← represents.live] at member
          exact (same p member).2
        exact { represents with
          ready := represents.ready.congr fun p member => links p (ordered.readyLive member)
          zombies := represents.zombies.congr fun p member => links p (ordered.zombiesLive member)
          state := fun _ => rfl }

omit [Allocator H] in
/-- There are no threads yet. -/
theorem listed_empty {c : Option Nat} (unused : k.live = []) (ready : k.readyQueue = none)
    (wait : k.waitQueue = none) (zombie : k.zombieQueue = none) (added : k.addedUnlinked)
    (released : k.releasedZombies) (current : k.current = c) (idleTask : Nat) :
    Listed c k ⟨[], [], idleTask, fun p => (k.tasks p).state, []⟩ where
  ready := ready ▸ .nil
  zombies := zombie ▸ .nil
  wait := wait
  current := current
  state _ := rfl
  live := unused
  addedUnlinked := added
  releasedZombies := released

omit [Allocator H] in
/-- A task that is in no queue runs. -/
theorem Listed.start {c : Option Nat} (listed : Listed c k a) (tidy : a.Tidy)
    (isLive : a.current ∈ a.live) (notReady : a.current ∉ a.ready)
    (notZombie : a.current ∉ a.zombies) :
    (a.setState a.current .running).Ordered ∧
      Represents (Kernel.setState { k with current := some a.current } a.current .running)
        (a.setState a.current .running) := by
  refine ⟨{ tidy.setState notReady notZombie .running with
    currentLive := isLive
    currentState := ⟨notZombie, Or.inl (Threads.setState_self a _ _)⟩ }, ?_⟩
  have set : Listed (some a.current) { k with current := some a.current } a :=
    { listed with current := rfl }
  exact set.setState a.current .running

/-- The first task runs, with or without a second one that is ready. -/
theorem Booted.represented (booted : Booted k) : ∃ a : Threads, a.Ordered ∧ Represents k a ∧
    a.state a.current = .running ∧ ∀ p ∈ a.live, p = a.current ∨ p ∈ a.ready := by
  cases booted with
  | @init k₀ _ idle idleTask unused added released first fresh booted =>
      unfold schedInit at booted
      generalize reset : ({ k₀ with
        readyQueue := none
        waitQueue := none
        zombieQueue := none
        threadCnt := 0 } : Kernel H) = k₁ at booted
      dsimp only at booted
      have allocates : (k₁.alloc taskSize).2 = some idleTask := by
        rw [← reset]
        exact first
      have second : ((k₁.alloc taskSize).1.alloc taskSize).2 ≠ some idleTask := by
        rw [← reset]
        exact fresh
      have empty : Listed k₁.current k₁ ⟨[], [], idleTask, fun p => (k₁.tasks p).state, []⟩ := by
        subst reset
        apply listed_empty
        · exact unused
        · rfl
        · rfl
        · rfl
        · exact added
        · exact released
        · rfl
      have noTask : FreshTask k₁ := fun p _ member => by
        rw [empty.live] at member
        cases member
      have outcome := empty.allocTask noTask
      have heap : k₁.allocTask.2 = some idleTask → (k₁.allocTask.1.alloc taskSize).2 =
          ((k₁.alloc taskSize).1.alloc taskSize).2 := by
        unfold Kernel.allocTask
        generalize k₁.alloc taskSize = pair
        obtain ⟨k₂, p⟩ := pair
        cases p <;> exact fun _ => rfl
      have isFirst : k₁.allocTask.2 = (k₁.alloc taskSize).2 := by
        unfold Kernel.allocTask
        generalize k₁.alloc taskSize = pair
        obtain ⟨k₂, p⟩ := pair
        cases p <;> rfl
      rw [← isFirst] at allocates
      rw [← heap allocates] at second
      generalize k₁.allocTask = pair at *
      obtain ⟨k₂, p⟩ := pair
      dsimp only at allocates second outcome
      subst allocates
      rcases outcome with ⟨impossible, _⟩ | ⟨p, same, _, listed⟩
      · cases impossible
      · cases same
        have tidy : Threads.Tidy
            ⟨[], [], idleTask, fun p => (k₁.tasks p).state, [idleTask]⟩ :=
          ⟨List.nodup_singleton _, List.nodup_nil, List.nodup_nil, List.nil_subset _,
            List.nil_subset _, fun _ member => absurd member List.not_mem_nil,
            fun _ member => absurd member List.not_mem_nil⟩
        have freshTask : FreshTask k₂ := by
          intro p found member
          rw [listed.live, List.mem_singleton] at member
          subst member
          exact second found
        obtain ⟨⟨k₃, result⟩, created, last⟩ := Option.bind_eq_some_iff.mp booted
        cases last
        cases threadCreate_refines tidy listed freshTask created with
        | @failed state _ represents =>
            obtain ⟨ordered, started⟩ := represents.start { tidy with
              readyState := fun _ member => absurd member List.not_mem_nil
              zombiesState := fun _ member => absurd member List.not_mem_nil }
                List.mem_cons_self List.not_mem_nil List.not_mem_nil
            exact ⟨_, ordered, started, Threads.setState_self _ _ _,
              fun _ member => Or.inl (List.mem_singleton.mp member)⟩
        | @made p notLive represents =>
            have notReady : idleTask ∉ [p] := fun member =>
              notLive (List.mem_singleton.mp member ▸ List.mem_cons_self)
            obtain ⟨ordered, started⟩ := represents.start (tidy.create notLive)
              (List.mem_cons_of_mem p List.mem_cons_self) notReady List.not_mem_nil
            refine ⟨_, ordered, started, Threads.setState_self _ _ _, fun q member => ?_⟩
            rcases List.mem_cons.mp member with rfl | first
            · exact Or.inr List.mem_cons_self
            · exact Or.inl (List.mem_singleton.mp first)

/-- In every state that is reached the links represent lists that are in order. -/
theorem Reachable.represented {allowed : Kernel H → Op → Prop} (reached : Reachable allowed k) :
    ∃ a : Threads, a.Ordered ∧ Represents k a := by
  induction reached with
  | boot booted =>
      obtain ⟨a, ordered, represents, _⟩ := booted.represented
      exact ⟨a, ordered, represents⟩
  | step _ _ stepped ih =>
      obtain ⟨a, ordered, represents⟩ := ih
      obtain ⟨b, moves, represents'⟩ := stepped.refines ordered represents
      exact ⟨b, moves.ordered ordered, represents'⟩

end Simulation

end OsdiKernel.Sched
