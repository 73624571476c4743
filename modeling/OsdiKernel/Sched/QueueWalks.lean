import Mathlib.Logic.Relation
import OsdiKernel.Sched.Order

/-!
# Walks over the ready queue, statement by statement

A system call walks over the ready queue with interrupts enabled.  Between two
statements of the walk the timer may run `schedule`, which masks interrupts.
-/

namespace OsdiKernel.Sched

open Queue (Chain)

variable {H : Type}

/-! ## Statements -/

/-- The statements of `add_thread_task` and `rm_thread_task` on `ready_queue`,
with their local variables.  A statement that only touches these runs together
with the one before. -/
inductive QueueCall where
  | addTest
  | addStore
  | addStart
  | addWalk (current : Nat)
  | addAdvance (current : Nat)
  | addLink (current : Nat)
  | addClear
  | added
  | rmTest
  | rmStart
  | rmHead (current : Nat)
  | rmLink (prev current : Nat)
  | rmAdvance (current : Nat)
  | removed
  deriving DecidableEq

namespace QueueCall

/-- The beginning of a round of the loop of `rm_thread_task`. -/
def rmLoop (task : Nat) (prev : Option Nat) : Option Nat → QueueCall
  | none => .removed
  | some current =>
      if current = task then
        match prev with
        | none => .rmHead current
        | some prev => .rmLink prev current
      else .rmAdvance current

/-- One statement; none at the end, or if it follows a null pointer. -/
def step (k : Kernel H) (task : Nat) : QueueCall → Option (Kernel H × QueueCall)
  | .addTest => some (k, if k.readyQueue = none then .addStore else .addStart)
  | .addStore => some (k.setHead .ready (some task), .addClear)
  | .addStart => do
      let current ← k.readyQueue
      return (k, .addWalk current)
  | .addWalk current =>
      some (k, if k.next current = none then .addLink current else .addAdvance current)
  | .addAdvance current => do
      let current ← k.next current
      return (k, .addWalk current)
  | .addLink current => some (k.setNext current (some task), .addClear)
  | .addClear => some (k.setNext task none, .added)
  | .added => none
  | .rmTest => some (k, if k.readyQueue = none then .removed else .rmStart)
  | .rmStart => some (k, rmLoop task none k.readyQueue)
  | .rmHead current => some (k.setHead .ready (k.next current), .removed)
  | .rmLink prev current => some (k.setNext prev (k.next current), .removed)
  | .rmAdvance current => some (k, rmLoop task (some current) (k.next current))
  | .removed => none

/-- The call has returned. -/
def ended : QueueCall → Bool
  | .added => true
  | .removed => true
  | _ => false

/-- The call has not yet read a pointer from the queue. -/
def unread : QueueCall → Bool
  | .addTest => true
  | .addStart => true
  | .rmTest => true
  | .rmStart => true
  | _ => false

end QueueCall

/-! ## Without interrupts -/

/-- Statements that follow each other without an interrupt. -/
def Uninterrupted (task : Nat) : Kernel H × QueueCall → Kernel H × QueueCall → Prop :=
  Relation.ReflTransGen fun first second => first.2.step first.1 task = some second

section Uninterrupted

variable {k k' : Kernel H} {task current : Nat} {call call' : QueueCall}

theorem Uninterrupted.refl (k : Kernel H) (call : QueueCall) :
    Uninterrupted task (k, call) (k, call) := Relation.ReflTransGen.refl

theorem Uninterrupted.cons {last : Kernel H × QueueCall} (stepped : call.step k task = some (k', call'))
    (rest : Uninterrupted task (k', call') last) : Uninterrupted task (k, call) last :=
  Relation.ReflTransGen.head stepped rest

/-- The walk comes to the last task of the queue. -/
theorem walk_statements {fuel last : Nat} (found : Queue.last k.next fuel current = some last) :
    Uninterrupted task (k, .addWalk current)
      ((k.setNext last (some task)).setNext task none, .added) := by
  induction fuel generalizing current with
  | zero => cases found
  | succ fuel ih =>
      unfold Queue.last at found
      cases after : k.next current with
      | none =>
          have ends : (QueueCall.addWalk current).step k task = some (k, .addLink current) :=
            congrArg (fun call => some (k, call)) (if_pos after)
          rw [after] at found
          cases found
          exact .cons ends (.cons rfl (.cons rfl (.refl _ _)))
      | some next =>
          rw [after] at found
          have goes : (QueueCall.addWalk current).step k task = some (k, .addAdvance current) :=
            congrArg (fun call => some (k, call)) (if_neg (after ▸ Option.some_ne_none next))
          have advances : (QueueCall.addAdvance current).step k task = some (k, .addWalk next) := by
            dsimp only [QueueCall.step]
            rw [after]
            rfl
          exact .cons goes (.cons advances (ih found))

/-- The statements of `add_thread_task` make up the whole call. -/
theorem addThreadTask_statements (added : addThreadTask k .ready task = some k') :
    Uninterrupted task (k.noteAdded task, .addTest) (k', .added) := by
  unfold addThreadTask at added
  dsimp only at added
  generalize k.noteAdded task = k₁ at added ⊢
  cases head : k₁.head .ready with
  | none =>
      rw [head] at added
      cases added
      have tests : QueueCall.addTest.step k₁ task = some (k₁, .addStore) :=
        congrArg (fun call => some (k₁, call)) (if_pos head)
      exact .cons tests (.cons rfl (.cons rfl (.refl _ _)))
  | some first =>
      rw [head] at added
      obtain ⟨last, found, same⟩ := Option.bind_eq_some_iff.mp added
      cases same
      have isFirst : k₁.readyQueue = some first := head
      have tests : QueueCall.addTest.step k₁ task = some (k₁, .addStart) :=
        congrArg (fun call => some (k₁, call)) (if_neg (by rw [isFirst]; nofun))
      have starts : QueueCall.addStart.step k₁ task = some (k₁, .addWalk first) := by
        dsimp only [QueueCall.step]
        rw [isFirst]
        rfl
      exact .cons tests (.cons starts (walk_statements found))

theorem rmLoop_statements {fuel : Nat} {prev current : Option Nat}
    (removed : rmThreadTaskLoop k .ready task fuel prev current = some k') :
    Uninterrupted task (k, .rmLoop task prev current) (k', .removed) := by
  induction fuel generalizing prev current with
  | zero =>
      cases current with
      | none => cases removed; exact .refl _ _
      | some current => cases removed
  | succ fuel ih =>
      cases current with
      | none => cases removed; exact .refl _ _
      | some current =>
          unfold rmThreadTaskLoop at removed
          unfold QueueCall.rmLoop
          dsimp only
          by_cases here : current = task
          · rw [if_pos here] at removed ⊢
            cases prev with
            | none => cases removed; exact .cons rfl (.refl _ _)
            | some prev => cases removed; exact .cons rfl (.refl _ _)
          · rw [if_neg here] at removed ⊢
            exact .cons rfl (ih removed)

/-- The statements of `rm_thread_task` make up the whole call. -/
theorem rmThreadTask_statements (removed : rmThreadTask k .ready task = some k') :
    Uninterrupted task (k, .rmTest) (k', .removed) := by
  unfold rmThreadTask at removed
  cases head : k.head .ready with
  | none =>
      rw [head] at removed
      cases removed
      have tests : QueueCall.rmTest.step k task = some (k, .removed) :=
        congrArg (fun call => some (k, call)) (if_pos head)
      exact .cons tests (.refl _ _)
  | some first =>
      rw [head] at removed
      have isFirst : k.readyQueue = some first := head
      have tests : QueueCall.rmTest.step k task = some (k, .rmStart) :=
        congrArg (fun call => some (k, call)) (if_neg (by rw [isFirst]; nofun))
      refine .cons tests (.cons rfl ?_)
      rw [isFirst]
      exact rmLoop_statements removed

end Uninterrupted

/-! ## Interrupted walks -/

structure WalkSystem (H : Type) where
  kernel : Kernel H
  call : QueueCall

inductive WalkOp where
  | statement
  | schedule
  | exit
  | rest
  deriving DecidableEq

/-- The caller makes a statement while it runs, or the timer runs `schedule` in
whatever task runs.  Another task that runs, and so is in no queue, may say that
it has exited, which its next `schedule` makes good.  Otherwise the tasks may
change all but their states and their links. -/
inductive WalkStep (caller task : Nat) (sys : WalkSystem H) : WalkOp → WalkSystem H → Prop
  | statement {k : Kernel H} {call : QueueCall} (runs : sys.kernel.current = some caller)
      (stepped : sys.call.step sys.kernel task = some (k, call)) :
      WalkStep caller task sys .statement ⟨k, call⟩
  | schedule {k : Kernel H} {registers : CpuContext} (unfinished : sys.call.ended = false)
      (switched : Sched.schedule sys.kernel registers = some k) :
      WalkStep caller task sys .schedule ⟨k, sys.call⟩
  | exit {p : Nat} (unfinished : sys.call.ended = false) (runs : sys.kernel.current = some p)
      (other : p ≠ caller) : WalkStep caller task sys .exit ⟨sys.kernel.setState p .exited, sys.call⟩
  | rest {s : Fs.State H} {tasks : Nat → Task}
      (same : ∀ p, (tasks p).state = (sys.kernel.tasks p).state ∧
        (tasks p).next = (sys.kernel.tasks p).next) :
      WalkStep caller task sys .rest ⟨{ sys.kernel with toState := s, tasks := tasks }, sys.call⟩

/-- The states that are reached by steps which are all allowed. -/
inductive WalkRun (allowed : WalkSystem H → WalkOp → Prop) (caller task : Nat) (start : WalkSystem H) :
    WalkSystem H → Prop
  | refl : WalkRun allowed caller task start start
  | step {sys sys' : WalkSystem H} {op : WalkOp} (run : WalkRun allowed caller task start sys)
      (ok : allowed sys op) (stepped : WalkStep caller task sys op sys') :
      WalkRun allowed caller task start sys'

/-- The queue has no task twice.  Every task that was ready still is, unless it
runs or has exited.  The walk does not run into a null pointer, and in the end
the added task is there once, and the removed one is not. -/
structure QueueKept (k : Kernel H) (caller task : Nat) (sys : WalkSystem H) (ready : List Nat) :
    Prop where
  chain : Chain sys.kernel.next sys.kernel.readyQueue ready
  nodup : ready.Nodup
  kept : ∀ p, k.InQueue .ready p → p ≠ task →
    p ∈ ready ∨ sys.kernel.current = some p ∨ sys.kernel.InQueue .zombie p
  continues : sys.kernel.current = some caller →
    sys.call.ended = true ∨ ∃ next, sys.call.step sys.kernel task = some next
  added : sys.call = .added → ready.count task = 1
  removed : sys.call = .removed → task ∉ ready

/-! ### Where the calls begin -/

/-- What `sys_fork` has made of the child when it adds it to the queue. -/
def forkBuilt (k : Kernel H) (parent child : Nat) (currSp forkEnd : Word) : Kernel H :=
  let p := k.tasks parent
  let k := k.modify child fun t =>
    { t with pendingSig := p.pendingSig, sigHandlers := p.sigHandlers, next := none }
  k.modify child fun t =>
    { t with
      cpuContext := { p.cpuContext with
        sp := addr t.kernelStack + (currSp - addr p.kernelStack)
        fp := p.cpuContext.fp
        lr := forkEnd } }

theorem forkInit_added {k k' : Kernel H} {parent child : Nat} {frame : TrapFrame}
    {currSp forkEnd : Word} {frames : TrapFrame × TrapFrame}
    (made : forkInit k parent child frame currSp forkEnd = some (k', frames)) :
    addThreadTask (forkBuilt k parent child currSp forkEnd) .ready child = some k' := by
  obtain ⟨k₁, added, same⟩ := Option.bind_eq_some_iff.mp made
  cases same
  exact added

/-- The current task is about to add the child that it has made, or to remove a
task that it has found. -/
inductive CallStart [Allocator H] (k : Kernel H) (caller : Nat) : WalkSystem H → Nat → Prop
  | fork {k' : Kernel H} {child : Nat} {currSp forkEnd : Word} (fresh : FreshTask k)
      (made : allocThread k (k.tasks caller).counter (k.tasks caller).priority
        (k.tasks caller).preemptCount = (k', some child)) :
      CallStart k caller ⟨forkBuilt k' caller child currSp forkEnd, .addTest⟩ child
  | kill {pid : BitVec 32} {task : Nat} (found : getThreadTaskById k pid = some (some task)) :
      CallStart k caller ⟨k, .rmTest⟩ task

/-! ### Disturbance -/

/-- The call cannot do without the task: it points at it, or it has found it
and no other one. -/
def QueueCall.needs (k : Kernel H) (caller task p : Nat) : QueueCall → Prop
  | .addStart => k.readyQueue = some caller ∧ k.next caller = none
  | .addWalk current => p = current
  | .addAdvance current => p = current ∨ k.readyQueue = some caller ∧ k.next current = none
  | .addLink current => p = current
  | .addClear => p = task
  | .rmHead current => p = current
  | .rmLink prev current => p = prev ∨ p = current
  | .rmAdvance current => p = current
  | _ => False

/-- No `schedule` switches away from the caller during its walk while the caller
itself is in the queue, as a task is that `exec` has started, nor from a task
that has exited and that the call needs. -/
structure Undisturbed (caller task : Nat) (sys : WalkSystem H) (op : WalkOp) : Prop where
  unlinked : op = .schedule → sys.kernel.current = some caller →
    (sys.kernel.tasks caller).state = .ready → sys.kernel.readyQueue ≠ some caller →
    sys.call.unread = true
  unneeded : ∀ p, op = .schedule → sys.kernel.current = some p → p ≠ caller →
    (sys.kernel.tasks p).state = .exited → ¬ sys.call.needs sys.kernel caller task p

end OsdiKernel.Sched
