import Mathlib
import OsdiKernel.Fs.System
import OsdiKernel.Lib.Agenda

/-!
# Deferred tasks

An interrupt handler leaves its work to a task.  The tasks that wait form a list
in the order of their priorities, from which `execute_task` takes the first one,
calls its function and releases it.  The function may add and execute tasks
itself before it returns.
-/

namespace OsdiKernel.Irq

open Allocator (Holds)

/-- `sizeof(struct Task)`: two links, the function, and the priority with its padding. -/
def taskSize : Nat := 32

/-- The fields of a `struct Task` that are not links.  A lower number is a higher priority. -/
structure Task (C : Type) where
  callback : C
  priority : Int
  deriving DecidableEq

/-- The tasks by address, with the static variable `task_head`. -/
structure Tasks (C H : Type) where
  heap : H
  tasks : Nat → Task C
  links : Links Nat
  taskHead : Option Nat

section Operations

variable {C H : Type} [Allocator H]

/-- The statements of `add_task` before the list is edited. -/
def newTask (s : Tasks C H) (task : Task C) : Tasks C H × Option Nat :=
  match Allocator.alloc s.heap taskSize with
  | (heap, none) => ({ s with heap := heap }, none)
  | (heap, some new) =>
      ({ s with heap := heap, tasks := Function.update s.tasks new task }, some new)

omit [Allocator H] in
/-- Make the task the head of the list. -/
def insertFirst (s : Tasks C H) (new : Nat) : Tasks C H :=
  { s with links := s.links.pushFront s.taskHead new, taskHead := some new }

omit [Allocator H] in
/-- Insert the task between `curr` and the one behind it. -/
def insertBehind (s : Tasks C H) (curr new : Nat) : Tasks C H :=
  let links := s.links.setNext new (s.links.next curr)
  let links := links.setPrev new (some curr)
  let links := links.setNext curr (some new)
  let links :=
    match links.next curr with
    | none => links
    | some behind => links.setPrev behind (some new)
  { s with links := links }

omit [Allocator H] in
/-- The statements of `add_task` that edit the list; `fuel` bounds the loop. -/
def linkTask (fuel : Nat) (s : Tasks C H) (new : Nat) : Option (Tasks C H) :=
  match s.taskHead with
  | none => some (insertFirst s new)
  | some head =>
      if (s.tasks new).priority ≤ (s.tasks head).priority then some (insertFirst s new)
      else
        match Queue.seek s.links.next
            (fun p => decide ((s.tasks p).priority < (s.tasks new).priority)) fuel head with
        | none => none
        | some curr => some (insertBehind s curr new)

/-- A call of `add_task`, with the task if there was memory for it; none if its
loop does not end. -/
def addTask (fuel : Nat) (s : Tasks C H) (task : Task C) : Option (Tasks C H × Option Nat) :=
  match newTask s task with
  | (s, none) => some (s, none)
  | (s, some new) => (linkTask fuel s new).map fun s => (s, some new)

omit [Allocator H] in
/-- The statements of `execute_task` before the call of the function.  It reads
through the head without a test; none stands for the null pointer. -/
def executeTask (s : Tasks C H) : Option (Tasks C H × Nat) :=
  s.taskHead.map fun curr =>
    ({ s with links := s.links.popFront curr, taskHead := s.links.next curr }, curr)

/-- The statement of `execute_task` behind the call. -/
def finishTask (s : Tasks C H) (curr : Nat) : Tasks C H :=
  { s with heap := Allocator.free s.heap curr }

end Operations

/-! ## The list in order -/

namespace Tasks

variable {C H : Type}

def priority (s : Tasks C H) (p : Nat) : Int := (s.tasks p).priority

/-- Following `next` from the head visits the listed tasks and ends. -/
def Lists (s : Tasks C H) (nodes : List Nat) : Prop := Queue.Chain s.links.next s.taskHead nodes

end Tasks

section Lists

variable {C H : Type} {s s' : Tasks C H} {nodes : List Nat} {new curr fuel : Nat}

theorem insertBehind_next (s : Tasks C H) (curr new : Nat) :
    (insertBehind s curr new).links.next =
      Function.update (Function.update s.links.next new (s.links.next curr)) curr (some new) := by
  unfold insertBehind
  dsimp only
  split <;> rfl

/-- What `add_task` does to the list. -/
structure Linked (s s' : Tasks C H) (nodes : List Nat) (new : Nat) : Prop where
  lists : s'.Lists (Agenda.add s.priority new nodes)
  heap : s'.heap = s.heap
  tasks : s'.tasks = s.tasks

theorem insertFirst_linked (lists : s.Lists nodes) (fresh : new ∉ nodes)
    (front : ∀ head, s.taskHead = some head → s.priority new ≤ s.priority head) :
    Linked s (insertFirst s new) nodes new where
  lists := by
    have forward : (insertFirst s new).links.next =
        Function.update s.links.next new s.taskHead := by
      funext p
      by_cases atNew : p = new
      · rw [atNew, Function.update_self]
        exact Links.pushFront_next_self
      · rw [Function.update_of_ne atNew]
        exact Links.pushFront_next_of_ne atNew
    unfold Tasks.Lists
    rw [forward]
    exact Agenda.chain_front lists fresh front
  heap := rfl
  tasks := rfl

theorem linkTask_linked (lists : s.Lists nodes) (fresh : new ∉ nodes)
    (linked : linkTask fuel s new = some s') : Linked s s' nodes new := by
  cases start : s.taskHead with
  | none =>
      simp only [linkTask, start, Option.some.injEq] at linked
      subst linked
      refine insertFirst_linked lists fresh fun head same => ?_
      rw [start] at same
      cases same
  | some head =>
      simp only [linkTask, start] at linked
      split at linked
      · next before =>
          simp only [Option.some.injEq] at linked
          subst linked
          refine insertFirst_linked lists fresh fun first same => ?_
          rw [start] at same
          cases same
          exact before
      · next later =>
          split at linked
          · cases linked
          · next curr found =>
              simp only [Option.some.injEq] at linked
              subst linked
              have chain : Queue.Chain s.links.next (some head) nodes := start ▸ lists
              obtain ⟨rest, rfl, _⟩ := chain.tail
              refine ⟨?_, rfl, rfl⟩
              unfold Tasks.Lists
              rw [insertBehind_next]
              have sameHead : (insertBehind s curr new).taskHead = some head := start
              rw [sameHead]
              exact Agenda.chain_behind chain fresh later found

/-- The loop of `add_task` ends. -/
theorem linkTask_returns (lists : s.Lists nodes) (enough : nodes.length ≤ fuel) (new : Nat) :
    ∃ s', linkTask fuel s new = some s' := by
  cases start : s.taskHead with
  | none => exact ⟨insertFirst s new, by simp only [linkTask, start]⟩
  | some head =>
      by_cases before : (s.tasks new).priority ≤ (s.tasks head).priority
      · exact ⟨insertFirst s new, by simp only [linkTask, start, before, if_true]⟩
      · have chain : Queue.Chain s.links.next (some head) nodes := start ▸ lists
        obtain ⟨rest, rfl, _⟩ := chain.tail
        obtain ⟨curr, found⟩ := chain.seek_returns
          (p := fun p => decide ((s.tasks p).priority < (s.tasks new).priority)) enough
        exact ⟨insertBehind s curr new, by simp only [linkTask, start, before, if_false, found]⟩

end Lists

/-! ## Runs -/

/-- The tasks, those whose functions have been called and have not returned, and
the pointers that the rest of the kernel uses. -/
structure System (C H : Type) where
  queue : Tasks C H
  running : List Nat
  others : List Nat

/-- What a step does. -/
inductive Event (C : Type) where
  | elsewhere
  | refused
  | added (new : Nat) (task : Task C)
  | started (curr : Nat) (task : Task C)
  | finished (curr : Nat)

variable {C H : Type} [Allocator H]

/-- One call of `add_task`, one half of a call of `execute_task`, or a step of the
rest of the kernel on the heap. -/
inductive Step (s : System C H) : Event C → System C H → Prop
  | elsewhere {heap : H} {others : List Nat}
      (kept : ∀ own, Holds s.queue.heap (own ++ s.others) → Holds heap (own ++ others)) :
      Step s .elsewhere { s with queue := { s.queue with heap := heap }, others := others }
  | refuse {queue : Tasks C H} {fuel : Nat} {task : Task C}
      (refused : addTask fuel s.queue task = some (queue, none)) :
      Step s .refused { s with queue := queue }
  | add {queue : Tasks C H} {fuel new : Nat} {task : Task C}
      (added : addTask fuel s.queue task = some (queue, some new)) :
      Step s (.added new task) { s with queue := queue }
  | start {queue : Tasks C H} {curr : Nat} (started : executeTask s.queue = some (queue, curr)) :
      Step s (.started curr (s.queue.tasks curr))
        { s with queue := queue, running := curr :: s.running }
  | finish {curr : Nat} (runs : curr ∈ s.running) :
      Step s (.finished curr)
        { s with queue := finishTask s.queue curr, running := s.running.erase curr }

/-- A sequence of steps, with their events. -/
inductive Run : System C H → List (Event C) → System C H → Prop
  | nil {s : System C H} : Run s [] s
  | cons {s mid last : System C H} {event : Event C} {trace : List (Event C)}
      (step : Step s event mid) (rest : Run mid trace last) : Run s (event :: trace) last

/-- No task has been added. -/
structure Initial (s : System C H) : Prop where
  empty : s.queue.taskHead = none
  idle : s.running = []
  holds : Holds s.queue.heap s.others

/-! ## What the tasks are for -/

/-- A task that waits, with its address. -/
abbrev Job (C : Type) := Nat × Task C

def Job.priority (job : Job C) : Int := job.2.priority

/-- The jobs that wait, from the newest to the oldest.  The next one to be executed
is the newest of those of the highest priority. -/
inductive Pool.Step [DecidableEq C] (pool : List (Job C)) : Event C → List (Job C) → Prop
  | elsewhere : Pool.Step pool .elsewhere pool
  | refused : Pool.Step pool .refused pool
  | added (new : Nat) (task : Task C) (fresh : new ∉ pool.map Prod.fst) :
      Pool.Step pool (.added new task) ((new, task) :: pool)
  | started {curr : Nat} {task : Task C} (best : pool.argmin Job.priority = some (curr, task)) :
      Pool.Step pool (.started curr task) (pool.erase (curr, task))
  | finished (curr : Nat) : Pool.Step pool (.finished curr) pool

inductive Pool.Run [DecidableEq C] : List (Job C) → List (Event C) → List (Job C) → Prop
  | nil {pool : List (Job C)} : Pool.Run pool [] pool
  | cons {pool mid last : List (Job C)} {event : Event C} {trace : List (Event C)}
      (step : Pool.Step pool event mid) (rest : Pool.Run mid trace last) :
      Pool.Run pool (event :: trace) last

/-- The list holds the jobs of a pool in order; they and the tasks that run are allocated. -/
structure Represents (s : System C H) (pool : List (Job C)) : Prop where
  lists : s.queue.Lists ((Agenda.ofPool Job.priority pool).map Prod.fst)
  fields : ∀ job ∈ pool, s.queue.tasks job.1 = job.2
  distinct : (s.running ++ pool.map Prod.fst).Nodup
  holds : Holds s.queue.heap (s.running ++ pool.map Prod.fst ++ s.others)

theorem Initial.represents {s : System C H} (initial : Initial s) : Represents s [] where
  lists := by
    unfold Tasks.Lists
    rw [initial.empty]
    exact .nil
  fields job member := by cases member
  distinct := by
    rw [initial.idle]
    exact List.nodup_nil
  holds := by
    rw [initial.idle]
    exact initial.holds

namespace Represents

variable {s s' : System C H} {pool : List (Job C)} {new curr fuel : Nat} {task : Task C}

/-- The addresses on the list are those of the pool. -/
theorem nodes_perm (pool : List (Job C)) :
    ((Agenda.ofPool Job.priority pool).map Prod.fst).Perm (pool.map Prod.fst) :=
  (Agenda.ofPool_perm Job.priority pool).map Prod.fst

/-- The addresses are in the order of the jobs. -/
theorem map_add (nodes : List (Job C)) (key : Nat → Int)
    (same : ∀ job ∈ (new, task) :: nodes, key job.1 = Job.priority job) :
    Agenda.add key new (nodes.map Prod.fst) =
      (Agenda.add Job.priority (new, task) nodes).map Prod.fst := by
  symm
  refine List.map_orderedInsert _ _ _ nodes (new, task) ?_ ?_
  · intro job member
    show Job.priority job ≤ Job.priority (new, task) ↔ key job.1 ≤ key (new, task).1
    rw [same job (List.mem_cons_of_mem _ member), same (new, task) List.mem_cons_self]
  · intro job member
    show Job.priority (new, task) ≤ Job.priority job ↔ key (new, task).1 ≤ key job.1
    rw [same job (List.mem_cons_of_mem _ member), same (new, task) List.mem_cons_self]

theorem newTask_cases (s : Tasks C H) (task : Task C) :
    (newTask s task = ({ s with heap := (Allocator.alloc s.heap taskSize).1 }, none) ∧
        (Allocator.alloc s.heap taskSize).2 = none) ∨
      ∃ new, (Allocator.alloc s.heap taskSize).2 = some new ∧
        newTask s task =
          ({ s with
              heap := (Allocator.alloc s.heap taskSize).1
              tasks := Function.update s.tasks new task }, some new) := by
  unfold newTask
  split
  · next heap result => exact Or.inl ⟨by rw [result], by rw [result]⟩
  · next heap new result => exact Or.inr ⟨new, by rw [result], by rw [result]⟩

/-- A call of `add_task` that finds no memory leaves the list alone. -/
theorem addTask_none {queue : Tasks C H}
    (refused : addTask fuel s.queue task = some (queue, none)) :
    (Allocator.alloc s.queue.heap taskSize).2 = none ∧
      queue = { s.queue with heap := (Allocator.alloc s.queue.heap taskSize).1 } := by
  rcases newTask_cases s.queue task with ⟨shape, nothing⟩ | ⟨new, _, shape⟩
  · simp only [addTask, shape, Option.some.injEq, Prod.mk.injEq, and_true] at refused
    exact ⟨nothing, refused.symm⟩
  · simp [addTask, shape] at refused

theorem addTask_some {queue : Tasks C H}
    (added : addTask fuel s.queue task = some (queue, some new)) :
    (Allocator.alloc s.queue.heap taskSize).2 = some new ∧
      linkTask fuel { s.queue with
        heap := (Allocator.alloc s.queue.heap taskSize).1
        tasks := Function.update s.queue.tasks new task } new = some queue := by
  rcases newTask_cases s.queue task with ⟨shape, _⟩ | ⟨other, result, shape⟩
  · simp [addTask, shape] at added
  · simp only [addTask, shape, Option.map_eq_some_iff, Prod.mk.injEq, Option.some.injEq] at added
    obtain ⟨_, linked, rfl, rfl⟩ := added
    exact ⟨result, linked⟩

theorem refuse (rep : Represents s pool) {queue : Tasks C H}
    (refused : addTask fuel s.queue task = some (queue, none)) :
    Represents { s with queue := queue } pool := by
  obtain ⟨nothing, rfl⟩ := addTask_none refused
  exact ⟨rep.lists, rep.fields, rep.distinct, Allocator.alloc_none rep.holds nothing⟩

theorem add (rep : Represents s pool) {queue : Tasks C H}
    (added : addTask fuel s.queue task = some (queue, some new)) :
    new ∉ pool.map Prod.fst ∧ Represents { s with queue := queue } ((new, task) :: pool) := by
  obtain ⟨result, linked⟩ := addTask_some added
  obtain ⟨fresh, holds⟩ := Allocator.alloc_some rep.holds result
  have apart : new ∉ s.running ++ pool.map Prod.fst :=
    fun member => fresh (List.mem_append_left _ member)
  have unlisted : new ∉ pool.map Prod.fst := fun member => apart (List.mem_append_right _ member)
  have fields : ∀ job ∈ (new, task) :: pool,
      Function.update s.queue.tasks new task job.1 = job.2 := by
    intro job member
    rcases List.mem_cons.mp member with rfl | old
    · exact Function.update_self _ _ _
    · rw [Function.update_of_ne, rep.fields job old]
      rintro rfl
      exact unlisted (List.mem_map_of_mem old)
  have effect := linkTask_linked (s := { s.queue with
      heap := (Allocator.alloc s.queue.heap taskSize).1
      tasks := Function.update s.queue.tasks new task }) rep.lists
    (fun member => unlisted ((nodes_perm pool).mem_iff.mp member)) linked
  have moved : (s.running ++ new :: pool.map Prod.fst).Perm
      (new :: (s.running ++ pool.map Prod.fst)) := List.perm_middle
  refine ⟨unlisted, ?_, ?_, ?_, ?_⟩
  · have lists := effect.lists
    rw [@map_add _ new task] at lists
    · exact lists
    · intro job member
      have sorted := (Agenda.ofPool_perm Job.priority pool).cons (new, task)
      exact congrArg Task.priority (fields job (sorted.mem_iff.mp member))
  · intro job member
    show queue.tasks job.1 = job.2
    rw [effect.tasks]
    exact fields job member
  · exact moved.nodup_iff.mpr (List.nodup_cons.mpr ⟨apart, rep.distinct⟩)
  · show Holds queue.heap (s.running ++ new :: pool.map Prod.fst ++ s.others)
    rw [effect.heap]
    exact Allocator.perm holds (moved.symm.append_right s.others)

/-- The call of `add_task` returns, whatever the pool. -/
theorem addTask_returns (rep : Represents s pool) (task : Task C) :
    ∃ result, addTask pool.length s.queue task = some result := by
  rcases newTask_cases s.queue task with ⟨shape, _⟩ | ⟨new, _, shape⟩
  · exact ⟨_, by simp only [addTask, shape]; rfl⟩
  · have short : ((Agenda.ofPool Job.priority pool).map Prod.fst).length ≤ pool.length := by
      rw [(nodes_perm pool).length_eq, List.length_map]
    obtain ⟨queue, linked⟩ := linkTask_returns (s := { s.queue with
      heap := (Allocator.alloc s.queue.heap taskSize).1
      tasks := Function.update s.queue.tasks new task }) rep.lists short new
    exact ⟨(queue, some new), by simp only [addTask, shape, linked, Option.map_some]⟩

/-- `execute_task` reads through a null pointer exactly when no task waits. -/
theorem executeTask_none_iff (rep : Represents s pool) :
    executeTask s.queue = none ↔ pool = [] := by
  have head := rep.lists.head_eq
  unfold executeTask
  rw [Option.map_eq_none_iff, head, List.head?_eq_none_iff, List.map_eq_nil_iff]
  constructor
  · intro empty
    have lengths := (Agenda.ofPool_perm Job.priority pool).length_eq
    rw [empty] at lengths
    exact List.eq_nil_of_length_eq_zero lengths.symm
  · rintro rfl
    rfl

theorem start [DecidableEq C] (rep : Represents s pool) {queue : Tasks C H}
    (started : executeTask s.queue = some (queue, curr)) :
    pool.argmin Job.priority = some (curr, s.queue.tasks curr) ∧
      Represents { s with queue := queue, running := curr :: s.running }
        (pool.erase (curr, s.queue.tasks curr)) := by
  obtain ⟨first, head, same⟩ := Option.map_eq_some_iff.mp started
  cases same
  have chain : Queue.Chain s.queue.links.next (some curr)
      ((Agenda.ofPool Job.priority pool).map Prod.fst) := head ▸ rep.lists
  obtain ⟨rest, shape, tail⟩ := chain.tail
  obtain ⟨job, jobs, whole, rfl, rfl⟩ := List.map_eq_cons_iff.mp shape
  have best : pool.argmin Job.priority = some job := by
    rw [← Agenda.ofPool_head, whole]
    rfl
  have member : job ∈ pool := List.argmin_mem best
  have atJob : (job.1, s.queue.tasks job.1) = job := by rw [rep.fields job member]
  rw [atJob]
  have moved : (s.running ++ pool.map Prod.fst).Perm
      (job.1 :: s.running ++ (pool.erase job).map Prod.fst) := by
    calc s.running ++ pool.map Prod.fst
        |>.Perm (s.running ++ job.1 :: (pool.erase job).map Prod.fst) :=
          ((List.perm_cons_erase member).map Prod.fst).append_left s.running
      _ |>.Perm (job.1 :: s.running ++ (pool.erase job).map Prod.fst) := List.perm_middle
  refine ⟨best, ?_, fun other inRest => rep.fields other (List.mem_of_mem_erase inRest),
    moved.nodup_iff.mp rep.distinct, Allocator.perm rep.holds (moved.append_right s.others)⟩
  rw [← Agenda.ofPool_tail whole]
  exact tail

theorem finish (rep : Represents s pool) (runs : curr ∈ s.running) :
    Represents { s with queue := finishTask s.queue curr, running := s.running.erase curr } pool := by
  refine ⟨rep.lists, rep.fields, ?_, ?_⟩
  · exact rep.distinct.sublist ((List.erase_sublist).append_right _)
  · have freed := Allocator.free_live rep.holds
      (List.mem_append_left s.others (List.mem_append_left (pool.map Prod.fst) runs))
    rwa [List.append_assoc, List.erase_append_left _ runs, ← List.append_assoc] at freed

/-- A step of the code is a step of the pool. -/
theorem step [DecidableEq C] {event : Event C} (rep : Represents s pool)
    (step : Irq.Step s event s') :
    ∃ pool', Pool.Step pool event pool' ∧ Represents s' pool' := by
  cases step with
  | elsewhere kept =>
      exact ⟨pool, .elsewhere, rep.lists, rep.fields, rep.distinct, kept _ rep.holds⟩
  | refuse refused => exact ⟨pool, .refused, rep.refuse refused⟩
  | @add queue fuel new task added =>
      obtain ⟨fresh, kept⟩ := rep.add added
      exact ⟨(new, task) :: pool, .added new task fresh, kept⟩
  | @start queue curr started =>
      obtain ⟨best, kept⟩ := rep.start started
      exact ⟨pool.erase (curr, s.queue.tasks curr), .started best, kept⟩
  | @finish curr runs => exact ⟨pool, .finished curr, rep.finish runs⟩

end Represents

theorem Run.represents [DecidableEq C] {s last : System C H} {trace : List (Event C)}
    {pool : List (Job C)} (rep : Represents s pool) (run : Run s trace last) :
    ∃ pool', Pool.Run pool trace pool' ∧ Represents last pool' := by
  induction run generalizing pool with
  | nil => exact ⟨pool, .nil, rep⟩
  | cons step rest ih =>
      obtain ⟨mid, first, kept⟩ := rep.step step
      obtain ⟨pool', later, holds⟩ := ih kept
      exact ⟨pool', .cons first later, holds⟩

/-- In every run of `add_task` and `execute_task`, also when the functions that are executed
call them again, the list holds the tasks that wait, and each call of `execute_task` takes the
newest of those of the highest priority.  Every call of `add_task` returns, every task that is
executed is released once, and `execute_task` reads through a null pointer exactly when no
task waits. -/
theorem run_executes_newest [DecidableEq C] {start last : System C H} {trace : List (Event C)}
    (initial : Initial start) (run : Run start trace last) :
    ∃ pool, Pool.Run [] trace pool ∧ Represents last pool ∧
      (∀ task, ∃ result, addTask pool.length last.queue task = some result) ∧
      (executeTask last.queue = none ↔ pool = []) := by
  obtain ⟨pool, simulated, rep⟩ := run.represents initial.represents
  exact ⟨pool, simulated, rep, rep.addTask_returns, rep.executeTask_none_iff⟩

/-! ## Two tasks of one priority -/

/-- A call of `add_task` that finds memory. -/
theorem Represents.added {s : System C H} {pool : List (Job C)} {new : Nat}
    (rep : Represents s pool) (task : Task C)
    (memory : (Allocator.alloc s.queue.heap taskSize).2 = some new) :
    ∃ queue, addTask pool.length s.queue task = some (queue, some new) ∧
      queue.heap = (Allocator.alloc s.queue.heap taskSize).1 := by
  obtain ⟨⟨queue, pointer⟩, returned⟩ := rep.addTask_returns task
  cases pointer with
  | none =>
      rw [(Represents.addTask_none returned).1] at memory
      cases memory
  | some other =>
      obtain ⟨result, linked⟩ := Represents.addTask_some returned
      obtain rfl : other = new := Option.some.inj (result.symm.trans memory)
      refine ⟨queue, returned, ?_⟩
      have unlisted : other ∉ (Agenda.ofPool Job.priority pool).map Prod.fst := fun member =>
        (rep.add returned).1 ((Represents.nodes_perm pool).mem_iff.mp member)
      exact (linkTask_linked (s := { s.queue with
        heap := (Allocator.alloc s.queue.heap taskSize).1
        tasks := Function.update s.queue.tasks other task }) rep.lists unlisted linked).heap

open Fs (BootHeap bootHeap bootHeap_holds)

/-- No task, and nothing else in use. -/
def emptySystem {H : Type} (h : H) : System Nat H where
  queue := ⟨h, fun _ => ⟨0, 0⟩, ⟨fun _ => none, fun _ => none⟩, none⟩
  running := []
  others := []

theorem emptySystem_initial {H : Type} [Allocator H] {h : H} (holds : Holds h []) :
    Initial (emptySystem h) := ⟨rfl, rfl, holds⟩

/-- Two tasks are added, and one is executed. -/
theorem two_added {H : Type} [Allocator H] {h : H} (holds : Holds h []) {p q : Nat}
    (first : (Allocator.alloc h taskSize).2 = some p)
    (second : (Allocator.alloc (Allocator.alloc h taskSize).1 taskSize).2 = some q) :
    ∃ last, Run (emptySystem h) [.added p ⟨1, 5⟩, .added q ⟨2, 5⟩, .started q ⟨2, 5⟩] last := by
  have rep := (emptySystem_initial holds).represents
  obtain ⟨queue₁, added₁, heap₁⟩ := rep.added ⟨1, 5⟩ first
  have rep₁ := (rep.add added₁).2
  have again : (Allocator.alloc queue₁.heap taskSize).2 = some q := by
    rw [heap₁]
    exact second
  obtain ⟨queue₂, added₂, _⟩ := rep₁.added ⟨2, 5⟩ again
  have rep₂ := (rep₁.add added₂).2
  obtain ⟨⟨queue₃, curr⟩, started⟩ := Option.ne_none_iff_exists'.mp
    fun nothing => absurd (rep₂.executeTask_none_iff.mp nothing) (by simp)
  have newest : some (q, (⟨2, 5⟩ : Task Nat)) = some (curr, queue₂.tasks curr) :=
    (rep₂.start started).1
  have starts := Step.start (s := ⟨queue₂, [], []⟩) started
  obtain ⟨rfl, same⟩ := Prod.mk.inj (Option.some.inj newest)
  rw [← same] at starts
  exact ⟨_, .cons (.add added₁) (.cons (.add added₂) (.cons starts .nil))⟩

/-- Of two tasks of one priority the second is executed first. -/
theorem run_executes_newest_second : ∃ (last : System Nat BootHeap) (p q : Nat)
    (pool : List (Job Nat)),
      Pool.Run [] [.added p ⟨1, 5⟩, .added q ⟨2, 5⟩, .started q ⟨2, 5⟩] pool ∧
        Represents last pool := by
  have hasFirst : (Allocator.alloc bootHeap taskSize).2.isSome := by decide +kernel
  have hasSecond : (Allocator.alloc (Allocator.alloc bootHeap taskSize).1 taskSize).2.isSome := by
    decide +kernel
  obtain ⟨p, first⟩ := Option.isSome_iff_exists.mp hasFirst
  obtain ⟨q, second⟩ := Option.isSome_iff_exists.mp hasSecond
  obtain ⟨last, run⟩ := two_added bootHeap_holds first second
  obtain ⟨pool, simulated, rep, _⟩ :=
    run_executes_newest (emptySystem_initial bootHeap_holds) run
  exact ⟨last, p, q, pool, simulated, rep⟩

end OsdiKernel.Irq
