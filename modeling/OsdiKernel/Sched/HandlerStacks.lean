import OsdiKernel.Sched.Signals

/-!
# The stacks of handlers

The stack of a handler is not recorded.  `sys_sigreturn` computes its address
again from the frame pointer in the saved context of the task, a field that the
next switch away from the task and the next delivery write as well.
-/

namespace OsdiKernel.Sched

open Allocator (Holds)

variable {H : Type}

/-! ## Saved contexts -/

/-- Only states, links and the heads of queues are written. -/
structure KeepsContexts (k k' : Kernel H) : Prop where
  state : k'.toState = k.toState
  context : ∀ p, (k'.tasks p).cpuContext = (k.tasks p).cpuContext
  current : k'.current = k.current

namespace KeepsContexts

variable {k k' k'' : Kernel H}

theorem trans (first : KeepsContexts k k') (second : KeepsContexts k' k'') :
    KeepsContexts k k'' where
  state := second.state.trans first.state
  context p := (second.context p).trans (first.context p)
  current := second.current.trans first.current

theorem modify (p : Nat) {f : Task → Task} (same : ∀ t, (f t).cpuContext = t.cpuContext) :
    KeepsContexts k (k.modify p f) where
  state := rfl
  context q := by
    by_cases here : q = p
    · subst here
      exact (congrArg Task.cpuContext (Function.update_self _ _ _)).trans (same _)
    · exact congrArg Task.cpuContext (Function.update_of_ne here _ _)
  current := rfl

theorem setState (p : Nat) (state : TaskState) : KeepsContexts k (k.setState p state) :=
  modify p fun _ => rfl

theorem setNext (p : Nat) (link : Option Nat) : KeepsContexts k (k.setNext p link) :=
  modify p fun _ => rfl

theorem setHead (q : TaskQueue) (p : Option Nat) : KeepsContexts k (k.setHead q p) := by
  cases q <;> exact ⟨rfl, fun _ => rfl, rfl⟩

theorem noteAdded (p : Nat) : KeepsContexts k (k.noteAdded p) := ⟨rfl, fun _ => rfl, rfl⟩

/-- A task is added behind the first one, if there is one. -/
theorem addThreadTask {q : TaskQueue} {task : Nat}
    (added : Sched.addThreadTask k q task = some k') :
    KeepsContexts k k' ∧ ∀ first, k.readyQueue = some first → k'.readyQueue = some first := by
  have noted : KeepsContexts k (k.noteAdded task) := noteAdded task
  unfold Sched.addThreadTask at added
  dsimp only at added
  split at added
  · next empty =>
      cases added
      refine ⟨(noted.trans (setHead q _)).trans (setNext task none), fun first ready => ?_⟩
      cases q with
      | ready => cases empty.symm.trans ready
      | wait => exact ready
      | zombie => exact ready
  · obtain ⟨last, _, same⟩ := Option.bind_eq_some_iff.mp added
    cases same
    exact ⟨(noted.trans (setNext last _)).trans (setNext task none), fun _ ready => ready⟩

/-- Wherever the task goes, the first task that is ready stays the first. -/
theorem requeue {prev : Nat} (requeued : Sched.requeue k prev = some (some k')) :
    KeepsContexts k k' ∧ ∀ first, k.readyQueue = some first → k'.readyQueue = some first := by
  unfold Sched.requeue at requeued
  split at requeued
  · obtain ⟨kept, head⟩ := addThreadTask (Option.some.inj requeued)
    exact ⟨(setState prev .ready).trans kept, head⟩
  · exact addThreadTask (Option.some.inj requeued)
  · exact addThreadTask (Option.some.inj requeued)
  · cases requeued
    exact ⟨⟨rfl, fun _ => rfl, rfl⟩, fun _ ready => ready⟩
  · cases requeued

theorem rmThreadTaskLoop {q : TaskQueue} {task fuel : Nat} {prev current : Option Nat}
    (removed : Sched.rmThreadTaskLoop k q task fuel prev current = some k') : KeepsContexts k k' := by
  have same : KeepsContexts k k := ⟨rfl, fun _ => rfl, rfl⟩
  induction fuel generalizing prev current with
  | zero =>
      cases current with
      | none =>
          cases removed
          exact same
      | some current => cases removed
  | succ fuel ih =>
      cases current with
      | none =>
          cases removed
          exact same
      | some current =>
          unfold Sched.rmThreadTaskLoop at removed
          split at removed
          · cases prev with
            | none =>
                cases removed
                exact .setHead q _
            | some prev =>
                cases removed
                exact .setNext prev _
          · exact ih removed

theorem rmThreadTask {q : TaskQueue} {task : Nat}
    (removed : Sched.rmThreadTask k q task = some k') : KeepsContexts k k' := by
  unfold Sched.rmThreadTask at removed
  split at removed
  · cases removed
    exact ⟨rfl, fun _ => rfl, rfl⟩
  · exact rmThreadTaskLoop removed

end KeepsContexts

/-- A call of `schedule` returns to its caller, or another task runs and the
registers are in the context of the one that ran. -/
inductive Scheduled (k : Kernel H) (registers : CpuContext) : Kernel H → Prop
  | first {k' : Kernel H} (noCurrent : k.current = none) (state : k'.toState = k.toState)
      (context : ∀ p, (k'.tasks p).cpuContext = (k.tasks p).cpuContext) :
      Scheduled k registers k'
  | stays {prev : Nat} (isCurrent : k.current = some prev) : Scheduled k registers k
  | switches {k' : Kernel H} {prev next : Nat} (isCurrent : k.current = some prev)
      (other : next ≠ prev) (runs : k'.current = some next) (state : k'.toState = k.toState)
      (saved : (k'.tasks prev).cpuContext = registers)
      (context : ∀ p, p ≠ prev → (k'.tasks p).cpuContext = (k.tasks p).cpuContext) :
      Scheduled k registers k'

theorem cpuSwitchTo_saves (k : Kernel H) (prev next : Nat) (registers : CpuContext) :
    ((cpuSwitchTo k prev next registers).tasks prev).cpuContext = registers := by
  unfold cpuSwitchTo Kernel.modify
  dsimp only
  rw [Function.update_self]

theorem schedule_cases {k k' : Kernel H} {registers : CpuContext}
    (switched : schedule k registers = some k') : Scheduled k registers k' := by
  unfold schedule at switched
  split at switched
  · next noCurrent =>
      obtain ⟨first, _, same⟩ := Option.bind_eq_some_iff.mp switched
      cases same
      exact .first noCurrent rfl (KeepsContexts.setState (k := k) first .running).context
  · next prev isCurrent =>
      split at switched
      · cases switched
        exact .stays isCurrent
      · next next ready =>
          split at switched
          · cases switched
            exact .stays isCurrent
          · next other =>
              cases result : requeue k prev with
              | none =>
                  rw [result] at switched
                  cases switched
                  exact .stays isCurrent
              | some requeued =>
                  rw [result] at switched
                  obtain ⟨k₁, rfl, switches⟩ := Option.bind_eq_some_iff.mp switched
                  obtain ⟨kept, head⟩ := KeepsContexts.requeue result
                  have kept : KeepsContexts k (k₁.setState next .running) :=
                    kept.trans (KeepsContexts.setState next .running)
                  have popped : (k₁.setState next .running).head .ready = some next :=
                    head next ready
                  unfold popThreadTask at switches
                  dsimp only at switches
                  rw [popped] at switches
                  cases switches
                  refine .switches isCurrent other rfl kept.state ?_ fun p apart => ?_
                  · exact cpuSwitchTo_saves _ prev _ registers
                  · exact (congrArg Task.cpuContext (Function.update_of_ne apart _ _)).trans
                      (kept.context p)

/-! ## Runs with signals -/

/-- The kernel with the deliveries from which no handler has returned yet, the
latest first, each with its task and its stack, the tasks whose context is still
what their latest delivery wrote, and the other pointers in use. -/
structure SignalSystem (H : Type) where
  kernel : SignalKernel H
  deliveries : List (Nat × Option Nat)
  intact : Set Nat
  others : List Nat

namespace SignalSystem

/-- The stack of the latest delivery to a task; none also if it was not allocated. -/
def latest (sys : SignalSystem H) (task : Nat) : Option Nat :=
  (sys.deliveries.find? fun d => d.1 = task).bind Prod.snd

def handlerStacks (sys : SignalSystem H) : List Nat := sys.deliveries.filterMap Prod.snd

/-- The latest delivery to the current task is no longer outstanding. -/
def returnFrom (sys : SignalSystem H) (k : SignalKernel H) : SignalSystem H :=
  match sys.kernel.current with
  | none => { sys with kernel := k }
  | some curr => { sys with
      kernel := k
      deliveries := sys.deliveries.eraseP fun d => d.1 = curr
      intact := sys.intact \ {curr} }

end SignalSystem

inductive SignalOp where
  | deliver
  | schedule
  | sigreturn
  | alloc
  | free
  | rest
  deriving DecidableEq

variable [Allocator H]

def handlerAlloc (k : SignalKernel H) : Option Nat := (k.toState.alloc threadStackSize).2

/-- One step: a delivery to the task that runs, a preemption, a return from a
handler, whether there is one or not, or a step of the rest of the kernel.  An
allocated pointer is a machine word. -/
inductive SignalStep (sys : SignalSystem H) : SignalOp → SignalSystem H → Prop
  | deliver {k : SignalKernel H} {wrapper : Word} {task : Nat} {sig : Int} {frame : TrapFrame}
      {registers : CpuContext} {entry : UserEntry} (isCurrent : sys.kernel.current = some task)
      (handled : handleSignal wrapper sys.kernel task sig frame registers = some (k, .entered entry))
      (machine : pointer (addr (handlerAlloc sys.kernel)) = handlerAlloc sys.kernel) :
      SignalStep sys .deliver
        { sys with
          kernel := k
          deliveries := (task, handlerAlloc sys.kernel) :: sys.deliveries
          intact := insert task sys.intact }
  | schedule {k : Kernel H} {registers : CpuContext}
      (switched : Sched.schedule sys.kernel.toKernel registers = some k) :
      SignalStep sys .schedule
        { sys with
          kernel := { sys.kernel with toKernel := k }
          intact := {p | p ∈ sys.intact ∧ (sys.kernel.current = some p → k.current = some p)} }
  | sigreturn {frame : TrapFrame} :
      SignalStep sys .sigreturn (sys.returnFrom (sysSigreturn sys.kernel frame).1)
  | alloc {size : Nat} :
      SignalStep sys .alloc
        { sys with
          kernel := { sys.kernel with toKernel := (sys.kernel.toKernel.alloc size).1 }
          others := (sys.kernel.toKernel.alloc size).2.toList ++ sys.others }
  | free {p : Nat} (member : p ∈ sys.others) :
      SignalStep sys .free
        { sys with
          kernel := { sys.kernel with toKernel := sys.kernel.toKernel.freePtr (some p) }
          others := sys.others.erase p }
  | rest {k : SignalKernel H} (heap : k.heap = sys.kernel.heap) :
      SignalStep sys .rest
        { sys with
          kernel := k
          intact := {p | p ∈ sys.intact ∧
            (k.tasks p).cpuContext = (sys.kernel.tasks p).cpuContext} }

/-- The states that are reached by steps which are all allowed. -/
inductive SignalRun (allowed : SignalSystem H → SignalOp → Prop) (start : SignalSystem H) :
    SignalSystem H → Prop
  | refl : SignalRun allowed start start
  | step {sys sys' : SignalSystem H} {op : SignalOp} (run : SignalRun allowed start sys)
      (ok : allowed sys op) (stepped : SignalStep sys op sys') : SignalRun allowed start sys'

/-- There were no deliveries yet. -/
structure NoDelivery (sys : SignalSystem H) : Prop where
  deliveries : sys.deliveries = []
  intact : sys.intact = ∅
  holds : Holds sys.kernel.heap sys.others

/-- A task that returns has an outstanding delivery, and since the latest one its
context was not written. -/
def ReturnsIntact (sys : SignalSystem H) (op : SignalOp) : Prop :=
  op = .sigreturn → ∀ curr, sys.kernel.current = some curr → curr ∈ sys.intact

/-- The pointers in use are known, and the frame pointer of a task whose context
is intact is the top of the stack of its latest delivery. -/
structure StacksKnown (sys : SignalSystem H) : Prop where
  holds : Holds sys.kernel.heap (sys.handlerStacks ++ sys.others)
  intact : ∀ p ∈ sys.intact, ∃ stack, sys.deliveries.find? (fun d => d.1 = p) = some (p, stack) ∧
    pointer (addr stack) = stack ∧
      (sys.kernel.tasks p).cpuContext.fp = addr stack + BitVec.ofNat 64 threadStackSize

section Runs

variable {sys sys' : SignalSystem H} {op : SignalOp} {curr : Nat}

theorem holds_alloc {h : H} {live : List Nat} (size : Nat) (holds : Holds h live) :
    Holds (Allocator.alloc h size).1 ((Allocator.alloc h size).2.toList ++ live) := by
  cases result : (Allocator.alloc h size).2 with
  | none => exact Allocator.alloc_none holds result
  | some p => exact (Allocator.alloc_some holds result).2

theorem holds_freePtr {h : H} {live : List Nat} {p : Option Nat}
    (holds : Holds h (p.toList ++ live)) : Holds (Allocator.freePtr h p) live := by
  cases p with
  | none => exact holds
  | some p => exact Allocator.holds_free_head holds

theorem deliver_context (k : SignalKernel H) (wrapper handler : Word) (task : Nat)
    (frame : TrapFrame) : ((deliver wrapper k task handler frame).1.tasks task).cpuContext.fp =
      addr (handlerAlloc k) + BitVec.ofNat 64 threadStackSize := by
  unfold deliver Kernel.modify Kernel.alloc
  dsimp only
  rw [Function.update_self]
  rfl

theorem deliver_others (k : SignalKernel H) (wrapper handler : Word) {task p : Nat}
    (frame : TrapFrame) (other : p ≠ task) :
    (deliver wrapper k task handler frame).1.tasks p = k.tasks p := by
  unfold deliver Kernel.modify Kernel.alloc
  dsimp only
  rw [Function.update_of_ne other, Function.update_of_ne other]

omit [Allocator H] in
/-- The latest delivery is one of the list, and the others keep their stacks. -/
theorem deliveries_split {stack : Option Nat}
    (found : sys.deliveries.find? (fun d => d.1 = curr) = some (curr, stack)) :
    ∃ before after, sys.deliveries = before ++ (curr, stack) :: after ∧
      (∀ d ∈ before, d.1 ≠ curr) ∧
        sys.deliveries.eraseP (fun d => d.1 = curr) = before ++ after := by
  obtain ⟨_, before, after, split, apart⟩ := List.find?_eq_some_iff_append.mp found
  have apart : ∀ d ∈ before, d.1 ≠ curr := fun d member => by
    simpa using apart d member
  refine ⟨before, after, split, apart, ?_⟩
  rw [split, List.eraseP_append_right _ (by simpa using apart), List.eraseP_cons_of_pos (by simp)]

omit [Allocator H] in
theorem latest_eq {stack : Option Nat}
    (found : sys.deliveries.find? (fun d => d.1 = curr) = some (curr, stack)) :
    sys.latest curr = stack := by
  unfold SignalSystem.latest
  rw [found]
  rfl

/-- What the return releases is the stack of the delivery. -/
theorem StacksKnown.handlerStack (known : StacksKnown sys) (member : curr ∈ sys.intact) :
    handlerStack (sys.kernel.tasks curr) = sys.latest curr := by
  obtain ⟨stack, found, machine, top⟩ := known.intact curr member
  unfold Sched.handlerStack
  rw [top, BitVec.add_sub_cancel, machine, latest_eq found]

/-- A return with a delivery outstanding leaves all other pointers in use. -/
theorem StacksKnown.holds_returned (known : StacksKnown sys) (member : curr ∈ sys.intact) :
    Holds (Allocator.freePtr sys.kernel.heap (Sched.handlerStack (sys.kernel.tasks curr)))
      ((sys.deliveries.eraseP fun d => d.1 = curr).filterMap Prod.snd ++ sys.others) := by
  obtain ⟨stack, found, _, _⟩ := known.intact curr member
  obtain ⟨before, after, split, _, erased⟩ := deliveries_split found
  rw [known.handlerStack member, latest_eq found, erased]
  apply holds_freePtr
  refine Allocator.perm known.holds ?_
  unfold SignalSystem.handlerStacks
  rw [split, List.filterMap_append, List.filterMap_append, ← List.append_assoc]
  refine List.Perm.append_right _ ?_
  cases stack with
  | none => exact List.Perm.refl _
  | some stack => exact List.perm_middle

omit [Allocator H] in
/-- The deliveries to the other tasks are as before. -/
theorem find_erased {p : Nat} {stack : Option Nat}
    (found : sys.deliveries.find? (fun d => d.1 = curr) = some (curr, stack)) (other : p ≠ curr) :
    (sys.deliveries.eraseP fun d => d.1 = curr).find? (fun d => d.1 = p) =
      sys.deliveries.find? fun d => d.1 = p := by
  obtain ⟨before, after, split, _, erased⟩ := deliveries_split found
  have skipped : ((curr, stack) :: after).find? (fun d => d.1 = p) =
      after.find? fun d => d.1 = p := List.find?_cons_of_neg (by simpa using other.symm)
  rw [erased, split, List.find?_append, List.find?_append, skipped]

theorem StacksKnown.sigreturn (known : StacksKnown sys) {frame : TrapFrame}
    (ok : ∀ curr, sys.kernel.current = some curr → curr ∈ sys.intact) :
    StacksKnown (sys.returnFrom (sysSigreturn sys.kernel frame).1) := by
  unfold SignalSystem.returnFrom sysSigreturn
  cases isCurrent : sys.kernel.current with
  | none => exact known
  | some curr =>
      have member := ok curr isCurrent
      refine ⟨known.holds_returned member, ?_⟩
      rintro p ⟨intact, other⟩
      obtain ⟨_, found, _⟩ := known.intact curr member
      obtain ⟨stack, found', machine, top⟩ := known.intact p intact
      exact ⟨stack, (find_erased found other).trans found', machine, top⟩

theorem StacksKnown.deliver (known : StacksKnown sys) {wrapper handler : Word} {task : Nat}
    {frame : TrapFrame}
    (machine : pointer (addr (handlerAlloc sys.kernel)) = handlerAlloc sys.kernel) :
    StacksKnown { sys with
      kernel := (Sched.deliver wrapper sys.kernel task handler frame).1
      deliveries := (task, handlerAlloc sys.kernel) :: sys.deliveries
      intact := insert task sys.intact } := by
  constructor
  · have allocated := holds_alloc threadStackSize known.holds
    rw [← List.append_assoc] at allocated
    have added : ((task, handlerAlloc sys.kernel) :: sys.deliveries).filterMap Prod.snd =
        (handlerAlloc sys.kernel).toList ++ sys.handlerStacks := by
      rw [List.filterMap_cons]
      cases handlerAlloc sys.kernel <;> rfl
    unfold SignalSystem.handlerStacks
    rw [added]
    exact allocated
  · intro p member
    by_cases here : p = task
    · subst here
      exact ⟨_, List.find?_cons_of_pos (by simp), machine, deliver_context sys.kernel wrapper handler p frame⟩
    · obtain ⟨stack, found, rest⟩ := known.intact p (Set.mem_of_mem_insert_of_ne member here)
      refine ⟨stack, (List.find?_cons_of_neg ?_).trans found, ?_⟩
      · simpa using Ne.symm here
      · rw [deliver_others sys.kernel wrapper handler frame here]
        exact rest

/-- What is known is only about the contexts of the tasks that are still intact. -/
theorem StacksKnown.rest (known : StacksKnown sys) {k : SignalKernel H} {intact : Set Nat}
    (heap : k.heap = sys.kernel.heap) (fewer : intact ⊆ sys.intact)
    (same : ∀ p ∈ intact, (k.tasks p).cpuContext = (sys.kernel.tasks p).cpuContext) :
    StacksKnown { sys with kernel := k, intact := intact } := by
  constructor
  · have holds := known.holds
    rw [← heap] at holds
    exact holds
  · intro p member
    obtain ⟨stack, found, machine, top⟩ := known.intact p (fewer member)
    refine ⟨stack, found, machine, ?_⟩
    rw [same p member]
    exact top

/-- A preemption leaves the contexts of the other tasks as they are. -/
theorem StacksKnown.schedule (known : StacksKnown sys) {k : Kernel H} {registers : CpuContext}
    (switched : Sched.schedule sys.kernel.toKernel registers = some k) :
    StacksKnown { sys with
      kernel := { sys.kernel with toKernel := k }
      intact := {p | p ∈ sys.intact ∧ (sys.kernel.current = some p → k.current = some p)} } := by
  have fewer : {p | p ∈ sys.intact ∧ (sys.kernel.current = some p → k.current = some p)} ⊆
      sys.intact := fun _ => And.left
  cases schedule_cases switched with
  | first _ state context =>
      exact known.rest (congrArg Fs.State.heap state) fewer fun p _ => context p
  | stays _ => exact known.rest rfl fewer fun _ _ => rfl
  | switches isCurrent other runs state _ context =>
      refine known.rest (congrArg Fs.State.heap state) fewer fun p member => context p ?_
      rintro rfl
      exact other (Option.some.inj (runs.symm.trans (member.2 isCurrent)))

theorem StacksKnown.step (known : StacksKnown sys) (ok : ReturnsIntact sys op)
    (stepped : SignalStep sys op sys') : StacksKnown sys' := by
  cases stepped with
  | deliver _ handled machine =>
      obtain ⟨handler, rfl⟩ := handleSignal_entered handled
      exact known.deliver machine
  | schedule switched => exact known.schedule switched
  | sigreturn => exact known.sigreturn (ok rfl)
  | alloc =>
      refine ⟨?_, known.intact⟩
      exact Allocator.perm (holds_alloc _ known.holds) (List.perm_append_comm_assoc _ _ _)
  | free member =>
      refine ⟨?_, known.intact⟩
      have freed := Allocator.free_live known.holds (List.mem_append_right _ member)
      refine Allocator.perm freed ((List.perm_append_comm.erase _).trans ?_)
      rw [List.erase_append_left _ member]
      exact List.perm_append_comm
  | rest heap => exact known.rest heap (fun _ => And.left) fun _ member => member.2

theorem NoDelivery.stacksKnown (initial : NoDelivery sys) : StacksKnown sys := by
  constructor
  · unfold SignalSystem.handlerStacks
    rw [initial.deliveries]
    exact initial.holds
  · intro p member
    rw [initial.intact] at member
    cases member

theorem SignalRun.stacksKnown {start : SignalSystem H} (initial : NoDelivery start)
    (run : SignalRun ReturnsIntact start sys) : StacksKnown sys := by
  induction run with
  | refl => exact initial.stacksKnown
  | step _ ok stepped ih => exact ih.step ok stepped

/-- In a run whose returns are all from handlers that were not interrupted, every
return releases the stack of the handler, and nothing else is ever released. -/
theorem run_releases_stacks {start : SignalSystem H} (initial : NoDelivery start)
    (run : SignalRun ReturnsIntact start sys) :
    Holds sys.kernel.heap (sys.handlerStacks ++ sys.others) ∧
    ∀ (frame : TrapFrame) (curr : Nat), sys.kernel.current = some curr →
      ReturnsIntact sys .sigreturn → ∃ before stack after,
        sys.deliveries = before ++ (curr, stack) :: after ∧ (∀ d ∈ before, d.1 ≠ curr) ∧
          (sysSigreturn sys.kernel frame).1.heap = Allocator.freePtr sys.kernel.heap stack ∧
            (sys.returnFrom (sysSigreturn sys.kernel frame).1).deliveries = before ++ after := by
  have known := run.stacksKnown initial
  refine ⟨known.holds, fun frame curr isCurrent ok => ?_⟩
  have member := ok rfl curr isCurrent
  obtain ⟨stack, found, _⟩ := known.intact curr member
  obtain ⟨before, after, split, apart, erased⟩ := deliveries_split found
  refine ⟨before, stack, after, split, apart, ?_, ?_⟩
  · have freed := (known.handlerStack member).trans (latest_eq found)
    unfold sysSigreturn
    rw [isCurrent, ← freed]
    rfl
  · unfold SignalSystem.returnFrom
    rw [isCurrent]
    exact erased

end Runs

/-! ## Two wrong returns -/

open Fs (BootHeap bootHeap bootHeap_holds)

/-- The kernel on another heap, of which nothing is in use. -/
def onHeap (k : SignalKernel H) (h : H) : SignalSystem H := ⟨{ k with heap := h }, [], ∅, []⟩

theorem onHeap_initial (k : SignalKernel H) {h : H} (holds : Holds h []) :
    NoDelivery (onHeap k h) := ⟨rfl, rfl, holds⟩

section Preempted

variable {sys : SignalSystem H} {wrapper handler : Word} {task : Nat} {sig : Fin sigNum}
  {frame : TrapFrame}

/-- A delivery to the current task. -/
def SignalSystem.deliverTo (sys : SignalSystem H) (wrapper handler : Word) (task : Nat)
    (frame : TrapFrame) : SignalSystem H :=
  { sys with
    kernel := (deliver wrapper sys.kernel task handler frame).1
    deliveries := (task, handlerAlloc sys.kernel) :: sys.deliveries
    intact := insert task sys.intact }

theorem SignalStep.custom (isCurrent : sys.kernel.current = some task)
    (isCustom : (sys.kernel.tasks task).sigHandlers sig = .custom handler)
    (machine : pointer (addr (handlerAlloc sys.kernel)) = handlerAlloc sys.kernel) :
    SignalStep sys .deliver (sys.deliverTo wrapper handler task frame) :=
  @SignalStep.deliver H _ sys _ wrapper task sig frame .zero _ isCurrent
    (handleSignal_custom isCustom) machine

theorem delivery_run (isCurrent : sys.kernel.current = some task)
    (isCustom : (sys.kernel.tasks task).sigHandlers sig = .custom handler)
    (machine : pointer (addr (handlerAlloc sys.kernel)) = handlerAlloc sys.kernel) :
    SignalRun ReturnsIntact sys (sys.deliverTo wrapper handler task frame) := by
  have entered : SignalStep sys .deliver (sys.deliverTo wrapper handler task frame) :=
    .custom isCurrent isCustom machine
  have noReturn : ReturnsIntact sys .deliver := fun same => by cases same
  exact .step .refl noReturn entered

theorem deliverTo_returns (isCurrent : sys.kernel.current = some task) :
    ReturnsIntact (sys.deliverTo wrapper handler task frame) .sigreturn := by
  intro _ curr isCurrent'
  have same : (sys.deliverTo wrapper handler task frame).kernel.current = sys.kernel.current := rfl
  rw [same, isCurrent] at isCurrent'
  cases isCurrent'
  exact Set.mem_insert _ _

/-- The thread is preempted while its handler runs, and runs again. -/
theorem preempted_run (k : SignalKernel H) {k₁ k₂ : Kernel H} {registers registers' : CpuContext}
    (isCurrent : k.current = some task)
    (isCustom : (k.tasks task).sigHandlers sig = .custom handler)
    (machine : pointer (addr (handlerAlloc k)) = handlerAlloc k)
    (away : schedule (deliver wrapper k task handler frame).1.toKernel registers = some k₁)
    (back : schedule k₁ registers' = some k₂) :
    ∃ sys, SignalRun (fun _ _ => True) ⟨k, [], ∅, []⟩ sys ∧ sys.kernel.toKernel = k₂ ∧
      sys.latest task = handlerAlloc k := by
  have entered : SignalStep ⟨k, [], ∅, []⟩ .deliver
      (SignalSystem.deliverTo ⟨k, [], ∅, []⟩ wrapper handler task frame) :=
    SignalStep.custom isCurrent isCustom machine
  refine ⟨_, .step (.step (.step .refl trivial entered) trivial (.schedule away)) trivial
    (.schedule back), rfl, ?_⟩
  exact latest_eq (List.find?_cons_of_pos (by simp))

end Preempted

def roomy : SignalSystem BootHeap := onHeap withHandler bootHeap

def firstDelivery : SignalSystem BootHeap := roomy.deliverTo 0x1000 0x80000 idleThread blankFrame

theorem run_releases_stacks_first :
    Holds firstDelivery.kernel.heap (firstDelivery.handlerStacks ++ firstDelivery.others) ∧
    ∃ before stack after, firstDelivery.deliveries = before ++ (idleThread, stack) :: after ∧
      (∀ d ∈ before, d.1 ≠ idleThread) ∧ (sysSigreturn firstDelivery.kernel blankFrame).1.heap =
        Allocator.freePtr firstDelivery.kernel.heap stack ∧
      (firstDelivery.returnFrom (sysSigreturn firstDelivery.kernel blankFrame).1).deliveries =
        before ++ after := by
  obtain ⟨isCurrent, isCustom, machine, stillCurrent⟩ : roomy.kernel.current = some idleThread ∧
      (roomy.kernel.tasks idleThread).sigHandlers 1 = .custom 0x80000 ∧
        pointer (addr (handlerAlloc roomy.kernel)) = handlerAlloc roomy.kernel ∧
          firstDelivery.kernel.current = some idleThread := by decide +kernel
  have run : SignalRun ReturnsIntact roomy firstDelivery :=
    delivery_run isCurrent isCustom machine
  have released := run_releases_stacks (onHeap_initial withHandler bootHeap_holds) run
  exact ⟨released.1, released.2 blankFrame idleThread stillCurrent (deliverTo_returns isCurrent)⟩

/-- The registers of a thread in the kernel, which runs on the stack of the kernel. -/
def kernelRegisters : CpuContext :=
  { CpuContext.zero with fp := addr (withHandler.tasks idleThread).kernelStack + 0xf00 }

def preempted : Kernel BootHeap :=
  (schedule delivered.1.toKernel kernelRegisters).get (by decide +kernel)

def resumed : Kernel BootHeap := (schedule preempted .zero).get (by decide +kernel)

/-- A handler that was preempted releases a block that was never allocated for it,
and a return without a delivery releases the stack of the thread itself. -/
theorem return_frees_other : ∃ start : SignalSystem BootHeap,
    Reachable (fun _ _ => True) start.kernel.toKernel ∧ start.deliveries = [] ∧
      (∃ sys curr, SignalRun (fun _ _ => True) start sys ∧ sys.kernel.current = some curr ∧
        sys.latest curr ≠ none ∧ handlerStack (sys.kernel.tasks curr) ≠ sys.latest curr) ∧
      ∃ curr, start.kernel.current = some curr ∧ start.latest curr = none ∧
        handlerStack (start.kernel.tasks curr) = (start.kernel.tasks curr).userStack ∧
          (start.kernel.tasks curr).userStack ≠ none := by
  obtain ⟨isCurrent, isCustom, machine, allocated⟩ : withHandler.current = some idleThread ∧
      (withHandler.tasks idleThread).sigHandlers 1 = .custom 0x80000 ∧
        pointer (addr (handlerAlloc withHandler)) = handlerAlloc withHandler ∧
          handlerAlloc withHandler ≠ none := by decide +kernel
  obtain ⟨own, hasStack⟩ : handlerStack (withHandler.tasks idleThread) =
      (withHandler.tasks idleThread).userStack ∧
        (withHandler.tasks idleThread).userStack ≠ none := by decide +kernel
  obtain ⟨resumes, wrong⟩ : resumed.current = some idleThread ∧
      handlerStack (resumed.tasks idleThread) ≠ handlerAlloc withHandler := by decide +kernel
  have away : schedule (deliver 0x1000 withHandler idleThread 0x80000 blankFrame).1.toKernel
      kernelRegisters = some preempted := (Option.some_get _).symm
  have back : schedule preempted .zero = some resumed := (Option.some_get _).symm
  refine ⟨⟨withHandler, [], ∅, []⟩, setHandler_reachable secondRuns_reachable, rfl, ?_,
    idleThread, isCurrent, rfl, own, hasStack⟩
  obtain ⟨sys, run, kernel, latest⟩ := @preempted_run BootHeap _ 0x1000 0x80000 idleThread 1
    blankFrame withHandler preempted resumed kernelRegisters .zero isCurrent isCustom machine away back
  refine ⟨sys, idleThread, run, ?_, ?_, ?_⟩
  · rw [kernel]
    exact resumes
  · rw [latest]
    exact allocated
  · rw [latest, kernel]
    exact wrong

end OsdiKernel.Sched
