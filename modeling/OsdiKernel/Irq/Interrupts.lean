import OsdiKernel.Irq.Tasks

/-!
# Interrupts

`irq_entry` runs with the interrupts masked.  It defers one function for the core
timer, or up to two for the serial line, and executes each of them at once.
`core_timer_handler` opens the interrupts, so that other interrupts arrive while
its task is unfinished, and it may give the processor to another thread.
-/

namespace OsdiKernel.Irq

open Allocator (Holds)

/-- The functions that interrupts defer. -/
inductive Handler where
  | coreTimerHandler
  | uartIrqRxHandler
  | uartIrqTxHandler
  deriving DecidableEq

/-- What `irq_entry` and `uart_irq_handler` read from the devices; the last register
is read once for each of its two tests. -/
structure Sources where
  irqSrc : BitVec 32
  pending1 : BitVec 32
  iirRx : BitVec 32
  iirTx : BitVec 32

def timerIrq : BitVec 32 := 1 <<< 1

def gpuIrq : BitVec 32 := 1 <<< 8

/-- The functions that `uart_irq_handler` adds, in order. -/
def uartIrqHandler (src : Sources) : List Handler :=
  (if src.iirRx &&& 4 ≠ 0 then [.uartIrqRxHandler] else []) ++
    if src.iirTx &&& 2 ≠ 0 then [.uartIrqTxHandler] else []

/-- The functions that `irq_entry` adds, in order. -/
def irqEntry (src : Sources) : List Handler :=
  if src.irqSrc &&& timerIrq ≠ 0 then [.coreTimerHandler]
  else if src.irqSrc &&& gpuIrq ≠ 0 ∧ src.pending1 &&& (1 <<< 29) ≠ 0 then uartIrqHandler src
  else []

/-- A call of `irq_entry`: what it has still to add, and the task that it executes. -/
structure Frame where
  todo : List Handler
  task : Option (Nat × Handler)
  deriving DecidableEq

/-- The processor: whether interrupts are masked, the current thread, and the calls of
`irq_entry` on the kernel stack of each thread, the innermost first. -/
structure Cpu (H : Type) where
  system : System Handler H
  masked : Bool
  current : Nat
  frames : Nat → List Frame

namespace Cpu

variable {H : Type} [Allocator H]

/-- `add_task` of a function, and `execute_task` up to the call; none if a null
pointer is dereferenced. -/
def defer (fuel : Nat) (s : Tasks Handler H) (handler : Handler) :
    Option (Tasks Handler H × Nat) :=
  match addTask fuel s ⟨handler, 0⟩ with
  | none => none
  | some (s, _) => executeTask s

omit [Allocator H] in
/-- The calls of `irq_entry` of the current thread are replaced. -/
def setFrames (c : Cpu H) (frames : List Frame) : Cpu H :=
  { c with frames := Function.update c.frames c.current frames }

/-- What a step does. -/
inductive Event where
  | quiet
  | interrupted (src : Sources)
  | deferred (handler called : Handler)
  | reaped (thread : Nat)

/-- One step of the current thread, or an interrupt. -/
inductive Step (c : Cpu H) : Event → Cpu H → Prop
  | elsewhere {heap : H} {others : List Nat}
      (kept : ∀ own, Holds c.system.queue.heap (own ++ c.system.others) →
        Holds heap (own ++ others)) :
      Step c .quiet
        { c with
          system := { c.system with queue := { c.system.queue with heap := heap }, others := others } }
  | interrupt (src : Sources) (opened : c.masked = false) :
      Step c (.interrupted src)
        { c.setFrames (⟨irqEntry src, none⟩ :: c.frames c.current) with masked := true }
  | defer {fuel curr : Nat} {queue : Tasks Handler H} {handler : Handler} {todo : List Handler}
      {rest : List Frame} (top : c.frames c.current = ⟨handler :: todo, none⟩ :: rest)
      (deferred : defer fuel c.system.queue handler = some (queue, curr)) :
      Step c (.deferred handler (queue.tasks curr).callback)
        { c.setFrames (⟨todo, some (curr, (queue.tasks curr).callback)⟩ :: rest) with
          system := { c.system with queue := queue, running := curr :: c.system.running } }
  | enableIrq {curr : Nat} {todo : List Handler} {rest : List Frame}
      (top : c.frames c.current = ⟨todo, some (curr, .coreTimerHandler)⟩ :: rest) :
      Step c .quiet { c with masked := false }
  | schedule (next : Nat) (opened : c.masked = false) : Step c .quiet { c with current := next }
  | return {curr : Nat} {handler : Handler} {todo : List Handler} {rest : List Frame}
      (top : c.frames c.current = ⟨todo, some (curr, handler)⟩ :: rest) :
      Step c .quiet
        { c.setFrames (⟨todo, none⟩ :: rest) with
          system := { c.system with
            queue := finishTask c.system.queue curr
            running := c.system.running.erase curr } }
  | leave {rest : List Frame} (top : c.frames c.current = ⟨[], none⟩ :: rest) :
      Step c .quiet { c.setFrames rest with masked := false }
  | reap {thread : Nat} (other : thread ≠ c.current) :
      Step c (.reaped thread) { c with frames := Function.update c.frames thread [] }

/-- A sequence of steps, each with the state before it. -/
inductive Run : Cpu H → List (Cpu H × Event) → Cpu H → Prop
  | nil {c : Cpu H} : Run c [] c
  | cons {c mid last : Cpu H} {event : Event} {trace : List (Cpu H × Event)}
      (step : Step c event mid) (rest : Run mid trace last) : Run c ((c, event) :: trace) last

/-- No interrupt has arrived. -/
structure Initial (c : Cpu H) : Prop where
  system : Irq.Initial c.system
  opened : c.masked = false
  frames : ∀ thread, c.frames thread = []

/-! ## What holds at every step -/

/-- A call that an interrupt may interrupt: its task, if it has one, runs
`core_timer_handler`. -/
structure Interruptible (frame : Frame) : Prop where
  todo : frame.todo = []
  task : ∀ curr handler, frame.task = some (curr, handler) → handler = .coreTimerHandler

/-- `core_timer_handler` is not deferred together with another function. -/
structure Regular (frame : Frame) : Prop where
  waits : .coreTimerHandler ∈ frame.todo → frame.todo = [.coreTimerHandler] ∧ frame.task = none
  runs : ∀ curr, frame.task = some (curr, .coreTimerHandler) → frame.todo = []

theorem irqEntry_regular (src : Sources) : Regular ⟨irqEntry src, none⟩ where
  waits member := by
    unfold irqEntry at member ⊢
    dsimp only at member ⊢
    split
    · exact ⟨rfl, rfl⟩
    · next notTimer =>
        rw [if_neg notTimer] at member
        unfold uartIrqHandler at member
        exact absurd member (by split_ifs <;> simp)
  runs _ same := by cases same

theorem Regular.rest {handler : Handler} {todo : List Handler}
    (regular : Regular ⟨handler :: todo, none⟩) (curr : Nat) :
    Regular ⟨todo, some (curr, handler)⟩ where
  waits member := by
    obtain ⟨whole, _⟩ := regular.waits (List.mem_cons_of_mem handler member)
    obtain ⟨_, empty⟩ := List.cons.inj whole
    have none_left : todo = [] := empty
    rw [none_left] at member
    cases member
  runs _ same := by
    cases same
    obtain ⟨whole, _⟩ := regular.waits List.mem_cons_self
    exact (List.cons.inj whole).2

theorem Regular.returned {task : Option (Nat × Handler)} {todo : List Handler}
    (regular : Regular ⟨todo, task⟩) : Regular ⟨todo, none⟩ where
  waits member := ⟨(regular.waits member).1, rfl⟩
  runs _ same := by cases same

theorem Regular.interruptible {curr : Nat} {todo : List Handler}
    (regular : Regular ⟨todo, some (curr, .coreTimerHandler)⟩) :
    Interruptible ⟨todo, some (curr, .coreTimerHandler)⟩ where
  todo := regular.runs curr rfl
  task _ _ same := by
    cases same
    rfl

theorem Interruptible.regular {frame : Frame} (interruptible : Interruptible frame) :
    Regular frame where
  waits member := by
    rw [interruptible.todo] at member
    cases member
  runs _ _ := interruptible.todo

/-- The functions that the innermost of some calls has still to add. -/
def todoOf : List Frame → List Handler
  | [] => []
  | frame :: _ => frame.todo

omit [Allocator H] in
def todo (c : Cpu H) : List Handler := todoOf (c.frames c.current)

/-- The tasks that the calls of a thread execute. -/
def nodesOf (frames : List Frame) : List Nat := (frames.filterMap Frame.task).map Prod.fst

omit [Allocator H] in
def nodes (c : Cpu H) (thread : Nat) : List Nat := nodesOf (c.frames thread)

/-- All calls may be interrupted, but for the innermost one while interrupts are masked. -/
def Inner (masked : Bool) (frames : List Frame) : Prop :=
  ∀ frame rest, frames = frame :: rest →
    Regular frame ∧ (masked = false → Interruptible frame) ∧ ∀ other ∈ rest, Interruptible other

/-- The invariant: no task waits, every call but the innermost one may be interrupted, and
that one as well unless interrupts are masked.  The calls execute different tasks. -/
structure Inv (c : Cpu H) : Prop where
  system : Represents c.system []
  others : ∀ thread, thread ≠ c.current → ∀ frame ∈ c.frames thread, Interruptible frame
  inner : Inner c.masked (c.frames c.current)
  owned : ∀ thread, ∀ node ∈ c.nodes thread, node ∈ c.system.running
  distinct : ∀ thread, (c.nodes thread).Nodup
  apart : ∀ thread other, thread ≠ other → List.Disjoint (c.nodes thread) (c.nodes other)
  idle : c.masked = true → c.frames c.current ≠ []

theorem Initial.inv {c : Cpu H} (initial : Initial c) : Inv c where
  system := initial.system.represents
  others thread _ frame member := by
    rw [initial.frames] at member
    cases member
  inner frame rest shape := by
    rw [initial.frames] at shape
    cases shape
  owned thread node member := by
    simp [nodes, nodesOf, initial.frames] at member
  distinct thread := by simp [nodes, nodesOf, initial.frames]
  apart thread other _ := by simp [nodes, nodesOf, initial.frames]
  idle masked := by
    rw [initial.opened] at masked
    cases masked

/-! ## Deferring a function -/

section Defer

variable {s : System Handler H} {queue : Tasks Handler H} {handler : Handler} {fuel curr : Nat}

/-- With no other task the function that is added is the one that is executed. -/
theorem defer_represents (rep : Represents s [])
    (deferred : defer fuel s.queue handler = some (queue, curr)) :
    (queue.tasks curr).callback = handler ∧ curr ∉ s.running ∧
      Represents { s with queue := queue, running := curr :: s.running } [] := by
  unfold defer at deferred
  split at deferred
  · cases deferred
  · next added new result =>
      cases new with
      | none =>
          have kept := rep.refuse result
          have nothing := kept.executeTask_none_iff.mpr rfl
          rw [nothing] at deferred
          cases deferred
      | some new =>
          have kept := (rep.add result).2
          obtain ⟨best, started⟩ := kept.start deferred
          have same : (new, (⟨handler, 0⟩ : Task Handler)) = (curr, added.tasks curr) :=
            Option.some.inj best
          have sameTasks : queue.tasks = added.tasks := by
            obtain ⟨_, _, shape⟩ := Option.map_eq_some_iff.mp deferred
            cases shape
            rfl
          rw [same, List.erase_cons_head] at started
          have unused : curr ∉ s.running ++ [] := (List.nodup_cons.mp started.distinct).1
          rw [List.append_nil] at unused
          refine ⟨?_, unused, started⟩
          rw [sameTasks, ← (Prod.mk.inj same).2]

/-- A null pointer is dereferenced exactly when there is no memory for the task. -/
theorem defer_none_iff (rep : Represents s []) :
    defer fuel s.queue handler = none ↔ (Allocator.alloc s.queue.heap taskSize).2 = none := by
  have empty : s.queue.taskHead = none := rep.lists.head_eq
  rcases Represents.newTask_cases s.queue ⟨handler, 0⟩ with ⟨shape, nothing⟩ | ⟨new, result, shape⟩
  · have missing : defer fuel s.queue handler = none := by
      simp only [defer, addTask, shape]
      simp [executeTask, empty]
    simp [missing, nothing]
  · have served : defer fuel s.queue handler ≠ none := by
      simp only [defer, addTask, shape, linkTask, empty, Option.map_some]
      simp [executeTask, insertFirst]
    simp [served, result]

end Defer

/-! ## One step -/

section Steps

variable {c c' : Cpu H} {frames rest : List Frame} {frame : Frame} {event : Event}

theorem Inner.head {masked : Bool} (inner : Inner masked (frame :: rest)) :
    Regular frame ∧ (masked = false → Interruptible frame) ∧ ∀ other ∈ rest, Interruptible other :=
  inner frame rest rfl

theorem Inner.cons {masked : Bool} (regular : Regular frame)
    (opened : masked = false → Interruptible frame) (below : ∀ other ∈ rest, Interruptible other) :
    Inner masked (frame :: rest) := by
  intro top others same
  cases same
  exact ⟨regular, opened, below⟩

/-- Calls that may all be interrupted. -/
theorem Inner.of_all {masked : Bool} (all : ∀ frame ∈ frames, Interruptible frame) :
    Inner masked frames := by
  rintro frame rest rfl
  have first := all frame List.mem_cons_self
  exact ⟨first.regular, fun _ => first, fun other member => all other (List.mem_cons_of_mem _ member)⟩

theorem Inv.all_of_opened (inv : Inv c) (opened : c.masked = false) :
    ∀ thread, ∀ frame ∈ c.frames thread, Interruptible frame := by
  intro thread frame member
  by_cases current : thread = c.current
  · subst current
    cases shape : c.frames c.current with
    | nil =>
        rw [shape] at member
        cases member
    | cons top rest =>
        obtain ⟨_, interruptible, below⟩ := inv.inner top rest shape
        rw [shape] at member
        rcases List.mem_cons.mp member with rfl | inRest
        · exact interruptible opened
        · exact below frame inRest
  · exact inv.others thread current frame member

/-- The calls of the current thread change, and the tasks that they execute. -/
theorem Inv.replace (inv : Inv c) (current : c'.current = c.current)
    (changed : c'.frames = Function.update c.frames c.current frames)
    (kept : Represents c'.system []) (inner : Inner c'.masked frames)
    (idle : c'.masked = true → frames ≠ [])
    (own : ∀ node ∈ nodesOf frames,
      node ∈ c'.system.running ∧ ∀ thread, thread ≠ c.current → node ∉ c.nodes thread)
    (others : ∀ thread, thread ≠ c.current → ∀ node ∈ c.nodes thread, node ∈ c'.system.running)
    (distinct : (nodesOf frames).Nodup) : Inv c' := by
  have here : c'.frames c.current = frames := by
    rw [changed]
    exact Function.update_self _ _ _
  have elsewhere : ∀ thread, thread ≠ c.current → c'.frames thread = c.frames thread := by
    intro thread other
    rw [changed]
    exact Function.update_of_ne other _ _
  have nodesHere : c'.nodes c.current = nodesOf frames := congrArg nodesOf here
  have nodesElsewhere : ∀ thread, thread ≠ c.current → c'.nodes thread = c.nodes thread :=
    fun thread other => congrArg nodesOf (elsewhere thread other)
  constructor
  · exact kept
  · intro thread other frame member
    rw [current] at other
    rw [elsewhere thread other] at member
    exact inv.others thread other frame member
  · rw [current, here]
    exact inner
  · intro thread node member
    by_cases atCurrent : thread = c.current
    · rw [atCurrent, nodesHere] at member
      exact (own node member).1
    · rw [nodesElsewhere thread atCurrent] at member
      exact others thread atCurrent node member
  · intro thread
    by_cases atCurrent : thread = c.current
    · rw [atCurrent, nodesHere]
      exact distinct
    · rw [nodesElsewhere thread atCurrent]
      exact inv.distinct thread
  · intro thread other unlike node inThread inOther
    by_cases atCurrent : thread = c.current
    · have away : other ≠ c.current := fun same => unlike (atCurrent.trans same.symm)
      rw [atCurrent, nodesHere] at inThread
      rw [nodesElsewhere other away] at inOther
      exact (own node inThread).2 other away inOther
    · rw [nodesElsewhere thread atCurrent] at inThread
      by_cases atOther : other = c.current
      · rw [atOther, nodesHere] at inOther
        exact (own node inOther).2 thread atCurrent inThread
      · rw [nodesElsewhere other atOther] at inOther
        exact inv.apart thread other unlike inThread inOther
  · rw [current, here]
    exact idle

theorem Inv.own (inv : Inv c) : ∀ node ∈ nodesOf (c.frames c.current),
    node ∈ c.system.running ∧ ∀ thread, thread ≠ c.current → node ∉ c.nodes thread := by
  intro node member
  refine ⟨inv.owned c.current node member, fun thread other inOther => ?_⟩
  exact inv.apart thread c.current other inOther member

theorem Inv.interrupt (inv : Inv c) (src : Sources) (opened : c.masked = false) :
    Inv { c.setFrames (⟨irqEntry src, none⟩ :: c.frames c.current) with masked := true } := by
  refine inv.replace rfl rfl inv.system ?_ (fun _ => by simp) inv.own
    (fun thread _ => inv.owned thread) (inv.distinct c.current)
  exact Inner.cons (irqEntry_regular src) (fun masked => by cases masked)
    (inv.all_of_opened opened c.current)

theorem Inv.defer {fuel curr : Nat} {queue : Tasks Handler H} {handler : Handler}
    {todo : List Handler} (inv : Inv c)
    (top : c.frames c.current = ⟨handler :: todo, none⟩ :: rest)
    (deferred : Cpu.defer fuel c.system.queue handler = some (queue, curr)) :
    c.masked = true ∧ (queue.tasks curr).callback = handler ∧
      Inv { c.setFrames (⟨todo, some (curr, (queue.tasks curr).callback)⟩ :: rest) with
        system := { c.system with queue := queue, running := curr :: c.system.running } } := by
  obtain ⟨called, unused, kept⟩ := defer_represents inv.system deferred
  obtain ⟨regular, interruptible, below⟩ := inv.inner _ _ top
  have masked : c.masked = true := by
    -- a call that has functions to add cannot be interrupted
    by_contra opened
    have nothing := (interruptible (Bool.eq_false_iff.mpr opened)).todo
    cases nothing
  refine ⟨masked, called, ?_⟩
  rw [called]
  have nodes_eq : nodesOf (c.frames c.current) = nodesOf rest := by
    rw [top]
    rfl
  have own := inv.own
  rw [nodes_eq] at own
  refine inv.replace rfl rfl kept ?_ (fun _ => by simp) ?_ ?_ ?_
  · refine Inner.cons (regular.rest curr) (fun opened => ?_) below
    have impossible : c.masked = false := opened
    rw [masked] at impossible
    cases impossible
  · intro node member
    rcases List.mem_cons.mp member with rfl | inRest
    · exact ⟨List.mem_cons_self, fun thread _ inThread => unused (inv.owned thread node inThread)⟩
    · exact ⟨List.mem_cons_of_mem curr (own node inRest).1, (own node inRest).2⟩
  · exact fun thread _ node member => List.mem_cons_of_mem curr (inv.owned thread node member)
  · have distinct := inv.distinct c.current
    unfold nodes at distinct
    rw [nodes_eq] at distinct
    exact List.nodup_cons.mpr ⟨fun member => unused (own curr member).1, distinct⟩

theorem Inv.enableIrq {curr : Nat} {todo : List Handler} (inv : Inv c)
    (top : c.frames c.current = ⟨todo, some (curr, .coreTimerHandler)⟩ :: rest) :
    Inv { c with masked := false } := by
  obtain ⟨regular, _, below⟩ := inv.inner _ _ top
  refine ⟨inv.system, inv.others, ?_, inv.owned, inv.distinct, inv.apart, fun masked => ?_⟩
  · show Inner false (c.frames c.current)
    rw [top]
    exact Inner.cons regular (fun _ => regular.interruptible) below
  · cases masked

theorem Inv.schedule (inv : Inv c) (next : Nat) (opened : c.masked = false) :
    Inv { c with current := next } where
  system := inv.system
  others thread _ := inv.all_of_opened opened thread
  inner := Inner.of_all (inv.all_of_opened opened next)
  owned := inv.owned
  distinct := inv.distinct
  apart := inv.apart
  idle masked := by
    change c.masked = true at masked
    rw [opened] at masked
    cases masked

theorem Inv.return {curr : Nat} {handler : Handler} {todo : List Handler} (inv : Inv c)
    (top : c.frames c.current = ⟨todo, some (curr, handler)⟩ :: rest) :
    Inv { c.setFrames (⟨todo, none⟩ :: rest) with
      system := { c.system with
        queue := finishTask c.system.queue curr
        running := c.system.running.erase curr } } := by
  obtain ⟨regular, interruptible, below⟩ := inv.inner _ _ top
  have nodes_eq : nodesOf (c.frames c.current) = curr :: nodesOf rest := by
    rw [top]
    rfl
  have own := inv.own
  have distinct := inv.distinct c.current
  unfold nodes at distinct
  rw [nodes_eq] at own distinct
  obtain ⟨running, apart⟩ := own curr List.mem_cons_self
  obtain ⟨notBelow, distinctBelow⟩ := List.nodup_cons.mp distinct
  have unlike : c.system.running.Nodup := (List.nodup_append.mp inv.system.distinct).1
  refine inv.replace rfl rfl (inv.system.finish running) ?_ (fun _ => by simp) ?_ ?_ distinctBelow
  · refine Inner.cons regular.returned (fun opened => ?_) below
    exact ⟨(interruptible opened).todo, fun _ _ same => by cases same⟩
  · intro node member
    obtain ⟨inRunning, elsewhere⟩ := own node (List.mem_cons_of_mem curr member)
    have other : node ≠ curr := fun same => notBelow (same ▸ member)
    exact ⟨(List.mem_erase_of_ne other).mpr inRunning, elsewhere⟩
  · intro thread away node member
    have other : node ≠ curr := fun same => apart thread away (same ▸ member)
    exact (List.mem_erase_of_ne other).mpr (inv.owned thread node member)

theorem Inv.leave (inv : Inv c) (top : c.frames c.current = ⟨[], none⟩ :: rest) :
    Inv { c.setFrames rest with masked := false } := by
  obtain ⟨_, _, below⟩ := inv.inner _ _ top
  have nodes_eq : nodesOf (c.frames c.current) = nodesOf rest := by
    rw [top]
    rfl
  have own := inv.own
  have distinct := inv.distinct c.current
  unfold nodes at distinct
  rw [nodes_eq] at own distinct
  exact inv.replace rfl rfl inv.system (Inner.of_all below) (fun masked => by cases masked) own
    (fun thread _ => inv.owned thread) distinct

theorem Inv.reap (inv : Inv c) {thread : Nat} (other : thread ≠ c.current) :
    Inv { c with frames := Function.update c.frames thread [] } := by
  have fewer : ∀ at_, Function.update c.frames thread [] at_ = c.frames at_ ∨
      Function.update c.frames thread [] at_ = [] := by
    intro at_
    by_cases here : at_ = thread
    · rw [here, Function.update_self]
      exact Or.inr rfl
    · exact Or.inl (Function.update_of_ne here _ _)
  have nodes_fewer : ∀ at_, ∀ node ∈ nodesOf (Function.update c.frames thread [] at_),
      node ∈ c.nodes at_ := by
    intro at_ node member
    rcases fewer at_ with same | empty
    · rwa [same] at member
    · rw [empty] at member
      cases member
  have current : Function.update c.frames thread [] c.current = c.frames c.current :=
    Function.update_of_ne other.symm _ _
  constructor
  · exact inv.system
  · intro at_ away frame member
    change frame ∈ Function.update c.frames thread [] at_ at member
    rcases fewer at_ with same | empty
    · rw [same] at member
      exact inv.others at_ away frame member
    · rw [empty] at member
      cases member
  · show Inner c.masked (Function.update c.frames thread [] c.current)
    rw [current]
    exact inv.inner
  · exact fun at_ node member => inv.owned at_ node (nodes_fewer at_ node member)
  · intro at_
    show (nodesOf (Function.update c.frames thread [] at_)).Nodup
    rcases fewer at_ with same | empty
    · rw [same]
      exact inv.distinct at_
    · rw [empty]
      exact List.nodup_nil
  · intro first second unlike node inFirst inSecond
    exact inv.apart first second unlike (nodes_fewer first node inFirst)
      (nodes_fewer second node inSecond)
  · intro masked
    show Function.update c.frames thread [] c.current ≠ []
    rw [current]
    exact inv.idle masked

/-- A step keeps the invariant. -/
theorem Step.preserves (inv : Inv c) (step : Step c event c') : Inv c' := by
  cases step with
  | elsewhere kept =>
      exact { inv with
        system := ⟨inv.system.lists, inv.system.fields, inv.system.distinct,
          kept _ inv.system.holds⟩ }
  | interrupt src opened => exact inv.interrupt src opened
  | defer top deferred => exact (inv.defer top deferred).2.2
  | enableIrq top => exact inv.enableIrq top
  | schedule next opened => exact inv.schedule next opened
  | «return» top => exact inv.return top
  | leave top => exact inv.leave top
  | reap other => exact inv.reap other

/-! ## What is called -/

/-- The functions that an interrupt asks for. -/
def Event.wanted : Event → List Handler
  | .interrupted src => irqEntry src
  | _ => []

/-- The function that a step calls. -/
def Event.called : Event → List Handler
  | .deferred _ called => [called]
  | _ => []

/-- Calls that may be interrupted have nothing to add. -/
theorem todoOf_all (all : ∀ frame ∈ frames, Interruptible frame) : todoOf frames = [] := by
  cases frames with
  | nil => rfl
  | cons frame rest => exact (all frame List.mem_cons_self).todo

omit [Allocator H] in
/-- The calls of the current thread are the ones that have been put there. -/
theorem todo_updated (c : Cpu H) (frames : List Frame) :
    todoOf (Function.update c.frames c.current frames c.current) = todoOf frames :=
  congrArg todoOf (Function.update_self _ _ _)

/-- What is asked for is called, or has still to be added. -/
theorem Step.accounts (inv : Inv c) (step : Step c event c') :
    c.todo ++ event.wanted = event.called ++ c'.todo := by
  cases step with
  | elsewhere kept => exact List.append_nil _
  | interrupt src opened =>
      have nothing : c.todo = [] := todoOf_all (inv.all_of_opened opened c.current)
      rw [nothing]
      exact (todo_updated c (⟨irqEntry src, none⟩ :: c.frames c.current)).symm
  | @defer fuel curr queue handler todo rest top deferred =>
      obtain ⟨_, called, _⟩ := inv.defer top deferred
      have before : c.todo = handler :: todo := congrArg todoOf top
      have after := todo_updated c
        (⟨todo, some (curr, (queue.tasks curr).callback)⟩ :: rest)
      rw [before, called]
      rw [called] at after
      exact (List.append_nil _).trans (congrArg (handler :: ·) after.symm)
  | enableIrq top => exact List.append_nil _
  | schedule next opened =>
      have before : c.todo = [] := todoOf_all (inv.all_of_opened opened c.current)
      have after : todoOf (c.frames next) = [] := todoOf_all (inv.all_of_opened opened next)
      rw [before]
      exact after.symm
  | @«return» curr handler todo rest top =>
      have before : c.todo = todo := congrArg todoOf top
      rw [before]
      exact (List.append_nil _).trans (todo_updated c (⟨todo, none⟩ :: rest)).symm
  | @leave rest top =>
      have before : c.todo = [] := congrArg todoOf top
      have after : todoOf rest = [] := todoOf_all (inv.inner _ _ top).2.2
      rw [before]
      exact after.symm.trans (todo_updated c rest).symm
  | @reap thread other =>
      have same : Function.update c.frames thread [] c.current = c.frames c.current :=
        Function.update_of_ne other.symm _ _
      exact (List.append_nil _).trans (congrArg todoOf same).symm

/-! ## What is lost -/

/-- The tasks of the calls on the kernel stack of a thread that is reaped. -/
def Event.lost (c : Cpu H) : Event → List Nat
  | .reaped thread => c.nodes thread
  | _ => []

/-- Some call executes this task. -/
def OnStack (c : Cpu H) (node : Nat) : Prop := ∃ thread, node ∈ c.nodes thread

/-- The tasks that run are those of calls, and those that have been lost. -/
structure Owns (c : Cpu H) (lost : List Nat) : Prop where
  running : ∀ node, node ∈ c.system.running ↔ c.OnStack node ∨ node ∈ lost
  apart : ∀ node, c.OnStack node → node ∉ lost

theorem Initial.owns (initial : Initial c) : Owns c [] where
  running node := by simp [OnStack, nodes, nodesOf, initial.frames, initial.system.idle]
  apart node _ := List.not_mem_nil

omit [Allocator H] in
/-- A step that changes no task of a call. -/
theorem Owns.keep {lost : List Nat} (owns : Owns c lost) (same : c'.nodes = c.nodes)
    (running : c'.system.running = c.system.running) : Owns c' (lost ++ []) := by
  have executed : ∀ node, c'.OnStack node ↔ c.OnStack node := by
    intro node
    unfold OnStack
    rw [same]
  rw [List.append_nil]
  constructor
  · intro node
    rw [running, executed]
    exact owns.running node
  · exact fun node onStack => owns.apart node ((executed node).mp onStack)

omit [Allocator H] in
theorem nodes_updated (changed : c'.frames = Function.update c.frames c.current frames)
    (same : nodesOf frames = c.nodes c.current) : c'.nodes = c.nodes := by
  funext thread
  show nodesOf (c'.frames thread) = c.nodes thread
  rw [changed]
  by_cases atCurrent : thread = c.current
  · rw [atCurrent, Function.update_self, same]
  · rw [Function.update_of_ne atCurrent]
    rfl

omit [Allocator H] in
/-- One more task is executed by the current thread. -/
theorem onStack_cons {curr : Nat}
    (changed : c'.frames = Function.update c.frames c.current frames)
    (more : nodesOf frames = curr :: c.nodes c.current) (node : Nat) :
    c'.OnStack node ↔ node = curr ∨ c.OnStack node := by
  have here : c'.nodes c.current = curr :: c.nodes c.current := by
    show nodesOf (c'.frames c.current) = _
    rw [changed, Function.update_self, more]
  have elsewhere : ∀ thread, thread ≠ c.current → c'.nodes thread = c.nodes thread := by
    intro thread other
    show nodesOf (c'.frames thread) = _
    rw [changed, Function.update_of_ne other]
    rfl
  constructor
  · rintro ⟨thread, member⟩
    by_cases atCurrent : thread = c.current
    · rw [atCurrent, here] at member
      exact (List.mem_cons.mp member).imp_right fun old => ⟨c.current, old⟩
    · rw [elsewhere thread atCurrent] at member
      exact Or.inr ⟨thread, member⟩
  · rintro (rfl | ⟨thread, member⟩)
    · exact ⟨c.current, by rw [here]; exact List.mem_cons_self⟩
    · by_cases atCurrent : thread = c.current
      · rw [atCurrent] at member
        exact ⟨c.current, by rw [here]; exact List.mem_cons_of_mem curr member⟩
      · exact ⟨thread, by rw [elsewhere thread atCurrent]; exact member⟩

theorem Owns.defer {fuel curr : Nat} {queue : Tasks Handler H} {handler : Handler}
    {todo : List Handler} {lost : List Nat} (owns : Owns c lost) (inv : Inv c)
    (top : c.frames c.current = ⟨handler :: todo, none⟩ :: rest)
    (deferred : Cpu.defer fuel c.system.queue handler = some (queue, curr)) :
    Owns { c.setFrames (⟨todo, some (curr, (queue.tasks curr).callback)⟩ :: rest) with
        system := { c.system with queue := queue, running := curr :: c.system.running } }
      (lost ++ []) := by
  obtain ⟨_, unused, _⟩ := defer_represents inv.system deferred
  have below : nodesOf rest = c.nodes c.current := by
    show _ = nodesOf (c.frames c.current)
    rw [top]
    rfl
  have onStack : ∀ node,
      OnStack { c.setFrames (⟨todo, some (curr, (queue.tasks curr).callback)⟩ :: rest) with
        system := { c.system with queue := queue, running := curr :: c.system.running } } node ↔
        node = curr ∨ c.OnStack node := onStack_cons rfl (congrArg (curr :: ·) below)
  rw [List.append_nil]
  constructor
  · intro node
    rw [onStack node, or_assoc, ← owns.running node]
    exact List.mem_cons
  · intro node stacked inLost
    rcases (onStack node).mp stacked with rfl | old
    · exact unused ((owns.running node).mpr (Or.inr inLost))
    · exact owns.apart node old inLost

theorem Owns.return {curr : Nat} {handler : Handler} {todo : List Handler} {lost : List Nat}
    (owns : Owns c lost) (inv : Inv c)
    (top : c.frames c.current = ⟨todo, some (curr, handler)⟩ :: rest) :
    Owns { c.setFrames (⟨todo, none⟩ :: rest) with
        system := { c.system with
          queue := finishTask c.system.queue curr
          running := c.system.running.erase curr } } (lost ++ []) := by
  have after := inv.return top
  -- read backwards, the task is the one that the call after the step lacks
  have onStack : ∀ node, c.OnStack node ↔ node = curr ∨
      OnStack { c.setFrames (⟨todo, none⟩ :: rest) with
        system := { c.system with
          queue := finishTask c.system.queue curr
          running := c.system.running.erase curr } } node := onStack_cons
    (by
      funext thread
      show _ = Function.update (Function.update c.frames c.current _) c.current _ thread
      rw [Function.update_idem, Function.update_eq_self])
    (by
      show nodesOf (c.frames c.current) =
        curr :: nodesOf (Function.update c.frames c.current (⟨todo, none⟩ :: rest) c.current)
      rw [Function.update_self, top]
      rfl)
  have unlike : c.system.running.Nodup := (List.nodup_append.mp inv.system.distinct).1
  have released : curr ∉ c.system.running.erase curr := fun member =>
    ((unlike.mem_erase_iff).mp member).1 rfl
  have stacked : c.OnStack curr := (onStack curr).mpr (Or.inl rfl)
  rw [List.append_nil]
  constructor
  · intro node
    show node ∈ c.system.running.erase curr ↔ _
    rw [unlike.mem_erase_iff, owns.running node, onStack node]
    constructor
    · rintro ⟨other, (rfl | old) | inLost⟩
      · exact absurd rfl other
      · exact Or.inl old
      · exact Or.inr inLost
    · rintro (⟨thread, member⟩ | inLost)
      · refine ⟨?_, Or.inl (Or.inr ⟨thread, member⟩)⟩
        rintro rfl
        exact released (after.owned thread node member)
      · refine ⟨?_, Or.inr inLost⟩
        rintro rfl
        exact owns.apart node stacked inLost
  · exact fun node old => owns.apart node ((onStack node).mpr (Or.inr old))

theorem Owns.reap {lost : List Nat} (owns : Owns c lost) (inv : Inv c) {thread : Nat} :
    Owns { c with frames := Function.update c.frames thread [] } (lost ++ c.nodes thread) := by
  have executed : ∀ node, OnStack { c with frames := Function.update c.frames thread [] } node ↔
      c.OnStack node ∧ node ∉ c.nodes thread := by
    intro node
    constructor
    · rintro ⟨other, member⟩
      change node ∈ nodesOf (Function.update c.frames thread [] other) at member
      by_cases same : other = thread
      · rw [same, Function.update_self] at member
        cases member
      · rw [Function.update_of_ne same] at member
        exact ⟨⟨other, member⟩, fun inThread => inv.apart other thread same member inThread⟩
    · rintro ⟨⟨other, member⟩, outside⟩
      refine ⟨other, ?_⟩
      show node ∈ nodesOf (Function.update c.frames thread [] other)
      rw [Function.update_of_ne]
      · exact member
      · rintro rfl
        exact outside member
  constructor
  · intro node
    rw [executed, List.mem_append]
    show node ∈ c.system.running ↔ _
    rw [owns.running node]
    constructor
    · rintro (onStack | inLost)
      · by_cases inThread : node ∈ c.nodes thread
        · exact Or.inr (Or.inr inThread)
        · exact Or.inl ⟨onStack, inThread⟩
      · exact Or.inr (Or.inl inLost)
    · rintro (⟨onStack, _⟩ | inLost | inThread)
      · exact Or.inl onStack
      · exact Or.inr inLost
      · exact Or.inl ⟨thread, inThread⟩
  · intro node onStack member
    obtain ⟨old, outside⟩ := (executed node).mp onStack
    rcases List.mem_append.mp member with inLost | inThread
    · exact owns.apart node old inLost
    · exact outside inThread

theorem Step.owns {lost : List Nat} (owns : Owns c lost) (inv : Inv c) (step : Step c event c') :
    Owns c' (lost ++ event.lost c) := by
  cases step with
  | elsewhere kept => exact owns.keep rfl rfl
  | interrupt src opened => exact owns.keep (nodes_updated rfl rfl) rfl
  | defer top deferred => exact owns.defer inv top deferred
  | enableIrq top => exact owns.keep rfl rfl
  | schedule next opened => exact owns.keep rfl rfl
  | «return» top => exact owns.return inv top
  | leave top =>
      refine owns.keep (nodes_updated rfl ?_) rfl
      show _ = nodesOf (c.frames c.current)
      rw [top]
      rfl
  | reap other => exact owns.reap inv

end Steps

/-! ## Whole runs -/

/-- The functions that a sequence of steps has asked for, and those that it has called. -/
def wanted (trace : List (Cpu H × Event)) : List Handler :=
  trace.flatMap fun entry => entry.2.wanted

def called (trace : List (Cpu H × Event)) : List Handler :=
  trace.flatMap fun entry => entry.2.called

/-- The tasks that no call executes any more and that are never released. -/
def lost (trace : List (Cpu H × Event)) : List Nat :=
  trace.flatMap fun entry => entry.2.lost entry.1

theorem Run.preserves {c last : Cpu H} {trace : List (Cpu H × Event)} (inv : Inv c)
    (run : Run c trace last) :
    Inv last ∧ c.todo ++ wanted trace = called trace ++ last.todo := by
  induction run with
  | nil => exact ⟨inv, List.append_nil _⟩
  | @cons c mid last event trace step rest ih =>
      obtain ⟨kept, accounts⟩ := ih (step.preserves inv)
      refine ⟨kept, ?_⟩
      calc c.todo ++ (event.wanted ++ wanted trace)
          = event.called ++ (mid.todo ++ wanted trace) := by
            rw [← List.append_assoc, step.accounts inv, List.append_assoc]
        _ = event.called ++ called trace ++ last.todo := by rw [accounts, List.append_assoc]

theorem Run.owns {c last : Cpu H} {trace : List (Cpu H × Event)} {before : List Nat}
    (inv : Inv c) (owns : Owns c before) (run : Run c trace last) :
    Owns last (before ++ lost trace) := by
  induction run generalizing before with
  | nil =>
      show Owns _ (before ++ [])
      rwa [List.append_nil]
  | @cons c mid last event trace step rest ih =>
      have later := ih (step.preserves inv) (step.owns owns inv)
      rwa [List.append_assoc] at later

/-- A function is deferred while interrupts are masked, and it is the one that is called. -/
theorem Run.deferred {c last : Cpu H} {trace : List (Cpu H × Event)} (inv : Inv c)
    (run : Run c trace last) {at_ : Cpu H} {handler called : Handler}
    (member : (at_, .deferred handler called) ∈ trace) :
    at_.masked = true ∧ called = handler := by
  induction run with
  | nil => cases member
  | @cons c mid last event trace step rest ih =>
      rcases List.mem_cons.mp member with here | later
      · cases here
        cases step with
        | defer top deferred =>
            obtain ⟨masked, same, _⟩ := inv.defer top deferred
            exact ⟨masked, same⟩
      · exact ih (step.preserves inv) later

/-- In every run the list of tasks is empty between the steps, so whatever their priorities an
interrupt's function is called at once, and the functions called are those asked for, in order.
Every call of `execute_task` releases its own task, those of a reaped thread never, and a null
pointer is dereferenced exactly when there is no memory for a task. -/
theorem run_defers {start last : Cpu H} {trace : List (Cpu H × Event)} (initial : Initial start)
    (run : Run start trace last) :
    wanted trace = called trace ++ last.todo ∧ (last.masked = false → last.todo = []) ∧
      (∀ at_ handler called, (at_, .deferred handler called) ∈ trace →
        at_.masked = true ∧ called = handler) ∧
      last.system.queue.taskHead = none ∧ last.system.running.Nodup ∧
      Holds last.system.queue.heap (last.system.running ++ last.system.others) ∧
      (∀ node, node ∈ last.system.running ↔
        (∃ thread, node ∈ last.nodes thread) ∨ node ∈ lost trace) ∧
      ∀ fuel handler, defer fuel last.system.queue handler = none ↔
        (Allocator.alloc last.system.queue.heap taskSize).2 = none := by
  obtain ⟨inv, accounts⟩ := run.preserves initial.inv
  have owns := run.owns initial.inv initial.owns
  have nothing : start.todo = [] := by
    unfold todo
    rw [initial.frames]
    rfl
  have holds := inv.system.holds
  have distinct := inv.system.distinct
  rw [List.map_nil, List.append_nil] at holds distinct
  rw [nothing] at accounts
  refine ⟨accounts, fun opened => todoOf_all (inv.all_of_opened opened last.current),
    fun _ _ _ member => run.deferred initial.inv member, inv.system.lists.head_eq, distinct, holds,
    owns.running, fun fuel handler => defer_none_iff inv.system⟩

/-! ## A thread that is reaped inside the handler -/

open Fs (BootHeap bootHeap bootHeap_holds)

/-- No interrupt has arrived, and nothing else is in use. -/
def bootCpu {H : Type} (h : H) : Cpu H where
  system := ⟨⟨h, fun _ => ⟨.coreTimerHandler, 0⟩, ⟨fun _ => none, fun _ => none⟩, none⟩, [], []⟩
  masked := false
  current := 0
  frames _ := []

theorem bootCpu_initial {h : H} (holds : Holds h []) : Initial (bootCpu h) where
  system := ⟨rfl, rfl, holds⟩
  opened := rfl
  frames _ := rfl

/-- The first thread has been interrupted by the core timer. -/
def interruptedCpu (h : H) : Cpu H :=
  { (bootCpu h).setFrames [⟨[.coreTimerHandler], none⟩] with masked := true }

/-- It runs `core_timer_handler`, or has been switched away from there. -/
def handlingCpu (h : H) (queue : Tasks Handler H) (curr : Nat) (masked : Bool) (current : Nat) :
    Cpu H where
  system := ⟨queue, [curr], []⟩
  masked := masked
  current := current
  frames := ((interruptedCpu h).setFrames [⟨[], some (curr, .coreTimerHandler)⟩]).frames

/-- The second thread runs while the first one is inside the handler, and reaps it. -/
theorem reaped_run {h : H} (holds : Holds h []) (memory : (Allocator.alloc h taskSize).2.isSome) :
    ∃ (last : Cpu H) (trace : List (Cpu H × Event)) (node : Nat), Run (bootCpu h) trace last ∧
      lost trace = [node] := by
  have rep := (bootCpu_initial holds).system.represents
  have served : defer 0 (bootCpu h).system.queue .coreTimerHandler ≠ none := by
    intro nothing
    have missing : (Allocator.alloc h taskSize).2 = none := (defer_none_iff rep).mp nothing
    rw [missing] at memory
    cases memory
  obtain ⟨⟨queue, curr⟩, deferred⟩ := Option.ne_none_iff_exists'.mp served
  obtain ⟨called, _, _⟩ := defer_represents rep deferred
  have defers : Step (interruptedCpu h) (.deferred .coreTimerHandler (queue.tasks curr).callback)
      { (interruptedCpu h).setFrames [⟨[], some (curr, (queue.tasks curr).callback)⟩] with
        system := ⟨queue, [curr], []⟩ } := .defer rfl deferred
  rw [called] at defers
  have interrupts : Step (bootCpu h) (.interrupted ⟨2, 0, 0, 0⟩) (interruptedCpu h) :=
    .interrupt ⟨2, 0, 0, 0⟩ rfl
  have enables : Step (handlingCpu h queue curr true 0) .quiet (handlingCpu h queue curr false 0) :=
    .enableIrq rfl
  have switches : Step (handlingCpu h queue curr false 0) .quiet
      (handlingCpu h queue curr false 1) := .schedule 1 rfl
  have reaps := Step.reap (c := handlingCpu h queue curr false 1) Nat.zero_ne_one
  exact ⟨_, _, curr, .cons interrupts (.cons defers (.cons enables (.cons switches
    (.cons reaps .nil)))), rfl⟩

/-- The task of a thread that is reaped inside the handler stays allocated. -/
theorem run_defers_reaped : ∃ (last : Cpu BootHeap) (trace : List (Cpu BootHeap × Event))
    (node : Nat), Run (bootCpu bootHeap) trace last ∧ lost trace = [node] ∧
      node ∈ last.system.running ∧ wanted trace = called trace ++ last.todo := by
  have memory : (Allocator.alloc bootHeap taskSize).2.isSome := by decide +kernel
  obtain ⟨last, trace, node, run, leaks⟩ := reaped_run bootHeap_holds memory
  obtain ⟨accounts, _, _, _, _, _, running, _⟩ := run_defers (bootCpu_initial bootHeap_holds) run
  refine ⟨last, trace, node, run, leaks, (running node).mpr (Or.inr ?_), accounts⟩
  rw [leaks]
  exact List.mem_cons_self

end Cpu

end OsdiKernel.Irq
