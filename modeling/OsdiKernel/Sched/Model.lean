import Mathlib.Algebra.GroupWithZero.Nat
import OsdiKernel.Fs.Model
import OsdiKernel.Lib.Queue

/-!
# Threads

A task is a structure on the heap.  The scheduler links tasks into three queues
through one field of the structure, and the register `tpidr_el1` holds the task
that runs.  Memory is not cleared when it is allocated: a new structure has the
contents that were left there.
-/

namespace OsdiKernel.Sched

open Fs (Name)

/-! ## Tasks -/

abbrev Word : Type := BitVec 64

/-- A pointer as a machine word; none is null. -/
def addr (p : Option Nat) : Word := BitVec.ofNat 64 (p.getD 0)

def threadStackSize : Nat := 0x1000
abbrev threadMaxFd : Nat := 16
abbrev sigNum : Nat := 32
def sigkill : Nat := 9
def defaultPriority : Int := 10
def taskSize : Nat := 576
def trapFrameSize : Nat := 272

/-- There are registers, which literals name. -/
instance registers_ne_zero : NeZero 31 := ⟨by decide⟩

/-- There are file descriptors, which literals name. -/
instance threadMaxFd_ne_zero : NeZero threadMaxFd := ⟨by decide⟩

/-- The registers that a switch saves: `x19` to `x28` and the rest. -/
structure CpuContext where
  x : Fin 10 → Word
  fp : Word
  lr : Word
  sp : Word

def CpuContext.zero : CpuContext := ⟨fun _ => 0, 0, 0, 0⟩

/-- The registers of user mode, as an exception stores them on the kernel stack. -/
structure TrapFrame where
  x : Fin 31 → Word
  spEl0 : Word
  spsrEl1 : Word
  elrEl1 : Word

def TrapFrame.setX (frame : TrapFrame) (i : Fin 31) (value : Word) : TrapFrame :=
  { frame with x := Function.update frame.x i value }

/-- The last constructor stands for every other value of the field. -/
inductive TaskState where
  | ready
  | running
  | blocked
  | exited
  | invalid
  deriving DecidableEq

inductive Handler where
  | null
  | defaultHandler
  | defaultSigkillHandler
  | custom (address : Word)
  deriving DecidableEq

structure Task where
  cpuContext : CpuContext
  id : BitVec 32
  state : TaskState
  counter : Int
  priority : Int
  preemptCount : Int
  kernelStack : Option Nat
  userStack : Option Nat
  pendingSig : BitVec 32
  sigHandlers : Fin sigNum → Handler
  sigFrame : Option Nat
  cwd : Option Nat
  fdTable : Fin threadMaxFd → Option Nat
  next : Option Nat

/-! ## The kernel -/

inductive TaskQueue where
  | ready
  | wait
  | zombie
  deriving DecidableEq

/-- The file system with its heap, and the variables of the scheduler.  The
last three fields are no data of the kernel: the tasks that are allocated,
whether no task was ever added to a queue while it was in one, and whether only
tasks that were allocated and could not run were ever released as zombies. -/
structure Kernel (H : Type) extends Fs.State H where
  tasks : Nat → Task
  readyQueue : Option Nat
  waitQueue : Option Nat
  zombieQueue : Option Nat
  threadCnt : BitVec 32
  current : Option Nat
  live : List Nat
  addedUnlinked : Prop
  releasedZombies : Prop

namespace Kernel

variable {H : Type} (k : Kernel H)

def head : TaskQueue → Option Nat
  | .ready => k.readyQueue
  | .wait => k.waitQueue
  | .zombie => k.zombieQueue

def setHead (q : TaskQueue) (p : Option Nat) : Kernel H :=
  match q with
  | .ready => { k with readyQueue := p }
  | .wait => { k with waitQueue := p }
  | .zombie => { k with zombieQueue := p }

def modify (p : Nat) (f : Task → Task) : Kernel H :=
  { k with tasks := Function.update k.tasks p (f (k.tasks p)) }

def setNext (p : Nat) (link : Option Nat) : Kernel H := k.modify p fun t => { t with next := link }

def setState (p : Nat) (state : TaskState) : Kernel H :=
  k.modify p fun t => { t with state := state }

/-- The link of each task. -/
def next (p : Nat) : Option Nat := (k.tasks p).next

/-- The task is in the queue. -/
def InQueue (q : TaskQueue) (p : Nat) : Prop :=
  ∃ nodes, Queue.Chain k.next (k.head q) nodes ∧ p ∈ nodes

def noteAdded (p : Nat) : Kernel H :=
  { k with addedUnlinked := k.addedUnlinked ∧ ∀ q, ¬ k.InQueue q p }

def noteReleased (p : Nat) : Kernel H :=
  { k with
    releasedZombies := k.releasedZombies ∧ p ∈ k.live ∧ k.current ≠ some p ∧
      ∀ q, ¬ k.InQueue q p }

variable [Allocator H]

def alloc (size : Nat) : Kernel H × Option Nat :=
  ({ k with toState := (k.toState.alloc size).1 }, (k.toState.alloc size).2)

def freePtr (p : Option Nat) : Kernel H := { k with toState := k.toState.freePtr p }

/-- The allocation of a task. -/
def allocTask : Kernel H × Option Nat :=
  match k.alloc taskSize with
  | (k, none) => (k, none)
  | (k, some p) => ({ k with live := p :: k.live }, some p)

/-- The release of a task. -/
def freeTask (p : Nat) : Kernel H :=
  { k with toState := k.toState.free p, live := k.live.erase p }

end Kernel

variable {H : Type}

/-! ## Queues -/

/-- The walk to the last task of a queue ends after as many rounds as there are tasks. -/
def addThreadTask (k : Kernel H) (q : TaskQueue) (task : Nat) : Option (Kernel H) :=
  let k := k.noteAdded task
  match k.head q with
  | none => some ((k.setHead q (some task)).setNext task none)
  | some current => do
      let current ← Queue.last k.next k.live.length current
      return (k.setNext current (some task)).setNext task none

/-- The first task of the queue. -/
def popThreadTask (k : Kernel H) (q : TaskQueue) : Kernel H × Option Nat :=
  match k.head q with
  | none => (k, none)
  | some task => (k.setHead q (k.tasks task).next, some task)

/-- The loop of `rm_thread_task`. -/
def rmThreadTaskLoop (k : Kernel H) (q : TaskQueue) (task : Nat) :
    Nat → Option Nat → Option Nat → Option (Kernel H)
  | _, _, none => some k
  | 0, _, some _ => none
  | fuel + 1, prev, some current =>
      if current = task then
        match prev with
        | none => some (k.setHead q (k.tasks current).next)
        | some prev => some (k.setNext prev (k.tasks current).next)
      else rmThreadTaskLoop k q task fuel (some current) (k.tasks current).next

def rmThreadTask (k : Kernel H) (q : TaskQueue) (task : Nat) : Option (Kernel H) :=
  match k.head q with
  | none => some k
  | some current => rmThreadTaskLoop k q task k.live.length none (some current)

def getThreadTaskById (k : Kernel H) (pid : BitVec 32) : Option (Option Nat) := do
  let hasId := fun p => decide ((k.tasks p).id = pid)
  match ← Queue.find k.next hasId k.live.length k.readyQueue with
  | some task => return some task
  | none => Queue.find k.next hasId k.live.length k.waitQueue

/-! ## Switching -/

/-- The registers of the task that stops are saved. -/
def cpuSwitchTo (k : Kernel H) (prev next : Nat) (registers : CpuContext) : Kernel H :=
  { k.modify prev fun t => { t with cpuContext := registers } with current := some next }

/-- Where the task that stops goes, by its state; none if the state is none of the four. -/
def requeue (k : Kernel H) (prev : Nat) : Option (Option (Kernel H)) :=
  match (k.tasks prev).state with
  | .running => some (addThreadTask (k.setState prev .ready) .ready prev)
  | .blocked => some (addThreadTask k .wait prev)
  | .exited => some (addThreadTask k .zombie prev)
  | .ready => some (some k)
  | .invalid => none

/-- The registers are those at the call of `cpu_switch_to`. -/
def schedule (k : Kernel H) (registers : CpuContext) : Option (Kernel H) :=
  match k.current with
  | none => do
      let first ← k.readyQueue
      return { k.setState first .running with current := some first }
  | some prev =>
      match k.readyQueue with
      | none => some k
      | some next =>
          if next = prev then some k
          else
            match requeue k prev with
            | none => some k
            | some requeued => do
                let k ← requeued
                let k := k.setState next .running
                let (k, next) := popThreadTask k .ready
                return cpuSwitchTo k prev (← next) registers

/-- `_exit`. -/
def exit (k : Kernel H) (registers : CpuContext) : Option (Kernel H) :=
  match k.current with
  | none => some k
  | some curr => do
      let k ← rmThreadTask k .ready curr
      let k ← rmThreadTask k .wait curr
      schedule (k.setState curr .exited) registers

/-- `_kill`. -/
def kill (k : Kernel H) (pid : BitVec 32) (registers : CpuContext) : Option (Kernel H × Int) := do
  match ← getThreadTaskById k pid with
  | none => return (k, -1)
  | some task =>
      let k ← rmThreadTask k .ready task
      let k ← rmThreadTask k .wait task
      let k := k.setState task .exited
      if k.current = some task then return (← schedule k registers, 0)
      else return (← addThreadTask k .zombie task, 0)

section Memory

variable [Allocator H]

/-- The loop of `kill_zombies`. -/
def killZombiesLoop : Nat → Kernel H → Option Nat → Option (Kernel H)
  | _, k, none => some k
  | 0, _, some _ => none
  | fuel + 1, k, some zombie =>
      let k := k.noteReleased zombie
      let k := k.freePtr (k.tasks zombie).kernelStack
      let k := k.freePtr (k.tasks zombie).userStack
      let k := k.freeTask zombie
      let (k, zombie) := popThreadTask k .zombie
      killZombiesLoop fuel k zombie

def killZombies (k : Kernel H) : Option (Kernel H) :=
  let (k, zombie) := popThreadTask k .zombie
  killZombiesLoop k.live.length k zombie

/-! ## New threads -/

def uartPath : Name := ['/', 'd', 'e', 'v', '/', 'u', 'a', 'r', 't']

/-- `vfs_open("/dev/uart", 0, &task->fd_table[fd])`.  The path is absolute. -/
def openUart (k : Kernel H) (task : Nat) (fd : Fin threadMaxFd) : Option (Kernel H) := do
  let (s, _, file) ← Fs.vfsOpen k.toState none uartPath 0
  return { k with toState := s }.modify task fun t =>
    { t with fdTable := Function.update t.fdTable fd file }

/-- The first fields of a new task. -/
def enrol (k : Kernel H) (task : Nat) (counter priority preemptCount : Int) : Kernel H :=
  { k.modify task fun t =>
    { t with
      id := k.threadCnt
      state := .ready
      counter := counter
      priority := priority
      preemptCount := preemptCount } with threadCnt := k.threadCnt + 1 }

/-- The common beginning of `thread_create` and `sys_fork`: a task with its stacks. -/
def allocThread (k : Kernel H) (counter priority preemptCount : Int) : Kernel H × Option Nat :=
  match k.allocTask with
  | (k, none) => (k, none)
  | (k, some task) =>
      let k := enrol k task counter priority preemptCount
      match k.alloc threadStackSize with
      | (k, none) => (k.freeTask task, none)
      | (k, some kernelStack) =>
          let k := k.modify task fun t => { t with kernelStack := some kernelStack }
          match k.alloc threadStackSize with
          | (k, none) => ((k.freePtr (some kernelStack)).freeTask task, none)
          | (k, some userStack) =>
              (k.modify task fun t => { t with userStack := some userStack }, some task)

/-- The handlers of a new thread. -/
def defaultHandlers (sig : Fin sigNum) : Handler :=
  if sig.val = sigkill then .defaultSigkillHandler else .defaultHandler

/-- The part of `thread_create` that follows the allocations. -/
def threadInit (k : Kernel H) (task : Nat) (callback : Word) : Option (Kernel H) := do
  let k := k.modify task fun t => { t with pendingSig := 0, sigHandlers := defaultHandlers }
  let (k, frame) := k.alloc trapFrameSize
  let k := k.modify task fun t => { t with sigFrame := frame, next := none }
  let root ← k.rootVnode
  let k := k.modify task fun t => { t with cwd := root, fdTable := fun _ => none }
  let k ← openUart k task 0
  let k ← openUart k task 1
  let k ← openUart k task 2
  let k := k.modify task fun t =>
    let sp := addr t.userStack + BitVec.ofNat 64 threadStackSize
    { t with cpuContext := { CpuContext.zero with lr := callback, sp := sp, fp := sp } }
  addThreadTask k .ready task

/-- A null result stands for the pointer -1 that is returned on failure. -/
def threadCreate (k : Kernel H) (callback : Word) : Option (Kernel H × Option Nat) :=
  match allocThread k defaultPriority defaultPriority 1 with
  | (k, none) => some (k, none)
  | (k, some task) => do
      let k ← threadInit k task callback
      return (k, some task)

/-- `sched_init`, which is called once. -/
def schedInit (k : Kernel H) (idle : Word) : Option (Kernel H) :=
  let k := { k with readyQueue := none, waitQueue := none, zombieQueue := none, threadCnt := 0 }
  match k.allocTask with
  | (k, none) => some k
  | (k, some idleTask) => do
      let (k, _) ← threadCreate k idle
      return { k with current := some idleTask }.setState idleTask .running

/-- The part of `sys_fork` that follows the allocations: the trap frames of the
parent and of the child.  The contents of the stacks are left out. -/
def forkInit (k : Kernel H) (parent child : Nat) (frame : TrapFrame) (currSp forkEnd : Word) :
    Option (Kernel H × TrapFrame × TrapFrame) := do
  let p := k.tasks parent
  let k := k.modify child fun t =>
    { t with pendingSig := p.pendingSig, sigHandlers := p.sigHandlers, next := none }
  let k := k.modify child fun t =>
    { t with
      cpuContext := { p.cpuContext with
        sp := addr t.kernelStack + (currSp - addr p.kernelStack)
        fp := p.cpuContext.fp
        lr := forkEnd } }
  let c := k.tasks child
  let childFrame := { frame.setX 0 0 with
    spEl0 := addr c.userStack + (frame.spEl0 - addr p.userStack) }
  let k ← addThreadTask k .ready child
  return (k, frame.setX 0 (c.id.setWidth 64), childFrame)

/-- The results are the trap frame of the parent, and the child with its trap frame. -/
def sysFork (k : Kernel H) (frame : TrapFrame) (currSp forkEnd : Word) :
    Option (Kernel H × TrapFrame × Option (Nat × TrapFrame)) :=
  match k.current with
  | none => some (k, frame, none)
  | some parent =>
      let p := k.tasks parent
      match allocThread k p.counter p.priority p.preemptCount with
      | (k, none) => some (k, frame.setX 0 (-1), none)
      | (k, some child) => do
          let (k, frame, childFrame) ← forkInit k parent child frame currSp forkEnd
          return (k, frame, some (child, childFrame))

/-- `_exec`, given the size that the archive has for the file, which is zero if
there is none.  The result is the new thread if the call does not return.  A
thread that could not be created is used all the same, and faults. -/
def exec (k : Kernel H) (execSize : Nat) : Option (Kernel H × Option Nat) :=
  if execSize = 0 then some (k, none)
  else
    match k.alloc execSize with
    | (k, none) => some (k, none)
    | (k, some execAddr) => do
        let (k, newThread) ← threadCreate k (addr (some execAddr))
        let newThread ← newThread
        return ({ k with current := some newThread }, some newThread)

end Memory

end OsdiKernel.Sched
