import OsdiKernel.Sched.HandlerStacks
import OsdiKernel.Sched.Pending

/-!
# The kernel stack pointer

An exception pushes a trap frame on the stack of `SP_EL1`, and what handles it pushes frames of
its own.  All of them are popped before the return to user mode, with one exception: a custom
handler is entered from inside the nested calls of `handle_signal`, and the frames stay where
they are.
-/

namespace OsdiKernel.Sched

/-! ## Stacks -/

/-- The modes in which the kernel and its programs run: `EL0t` and `EL1h`. -/
inductive Level where
  | el0
  | el1
  deriving DecidableEq

/-- The mode to which an `eret` with this saved status returns; none for any other mode. -/
def level (spsrEl1 : Word) : Option Level :=
  if spsrEl1 &&& 0x1F = 0 then some .el0
  else if spsrEl1 &&& 0x1F = 5 then some .el1
  else none

/-- What lies on a kernel stack: the frame of a C function, of any size, or the registers that
`save_all` stores, of which only the saved status matters here. -/
inductive StackFrame where
  | call (size : Nat)
  | trap (spsrEl1 : Word)
  deriving DecidableEq

def StackFrame.size : StackFrame → Word
  | .call size => BitVec.ofNat 64 size
  | .trap _ => BitVec.ofNat 64 trapFrameSize

/-- The saved status of the last exception. -/
def innermost : List StackFrame → Option Word
  | [] => none
  | .call _ :: frames => innermost frames
  | .trap spsrEl1 :: _ => some spsrEl1

/-- Where the stack pointer is when the last exception returns. -/
def trapEnd (sp : Word) : List StackFrame → Option Word
  | [] => none
  | .call size :: frames => trapEnd (sp + (StackFrame.call size).size) frames
  | .trap spsrEl1 :: _ => some (sp + (StackFrame.trap spsrEl1).size)

/-- Another saved status is stored in the frame of the last exception. -/
def setSpsr (spsrEl1 : Word) : List StackFrame → List StackFrame
  | [] => []
  | .call size :: frames => .call size :: setSpsr spsrEl1 frames
  | .trap _ :: frames => .trap spsrEl1 :: frames

/-- The address behind the kernel stack, from which a new thread starts. -/
def Task.kernelTop (t : Task) : Word := addr t.kernelStack + BitVec.ofNat 64 threadStackSize

/-- Every exception from user mode that is on the stack returns with this stack pointer. -/
def ReturnsTo (top sp : Word) : List StackFrame → Prop
  | [] => True
  | frame :: frames =>
      (∀ spsrEl1, frame = .trap spsrEl1 → level spsrEl1 = some .el0 → sp + frame.size = top) ∧
        ReturnsTo top (sp + frame.size) frames

section Frames

variable {top sp spsrEl1 : Word} {frames : List StackFrame}

theorem add_swap (a b c : Word) : a + b + c = a + c + b := by
  rw [BitVec.add_assoc, BitVec.add_comm b c, BitVec.add_assoc]

theorem ReturnsTo.call {size : Nat} (returns : ReturnsTo top sp frames) :
    ReturnsTo top (sp - (StackFrame.call size).size) (.call size :: frames) := by
  refine ⟨nofun, ?_⟩
  rw [BitVec.sub_add_cancel]
  exact returns

theorem ReturnsTo.trap (returns : ReturnsTo top sp frames) (user : level spsrEl1 = some .el0 → sp = top) :
    ReturnsTo top (sp - (StackFrame.trap spsrEl1).size) (.trap spsrEl1 :: frames) := by
  constructor
  · intro _ same fromUser
    cases same
    rw [BitVec.sub_add_cancel]
    exact user fromUser
  · rw [BitVec.sub_add_cancel]
    exact returns

/-- A copy of a stack elsewhere. -/
theorem ReturnsTo.move (returns : ReturnsTo top sp frames) (distance : Word) :
    ReturnsTo (top + distance) (sp + distance) frames := by
  induction frames generalizing sp with
  | nil => trivial
  | cons frame frames ih =>
      obtain ⟨here, below⟩ := returns
      have moved := ih below
      rw [add_swap] at moved
      refine ⟨fun spsrEl1 same fromUser => ?_, moved⟩
      rw [add_swap, here spsrEl1 same fromUser]

theorem ReturnsTo.setSpsr (returns : ReturnsTo top sp frames)
    (atTop : level spsrEl1 = some .el0 → ∀ stop, trapEnd sp frames = some stop → stop = top) :
    ReturnsTo top sp (setSpsr spsrEl1 frames) := by
  induction frames generalizing sp with
  | nil => trivial
  | cons frame frames ih =>
      cases frame with
      | call size => exact ⟨nofun, ih returns.2 atTop⟩
      | trap old =>
          refine ⟨fun _ same toUser => ?_, returns.2⟩
          cases same
          exact atTop toUser _ rfl

/-- The last exception, if it is one from user mode. -/
theorem ReturnsTo.trapEnd (returns : ReturnsTo top sp frames)
    (fromUser : (innermost frames).bind level = some .el0) : trapEnd sp frames = some top := by
  induction frames generalizing sp with
  | nil => cases fromUser
  | cons frame frames ih =>
      cases frame with
      | call size => exact ih returns.2 fromUser
      | trap spsrEl1 => exact congrArg some (returns.1 spsrEl1 rfl fromUser)

end Frames

/-! ## The machine -/

variable {H : Type}

/-- The kernel with the processor.  For the tasks that do not run, `parked` is what their saved
stack pointers point to, and `entered` is the value of `SP_EL1` at the first entry of user mode. -/
structure StackSystem (H : Type) where
  kernel : SignalKernel H
  el : Level
  spEl1 : Word
  frames : List StackFrame
  parked : Nat → List StackFrame
  entered : Nat → Option Word

namespace StackSystem

def setKernel (sys : StackSystem H) (k : Kernel H) : StackSystem H :=
  { sys with kernel := { sys.kernel with toKernel := k } }

/-- An exception, as far as `save_all`. -/
def saveAll (sys : StackSystem H) (spsrEl1 : Word) : StackSystem H :=
  { sys with
    el := .el1
    spEl1 := sys.spEl1 - (StackFrame.trap spsrEl1).size
    frames := .trap spsrEl1 :: sys.frames }

/-- The prologue of a function. -/
def call (sys : StackSystem H) (size : Nat) : StackSystem H :=
  { sys with
    spEl1 := sys.spEl1 - (StackFrame.call size).size
    frames := .call size :: sys.frames }

/-- The running thread is in user mode. -/
def enterUser (sys : StackSystem H) : StackSystem H :=
  match sys.kernel.current with
  | none => { sys with el := .el0 }
  | some curr => { sys with
      el := .el0
      entered := Function.update sys.entered curr (some ((sys.entered curr).getD sys.spEl1)) }

/-- The end of an exception: `load_all` and `eret`. -/
def loadAll (sys : StackSystem H) : Option (StackSystem H) :=
  match sys.frames with
  | .trap spsrEl1 :: frames =>
      let sys := { sys with spEl1 := sys.spEl1 + (StackFrame.trap spsrEl1).size, frames := frames }
      match level spsrEl1 with
      | some .el0 => some sys.enterUser
      | some .el1 => some { sys with el := .el1 }
      | none => none
  | _ => none

/-- The stack after a call of `schedule`, which may have switched to another task. -/
def switched (sys : StackSystem H) (k : Kernel H) : StackSystem H :=
  match sys.kernel.current, k.current with
  | some prev, some next =>
      if next = prev then sys.setKernel k
      else { sys.setKernel k with
        spEl1 := (k.tasks next).cpuContext.sp
        frames := sys.parked next
        parked := Function.update sys.parked prev sys.frames }
  | _, _ => sys.setKernel k

/-- The inline assembly of `_exec` and of the launchers: a new thread enters user mode with an
empty kernel stack.  Its own context is still that of `thread_create`. -/
def started (sys : StackSystem H) (k : Kernel H) (newThread : Nat) : StackSystem H :=
  { sys.setKernel k with
    el := .el0
    spEl1 := (k.tasks newThread).kernelTop
    frames := []
    parked := Function.update sys.parked newThread []
    entered := Function.update sys.entered newThread (some (k.tasks newThread).kernelTop) }

/-- A child has not run yet. -/
def forked (sys : StackSystem H) (k : Kernel H) (child : Nat) (frames : List StackFrame) : StackSystem H :=
  { sys.setKernel k with
    parked := Function.update sys.parked child frames
    entered := Function.update sys.entered child none }

/-- The `eret` of `handle_signal`.  Nothing is popped, and nobody returns to the frames. -/
def delivered (sys : StackSystem H) (k : SignalKernel H) : StackSystem H :=
  { sys with kernel := k, frames := [] }.enterUser

/-- The last trap frame is the first thing on the kernel stack of the running thread. -/
def TrapAtTop (sys : StackSystem H) : Prop :=
  ∀ curr, sys.kernel.current = some curr →
    trapEnd sys.spEl1 sys.frames = some (sys.kernel.tasks curr).kernelTop

end StackSystem

inductive StackOp where
  | exception
  | call
  | ret
  | eret
  | schedule
  | exit
  | kill
  | killZombies
  | fork
  | exec
  | launch
  | deliver
  | sigreturn
  | rest
  deriving DecidableEq

/-- What the rest of the kernel leaves alone in a task. -/
structure SameThread (t t' : Task) : Prop where
  state : t'.state = t.state
  next : t'.next = t.next
  kernelStack : t'.kernelStack = t.kernelStack
  sp : t'.cpuContext.sp = t.cpuContext.sp

variable [Allocator H]

/-- One step of the processor.  The frames of a function may have any size, and a switch may come
at any time in kernel mode. -/
inductive StackStep (sys : StackSystem H) : StackOp → StackSystem H → Prop
  | exception {spsrEl1 : Word} (mode : level spsrEl1 = some sys.el) :
      StackStep sys .exception (sys.saveAll spsrEl1)
  | call {size : Nat} (el : sys.el = .el1) : StackStep sys .call (sys.call size)
  | ret {size : Nat} {frames : List StackFrame} (el : sys.el = .el1)
      (top : sys.frames = .call size :: frames) :
      StackStep sys .ret { sys with spEl1 := sys.spEl1 + (StackFrame.call size).size, frames := frames }
  | eret {sys' : StackSystem H} (el : sys.el = .el1) (returned : sys.loadAll = some sys') :
      StackStep sys .eret sys'
  | schedule {k : Kernel H} {registers : CpuContext} (el : sys.el = .el1)
      (sp : registers.sp = sys.spEl1)
      (done : Sched.schedule sys.kernel.toKernel registers = some k) :
      StackStep sys .schedule (sys.switched k)
  | exit {k : Kernel H} {registers : CpuContext} (el : sys.el = .el1) (sp : registers.sp = sys.spEl1)
      (done : Sched.exit sys.kernel.toKernel registers = some k) :
      StackStep sys .exit (sys.switched k)
  | kill {k : Kernel H} {pid : BitVec 32} {registers : CpuContext} {result : Int} (el : sys.el = .el1)
      (sp : registers.sp = sys.spEl1)
      (done : Sched.kill sys.kernel.toKernel pid registers = some (k, result)) :
      StackStep sys .kill (sys.switched k)
  | killZombies {k : Kernel H} (el : sys.el = .el1)
      (done : Sched.killZombies sys.kernel.toKernel = some k) :
      StackStep sys .killZombies (sys.setKernel k)
  /-- What the child finds is a copy of the kernel stack of its parent, and of no other memory. -/
  | fork {k : Kernel H} {frame frame' childFrame : TrapFrame} {forkEnd : Word} {child : Nat}
      {frames : List StackFrame} (el : sys.el = .el1) (fresh : FreshTask sys.kernel.toKernel)
      (made : sysFork sys.kernel.toKernel frame sys.spEl1 forkEnd =
        some (k, frame', some (child, childFrame)))
      (copied : sys.TrapAtTop → frames = sys.frames) :
      StackStep sys .fork (sys.forked k child frames)
  | forkFails {k : Kernel H} {frame frame' : TrapFrame} {forkEnd : Word} (el : sys.el = .el1)
      (fresh : FreshTask sys.kernel.toKernel)
      (failed : sysFork sys.kernel.toKernel frame sys.spEl1 forkEnd = some (k, frame', none)) :
      StackStep sys .rest (sys.setKernel k)
  | exec {k : Kernel H} {execSize p : Nat} (el : sys.el = .el1)
      (fresh : FreshTask (sys.kernel.toKernel.alloc execSize).1)
      (made : Sched.exec sys.kernel.toKernel execSize = some (k, some p)) :
      StackStep sys .exec (sys.started k p)
  | launch {k : Kernel H} {callback : Word} {p : Nat} (el : sys.el = .el1)
      (fresh : FreshTask sys.kernel.toKernel)
      (made : threadCreate sys.kernel.toKernel callback = some (k, some p)) :
      StackStep sys .launch (sys.started { k with current := some p } p)
  | deliver {k : SignalKernel H} {wrapper : Word} {task sig : Nat} {frame : TrapFrame}
      {registers : CpuContext} {entry : UserEntry} (el : sys.el = .el1)
      (isCurrent : sys.kernel.current = some task)
      (round : checkPendingRound wrapper sys.kernel task sig frame registers = some (k, .entered entry)) :
      StackStep sys .deliver (sys.delivered k)
  | sigreturn {frame : TrapFrame} (el : sys.el = .el1) :
      StackStep sys .sigreturn
        { sys with
          kernel := (sysSigreturn sys.kernel frame).1
          frames := setSpsr (sysSigreturn sys.kernel frame).2.spsrEl1 sys.frames }
  | rest {s : Fs.State H} {tasks : Nat → Task} {tail : Nat → TailWords} (el : sys.el = .el1)
      (same : ∀ p ∈ sys.kernel.live, SameThread (sys.kernel.tasks p) (tasks p)) :
      StackStep sys .rest
        { sys with kernel := { sys.kernel with toState := s, tasks := tasks, tail := tail } }

inductive StackRun (allowed : StackSystem H → StackOp → Prop) (start : StackSystem H) :
    StackSystem H → Prop
  | refl : StackRun allowed start start
  | step {sys sys' : StackSystem H} {op : StackOp} (run : StackRun allowed start sys)
      (ok : allowed sys op) (stepped : StackStep sys op sys') : StackRun allowed start sys'

/-- The kernel has booted and no thread has entered user mode. -/
structure BootStack (sys : StackSystem H) : Prop where
  booted : Booted sys.kernel.toKernel
  el : sys.el = .el1
  frames : sys.frames = []
  parked : sys.parked = fun _ => []
  entered : sys.entered = fun _ => none

omit [Allocator H] in
/-- In user mode the stack pointer has the value of the first entry. -/
def StackSystem.Restored (sys : StackSystem H) : Prop :=
  sys.el = .el0 → ∀ curr first, sys.kernel.current = some curr → sys.entered curr = some first →
    sys.spEl1 = first

omit [Allocator H] in
/-- No frames are left behind.  A `fork` is called on the kernel stack, of which it makes a copy,
and a `sigreturn` returns to user mode from the top of that stack only. -/
def Unwinds (sys : StackSystem H) : StackOp → Prop
  | .deliver => False
  | .fork => sys.TrapAtTop
  | .sigreturn => ∀ curr, sys.kernel.current = some curr →
      level (sys.kernel.area curr 32) = some .el0 → sys.TrapAtTop
  | _ => True

end OsdiKernel.Sched
