import OsdiKernel.Sched.Fork

/-!
# Signals

A custom handler runs in user mode on a stack of its own.  `handle_signal`
saves the trap frame with `memcpy(&task->sig_frame, ..)`: not where the pointer
`sig_frame` points, but over the pointer and over the fields that follow it.
`sys_sigreturn` copies the same words back.
-/

namespace OsdiKernel.Sched

variable {H : Type}

/-! ## Words in memory -/

/-- The words of a trap frame. -/
abbrev FrameWords : Type := Fin 34 → Word

instance frameWords_ne_zero : NeZero 34 := ⟨by decide⟩

/-- The words of a `struct TrapFrame` that lie behind the end of a `struct
ThreadTask` when the copy starts at the field `sig_frame`. -/
abbrev TailWords : Type := Fin 15 → Word

/-- A word read as a pointer. -/
def pointer (w : Word) : Option Nat := if w = 0 then none else some w.toNat

def frameWords (frame : TrapFrame) : FrameWords := fun i =>
  if inX : i.val < 31 then frame.x ⟨i, inX⟩
  else if i.val = 31 then frame.spEl0
  else if i.val = 32 then frame.spsrEl1
  else frame.elrEl1

def ofWords (words : FrameWords) : TrapFrame where
  x i := words (i.castLE (by decide))
  spEl0 := words 31
  spsrEl1 := words 32
  elrEl1 := words 33

/-- The fields of a task from `sig_frame` to its end, overwritten with words. -/
def storeWords (t : Task) (words : FrameWords) : Task :=
  { t with
    sigFrame := pointer (words 0)
    cwd := pointer (words 1)
    fdTable := fun fd => pointer (words ⟨fd + 2, by have bound := fd.isLt; unfold threadMaxFd at bound; omega⟩)
    next := pointer (words 18) }

def tailWords (words : FrameWords) : TailWords := fun i => words ⟨i + 19, by omega⟩

/-- The words from the field `sig_frame` on. -/
def areaWords (t : Task) (tail : TailWords) : FrameWords := fun i =>
  if i.val = 0 then addr t.sigFrame
  else if i.val = 1 then addr t.cwd
  else if inTable : i.val < 18 then addr (t.fdTable ⟨i - 2, by unfold threadMaxFd; omega⟩)
  else if i.val = 18 then addr t.next
  else tail ⟨i - 19, by omega⟩

@[simp] theorem addr_pointer (w : Word) : addr (pointer w) = w := by
  unfold addr pointer
  split
  · next null => simp [null]
  · simp

@[simp] theorem ofWords_frameWords (frame : TrapFrame) : ofWords (frameWords frame) = frame := by
  obtain ⟨x, spEl0, spsrEl1, elrEl1⟩ := frame
  have registers : (fun i : Fin 31 => frameWords ⟨x, spEl0, spsrEl1, elrEl1⟩ (i.castLE (by decide))) =
      x := funext fun i => dif_pos i.isLt
  exact congrArg (fun x : Fin 31 → Word => (⟨x, spEl0, spsrEl1, elrEl1⟩ : TrapFrame)) registers

/-- What is stored is read back. -/
@[simp] theorem areaWords_storeWords (t : Task) (words : FrameWords) :
    areaWords (storeWords t words) (tailWords words) = words := by
  funext i
  unfold areaWords storeWords tailWords
  dsimp only
  split
  · next first => exact (addr_pointer _).trans (congrArg words (Fin.ext first.symm))
  · split
    · next second => exact (addr_pointer _).trans (congrArg words (Fin.ext second.symm))
    · split
      · refine (addr_pointer _).trans (congrArg words (Fin.ext ?_))
        dsimp only
        omega
      · split
        · next link => exact (addr_pointer _).trans (congrArg words (Fin.ext link.symm))
        · refine congrArg words (Fin.ext ?_)
          dsimp only
          omega

/-! ## Delivery and return -/

/-- The kernel with the words behind each task, which are in the same block of the heap. -/
structure SignalKernel (H : Type) extends Kernel H where
  tail : Nat → TailWords

/-- The registers with which a handler is entered. -/
structure UserEntry where
  elrEl1 : Word
  spEl0 : Word
  spsrEl1 : Word
  x0 : Word

/-- What a call of `handle_signal` came to: no handler was called, the default one
has returned, that of `SIGKILL` has called `_exit`, or a custom one was entered. -/
inductive SignalOutcome where
  | ignored
  | defaultHandler
  | exited
  | entered (entry : UserEntry)

/-- A handler was called. -/
def SignalOutcome.delivers : SignalOutcome → Bool
  | .ignored => false
  | .defaultHandler => true
  | .exited => true
  | .entered _ => true

variable [Allocator H]

/-- The branch of `handle_signal` for a custom handler.  `wrapper` is the address
of `sighander_user_wrapper`. -/
def deliver (wrapper : Word) (k : SignalKernel H) (task : Nat) (handler : Word)
    (frame : TrapFrame) : SignalKernel H × UserEntry :=
  let words := frameWords frame
  let saved := k.toKernel.modify task fun t => storeWords t words
  let (allocated, stack) := saved.alloc threadStackSize
  let sp := addr stack + BitVec.ofNat 64 threadStackSize
  ({ toKernel := allocated.modify task fun t =>
      { t with cpuContext := { t.cpuContext with sp := sp, fp := sp, lr := wrapper } }
     tail := Function.update k.tail task (tailWords words) },
    ⟨wrapper, sp, 0, handler⟩)

def handleSignal (wrapper : Word) (k : SignalKernel H) (task : Nat) (sig : Int) (frame : TrapFrame)
    (registers : CpuContext) : Option (SignalKernel H × SignalOutcome) :=
  if range : sig < 0 ∨ (sigNum : Int) ≤ sig then some (k, .ignored)
  else
    match (k.tasks task).sigHandlers ⟨sig.toNat, by omega⟩ with
    | .null => some (k, .ignored)
    | .defaultHandler => some (k, .defaultHandler)
    | .defaultSigkillHandler => do
        let exited ← exit k.toKernel registers
        return ({ k with toKernel := exited }, .exited)
    | .custom handler =>
        let (k, entry) := deliver wrapper k task handler frame
        some (k, .entered entry)

/-- The pointer that `sys_sigreturn` passes to `free`. -/
def handlerStack (t : Task) : Option Nat :=
  pointer (t.cpuContext.fp - BitVec.ofNat 64 threadStackSize)

def sysSigreturn (k : SignalKernel H) (frame : TrapFrame) : SignalKernel H × TrapFrame :=
  match k.current with
  | none => (k, frame)
  | some curr =>
      ({ k with toKernel := k.toKernel.freePtr (handlerStack (k.tasks curr)) },
        ofWords (areaWords (k.tasks curr) (k.tail curr)))

/-! ## The saved frame -/

omit [Allocator H] in
/-- The words to which the frame of a task is saved. -/
def SignalKernel.area (k : SignalKernel H) (task : Nat) : FrameWords :=
  areaWords (k.tasks task) (k.tail task)

section Frames

variable {k k₁ : SignalKernel H} {task : Nat} {wrapper handler : Word} {frame : TrapFrame}

/-- Of the fields only the context and the saved frame are written. -/
theorem deliver_task : ∃ context, (deliver wrapper k task handler frame).1.tasks task =
    { storeWords (k.tasks task) (frameWords frame) with cpuContext := context } := by
  unfold deliver Kernel.modify Kernel.alloc
  dsimp only
  rw [Function.update_self, Function.update_self]
  exact ⟨_, rfl⟩

theorem deliver_area : (deliver wrapper k task handler frame).1.area task = frameWords frame := by
  obtain ⟨context, fields⟩ := @deliver_task H _ k task wrapper handler frame
  have tail : (deliver wrapper k task handler frame).1.tail task = tailWords (frameWords frame) :=
    Function.update_self _ _ _
  unfold SignalKernel.area
  rw [fields, tail]
  exact areaWords_storeWords (k.tasks task) (frameWords frame)

theorem sysSigreturn_frame (isCurrent : k.current = some task) (frame' : TrapFrame) :
    (sysSigreturn k frame').2 = ofWords (k.area task) := by
  unfold sysSigreturn
  rw [isCurrent]
  rfl

/-- Only a custom handler is entered. -/
theorem handleSignal_entered {sig : Int} {registers : CpuContext} {entry : UserEntry}
    (handled : handleSignal wrapper k task sig frame registers = some (k₁, .entered entry)) :
    ∃ handler, k₁ = (deliver wrapper k task handler frame).1 := by
  unfold handleSignal at handled
  split at handled
  · cases handled
  · split at handled
    · cases handled
    · cases handled
    · obtain ⟨exited, _, same⟩ := Option.bind_eq_some_iff.mp handled
      cases same
    · next handler _ =>
        cases handled
        exact ⟨handler, rfl⟩

theorem handleSignal_custom {sig : Fin sigNum} {registers : CpuContext}
    (isCustom : (k.tasks task).sigHandlers sig = .custom handler) :
    handleSignal wrapper k task sig frame registers =
      some ((deliver wrapper k task handler frame).1, .entered (deliver wrapper k task handler frame).2) := by
  have inRange : ¬ ((sig : Int) < 0 ∨ (sigNum : Int) ≤ sig) := by
    have bound := sig.isLt
    omega
  have same : (⟨(sig : Int).toNat, by omega⟩ : Fin sigNum) = sig := Fin.ext (Int.toNat_natCast _)
  unfold handleSignal
  rw [dif_neg inRange, same, isCustom]

end Frames

/-! ## A first delivery -/

/-- `sys_signal` of the task. -/
def setHandler (k : Kernel H) (p : Nat) (sig : Fin sigNum) (handler : Handler) : Kernel H :=
  k.modify p fun t => { t with sigHandlers := Function.update t.sigHandlers sig handler }

/-- The rest of the kernel may write a task, but for its state and its link. -/
theorem rest_modify {k : Kernel H} {p : Nat} {f : Task → Task}
    (same : ∀ t, (f t).state = t.state ∧ (f t).next = t.next) : Step k .rest (k.modify p f) := by
  refine @Step.rest H _ k k.toState (Function.update k.tasks p (f (k.tasks p))) fun q _ => ?_
  by_cases here : q = p
  · rw [here, Function.update_self]
    exact same _
  · rw [Function.update_of_ne here]
    exact ⟨rfl, rfl⟩

theorem setHandler_reachable {k : Kernel H} {p : Nat} {sig : Fin sigNum} {handler : Handler}
    (reached : Reachable (fun _ _ => True) k) :
    Reachable (fun _ _ => True) (setHandler k p sig handler) := by
  have stepped : Step k .rest (setHandler k p sig handler) := rest_modify fun _ => ⟨rfl, rfl⟩
  exact .step reached trivial stepped

open Fs (BootHeap)

def someSignal : Fin sigNum := 1

/-- A thread with a directory has a handler for a signal. -/
def withHandler : SignalKernel BootHeap :=
  ⟨setHandler secondRuns idleThread someSignal (.custom 0x80000), fun _ _ => 0⟩

def delivered : SignalKernel BootHeap × UserEntry :=
  deliver 0x1000 withHandler idleThread 0x80000 blankFrame

end OsdiKernel.Sched
