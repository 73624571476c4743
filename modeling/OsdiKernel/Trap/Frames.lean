import OsdiKernel.Lib.El1
import OsdiKernel.Sched.Model

/-!
# Trap frames and thread switches

The code of the exception vectors, which saves all registers in a trap frame, calls a function and
loads them again, and the code that switches from one thread to another.  Exceptions are taken on
top of each other and the function that a handler calls may switch threads, so that every thread
has a stack of exceptions that it has not returned from.
-/

namespace OsdiKernel.Trap

open El1
open Aarch64 (Word load64 store64 address)

/-! ## The code -/

/-- The functions that the entries of the vector table branch to. -/
inductive Handler where
  | exceptionHandler
  | irqHandler
  | el0SyncHandler
  deriving DecidableEq

/-- One entry for each kind of exception, from each of the four places. -/
def exceptionVectorTable : List Handler :=
  [.exceptionHandler, .exceptionHandler, .exceptionHandler, .exceptionHandler,
   .el0SyncHandler, .irqHandler, .exceptionHandler, .exceptionHandler,
   .el0SyncHandler, .irqHandler, .exceptionHandler, .exceptionHandler,
   .exceptionHandler, .exceptionHandler, .exceptionHandler, .exceptionHandler]

/-- After the stack pointer has been moved. -/
def saveRegisters : List Instr :=
  [.stp 0 1 .sp (16 * 0),
   .stp 2 3 .sp (16 * 1),
   .stp 4 5 .sp (16 * 2),
   .stp 6 7 .sp (16 * 3),
   .stp 8 9 .sp (16 * 4),
   .stp 10 11 .sp (16 * 5),
   .stp 12 13 .sp (16 * 6),
   .stp 14 15 .sp (16 * 7),
   .stp 16 17 .sp (16 * 8),
   .stp 18 19 .sp (16 * 9),
   .stp 20 21 .sp (16 * 10),
   .stp 22 23 .sp (16 * 11),
   .stp 24 25 .sp (16 * 12),
   .stp 26 27 .sp (16 * 13),
   .stp 28 29 .sp (16 * 14),
   .mrs 21 .spEl0,
   .stp 30 21 .sp (16 * 15),
   .mrs 0 .spsrEl1,
   .mrs 1 .elrEl1,
   .stp 0 1 .sp (16 * 16)]

def saveAll : List Instr := .subSp (16 * 17) :: saveRegisters

/-- Before the stack pointer is moved back. -/
def loadRegisters : List Instr :=
  [.ldp 0 1 .sp (16 * 16),
   .msr .spsrEl1 0,
   .msr .elrEl1 1,
   .ldp 30 21 .sp (16 * 15),
   .msr .spEl0 21,
   .ldp 28 29 .sp (16 * 14),
   .ldp 26 27 .sp (16 * 13),
   .ldp 24 25 .sp (16 * 12),
   .ldp 22 23 .sp (16 * 11),
   .ldp 20 21 .sp (16 * 10),
   .ldp 18 19 .sp (16 * 9),
   .ldp 16 17 .sp (16 * 8),
   .ldp 14 15 .sp (16 * 7),
   .ldp 12 13 .sp (16 * 6),
   .ldp 10 11 .sp (16 * 5),
   .ldp 8 9 .sp (16 * 4),
   .ldp 6 7 .sp (16 * 3),
   .ldp 4 5 .sp (16 * 2),
   .ldp 2 3 .sp (16 * 1),
   .ldp 0 1 .sp (16 * 0)]

def loadAll : List Instr := loadRegisters ++ [.addSp (16 * 17)]

/-- The arguments of the function that a handler calls. -/
def Handler.arguments : Handler → List Instr
  | .exceptionHandler => []
  | .irqHandler => [.movFromSp 0]
  | .el0SyncHandler => [.movFromSp 0, .mrs 1 .esrEl1]

def storeContext : List Instr :=
  [.stp 19 20 (.x 0) (16 * 0),
   .stp 21 22 (.x 0) (16 * 1),
   .stp 23 24 (.x 0) (16 * 2),
   .stp 25 26 (.x 0) (16 * 3),
   .stp 27 28 (.x 0) (16 * 4),
   .stp 29 30 (.x 0) (16 * 5),
   .movFromSp 9,
   .str 9 (.x 0) (16 * 6)]

def loadContext : List Instr :=
  [.ldp 19 20 (.x 1) (16 * 0),
   .ldp 21 22 (.x 1) (16 * 1),
   .ldp 23 24 (.x 1) (16 * 2),
   .ldp 25 26 (.x 1) (16 * 3),
   .ldp 27 28 (.x 1) (16 * 4),
   .ldp 29 30 (.x 1) (16 * 5),
   .ldr 9 (.x 1) (16 * 6),
   .movToSp 9]

def cpuSwitchTo : List Instr := storeContext ++ (loadContext ++ [.msr .tpidrEl1 1, .ret])

/-- Where the linker puts the table, `cpu_switch_to` and the functions in C that the handlers call. -/
structure Symbols where
  exceptionVectorTable : Word
  cpuSwitchTo : Word
  exceptionEntry : Word
  irqEntry : Word
  el0SyncEntry : Word

namespace Symbols

variable (s : Symbols)

def entry : Handler → Word
  | .exceptionHandler => s.exceptionEntry
  | .irqHandler => s.irqEntry
  | .el0SyncHandler => s.el0SyncEntry

def text (h : Handler) : List Instr := saveAll ++ (h.arguments ++ .bl (s.entry h) :: (loadAll ++ [.eret]))

/-- The handlers, in the order of the file. -/
def handlers : List Instr := s.text .exceptionHandler ++ (s.text .irqHandler ++ s.text .el0SyncHandler)

/-- They follow the table. -/
def handlersBegin : Word := s.exceptionVectorTable + 0x800

/-- The place of a handler among the instructions. -/
def offset : Handler → Nat
  | .exceptionHandler => 0
  | .irqHandler => (s.text .exceptionHandler).length
  | .el0SyncHandler => (s.text .exceptionHandler).length + (s.text .irqHandler).length

def handler (h : Handler) : Word := address s.handlersBegin (s.offset h)

/-- The entries of the table are 128 bytes apart. -/
def code (a : Word) : Option Instr :=
  if (a - s.exceptionVectorTable).toNat < 0x800 then
    if (a - s.exceptionVectorTable).toNat % 0x80 = 0 then
      (Trap.exceptionVectorTable[(a - s.exceptionVectorTable).toNat / 0x80]?).map fun h => .b (s.handler h)
    else none
  else (placed s.handlersBegin s.handlers a).or (placed s.cpuSwitchTo Trap.cpuSwitchTo a)

/-- The place at which a handler starts to load the registers. -/
def loadBegin (h : Handler) : Nat := s.offset h + (saveAll.length + (h.arguments.length + 1))

/-- The addresses from there on: that of `eret` is the last. -/
def loadAddress (h : Handler) (k : Nat) : Word := address s.handlersBegin (s.loadBegin h + k)

end Symbols

/-- The three pieces of code are apart, and the functions called are elsewhere. -/
structure Linked (s : Symbols) : Prop where
  apart : ∀ k < cpuSwitchTo.length, 0x800 + 4 * s.handlers.length ≤
    (address s.cpuSwitchTo k - s.exceptionVectorTable).toNat
  outside : ∀ h, s.code (s.entry h) = none

/-! ## Threads and their exceptions -/

/-- The words of the trap frame that is saved in a state: `x`, `sp_el0`, `spsr_el1`, `elr_el1`. -/
def trapFrame (c : Cpu) (i : Nat) : Word :=
  if inside : i < 31 then c.x ⟨i, inside⟩
  else if i = 31 then c.sys .spEl0
  else if i = 32 then c.pstate
  else c.pc

def frameLength : Nat := 34

/-- The words of `cpu_context`. -/
def cpuContext (c : Cpu) (i : Nat) : Word :=
  if inside : i < 12 then c.x ⟨i + 19, Nat.add_lt_add_right inside 19⟩ else c.sp

def contextLength : Nat := 13

/-- An exception that has not been returned from: the state in which it was taken, at the address
it returns to, the words that the called functions have stored in its frame, and the address and
the state with which the last exception taken while `spsr_el1` and `elr_el1` were set for its own
`eret` has returned. -/
structure Activation where
  taken : Cpu
  handler : Handler
  edits : List (Nat × Word)
  late : Option (Word × Word)
  spent : Bool

namespace Activation

def base (a : Activation) : Word := a.taken.sp - BitVec.ofNat 64 (16 * 17)

/-- The words of the frame. -/
def words (a : Activation) : Nat → Word :=
  a.edits.foldr (fun edit words => Function.update words edit.1 edit.2) (trapFrame a.taken)

/-- The frame is in memory. -/
def Held (a : Activation) (mem : Word → UInt8) : Prop :=
  ∀ i < frameLength, load64 mem (slot a.base i) = a.words i

end Activation

/-- The core, the running thread, what each thread has still to return from, and the contexts of
the threads that are not running.  A thread is the address of its task. -/
structure Machine where
  cpu : Cpu
  current : Word
  activations : Word → List Activation
  contexts : Word → Option (Nat → Word)

namespace Machine

/-- A word of a frame that will be loaded, or of a saved context. -/
def InUse (m : Machine) (q : Word) : Prop :=
  (∃ t, ∃ a ∈ m.activations t, a.spent = false ∧ ∃ i < frameLength, q = slot a.base i) ∨
    ∃ t w, m.contexts t = some w ∧ ∃ i < contextLength, q = slot t i

/-- An area that has no part in use. -/
def Free (m : Machine) (a : Word) (length : Nat) : Prop :=
  ∀ i < length, ∀ q, m.InUse q → Clear (slot a i) q

/-- The memory in use is kept. -/
def Keeps (m : Machine) (mem : Word → UInt8) : Prop :=
  ∀ q, m.InUse q → load64 mem q = load64 m.cpu.mem q

def setCpu (m : Machine) (c : Cpu) : Machine := { m with cpu := c }

def setActivations (m : Machine) (t : Word) (stack : List Activation) : Machine :=
  { m with activations := Function.update m.activations t stack }

def setContext (m : Machine) (t : Word) (context : Option (Nat → Word)) : Machine :=
  { m with contexts := Function.update m.contexts t context }

variable {m : Machine} {t u : Word} {stack : List Activation}

@[simp] theorem activations_here : (m.setActivations t stack).activations t = stack := Function.update_self _ _ _

theorem activations_elsewhere (other : u ≠ t) : (m.setActivations t stack).activations u = m.activations u :=
  Function.update_of_ne other _ _

@[simp] theorem context_here {w : Option (Nat → Word)} : (m.setContext t w).contexts t = w := Function.update_self _ _ _

@[simp] theorem current_setActivations : (m.setActivations t stack).current = m.current := rfl

@[simp] theorem cpu_setActivations : (m.setActivations t stack).cpu = m.cpu := rfl

@[simp] theorem contexts_setActivations : (m.setActivations t stack).contexts = m.contexts := rfl

@[simp] theorem activations_setCpu {c : Cpu} : (m.setCpu c).activations = m.activations := rfl

@[simp] theorem current_setCpu {c : Cpu} : (m.setCpu c).current = m.current := rfl

@[simp] theorem cpu_setCpu {c : Cpu} : (m.setCpu c).cpu = c := rfl

@[simp] theorem contexts_setCpu {c : Cpu} : (m.setCpu c).contexts = m.contexts := rfl

end Machine

/-! ## Steps -/

section Steps

variable (s : Symbols)

/-- Between the first `msr` and `eret`. -/
def InWindow (h : Handler) (pc : Word) : Prop := ∃ k, 2 ≤ k ∧ k ≤ 21 ∧ pc = s.loadAddress h k

instance (h : Handler) (pc : Word) : Decidable (InWindow s h pc) :=
  decidable_of_iff (∃ k ∈ List.range 22, 2 ≤ k ∧ pc = s.loadAddress h k) (by
    simp only [InWindow, List.mem_range, Nat.lt_succ_iff]
    grind)

/-- The frame is not needed any more when only `eret` is left. -/
def interrupted (pc : Word) : List Activation → List Activation
  | [] => []
  | a :: rest => { a with spent := a.spent || pc = s.loadAddress a.handler 21 } :: rest

/-- The handler that is returned to has set the two registers before. -/
def resumed (c : Cpu) : List Activation → List Activation
  | [] => []
  | a :: rest => { a with late := if InWindow s a.handler c.pc then some (c.pc, c.pstate) else a.late } :: rest

/-- Another address than that in the frame is one of the handler itself, which then has nothing to
return to. -/
def returned (a : Activation) (c : Cpu) (rest : List Activation) : List Activation :=
  if c.pc = a.words 33 then resumed s c rest else []

inductive Event where
  | code
  | edit
  | ret
  | take (kind : Kind)
  | load
  | eret
  | switch (next : Word)
  | create (t : Word)
  | reap (t : Word)

/-- `code` is any step of the code in C or of a program, which leaves the memory in use alone;
`edit` is one that writes to the trap frame of an exception that was taken outside the handlers,
as system calls and signals do.  Exceptions are masked from the time one is taken until the
function is called, and while `cpu_switch_to` runs, so each is one step; the instructions that load
the registers are single steps. -/
inductive Step : Machine → Event → Machine → Prop
  | code {m : Machine} {c : Cpu} (outside : s.code m.cpu.pc = none) (outside' : s.code c.pc = none)
      (keeps : m.Keeps c.mem) : Step m .code (m.setCpu c)
  | edit {m : Machine} {c : Cpu} {a : Activation} {rest : List Activation} {i : Nat} {value : Word}
      (top : m.activations m.current = a :: rest) (outside : s.code m.cpu.pc = none)
      (outside' : s.code c.pc = none) (fromCode : s.code a.taken.pc = none)
      (keeps : (m.setActivations m.current rest).Keeps c.mem)
      (held : { a with edits := (i, value) :: a.edits }.Held c.mem)
      (target : i = 33 → s.code value = none) :
      Step m .edit ((m.setCpu c).setActivations m.current ({ a with edits := (i, value) :: a.edits } :: rest))
  | ret {m : Machine} {a : Activation} {rest : List Activation}
      (top : m.activations m.current = a :: rest) (outside : s.code m.cpu.pc = none)
      (sp : m.cpu.sp = a.base) (handles : Handles m.cpu.pstate) :
      Step m .ret (m.setCpu { m.cpu with pc := s.loadAddress a.handler 0 })
  | take {m : Machine} {c : Cpu} {kind : Kind} {h : Handler} {returnTo syndrome : Word}
      (unmasked : kind.masked m.cpu.pstate = false)
      (async : kind ≠ .sync → returnTo = m.cpu.pc)
      (sync : kind = .sync → s.code m.cpu.pc = none ∧ s.code returnTo = none)
      (vector : exceptionVectorTable[4 * source m.cpu.pstate + kind.index]? = some h)
      (free : (m.setActivations m.current (interrupted s m.cpu.pc (m.activations m.current))).Free
        (m.cpu.sp - BitVec.ofNat 64 (16 * 17)) frameLength)
      (leaves : Leaves s.code (m.cpu.take s.exceptionVectorTable kind returnTo syndrome) c) :
      Step m (.take kind) ((m.setCpu c).setActivations m.current
        (⟨{ m.cpu with pc := returnTo }, h, [], none, false⟩ :: interrupted s m.cpu.pc (m.activations m.current)))
  | load {m : Machine} {i : Instr} (here : s.code m.cpu.pc = some i) (other : i ≠ .eret) :
      Step m .load (m.setCpu (m.cpu.exec i))
  | eret {m : Machine} {a : Activation} {rest : List Activation} (here : s.code m.cpu.pc = some .eret)
      (top : m.activations m.current = a :: rest) :
      Step m .eret ((m.setCpu (m.cpu.exec .eret)).setActivations m.current
        (returned s a (m.cpu.exec .eret) rest))
  | eretAgain {m : Machine} (here : s.code m.cpu.pc = some .eret) (astray : m.activations m.current = []) :
      Step m .eret (m.setCpu (m.cpu.exec .eret))
  | switch {m : Machine} {c : Cpu} {next : Word} {w : Nat → Word} (outside : s.code m.cpu.pc = none)
      (masked : ∀ kind : Kind, kind ≠ .sync → kind.masked m.cpu.pstate = true)
      (prev : m.cpu.x 0 = m.current) (arg : m.cpu.x 1 = next) (other : next ≠ m.current)
      (context : m.contexts next = some w) (back : s.code (m.cpu.x 30) = none)
      (free : m.Free m.current contextLength)
      (leaves : Leaves s.code { m.cpu with pc := s.cpuSwitchTo } c) :
      Step m (.switch next) { ((m.setCpu c).setContext m.current (some (cpuContext m.cpu))).setContext next none with
        current := next }
  | create {m : Machine} {t : Word} {w : Nat → Word} (outside : s.code m.cpu.pc = none) (new : m.contexts t = none)
      (other : t ≠ m.current) (initial : ∀ i < contextLength, load64 m.cpu.mem (slot t i) = w i)
      (entry : s.code (w 11) = none) : Step m (.create t) (m.setContext t (some w))
  | reap {m : Machine} {t : Word} (outside : s.code m.cpu.pc = none) (other : t ≠ m.current) :
      Step m (.reap t) ((m.setContext t none).setActivations t [])

end Steps

inductive Run (s : Symbols) : Machine → List Event → Machine → Prop
  | nil (m : Machine) : Run s m [] m
  | snoc {m m' m'' : Machine} {events : List Event} {event : Event} (run : Run s m events m')
      (step : Step s m' event m'') : Run s m (events ++ [event]) m''

end OsdiKernel.Trap
