import Mathlib.Algebra.Group.Int.Defs
import Mathlib.Algebra.Group.Nat.Defs
import Mathlib.Data.List.Sort
import OsdiKernel.Lib.Allocator
import OsdiKernel.Lib.LinkedList
import OsdiKernel.Lib.Queue

/-!
# The timer list

The timers form a doubly linked list whose head expires first.  A call of
`add_timer` reads the counter before it masks the timer interrupt, so the
handler may run between its two halves.  The handler takes the expired timers
off the list one at a time and calls their callbacks, which may add timers.
The timer interrupt is masked when the handler starts, but a callback that adds a
timer enables it again.  The runs here are those in which the handler is not
interrupted by itself.
-/

namespace OsdiKernel.Timers

/-- The size of the array of a timer that holds its message. -/
def timerMsgSize : Nat := 64

/-- `sizeof(struct Timer)`: four words and the message. -/
def timerSize : Nat := 96

/-- The address of a function that takes the message of its timer. -/
abbrev TimerCallback := Nat

/-- The fields of a `struct Timer` that are not links.  The message is given by
its bytes before the terminator. -/
structure Timer where
  callback : TimerCallback
  msg : List Nat
  expiration : Nat
  deriving DecidableEq

/-- The local variables of a run of `core_timer_handler`, and the timer whose
callback has been called and has not returned. -/
structure Handler where
  currTick : Nat
  removed : Bool
  running : Option Nat
  deriving DecidableEq

/-- The timers by address, and what uses them.  `clock` is the latest value read
from the counter, `adding` the calls of `add_timer` that have not masked the timer
interrupt, each with its timer and the value it read, and `others` the pointers
that the rest of the kernel uses. -/
structure System (H : Type) where
  heap : H
  timers : Nat → Timer
  links : Links Nat
  timerHead : Option Nat
  clock : Nat
  adding : List (Nat × Nat)
  handler : Option Handler
  others : List Nat

/-- The two operands of the subtraction whose result is handed to `set_timer_irq`. -/
structure Reset where
  expiration : Nat
  currTick : Nat
  deriving DecidableEq

/-- The interval as the 64-bit word that the timer register is set to. -/
def Reset.interval (reset : Reset) : Nat := (reset.expiration + 2 ^ 64 - reset.currTick) % 2 ^ 64

/-- The arguments of a call of `add_timer`, and the value it reads from the counter. -/
structure Request where
  callback : TimerCallback
  msg : Option (List Nat)
  tick : Nat
  now : Nat

/-- The timer that a call fills in.  A null message counts as empty. -/
def Request.timer (r : Request) : Timer where
  callback := r.callback
  msg := r.msg.getD []
  expiration := (r.now + r.tick) % 2 ^ 64

section Operations

variable {H : Type} [Allocator H]

/-! ## add_timer -/

/-- The statements of `add_timer` before it masks the timer interrupt. -/
def newTimer (s : System H) (r : Request) : System H × Option Nat :=
  match Allocator.alloc s.heap timerSize with
  | (heap, none) => ({ s with heap := heap }, none)
  | (heap, some new) =>
      ({ s with
          heap := heap
          timers := Function.update s.timers new r.timer
          clock := r.now }, some new)

omit [Allocator H] in
/-- Insert the timer between `curr` and the one behind it. -/
def insertBehind (s : System H) (curr new : Nat) : System H :=
  let links := s.links.setNext new (s.links.next curr)
  let links := links.setPrev new (some curr)
  let links := links.setNext curr (some new)
  let links :=
    match links.next curr with
    | none => links
    | some behind => links.setPrev behind (some new)
  { s with links := links }

omit [Allocator H] in
/-- Make the timer the head of the list. -/
def insertFirst (s : System H) (new : Nat) : System H :=
  { s with links := s.links.pushFront s.timerHead new, timerHead := some new }

omit [Allocator H] in
/-- The statements of `add_timer` under the masked interrupt; `fuel` bounds its loop. -/
def linkTimer (fuel : Nat) (s : System H) (new currTick : Nat) :
    Option (System H × Option Reset) :=
  let expiration := (s.timers new).expiration
  let first := (insertFirst s new, some ⟨expiration, currTick⟩)
  match s.timerHead with
  | none => some first
  | some head =>
      if expiration ≤ (s.timers head).expiration then some first
      else
        match Queue.seek s.links.next (fun p => decide ((s.timers p).expiration < expiration)) fuel
            head with
        | none => none
        | some curr => some (insertBehind s curr new, none)

/-- A whole call of `add_timer`, or none if its loop does not end. -/
def addTimer (fuel : Nat) (s : System H) (r : Request) :
    Option (System H × Option Nat × Option Reset) :=
  match newTimer s r with
  | (s, none) => some (s, none, none)
  | (s, some new) =>
      match linkTimer fuel s new r.now with
      | none => none
      | some (s, reset) => some (s, some new, reset)

/-! ## core_timer_handler -/

omit [Allocator H] in
/-- The statements of the handler before its loop. -/
def enter (s : System H) (now : Nat) : System H :=
  { s with clock := now, handler := some ⟨now, false, none⟩ }

omit [Allocator H] in
/-- The first timer, if the condition of the loop holds. -/
def expired (s : System H) (currTick : Nat) : Option Nat :=
  s.timerHead.filter fun head => decide ((s.timers head).expiration ≤ currTick)

omit [Allocator H] in
/-- The body of the loop up to the call of the callback. -/
def popTimer (s : System H) (handler : Handler) (curr : Nat) : System H :=
  { s with
    links := s.links.popFront curr
    timerHead := s.links.next curr
    handler := some { handler with removed := true, running := some curr } }

/-- The body of the loop after the callback has returned. -/
def freeTimer (s : System H) (handler : Handler) (curr : Nat) : System H :=
  { s with
    heap := Allocator.free s.heap curr
    handler := some { handler with running := none } }

omit [Allocator H] in
/-- The interval that the handler sets after its loop. -/
def handlerReset (s : System H) (handler : Handler) : Option Reset :=
  if handler.removed then
    s.timerHead.map fun head => ⟨(s.timers head).expiration, handler.currTick⟩
  else none

end Operations

/-! ## Callbacks of the kernel -/

/-- The timer that `print_uptime` adds; it is called with its own address. -/
def printUptime (self : TimerCallback) (freq now : Nat) : Request :=
  ⟨self, none, 2 * freq % 2 ^ 64, now⟩

/-- The timer that `keep_schedule` adds. -/
def keepSchedule (self : TimerCallback) (freq now : Nat) : Request := ⟨self, none, freq >>> 8, now⟩

/-- The callbacks that add themselves again expire after the handler that called them. -/
theorem keepSchedule_later {self : TimerCallback} {freq now currTick : Nat} (clock : currTick ≤ now)
    (fast : 256 ≤ freq) :
    currTick < (keepSchedule self freq now).now + (keepSchedule self freq now).tick := by
  have positive : 0 < freq >>> 8 := by
    rw [Nat.shiftRight_eq_div_pow]
    omega
  show currTick < now + freq >>> 8
  omega

theorem printUptime_later {self : TimerCallback} {freq now currTick : Nat} (clock : currTick ≤ now)
    (positive : 0 < freq) (word : 2 * freq < 2 ^ 64) :
    currTick < (printUptime self freq now).now + (printUptime self freq now).tick := by
  show currTick < now + 2 * freq % 2 ^ 64
  rw [Nat.mod_eq_of_lt word]
  omega

/-- The timer that `timer_init` adds. -/
def timerInit (keepSchedule : TimerCallback) (freq now : Nat) : Request :=
  ⟨keepSchedule, none, freq >>> 5, now⟩

end OsdiKernel.Timers
