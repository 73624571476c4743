import Mathlib.Data.List.Infix
import OsdiKernel.Devices.UartRuns

/-!
# Interrupts in the middle of a call

The calls of `uart_async_putc` and `uart_async_getc` one memory access after the other, with the
interrupt handlers and the other call between any two of them.
-/

namespace OsdiKernel.Devices

/-! ## Calls -/

/-- The next access of `uart_async_putc`.  Of a carriage return, the newline is stored second. -/
inductive Putting where
  | idle
  | readHead (ch : UInt8)
  | readTail (ch : UInt8) (head : Nat)
  | store (ch : UInt8) (second : Bool)
  | advance (ch : UInt8) (second : Bool)
  | readIer (ret : Int)
  | writeIer (ret : Int) (ier : BitVec 32)
  | readIrqs (ret : Int)
  | writeIrqs (ret : Int) (enableIrqs1 : BitVec 32)
  deriving DecidableEq

/-- The next access of `uart_async_getc`. -/
inductive Getting where
  | idle
  | readHead
  | readTail (head : Nat)
  | load
  | advance (ch : UInt8)
  | readIer
  | writeIer (ier : BitVec 32)
  deriving DecidableEq

/-- The line with a call of each function under way, and whether the last call of
`uart_async_getc` has found nothing. -/
structure Async extends Line where
  putting : Putting
  getting : Getting
  waiting : Bool

def Uart.idling (u : Uart) : Async := { u.opened with putting := .idle, getting := .idle, waiting := false }

def storedChar (ch : UInt8) (second : Bool) : UInt8 := if second then newline else ch

namespace Async

/-- A character counts as accepted when there is room for it. -/
def put (l : Async) : Async :=
  match l.putting with
  | .idle => l
  | .readHead ch => { l with putting := .readTail ch l.tx.head }
  | .readTail ch head =>
      if (head + 1) % bufferSize = l.tx.tail then { l with putting := .readIer 0 }
      else { l with putting := .store ch false, accepted := l.accepted ++ [ch] }
  | .store ch second => { l with tx := l.tx.write (storedChar ch second), putting := .advance ch second }
  | .advance ch second =>
      { l with
        tx := l.tx.advance
        putting := if ch = carriageReturn ∧ second = false then .store ch true else .readIer 1 }
  | .readIer ret => { l with putting := .writeIer ret l.ier }
  | .writeIer ret ier => { l with ier := ier ||| 2, putting := .readIrqs ret }
  | .readIrqs ret => { l with putting := .writeIrqs ret l.enableIrqs1 }
  | .writeIrqs _ enableIrqs1 => { l with enableIrqs1 := enableIrqs1 ||| (1 <<< 29), putting := .idle }

def get (l : Async) : Async :=
  match l.getting with
  | .idle => l
  | .readHead => { l with getting := .readTail l.rx.head }
  | .readTail head => { l with getting := if head = l.rx.tail then .readIer else .load }
  | .load => { l with getting := .advance (l.rx.cells l.rx.tail) }
  | .advance ch =>
      { l with rx := l.rx.pop, returned := l.returned ++ [ch], getting := .idle, waiting := false }
  | .readIer => { l with getting := .writeIer l.ier }
  | .writeIer ier => { l with ier := ier ||| 1, getting := .idle, waiting := true }

inductive Event where
  | rx (io : UInt8)
  | tx
  | putc (ch : UInt8)
  | getc
  | put
  | get

/-- The handlers run with interrupts masked. -/
def step (l : Async) : Event → Async
  | .rx io => { l with toLine := l.toLine.step (.rx io) }
  | .tx => { l with toLine := l.toLine.step .tx }
  | .putc ch =>
      match l.putting with
      | .idle => { l with putting := .readHead ch }
      | _ => l
  | .getc =>
      match l.getting with
      | .idle => { l with getting := .readHead }
      | _ => l
  | .put => l.put
  | .get => l.get

def run (l : Async) (events : List Event) : Async := events.foldl step l

end Async

/-- What is accepted but not in the ring yet. -/
def Putting.pending : Putting → List UInt8
  | .store ch second | .advance ch second => if second then [newline] else expand ch
  | _ => []

/-- There is still a cell for a newline that follows a carriage return. -/
def Async.Fits (l : Async) : Prop := ∀ ch, l.putting = .advance ch true → l.tx.held + 1 ≠ bufferSize

variable {u : Uart} {l : Async} {e : Async.Event} {ch io : UInt8}

/-! ## A call that nothing interrupts -/

section Alone

/-- All the accesses of `uart_async_putc`. -/
theorem Async.put_alone (done : l.putting = .idle) (ch : UInt8) :
    l.run (.putc ch :: List.replicate 10 .put) = { l with toLine := l.toLine.step (.putc ch) } := by
  obtain ⟨line, putting, getting, waiting⟩ := l
  obtain rfl : putting = .idle := done
  by_cases full : (line.tx.head + 1) % bufferSize = line.tx.tail
  · simp [Async.run, Async.step, Async.put, Line.step, uartAsyncPutc, uartEnableTxIrq, full]
  · by_cases cr : ch = carriageReturn
    · simp [Async.run, Async.step, Async.put, Line.step, uartAsyncPutc, uartEnableTxIrq, full, cr, storedChar]
    · simp [Async.run, Async.step, Async.put, Line.step, uartAsyncPutc, uartEnableTxIrq, full, cr, storedChar]

/-- All the accesses of `uart_async_getc`. -/
theorem Async.get_alone (done : l.getting = .idle) :
    l.run (.getc :: List.replicate 4 .get) =
      { l with toLine := l.toLine.step .getc, waiting := l.rx.head = l.rx.tail } := by
  obtain ⟨line, putting, getting, waiting⟩ := l
  obtain rfl : getting = .idle := done
  by_cases empty : line.rx.head = line.rx.tail
  · simp [Async.run, Async.step, Async.get, Line.step, uartAsyncGetc, empty]
  · simp [Async.run, Async.step, Async.get, Line.step, uartAsyncGetc, empty]

end Alone

/-! ## Nothing is lost -/

section Lossless

/-- What a call of `uart_async_putc` knows. -/
def Putting.Knows (tx : Ring UInt8 bufferSize) : Putting → Prop
  | .readTail _ head => head = tx.head
  | .store _ false => tx.held + 1 < bufferSize
  | .advance ch second => tx.cells tx.head = storedChar ch second ∧ (second = false → tx.held + 1 < bufferSize)
  | _ => True

/-- What a call of `uart_async_getc` knows: what was in the ring stays there. -/
def Getting.Knows (rx : Ring UInt8 bufferSize) : Getting → Prop
  | .readTail head => head ≠ rx.tail → rx.held ≠ 0
  | .load => rx.held ≠ 0
  | .advance ch => rx.held ≠ 0 ∧ ch = rx.cells rx.tail
  | _ => True

structure Async.Inv (l : Async) : Prop where
  receives : Receives l.toLine
  inRange : l.tx.InRange
  putting : l.putting.Knows l.tx
  getting : l.getting.Knows l.rx

def Async.Transmits (l : Async) : Prop := l.sent ++ l.tx.items ++ l.putting.pending = l.accepted.flatMap expand

theorem Putting.Knows.pop {p : Putting} {tx : Ring UInt8 bufferSize} (inRange : tx.InRange) (some_ : tx.held ≠ 0)
    (knows : p.Knows tx) : p.Knows tx.pop := by
  have less := Ring.held_pop inRange some_
  cases p with
  | store ch second =>
      cases second with
      | false =>
          change tx.held + 1 < bufferSize at knows
          show tx.pop.held + 1 < bufferSize
          omega
      | true => trivial
  | advance ch second => exact ⟨knows.1, fun first => by have := knows.2 first; omega⟩
  | _ => exact knows

theorem Getting.Knows.push {g : Getting} {rx : Ring UInt8 bufferSize} (inRange : rx.InRange) (room : rx.held + 1 < bufferSize)
    (io : UInt8) (knows : g.Knows rx) : g.Knows (rx.push io) := by
  have more := Ring.held_push (a := io) inRange room
  cases g with
  | readTail head => exact fun other => by have := knows other; omega
  | load => exact fun none => by omega
  | advance ch =>
      refine ⟨fun none => by omega, ?_⟩
      have kept := Ring.push_kept inRange (Nat.pos_of_ne_zero knows.1) io
      rw [Nat.add_zero, Nat.mod_eq_of_lt inRange.tail] at kept
      exact knows.2.trans kept.symm
  | _ => exact knows

theorem Async.Inv.rx (inv : l.Inv) (io : UInt8) : (l.step (.rx io)).Inv := by
  refine ⟨inv.receives.step (.rx io), ?_, ?_, ?_⟩
  · simp only [Async.step, Line.step, uartIrqRxHandler]
    split <;> exact inv.inRange
  · simp only [Async.step, Line.step, uartIrqRxHandler]
    split <;> exact inv.putting
  · simp only [Async.step, Line.step, uartIrqRxHandler_eq inv.receives.inRange]
    have small := Ring.held_lt inv.receives.inRange
    split
    next => exact inv.getting
    next room => exact inv.getting.push inv.receives.inRange (by omega) io

theorem Async.Inv.tx (inv : l.Inv) : (l.step .tx).Inv := by
  refine ⟨inv.receives.step .tx, ?_, ?_, ?_⟩
  · simp only [Async.step, Line.step, uartIrqTxHandler]
    split
    · exact inv.inRange
    · exact inv.inRange.pop
  · simp only [Async.step, Line.step, uartIrqTxHandler_eq inv.inRange]
    split
    next => exact inv.putting
    next some_ => exact inv.putting.pop inv.inRange some_
  · simp only [Async.step, Line.step, uartIrqTxHandler]
    split <;> exact inv.getting

theorem Async.Inv.putc (inv : l.Inv) (ch : UInt8) : (l.step (.putc ch)).Inv := by
  obtain ⟨receives, inRange, putting, getting⟩ := inv
  cases now : l.putting with
  | idle =>
      simp only [Async.step, now]
      exact ⟨receives, inRange, trivial, getting⟩
  | _ =>
      simp only [Async.step, now]
      exact ⟨receives, inRange, putting, getting⟩

theorem Async.Inv.getc (inv : l.Inv) : (l.step .getc).Inv := by
  obtain ⟨receives, inRange, putting, getting⟩ := inv
  cases now : l.getting with
  | idle =>
      simp only [Async.step, now]
      exact ⟨receives, inRange, putting, trivial⟩
  | _ =>
      simp only [Async.step, now]
      exact ⟨receives, inRange, putting, getting⟩

theorem Async.Inv.put (inv : l.Inv) : (l.step .put).Inv := by
  obtain ⟨⟨rx, lossless⟩, inRange, putting, getting⟩ := inv
  have small := Ring.held_lt inRange
  cases now : l.putting with
  | idle =>
      simp only [Async.step, Async.put, now]
      exact ⟨⟨rx, lossless⟩, inRange, putting, getting⟩
  | readTail ch head =>
      rw [now] at putting
      obtain rfl : head = l.tx.head := putting
      simp only [Async.step, Async.put, now, Ring.full_iff inRange]
      split
      next => exact ⟨⟨rx, lossless⟩, inRange, trivial, getting⟩
      next room => exact ⟨⟨rx, lossless⟩, inRange, show l.tx.held + 1 < bufferSize by omega, getting⟩
  | store ch second =>
      simp only [Async.step, Async.put, now]
      refine ⟨⟨rx, lossless⟩, inRange.write _, ⟨Function.update_self .., ?_⟩, getting⟩
      rintro rfl
      rw [now] at putting
      exact putting
  | advance ch second =>
      simp only [Async.step, Async.put, now]
      refine ⟨⟨rx, lossless⟩, inRange.advance, ?_, getting⟩
      split <;> trivial
  | readHead ch =>
      simp only [Async.step, Async.put, now]
      exact ⟨⟨rx, lossless⟩, inRange, rfl, getting⟩
  | _ =>
      simp only [Async.step, Async.put, now]
      exact ⟨⟨rx, lossless⟩, inRange, trivial, getting⟩

theorem Async.Inv.get (inv : l.Inv) : (l.step .get).Inv := by
  obtain ⟨receives, inRange, putting, getting⟩ := inv
  have empty := Ring.empty_iff receives.inRange
  cases now : l.getting with
  | idle =>
      simp only [Async.step, Async.get, now]
      exact ⟨receives, inRange, putting, getting⟩
  | readHead =>
      simp only [Async.step, Async.get, now]
      exact ⟨receives, inRange, putting, fun other none => other (empty.mpr none)⟩
  | readTail head =>
      rw [now] at getting
      simp only [Async.step, Async.get, now]
      refine ⟨receives, inRange, putting, ?_⟩
      split
      next => trivial
      next other => exact getting other
  | load =>
      rw [now] at getting
      simp only [Async.step, Async.get, now]
      exact ⟨receives, inRange, putting, getting, rfl⟩
  | advance ch =>
      rw [now] at getting
      obtain ⟨some_, rfl⟩ := getting
      simp only [Async.step, Async.get, now]
      have popped := Ring.items_pop receives.inRange some_
      exact ⟨⟨receives.inRange.pop, by simp [← receives.lossless, popped]⟩, inRange, putting, trivial⟩
  | _ =>
      simp only [Async.step, Async.get, now]
      exact ⟨⟨receives.inRange, receives.lossless⟩, inRange, putting, trivial⟩

theorem Async.Inv.step (inv : l.Inv) (e : Async.Event) : (l.step e).Inv := by
  cases e with
  | rx io => exact inv.rx io
  | tx => exact inv.tx
  | putc ch => exact inv.putc ch
  | getc => exact inv.getc
  | put => exact inv.put
  | get => exact inv.get

theorem Async.Transmits.put (inv : l.Inv) (transmits : l.Transmits) (fits : l.Fits) : (l.step .put).Transmits := by
  obtain ⟨-, inRange, putting, -⟩ := inv
  unfold Async.Transmits at *
  cases now : l.putting with
  | readTail ch head =>
      simp only [Async.step, Async.put, now] at *
      split
      next => exact transmits
      next => simp [Putting.pending, ← transmits]
  | store ch second =>
      simp only [Async.step, Async.put, now] at *
      rw [Ring.items_write inRange]
      exact transmits
  | advance ch second =>
      rw [now] at putting transmits
      have room : l.tx.held + 1 < bufferSize := by
        have small := Ring.held_lt inRange
        cases second with
        | false => exact putting.2 rfl
        | true => exact Nat.lt_of_le_of_ne small (fits ch now)
      have stored := Ring.items_push (a := storedChar ch second) inRange room
      simp only [Async.step, Async.put, now, Ring.advance_eq putting.1, stored, ← transmits]
      cases second with
      | true => simp [Putting.pending, storedChar]
      | false =>
          by_cases cr : ch = carriageReturn
          · simp [Putting.pending, storedChar, expand, cr]
          · simp [Putting.pending, storedChar, expand, cr]
  | _ =>
      simp only [Async.step, Async.put, now] at *
      exact transmits

theorem Async.Transmits.step (inv : l.Inv) (transmits : l.Transmits) (fits : e = .put → l.Fits) :
    (l.step e).Transmits := by
  cases e with
  | rx io =>
      simp only [Async.Transmits, Async.step, Line.step, uartIrqRxHandler] at *
      split <;> exact transmits
  | tx =>
      simp only [Async.Transmits, Async.step, Line.step, uartIrqTxHandler_eq inv.inRange] at *
      split
      next => simpa [uartDisableTxIrq] using transmits
      next some_ =>
          have popped := Ring.items_pop inv.inRange some_
          simp [← transmits, popped]
  | putc ch =>
      simp only [Async.Transmits, Async.step] at *
      cases now : l.putting with
      | idle =>
          rw [now] at transmits
          exact transmits
      | _ => exact transmits
  | getc =>
      simp only [Async.Transmits, Async.step] at *
      split <;> exact transmits
  | put => exact transmits.put inv (fits rfl)
  | get =>
      simp only [Async.Transmits, Async.step, Async.get] at *
      split <;> exact transmits

/-- A newline in the last cell makes the full ring look empty. -/
theorem Async.Transmits.fits (inv : l.Inv) (before : l.Transmits) (after : (l.step .put).Transmits) : l.Fits := by
  intro ch now full
  have emptied : l.tx.advance.held = 0 :=
    (Ring.empty_iff inv.inRange.advance).mp ((Ring.full_iff inv.inRange).mpr full)
  unfold Async.Transmits at before after
  simp only [now, Putting.pending, Async.step, Async.put, Ring.items_empty emptied] at before after
  simp [← before] at after

theorem Async.Inv.run (inv : l.Inv) (events : List Async.Event) : (l.run events).Inv := by
  induction events generalizing l with
  | nil => exact inv
  | cons e events ih => exact ih (inv.step e)

theorem Async.Transmits.run (inv : l.Inv) (transmits : l.Transmits) {events : List Async.Event}
    (fits : ∀ taken, taken ++ [.put] <+: events → (l.run taken).Fits) : (l.run events).Transmits := by
  induction events generalizing l with
  | nil => exact transmits
  | cons e events ih =>
      refine ih (inv.step e) (transmits.step inv ?_) fun taken part => ?_
      · rintro rfl
        exact fits [] (List.prefix_append [Async.Event.put] events)
      · exact fits (e :: taken) ((List.prefix_cons_inj e).mpr part)

theorem Uart.idling_inv (rx : u.rx.InRange) (tx : u.tx.InRange) (empty : u.rx.head = u.rx.tail) : u.idling.Inv :=
  ⟨receives_opened rx empty, tx, trivial, trivial⟩

/-- Whatever the order of the accesses, the characters that are read are returned or in the ring.
The characters that are accepted are sent, in the ring, or still to be stored just as long as no
newline behind a carriage return goes to the last cell. -/
theorem Async.run_lossless_iff (rx : u.rx.InRange) (tx : u.tx.InRange) (rxEmpty : u.rx.head = u.rx.tail)
    (txEmpty : u.tx.head = u.tx.tail) (events : List Async.Event) :
    (∀ taken, taken <+: events →
      (u.idling.run taken).returned ++ (u.idling.run taken).rx.items = (u.idling.run taken).received) ∧
    ((∀ taken, taken <+: events → (u.idling.run taken).Transmits) ↔
      ∀ taken, taken ++ [.put] <+: events → (u.idling.run taken).Fits) := by
  have inv := Uart.idling_inv rx tx rxEmpty
  have start : u.idling.Transmits := by
    have none := Ring.items_empty ((Ring.empty_iff tx).mp txEmpty)
    simp [Async.Transmits, Uart.idling, Uart.opened, none, Putting.pending]
  refine ⟨fun taken _ => (inv.run taken).receives.lossless, ?_, ?_⟩
  · intro transmits taken part
    have before := transmits taken ((List.prefix_append taken [.put]).trans part)
    have after := transmits (taken ++ [.put]) part
    rw [Async.run, List.foldl_append] at after
    exact before.fits (inv.run taken) after
  · intro fits taken part
    exact start.run inv fun front within => fits front (within.trans part)

/-- The interrupt handler makes room between the two stores. -/
def crlfEvents : List Async.Event := .putc carriageReturn :: List.replicate 5 .put ++ [.tx, .put]

theorem Async.run_lossless_crlf :
    let l := idle.idling.run crlfEvents
    l.sent = [carriageReturn] ∧ l.sent ++ l.tx.items ++ l.putting.pending = [carriageReturn, newline] := by
  have roomy : ∀ taken ∈ crlfEvents.inits, (idle.idling.run taken).tx.held + 1 ≠ bufferSize := by decide
  have fits : ∀ taken, taken ++ [.put] <+: crlfEvents → (idle.idling.run taken).Fits := by
    intro taken part ch _
    exact roomy taken ((List.mem_inits taken crlfEvents).mpr ((List.prefix_append taken [.put]).trans part))
  have whole := (Async.run_lossless_iff idle_rx_inRange idle_tx_inRange rfl rfl crlfEvents).2.mpr fits
  exact ⟨by decide, whole crlfEvents List.prefix_rfl⟩

end Lossless

/-! ## No call waits in vain -/

section Wakeups

/-- The transmit interrupt comes through. -/
structure Uart.TxEnabled (u : Uart) : Prop where
  ier : u.ier.getLsbD 1 = true
  enableIrqs1 : u.enableIrqs1.getLsbD 29 = true

/-- The calls are not both between their read of the register and their write. -/
def Async.Separate (l : Async) : Prop := ∀ ret ier ier', l.putting = .writeIer ret ier → l.getting ≠ .writeIer ier'

/-- The call has enabled the interrupt for what it has stored. -/
def Putting.Signalled : Putting → Prop
  | .idle | .readIrqs _ | .writeIrqs .. => True
  | _ => False

/-- A value of the register that has been read is not out of date in the bit of the other call. -/
structure Async.Wakes (l : Async) : Prop where
  rx : l.waiting = true → l.rx.held = 0 → l.ier.getLsbD 0 = true
  rxRead : ∀ ret ier, l.putting = .writeIer ret ier → l.waiting = true → l.rx.held = 0 → ier.getLsbD 0 = true
  tx : l.putting.Signalled → l.tx.held ≠ 0 → l.ier.getLsbD 1 = true
  txRead : ∀ ier, l.getting = .writeIer ier → l.putting.Signalled → l.tx.held ≠ 0 → ier.getLsbD 1 = true
  line : l.putting = .idle → l.tx.held ≠ 0 → l.enableIrqs1.getLsbD 29 = true

theorem Async.Wakes.rxHandler (inv : l.Inv) (wakes : l.Wakes) (io : UInt8) : (l.step (.rx io)).Wakes := by
  obtain ⟨rx, rxRead, tx, txRead, line⟩ := wakes
  have inRange := inv.receives.inRange
  have small := Ring.held_lt inRange
  simp only [Async.step, Line.step, uartIrqRxHandler_eq inRange]
  split
  next full =>
      have some_ : l.rx.held ≠ 0 := by
        rintro none
        rw [none] at full
        exact absurd full (by decide)
      refine ⟨fun _ none => absurd none some_, rxRead, ?_, txRead, line⟩
      intro signalled stored
      simpa [uartDisableRxIrq] using tx signalled stored
  next room =>
      have some_ : (l.rx.push io).held ≠ 0 := by
        rw [Ring.held_push inRange (by omega)]
        exact Nat.succ_ne_zero _
      exact ⟨fun _ none => absurd none some_, fun _ _ _ _ none => absurd none some_, tx, txRead, line⟩

theorem Async.Wakes.txHandler (inv : l.Inv) (wakes : l.Wakes) : (l.step .tx).Wakes := by
  obtain ⟨rx, rxRead, tx, txRead, line⟩ := wakes
  simp only [Async.step, Line.step, uartIrqTxHandler_eq inv.inRange]
  split
  next none =>
      refine ⟨?_, rxRead, fun _ some_ => absurd none some_, txRead, line⟩
      intro waiting empty
      simpa [uartDisableTxIrq] using rx waiting empty
  next some_ =>
      exact ⟨rx, rxRead, fun signalled _ => tx signalled some_, fun ier now signalled _ => txRead ier now signalled some_,
        fun done _ => line done some_⟩

theorem Async.Wakes.put (wakes : l.Wakes) (separate : l.Separate) : (l.step .put).Wakes := by
  obtain ⟨rx, rxRead, tx, txRead, line⟩ := wakes
  cases now : l.putting with
  | idle =>
      simp only [Async.step, Async.put, now]
      exact ⟨rx, rxRead, tx, txRead, line⟩
  | readTail ch head =>
      simp only [Async.step, Async.put, now]
      split <;> exact ⟨rx, by simp, by simp [Putting.Signalled], by simp [Putting.Signalled], by simp⟩
  | advance ch second =>
      simp only [Async.step, Async.put, now]
      split <;> exact ⟨rx, by simp, by simp [Putting.Signalled], by simp [Putting.Signalled], by simp⟩
  | readIer ret =>
      simp only [Async.step, Async.put, now]
      refine ⟨rx, ?_, by simp [Putting.Signalled], by simp [Putting.Signalled], by simp⟩
      rintro _ _ ⟨⟩
      exact rx
  | writeIer ret ier =>
      simp only [Async.step, Async.put, now]
      refine ⟨?_, by simp, by simp, ?_, by simp⟩
      · intro waiting empty
        simpa using rxRead ret ier now waiting empty
      · intro ier' overlaps
        exact absurd overlaps (separate ret ier ier' now)
  | readIrqs ret =>
      simp only [now, Putting.Signalled, forall_const] at tx txRead
      simp only [Async.step, Async.put, now]
      exact ⟨rx, by simp, fun _ => tx, fun ier read _ => txRead ier read, by simp⟩
  | writeIrqs ret enableIrqs1 =>
      simp only [now, Putting.Signalled, forall_const] at tx txRead
      simp only [Async.step, Async.put, now]
      exact ⟨rx, by simp, fun _ => tx, fun ier read _ => txRead ier read, by simp⟩
  | _ =>
      simp only [Async.step, Async.put, now]
      exact ⟨rx, by simp, by simp [Putting.Signalled], by simp [Putting.Signalled], by simp⟩

theorem Async.Wakes.get (wakes : l.Wakes) (separate : l.Separate) : (l.step .get).Wakes := by
  obtain ⟨rx, rxRead, tx, txRead, line⟩ := wakes
  cases now : l.getting with
  | idle =>
      simp only [Async.step, Async.get, now]
      exact ⟨rx, rxRead, tx, txRead, line⟩
  | readTail head =>
      simp only [Async.step, Async.get, now]
      split <;> exact ⟨rx, rxRead, tx, by simp, line⟩
  | advance ch =>
      simp only [Async.step, Async.get, now]
      exact ⟨by simp, by simp, tx, by simp, line⟩
  | readIer =>
      simp only [Async.step, Async.get, now]
      refine ⟨rx, rxRead, tx, ?_, line⟩
      rintro _ ⟨⟩
      exact tx
  | writeIer ier =>
      simp only [Async.step, Async.get, now]
      refine ⟨by simp, ?_, ?_, by simp, line⟩
      · intro ret ier' overlaps
        exact absurd now (separate ret ier' ier overlaps)
      · intro signalled stored
        simpa using txRead ier now signalled stored
  | _ =>
      simp only [Async.step, Async.get, now]
      exact ⟨rx, rxRead, tx, by simp, line⟩

theorem Async.Wakes.step (inv : l.Inv) (wakes : l.Wakes) (separate : l.Separate) (e : Async.Event) : (l.step e).Wakes := by
  cases e with
  | rx io => exact wakes.rxHandler inv io
  | tx => exact wakes.txHandler inv
  | put => exact wakes.put separate
  | get => exact wakes.get separate
  | putc ch =>
      obtain ⟨rx, rxRead, tx, txRead, line⟩ := wakes
      simp only [Async.step]
      split
      · exact ⟨rx, by simp, by simp [Putting.Signalled], by simp [Putting.Signalled], by simp⟩
      · exact ⟨rx, rxRead, tx, txRead, line⟩
  | getc =>
      obtain ⟨rx, rxRead, tx, txRead, line⟩ := wakes
      simp only [Async.step]
      split
      · exact ⟨rx, rxRead, tx, by simp, line⟩
      · exact ⟨rx, rxRead, tx, txRead, line⟩

theorem Async.Wakes.run (inv : l.Inv) (wakes : l.Wakes) {events : List Async.Event}
    (separate : ∀ taken, taken <+: events → (l.run taken).Separate) : (l.run events).Wakes := by
  induction events generalizing l with
  | nil => exact wakes
  | cons e events ih =>
      refine ih (inv.step e) (wakes.step inv (separate [] List.nil_prefix) e) fun taken part => ?_
      exact separate (e :: taken) ((List.prefix_cons_inj e).mpr part)

/-- Unless the two calls change the register at the same time, a reader that has found nothing
finds the receive interrupt enabled as long as the ring is empty, and the transmit interrupt is
enabled for all that a writer has left in the ring. -/
theorem Async.run_wakes (rx : u.rx.InRange) (tx : u.tx.InRange) (rxEmpty : u.rx.head = u.rx.tail)
    (txEmpty : u.tx.head = u.tx.tail) {events : List Async.Event}
    (separate : ∀ taken, taken <+: events → (u.idling.run taken).Separate) :
    let l := u.idling.run events
    (l.waiting = true → l.rx.items = [] → l.RxEnabled) ∧ (l.putting = .idle → l.tx.items ≠ [] → l.TxEnabled) := by
  intro l
  have inv := Uart.idling_inv rx tx rxEmpty
  have none : u.idling.tx.held = 0 := (Ring.empty_iff tx).mp txEmpty
  have start : u.idling.Wakes :=
    ⟨fun waiting => (Bool.false_ne_true waiting).elim, fun _ _ now => (by cases now), fun _ stored => absurd none stored,
      fun _ _ _ stored => absurd none stored, fun _ stored => absurd none stored⟩
  have wakes := start.run inv separate
  constructor
  · intro waiting empty
    have held : l.rx.held = 0 := by rw [← Ring.items_length, empty, List.length_nil]
    exact wakes.rx waiting held
  · intro done stored
    have held : l.tx.held ≠ 0 := fun none => stored (Ring.items_empty none)
    exact ⟨wakes.tx (done ▸ trivial) held, wakes.line done held⟩

/-- A call of `uart_async_getc` that finds nothing, in the middle of a call of `uart_async_putc`. -/
def crossingEvents : List Async.Event :=
  .putc 65 :: List.replicate 4 .put ++ [.getc, .get, .get] ++ List.replicate 4 .put ++ [.get, .get]

/-- Both interrupts were disabled before. -/
theorem Async.run_wakes_crossing : ((uartDisableRxIrq idle).idling.run crossingEvents).RxEnabled ∧
    ((uartDisableRxIrq idle).idling.run crossingEvents).TxEnabled ∧
      (uartDisableRxIrq idle).ier = 0 := by
  have separate : ∀ taken, taken <+: crossingEvents →
      ((uartDisableRxIrq idle).idling.run taken).Separate := by
    have waits : ∀ taken ∈ crossingEvents.inits,
        ((uartDisableRxIrq idle).idling.run taken).putting = .idle ∨
          ((uartDisableRxIrq idle).idling.run taken).getting ∈
            [Getting.idle, .readHead, .readTail 0, .readIer] := by decide
    intro taken part ret ier ier' puts gets
    rcases waits taken ((List.mem_inits taken crossingEvents).mpr part) with idles | before
    · cases puts.symm.trans idles
    · rw [gets] at before
      simp at before
  have wakes := Async.run_wakes (u := uartDisableRxIrq idle) idle_rx_inRange idle_tx_inRange rfl rfl separate
  exact ⟨wakes.1 (by decide) (by decide), wakes.2 (by decide) (by decide), by decide⟩

/-- Without that, the writer stores what it has read before. -/
example : let l := (uartDisableRxIrq idle).idling.run (.putc 65 :: List.replicate 5 .put ++
      [.getc, .get, .get, .get, .get, .put])
    l.waiting = true ∧ l.rx.items = [] ∧ l.ier.getLsbD 0 = false := by decide

end Wakeups

end OsdiKernel.Devices
