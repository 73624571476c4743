import OsdiKernel.Lib.Ring

/-!
# The serial line

The interrupt handlers of the UART move characters between the device and two
rings in memory; `uart_async_getc` and `uart_async_putc` work on the rings only.
-/

namespace OsdiKernel.Devices

def bufferSize : Nat := 4096

def carriageReturn : UInt8 := 0x0d
def newline : UInt8 := 0x0a

/-- The two rings, and the registers which let the interrupts through. -/
structure Uart where
  rx : Ring UInt8 bufferSize
  tx : Ring UInt8 bufferSize
  ier : BitVec 32
  enableIrqs1 : BitVec 32

/-! ## Interrupts -/

def uartEnableTxIrq (u : Uart) : Uart :=
  { u with ier := u.ier ||| 2, enableIrqs1 := u.enableIrqs1 ||| (1 <<< 29) }

def uartDisableRxIrq (u : Uart) : Uart := { u with ier := u.ier &&& ~~~1 }

def uartDisableTxIrq (u : Uart) : Uart := { u with ier := u.ier &&& ~~~2 }

/-- The handler, and the character that it has read; the device has `io` in its register. -/
def uartIrqRxHandler (u : Uart) (io : UInt8) : Uart × Option UInt8 :=
  if (u.rx.head + 1) % bufferSize = u.rx.tail then (uartDisableRxIrq u, none)
  else ({ u with rx := u.rx.push io }, some io)

/-- The handler, and the character that it has written to the device. -/
def uartIrqTxHandler (u : Uart) : Uart × Option UInt8 :=
  if u.tx.head = u.tx.tail then (uartDisableTxIrq u, none)
  else ({ u with tx := u.tx.pop }, some (u.tx.cells u.tx.tail))

/-! ## Characters and strings -/

/-- The character is stored when there is one and the result is 1. -/
def uartAsyncGetc (u : Uart) : Uart × Option UInt8 :=
  if u.rx.head = u.rx.tail then ({ u with ier := u.ier ||| 1 }, none)
  else ({ u with rx := u.rx.pop }, some (u.rx.cells u.rx.tail))

def uartAsyncPutc (u : Uart) (ch : UInt8) : Uart × Int :=
  if (u.tx.head + 1) % bufferSize = u.tx.tail then (uartEnableTxIrq u, 0)
  else if ch = carriageReturn then
    (uartEnableTxIrq { u with tx := (u.tx.push carriageReturn).push newline }, 1)
  else (uartEnableTxIrq { u with tx := u.tx.push ch }, 1)

/-- A string is the list of its characters before the null character. -/
def uartAsyncPuts (u : Uart) : List UInt8 → Uart × Int
  | [] => (u, 1)
  | c :: str =>
      if c = newline then
        let (u, ret) := uartAsyncPutc u carriageReturn
        if ret = 0 then (u, 0)
        else
          let (u, ret) := uartAsyncPutc u newline
          if ret = 0 then (u, 0) else uartAsyncPuts u str
      else
        let (u, ret) := uartAsyncPutc u c
        if ret = 0 then (u, 0) else uartAsyncPuts u str

/-- The characters that `uart_puts` writes to the device. -/
def uartPuts : List UInt8 → List UInt8
  | [] => []
  | c :: str => if c = newline then carriageReturn :: newline :: uartPuts str else c :: uartPuts str

/-! ## Runs -/

/-- What happens on the line. -/
inductive LineEvent where
  | rx (io : UInt8)
  | tx
  | getc
  | putc (ch : UInt8)

/-- The state, with the characters that were read from the device, given to readers, accepted
from writers and sent to the device so far. -/
structure Line extends Uart where
  received : List UInt8
  returned : List UInt8
  accepted : List UInt8
  sent : List UInt8

/-- Nothing has happened yet. -/
def Uart.opened (u : Uart) : Line := ⟨u, [], [], [], []⟩

def Line.step (l : Line) : LineEvent → Line
  | .rx io =>
      let (u, read) := uartIrqRxHandler l.toUart io
      { l with toUart := u, received := l.received ++ read.toList }
  | .tx =>
      let (u, written) := uartIrqTxHandler l.toUart
      { l with toUart := u, sent := l.sent ++ written.toList }
  | .getc =>
      let (u, ch) := uartAsyncGetc l.toUart
      { l with toUart := u, returned := l.returned ++ ch.toList }
  | .putc ch =>
      let (u, ret) := uartAsyncPutc l.toUart ch
      { l with toUart := u, accepted := if ret = 0 then l.accepted else l.accepted ++ [ch] }

def Line.run (l : Line) (events : List LineEvent) : Line := events.foldl Line.step l

/-- What is sent for a character. -/
def expand (ch : UInt8) : List UInt8 := if ch = carriageReturn then [carriageReturn, newline] else [ch]

/-- The receive interrupt comes through. -/
def Uart.RxEnabled (u : Uart) : Prop := u.ier.getLsbD 0 = true

/-- No carriage return is written when just one slot of the ring is free. -/
def CrlfFits (u : Uart) : LineEvent → Prop
  | .putc ch => ch = carriageReturn → u.tx.items.length + 2 ≠ bufferSize
  | _ => True

/-- What was accepted is sent or in the ring. -/
structure Transmits (l : Line) : Prop where
  inRange : l.tx.InRange
  lossless : l.sent ++ l.tx.items = l.accepted.flatMap expand

/-- What was read from the device is returned or in the ring. -/
structure Receives (l : Line) : Prop where
  inRange : l.rx.InRange
  lossless : l.returned ++ l.rx.items = l.received

end OsdiKernel.Devices
