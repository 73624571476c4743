import OsdiKernel.Devices.Uart

/-!
# Runs of the serial line

A character that is read is lost only in the device; a character that is accepted
is lost when a carriage return and its line feed fill the last slot of the ring.
-/

namespace OsdiKernel.Devices

variable {u : Uart} {l : Line} {e : LineEvent} {ch io : UInt8} {text : List UInt8}

/-! ## One event -/

theorem bufferSize_pos : 0 < bufferSize := by decide

section Steps

/-- The handler for a ring with room, and for a full one. -/
theorem uartIrqRxHandler_eq (inRange : u.rx.InRange) : uartIrqRxHandler u io =
    if u.rx.held + 1 = bufferSize then (uartDisableRxIrq u, none)
    else ({ u with rx := u.rx.push io }, some io) := by
  simp only [uartIrqRxHandler, Ring.full_iff inRange]

theorem uartIrqTxHandler_eq (inRange : u.tx.InRange) : uartIrqTxHandler u =
    if u.tx.held = 0 then (uartDisableTxIrq u, none)
    else ({ u with tx := u.tx.pop }, some (u.tx.cells u.tx.tail)) := by
  simp only [uartIrqTxHandler, Ring.empty_iff inRange]

theorem uartAsyncGetc_eq (inRange : u.rx.InRange) : uartAsyncGetc u =
    if u.rx.held = 0 then ({ u with ier := u.ier ||| 1 }, none)
    else ({ u with rx := u.rx.pop }, some (u.rx.cells u.rx.tail)) := by
  simp only [uartAsyncGetc, Ring.empty_iff inRange]

/-- What is sent for an accepted character is stored; there is room for one slot. -/
theorem uartAsyncPutc_eq (inRange : u.tx.InRange) : uartAsyncPutc u ch =
    if u.tx.held + 1 = bufferSize then (uartEnableTxIrq u, 0)
    else (uartEnableTxIrq { u with tx := u.tx.pushAll (expand ch) }, 1) := by
  by_cases cr : ch = carriageReturn
  · simp [uartAsyncPutc, Ring.full_iff inRange, expand, cr, Ring.pushAll]
  · simp [uartAsyncPutc, Ring.full_iff inRange, expand, cr, Ring.pushAll]

theorem Receives.step (receives : Receives l) (e : LineEvent) : Receives (l.step e) := by
  have inRange := receives.inRange
  have small := Ring.held_lt inRange
  cases e with
  | rx io =>
      simp only [Line.step, uartIrqRxHandler_eq inRange]
      split
      next => exact ⟨inRange, by simpa [uartDisableRxIrq] using receives.lossless⟩
      next room =>
          have pushed := Ring.items_push (a := io) inRange (by omega)
          exact ⟨inRange.push io, by simp [pushed, ← receives.lossless]⟩
  | tx =>
      simp only [Line.step, uartIrqTxHandler]
      split
      · exact ⟨inRange, receives.lossless⟩
      · exact ⟨inRange, receives.lossless⟩
  | getc =>
      simp only [Line.step, uartAsyncGetc_eq inRange]
      split
      next => exact ⟨inRange, by simpa using receives.lossless⟩
      next some_ =>
          have popped := Ring.items_pop inRange some_
          exact ⟨inRange.pop, by simp [← receives.lossless, popped]⟩
  | putc ch =>
      simp only [Line.step, uartAsyncPutc]
      split
      · exact ⟨inRange, receives.lossless⟩
      · split
        · exact ⟨inRange, receives.lossless⟩
        · exact ⟨inRange, receives.lossless⟩

theorem expand_length (ch : UInt8) : (expand ch).length = if ch = carriageReturn then 2 else 1 := by
  unfold expand
  split <;> rfl

/-- There is room for what is sent for an accepted character. -/
theorem expand_fits (inRange : u.tx.InRange) (room : u.tx.held + 1 ≠ bufferSize)
    (fits : CrlfFits u (.putc ch)) : u.tx.held + (expand ch).length < bufferSize := by
  have small := Ring.held_lt inRange
  rw [expand_length]
  split
  next cr =>
      have two := fits cr
      rw [Ring.items_length] at two
      omega
  next => omega

theorem Transmits.step (transmits : Transmits l) (fits : CrlfFits l.toUart e) : Transmits (l.step e) := by
  have inRange := transmits.inRange
  cases e with
  | rx io =>
      simp only [Line.step, uartIrqRxHandler]
      split
      · exact ⟨inRange, transmits.lossless⟩
      · exact ⟨inRange, transmits.lossless⟩
  | tx =>
      simp only [Line.step, uartIrqTxHandler_eq inRange]
      split
      next => exact ⟨inRange, by simpa [uartDisableTxIrq] using transmits.lossless⟩
      next some_ =>
          have popped := Ring.items_pop inRange some_
          exact ⟨inRange.pop, by simp [← transmits.lossless, popped]⟩
  | getc =>
      simp only [Line.step, uartAsyncGetc]
      split
      · exact ⟨inRange, transmits.lossless⟩
      · exact ⟨inRange, transmits.lossless⟩
  | putc ch =>
      simp only [Line.step, uartAsyncPutc_eq inRange]
      split
      next => exact ⟨inRange, transmits.lossless⟩
      next room =>
          have pushed := Ring.items_pushAll inRange (expand_fits inRange room fits)
          exact ⟨inRange.pushAll _, by simp [uartEnableTxIrq, pushed, ← transmits.lossless]⟩

/-- A carriage return in the last free slot makes the full ring look empty. -/
theorem Transmits.fits (transmits : Transmits l)
    (lossless : (l.step e).sent ++ (l.step e).tx.items = (l.step e).accepted.flatMap expand) :
    CrlfFits l.toUart e := by
  have inRange := transmits.inRange
  cases e with
  | rx | tx | getc => trivial
  | putc ch =>
      rintro rfl last
      rw [Ring.items_length] at last
      have room : l.tx.held + 1 ≠ bufferSize := by omega
      simp only [Line.step, uartAsyncPutc_eq inRange, if_neg room, uartEnableTxIrq] at lossless
      have inRange' := inRange.pushAll (expand carriageReturn)
      have emptied : (l.tx.pushAll (expand carriageReturn)).held = 0 := by
        refine (Ring.empty_iff inRange').mp ?_
        rw [Ring.pushAll_head inRange, Ring.pushAll_tail]
        exact (Ring.last_iff inRange room).mpr last
      have gone : (l.tx.pushAll [carriageReturn, newline]).items = [] := Ring.items_empty emptied
      simp [← transmits.lossless, expand, gone] at lossless

end Steps

/-! ## Runs -/

theorem Line.run_append (l : Line) (events rest : List LineEvent) :
    l.run (events ++ rest) = (l.run events).run rest := List.foldl_append

theorem Receives.run (receives : Receives l) (events : List LineEvent) : Receives (l.run events) := by
  induction events generalizing l with
  | nil => exact receives
  | cons e events ih => exact ih (receives.step e)

theorem Transmits.run (transmits : Transmits l) {events : List LineEvent}
    (fits : ∀ taken e, taken ++ [e] <+: events → CrlfFits (l.run taken).toUart e) :
    Transmits (l.run events) := by
  induction events generalizing l with
  | nil => exact transmits
  | cons e events ih =>
      exact ih (transmits.step (fits [] e (List.prefix_append [e] events))) fun taken e' part =>
        fits (e :: taken) e' ((List.prefix_cons_inj e).mpr part)

theorem receives_opened (inRange : u.rx.InRange) (empty : u.rx.head = u.rx.tail) : Receives u.opened :=
  ⟨inRange, Ring.items_empty ((Ring.empty_iff inRange).mp empty)⟩

theorem transmits_opened (inRange : u.tx.InRange) (empty : u.tx.head = u.tx.tail) : Transmits u.opened :=
  ⟨inRange, Ring.items_empty ((Ring.empty_iff inRange).mp empty)⟩

/-! ## The receive interrupt -/

section Receiving

theorem count_full (r : Ring UInt8 bufferSize) : r.items.length = bufferSize - 1 ↔ r.held + 1 = bufferSize := by
  have positive := bufferSize_pos
  rw [Ring.items_length]
  omega

theorem not_rxEnabled_disabled (u : Uart) : ¬ (uartDisableRxIrq u).RxEnabled := by
  simp [Uart.RxEnabled, uartDisableRxIrq]

/-- The transmitter does not touch the receive interrupt. -/
theorem rxEnabled_tx (u : Uart) : (uartIrqTxHandler u).1.RxEnabled ↔ u.RxEnabled := by
  unfold uartIrqTxHandler
  split <;> simp [Uart.RxEnabled, uartDisableTxIrq]

theorem rxEnabled_putc (u : Uart) (ch : UInt8) : (uartAsyncPutc u ch).1.RxEnabled ↔ u.RxEnabled := by
  unfold uartAsyncPutc
  split
  · simp [Uart.RxEnabled, uartEnableTxIrq]
  · split <;> simp [Uart.RxEnabled, uartEnableTxIrq]

theorem rxEnabled_rx (inRange : u.rx.InRange) (io : UInt8) :
    (uartIrqRxHandler u io).1.RxEnabled ↔ u.RxEnabled ∧ u.rx.items.length ≠ bufferSize - 1 := by
  rw [uartIrqRxHandler_eq inRange, ne_eq, count_full]
  split
  next full => simp [not_rxEnabled_disabled, full]
  next room => simp [Uart.RxEnabled, room]

theorem rxEnabled_getc (inRange : u.rx.InRange) :
    (uartAsyncGetc u).1.RxEnabled ↔ u.RxEnabled ∨ u.rx.items = [] := by
  rw [uartAsyncGetc_eq inRange, ← List.length_eq_zero_iff, Ring.items_length]
  split
  next empty => simp [Uart.RxEnabled, empty]
  next some_ => simp [Uart.RxEnabled, some_]

/-- The interrupt is masked just by the handler that finds the ring full. -/
theorem masks_iff (inRange : l.rx.InRange) (enabled : l.RxEnabled) (e : LineEvent) :
    ¬ (l.step e).RxEnabled ↔ (∃ io, e = .rx io) ∧ l.rx.items.length = bufferSize - 1 := by
  cases e with
  | rx io => simp [Line.step, rxEnabled_rx inRange, enabled]
  | tx => simp [Line.step, rxEnabled_tx, enabled]
  | getc => simp [Line.step, rxEnabled_getc inRange, enabled]
  | putc ch => simp [Line.step, rxEnabled_putc, enabled]

/-- Once masked, it is enabled just by the reader that finds the ring empty. -/
theorem unmasks_iff (inRange : l.rx.InRange) (masked : ¬ l.RxEnabled) (e : LineEvent) :
    (l.step e).RxEnabled ↔ e = .getc ∧ l.rx.items = [] := by
  cases e with
  | rx io => simp [Line.step, rxEnabled_rx inRange, masked]
  | tx => simp [Line.step, rxEnabled_tx, masked]
  | getc => simp [Line.step, rxEnabled_getc inRange, masked]
  | putc ch => simp [Line.step, rxEnabled_putc, masked]

/-- No event stores over a character that is in the ring. -/
theorem rx_kept {i : Nat} (inRange : l.rx.InRange) (e : LineEvent) (below : i < l.rx.held) :
    (l.step e).rx.cells ((l.rx.tail + i) % bufferSize) = l.rx.cells ((l.rx.tail + i) % bufferSize) := by
  cases e with
  | rx io =>
      simp only [Line.step, uartIrqRxHandler]
      split
      · rfl
      · exact Ring.push_kept inRange below io
  | tx =>
      simp only [Line.step, uartIrqTxHandler]
      split <;> rfl
  | getc =>
      simp only [Line.step, uartAsyncGetc]
      split <;> rfl
  | putc ch =>
      simp only [Line.step, uartAsyncPutc]
      split
      · rfl
      · split <;> rfl

/-- In every run, the characters that are returned and then the characters in the ring are those
which were read; the interrupt is masked for a full ring and enabled for an empty one. -/
theorem receives_run (inRange : u.rx.InRange) (empty : u.rx.head = u.rx.tail) (events : List LineEvent) :
    let l := u.opened.run events
    l.returned ++ l.rx.items = l.received ∧ l.rx.items.length ≤ bufferSize - 1 ∧ l.rx.InRange ∧
      (∀ e, ∀ i < l.rx.held, (l.step e).rx.cells ((l.rx.tail + i) % bufferSize) =
        l.rx.cells ((l.rx.tail + i) % bufferSize)) ∧
      (l.RxEnabled → ∀ e, (¬ (l.step e).RxEnabled ↔
        (∃ io, e = .rx io) ∧ l.rx.items.length = bufferSize - 1)) ∧
      (¬ l.RxEnabled → ∀ e, ((l.step e).RxEnabled ↔ e = .getc ∧ l.rx.items = [])) := by
  intro l
  have receives := (receives_opened inRange empty).run events
  have small := Ring.held_lt receives.inRange
  exact ⟨receives.lossless, Nat.le_sub_one_of_lt (by rwa [Ring.items_length]), receives.inRange,
    fun e i below => rx_kept receives.inRange e below, masks_iff receives.inRange, unmasks_iff receives.inRange⟩

/-- Both rings are empty, and characters are let through. -/
def idle : Uart := ⟨⟨fun _ => 0, 0, 0⟩, ⟨fun _ => 0, 0, 0⟩, 1, 0⟩

theorem idle_rx_inRange : idle.rx.InRange := ⟨bufferSize_pos, bufferSize_pos⟩

theorem idle_tx_inRange : idle.tx.InRange := ⟨bufferSize_pos, bufferSize_pos⟩

theorem receives_run_two :
    let l := idle.opened.run [.rx 104, .rx 105, .getc]
    l.returned ++ l.rx.items = [104, 105] ∧ l.rx.items = [105] :=
  ⟨(receives_run idle_rx_inRange rfl [.rx 104, .rx 105, .getc]).1, by decide⟩

end Receiving

/-! ## The transmit ring -/

section Transmitting

theorem rejected_kept (u : Uart) (ch : UInt8) (rejected : (uartAsyncPutc u ch).2 = 0) :
    (uartAsyncPutc u ch).1.tx = u.tx := by
  unfold uartAsyncPutc at *
  split
  · rfl
  next room =>
      rw [if_neg room] at rejected
      split at rejected <;> cases rejected

/-- In a run from an empty ring, the characters that are sent and then the characters in the ring
are those which were accepted just as long as no carriage return takes the last free slot. -/
theorem transmits_run_iff (inRange : u.tx.InRange) (empty : u.tx.head = u.tx.tail) (events : List LineEvent) :
    (∀ taken, taken <+: events → Transmits (u.opened.run taken) ∧
      ∀ ch, (uartAsyncPutc (u.opened.run taken).toUart ch).2 = 0 →
        (uartAsyncPutc (u.opened.run taken).toUart ch).1.tx = (u.opened.run taken).tx) ↔
    ∀ taken e, taken ++ [e] <+: events → CrlfFits (u.opened.run taken).toUart e := by
  constructor
  · intro lossless taken e part
    have before := (lossless taken ((List.prefix_append taken [e]).trans part)).1
    have after := (lossless (taken ++ [e]) part).1
    rw [Line.run_append] at after
    exact before.fits after.lossless
  · intro fits taken part
    exact ⟨(transmits_opened inRange empty).run fun front e within => fits front e (within.trans part),
      fun ch rejected => rejected_kept _ ch rejected⟩

theorem transmits_run_crlf :
    let l := idle.opened.run [.putc carriageReturn, .tx]
    l.sent = [carriageReturn] ∧ l.sent ++ l.tx.items = [carriageReturn, newline] := by
  have roomy : ∀ taken e, taken ++ [e] <+: [.putc carriageReturn, .tx] →
      CrlfFits (idle.opened.run taken).toUart e := by
    rintro taken e ⟨rest, all⟩
    cases taken with
    | nil =>
        simp only [List.nil_append, List.cons_append, List.cons.injEq] at all
        exact all.1 ▸ fun _ => by decide
    | cons first taken =>
        cases taken with
        | nil =>
            simp only [List.nil_append, List.cons_append, List.cons.injEq] at all
            exact all.2.1 ▸ trivial
        | cons second taken => simp at all
  have whole := (transmits_run_iff idle_tx_inRange rfl [.putc carriageReturn, .tx]).mpr roomy _ List.prefix_rfl
  exact ⟨by decide, whole.1.lossless⟩

/-- Characters other than a carriage return, while there is room. -/
theorem run_putc {chars : List UInt8} (inRange : l.tx.InRange) (plain : carriageReturn ∉ chars)
    (room : l.tx.held + chars.length < bufferSize) :
    (l.run (chars.map .putc)).tx = l.tx.pushAll chars := by
  induction chars generalizing l with
  | nil => rfl
  | cons ch chars ih =>
      have notFull : l.tx.held + 1 < bufferSize := by
        simp only [List.length_cons] at room
        omega
      have other : ch ≠ carriageReturn := fun same => plain (same ▸ List.mem_cons_self)
      have first : (l.step (.putc ch)).tx = l.tx.push ch := by
        simp [Line.step, uartAsyncPutc_eq inRange, Nat.ne_of_lt notFull, expand, other, uartEnableTxIrq, Ring.pushAll]
      have later := ih (l := l.step (.putc ch)) (first ▸ inRange.push ch)
        (fun mem => plain (List.mem_cons_of_mem ch mem)) (by
          simp only [List.length_cons] at room
          rw [first, Ring.held_push inRange notFull]
          omega)
      rwa [first] at later

/-- With one slot free, all that is in the ring is lost. -/
theorem lost {n : Nat} (last : n + 2 = bufferSize) :
    let l := idle.opened.run (List.replicate n (.putc 65) ++ [.putc carriageReturn])
    l.sent ++ l.tx.items ≠ l.accepted.flatMap expand := by
  intro l lossless
  have before : Transmits (idle.opened.run (List.replicate n (.putc 65))) := by
    refine (transmits_opened idle_tx_inRange rfl).run fun taken e part => ?_
    have mem := part.subset (List.mem_append_right taken List.mem_cons_self)
    rw [List.eq_of_mem_replicate mem]
    intro cr
    cases cr
  have again : l = (idle.opened.run (List.replicate n (.putc 65))).step (.putc carriageReturn) :=
    Line.run_append _ _ _
  have fits := before.fits (again ▸ lossless)
  have empty : idle.opened.tx.held = 0 := rfl
  have room : idle.opened.tx.held + (List.replicate n (65 : UInt8)).length < bufferSize := by
    rw [empty, List.length_replicate]
    omega
  have stored := run_putc idle_tx_inRange (fun mem => by cases List.eq_of_mem_replicate mem) room
  have items := Ring.items_pushAll (r := idle.opened.tx) idle_tx_inRange room
  rw [List.map_replicate] at stored
  refine fits rfl ?_
  rw [stored, items, Ring.items_empty empty, List.nil_append, List.length_replicate]
  exact last

theorem transmits_lost :
    let l := idle.opened.run (List.replicate (bufferSize - 2) (.putc 65) ++ [.putc carriageReturn])
    l.sent ++ l.tx.items ≠ l.accepted.flatMap expand := lost rfl

end Transmitting

end OsdiKernel.Devices
