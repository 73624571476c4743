import OsdiKernel.Devices.UartRuns

/-!
# Strings on the serial line

`uart_puts` makes CR LF of a newline.  `uart_async_puts` makes CR and a newline of
it, and `uart_async_putc` makes CR LF of the CR.
-/

namespace OsdiKernel.Devices

variable {u : Uart} {c : UInt8} {str : List UInt8} {n : Nat}

/-- What the next runs of the handler send. -/
def txSent : Nat → Uart → List UInt8
  | 0, _ => []
  | n + 1, u => (uartIrqTxHandler u).2.toList ++ txSent n (uartIrqTxHandler u).1

/-- What is stored for a character of a string. -/
def asyncExpand (c : UInt8) : List UInt8 :=
  if c = newline then expand carriageReturn ++ expand newline else expand c

/-- The string that `uart_async_puts` outputs as `uart_puts` does: it is accepted, and any number
of runs of the handler sends what was in the ring and then its characters. -/
def OutputAs (u : Uart) (str : List UInt8) : Prop :=
  (uartAsyncPuts u str).2 = 1 ∧
    ∀ n, txSent n (uartAsyncPuts u str).1 = (u.tx.items ++ uartPuts str).take n

section Strings

/-- The handler sends the ring in order. -/
theorem txSent_eq (inRange : u.tx.InRange) (n : Nat) : txSent n u = u.tx.items.take n := by
  induction n generalizing u with
  | zero => rfl
  | succ n ih =>
      rw [txSent, uartIrqTxHandler_eq inRange]
      split
      next empty =>
          have later : txSent n (uartDisableTxIrq u) = u.tx.items.take n := ih inRange
          simp [later, Ring.items_empty empty]
      next some_ =>
          have later : txSent n { u with tx := u.tx.pop } = u.tx.pop.items.take n := ih inRange.pop
          simp [later, Ring.items_pop inRange some_]

/-- A character is accepted just when a slot is free, and then it is stored in full. -/
theorem uartAsyncPutc_accepted (inRange : u.tx.InRange) (accepted : (uartAsyncPutc u c).2 ≠ 0) :
    (uartAsyncPutc u c).1.tx = u.tx.pushAll (expand c) := by
  rw [uartAsyncPutc_eq inRange] at accepted ⊢
  split
  next full => simp [full] at accepted
  next => rfl

/-- What an accepted string has stored. -/
theorem uartAsyncPuts_accepted (inRange : u.tx.InRange) (accepted : (uartAsyncPuts u str).2 = 1) :
    (uartAsyncPuts u str).1.tx = u.tx.pushAll (str.flatMap asyncExpand) := by
  induction str generalizing u with
  | nil => rfl
  | cons c str ih =>
      simp only [uartAsyncPuts] at accepted ⊢
      by_cases isNewline : c = newline
      · simp only [if_pos isNewline] at accepted ⊢
        by_cases first : (uartAsyncPutc u carriageReturn).2 = 0
        · simp [first] at accepted
        · have stored := uartAsyncPutc_accepted inRange first
          have inRange' : (uartAsyncPutc u carriageReturn).1.tx.InRange := stored ▸ inRange.pushAll _
          simp only [if_neg first] at accepted ⊢
          by_cases second : (uartAsyncPutc (uartAsyncPutc u carriageReturn).1 newline).2 = 0
          · simp [second] at accepted
          · have stored' := uartAsyncPutc_accepted inRange' second
            simp only [if_neg second] at accepted ⊢
            rw [ih (stored' ▸ inRange'.pushAll _) accepted, stored', stored]
            simp [asyncExpand, isNewline, Ring.pushAll_append]
      · simp only [if_neg isNewline] at accepted ⊢
        by_cases refused : (uartAsyncPutc u c).2 = 0
        · simp [refused] at accepted
        · have stored := uartAsyncPutc_accepted inRange refused
          simp only [if_neg refused] at accepted ⊢
          rw [ih (stored ▸ inRange.pushAll _) accepted, stored]
          simp [asyncExpand, isNewline, Ring.pushAll_append]

/-- Without line ends there is one slot for each character. -/
theorem uartAsyncPuts_plain (inRange : u.tx.InRange) (noCr : carriageReturn ∉ str) (noNewline : newline ∉ str)
    (room : u.tx.held + str.length < bufferSize) : (uartAsyncPuts u str).2 = 1 := by
  induction str generalizing u with
  | nil => rfl
  | cons c str ih =>
      have slot : u.tx.held + 1 < bufferSize := by
        simp only [List.length_cons] at room
        omega
      have other : c ≠ carriageReturn := fun same => noCr (same ▸ List.mem_cons_self)
      have other' : c ≠ newline := fun same => noNewline (same ▸ List.mem_cons_self)
      have stored : uartAsyncPutc u c = (uartEnableTxIrq { u with tx := u.tx.push c }, 1) := by
        simp [uartAsyncPutc_eq inRange, Nat.ne_of_lt slot, expand, other, Ring.pushAll]
      have held : (u.tx.push c).held = u.tx.held + 1 := Ring.held_push inRange slot
      have later : (uartAsyncPuts (uartEnableTxIrq { u with tx := u.tx.push c }) str).2 = 1 := by
        refine ih (inRange.push c) (fun mem => noCr (List.mem_cons_of_mem c mem))
          (fun mem => noNewline (List.mem_cons_of_mem c mem)) ?_
        simp only [List.length_cons] at room
        simp only [uartEnableTxIrq, held]
        omega
      simp [uartAsyncPuts, other', stored, later]

theorem asyncExpand_plain (noCr : carriageReturn ∉ str) (noNewline : newline ∉ str) :
    str.flatMap asyncExpand = str := by
  induction str with
  | nil => rfl
  | cons c str ih =>
      simp only [List.mem_cons, not_or] at noCr noNewline
      simp [asyncExpand, expand, Ne.symm noCr.1, Ne.symm noNewline.1, ih noCr.2 noNewline.2]

theorem uartPuts_plain (noNewline : newline ∉ str) : uartPuts str = str := by
  induction str with
  | nil => rfl
  | cons c str ih =>
      simp only [List.mem_cons, not_or] at noNewline
      simp [uartPuts, Ne.symm noNewline.1, ih noNewline.2]

/-- Each newline costs a third slot. -/
theorem asyncExpand_length (noCr : carriageReturn ∉ str) :
    (str.flatMap asyncExpand).length = (uartPuts str).length + str.count newline := by
  induction str with
  | nil => rfl
  | cons c str ih =>
      simp only [List.mem_cons, not_or] at noCr
      have later := ih noCr.2
      by_cases isNewline : c = newline
      · simp [asyncExpand, expand, uartPuts, isNewline, later, newline, carriageReturn]
        omega
      · simp [asyncExpand, expand, uartPuts, isNewline, Ne.symm noCr.1, later]
        omega

theorem count_newline_le (str : List UInt8) : 2 * str.count newline ≤ (uartPuts str).length := by
  induction str with
  | nil => exact Nat.le_refl 0
  | cons c str ih =>
      by_cases isNewline : c = newline
      · simp [uartPuts, isNewline]
        omega
      · simp [uartPuts, isNewline]
        omega

end Strings

/-- A string without carriage returns, for which there is room, is output as `uart_puts` does it
just when it has no newline. -/
theorem outputAs_iff (inRange : u.tx.InRange) (noCr : carriageReturn ∉ str)
    (room : u.tx.items.length + (uartPuts str).length < bufferSize) :
    OutputAs u str ↔ newline ∉ str := by
  rw [Ring.items_length] at room
  constructor
  · rintro ⟨accepted, sends⟩ mem
    -- What the handler sends determines the number of characters in the ring.
    have stored := uartAsyncPuts_accepted inRange accepted
    have inRange' : (uartAsyncPuts u str).1.tx.InRange := stored ▸ inRange.pushAll _
    have all : (uartAsyncPuts u str).1.tx.items = u.tx.items ++ uartPuts str := by
      have many := sends ((uartAsyncPuts u str).1.tx.items.length + (u.tx.items ++ uartPuts str).length)
      rwa [txSent_eq inRange', List.take_of_length_le (Nat.le_add_right _ _),
        List.take_of_length_le (Nat.le_add_left _ _)] at many
    have held : (u.tx.pushAll (str.flatMap asyncExpand)).held = u.tx.held + (uartPuts str).length := by
      rw [← stored, ← Ring.items_length, all, List.length_append, Ring.items_length]
    -- The head has gone further by the number of newlines, which is less than a round.
    have head := Ring.head_eq (inRange.pushAll (str.flatMap asyncExpand))
    rw [Ring.pushAll_head inRange, Ring.pushAll_tail, held, asyncExpand_length noCr, Ring.head_eq inRange,
      Nat.mod_add_mod] at head
    have more : Nat.ModEq bufferSize (str.count newline) 0 := by
      refine Nat.ModEq.add_left_cancel' (u.tx.tail + (u.tx.held + (uartPuts str).length)) ?_
      simpa only [Nat.ModEq, Nat.add_zero, Nat.add_assoc] using head
    have positive : 0 < str.count newline := List.count_pos_iff.mpr mem
    have few := count_newline_le str
    exact Nat.ne_of_gt positive (more.eq_of_lt_of_lt (by omega) bufferSize_pos)
  · intro noNewline
    have plain := uartPuts_plain noNewline
    rw [plain] at room
    have accepted := uartAsyncPuts_plain inRange noCr noNewline room
    have stored := uartAsyncPuts_accepted inRange accepted
    refine ⟨accepted, fun n => ?_⟩
    rw [txSent_eq (stored ▸ inRange.pushAll _), stored, asyncExpand_plain noCr noNewline,
      Ring.items_pushAll inRange room, plain]

theorem outputAs_ok : OutputAs idle [111, 107] :=
  (outputAs_iff idle_tx_inRange (by decide) (by decide)).mpr (by decide)

/-- A newline is followed by another one. -/
theorem newline_twice :
    carriageReturn ∉ [newline] ∧ idle.tx.items.length + (uartPuts [newline]).length < bufferSize ∧
      txSent 3 (uartAsyncPuts idle [newline]).1 = [carriageReturn, newline, newline] ∧
      uartPuts [newline] = [carriageReturn, newline] ∧ ¬ OutputAs idle [newline] := by
  have sent : txSent 3 (uartAsyncPuts idle [newline]).1 = [carriageReturn, newline, newline] := by decide
  refine ⟨by decide, by decide, sent, rfl, fun same => ?_⟩
  have equal := sent.symm.trans (same.2 3)
  exact absurd equal (by decide)

end OsdiKernel.Devices
