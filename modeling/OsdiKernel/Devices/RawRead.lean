import OsdiKernel.Archive.Model
import OsdiKernel.Devices.Uart
import OsdiKernel.Sched.Model

/-!
# Reading from the serial line

`uart_getn` stores a null character behind the characters that it reads, and the
system call passes it the buffer of the program.
-/

namespace OsdiKernel.Devices

open Archive (ascii)
open Sched (TrapFrame Word)

/-- The memory, the characters that the device receives, how many of them have been read, and
what was written to the device. -/
structure Port where
  memory : Word → UInt8
  received : Nat → UInt8
  taken : Nat
  output : List UInt8

def Port.store (p : Port) (a : Word) (b : UInt8) : Port := { p with memory := Function.update p.memory a b }

def Port.print (p : Port) (text : List UInt8) : Port := { p with output := p.output ++ uartPuts text }

/-- A received character is waited for. -/
def uartGetc (p : Port) : Port × UInt8 := ({ p with taken := p.taken + 1 }, p.received p.taken)

/-- The loop of `uart_getn`, with the store behind it. -/
def getnLoop : Nat → Word → Port → Port
  | 0, ptr, p => p.store ptr 0
  | n + 1, ptr, p =>
      let (p, ch) := uartGetc p
      getnLoop n (ptr + 1) (p.store ptr ch)

def uartGetn (buffer : Word) (n : BitVec 32) (p : Port) : Port × BitVec 32 := (getnLoop n.toNat buffer p, n)

def sizeTooLarge : List UInt8 := ascii (String.toList "[WARN] sys_uart_read: size is too large\r\n")
def sizeInvalid : List UInt8 := ascii (String.toList "[WARN] sys_uart_read: size is invalid\r\n")
def bufIsNull : List UInt8 := ascii (String.toList "[WARN] sys_uart_read: buf is NULL\r\n")

/-- The size is an `int`. -/
def sysUartRead (frame : TrapFrame) (p : Port) : TrapFrame × Port :=
  let buf := frame.x 0
  let size := (frame.x 1).setWidth 32
  let (p, size) := if 4096 < size.toInt then (p.print sizeTooLarge, 4096) else (p, size)
  if size.toInt ≤ 0 then (frame, p.print sizeInvalid)
  else if buf = 0 then (frame, p.print bufIsNull)
  else
    let (p, i) := uartGetn buf size p
    (frame.setX 0 (i.setWidth 64), p)

/-! ## What is asked for -/

/-- The number of characters for a requested size. -/
def requested (size : Word) : Nat := min size.toNat 4096

/-- The requested characters are in the buffer, their number is returned, and no other memory
has changed. -/
structure ReadsExactly (frame : TrapFrame) (p : Port) : Prop where
  stored : ∀ i < requested (frame.x 1),
    (sysUartRead frame p).2.memory (frame.x 0 + BitVec.ofNat 64 i) = p.received (p.taken + i)
  returned : (sysUartRead frame p).1.x 0 = BitVec.ofNat 64 (requested (frame.x 1))
  frame : ∀ a, (∀ i < requested (frame.x 1), a ≠ frame.x 0 + BitVec.ofNat 64 i) →
    (sysUartRead frame p).2.memory a = p.memory a

/-- The system call reads. -/
def Serves (frame : TrapFrame) : Prop := 0 < ((frame.x 1).setWidth 32).toInt ∧ frame.x 0 ≠ 0

/-- The size means the same as an `int`. -/
def SizeKept (size : Word) : Prop := min (size.setWidth 32).toInt 4096 = requested size

/-- When it reads, the size is kept and the character behind the buffer is null already; when it
does not, the buffer holds what is asked for and its address is the number of characters. -/
def ReadCondition (frame : TrapFrame) (p : Port) : Prop :=
  let n := requested (frame.x 1)
  Serves frame ∧ SizeKept (frame.x 1) ∧ p.memory (frame.x 0 + BitVec.ofNat 64 n) = 0 ∨
    ¬ Serves frame ∧ frame.x 0 = BitVec.ofNat 64 n ∧
      ∀ i < n, p.memory (frame.x 0 + BitVec.ofNat 64 i) = p.received (p.taken + i)

section Reading

variable {frame : TrapFrame} {p : Port} {n i : Nat} {ptr a : Word}

/-- The received characters are stored one after the other, and then the null character. -/
theorem getnLoop_memory (small : n < 2 ^ 64) (a : Word) : (getnLoop n ptr p).memory a =
    if (a - ptr).toNat < n then p.received (p.taken + (a - ptr).toNat)
    else if (a - ptr).toNat = n then 0 else p.memory a := by
  induction n generalizing ptr p with
  | zero =>
      by_cases here : a = ptr
      · simp [getnLoop, Port.store, here]
      · have other : (a - ptr).toNat ≠ 0 := by bv_omega
        rw [if_neg (Nat.not_lt_zero _), if_neg other]
        exact Function.update_of_ne here _ _
  | succ n ih =>
      rw [getnLoop, ih (by omega)]
      by_cases here : a = ptr
      · have last : (a - (ptr + 1)).toNat = 2 ^ 64 - 1 := by bv_omega
        have start : (a - ptr).toNat = 0 := by bv_omega
        rw [last, start, if_neg (by omega), if_neg (by omega), if_pos (Nat.succ_pos n)]
        simp [uartGetc, Port.store, here]
      · have before : (a - ptr).toNat = (a - (ptr + 1)).toNat + 1 := by bv_omega
        have kept : (({ p with taken := p.taken + 1 } : Port).store ptr (p.received p.taken)).memory a = p.memory a :=
          Function.update_of_ne here _ _
        simp only [before, uartGetc, Nat.add_lt_add_iff_right, Nat.add_right_cancel_iff, kept]
        simp only [Port.store, Nat.add_assoc, Nat.add_comm 1]

theorem offset_toNat (small : i < 2 ^ 64) : (ptr + BitVec.ofNat 64 i - ptr).toNat = i := by
  have back : ptr + BitVec.ofNat 64 i - ptr = BitVec.ofNat 64 i := by bv_omega
  rw [back, BitVec.toNat_ofNat, Nat.mod_eq_of_lt small]

theorem requested_le (size : Word) : requested size ≤ 4096 := Nat.min_le_right _ _

/-- The number of characters that the system call reads. -/
def clamped (size : Word) : Nat := (min (size.setWidth 32).toInt 4096).toNat

theorem sysUartRead_refused (refused : ¬ Serves frame) :
    (sysUartRead frame p).1 = frame ∧ (sysUartRead frame p).2.memory = p.memory := by
  unfold sysUartRead
  unfold Serves at refused
  generalize (frame.x 1).setWidth 32 = size at refused ⊢
  have nothing : size.toInt ≤ 0 ∨ frame.x 0 = 0 := by
    by_contra serves
    rw [not_or] at serves
    exact refused ⟨by omega, serves.2⟩
  by_cases large : 4096 < size.toInt
  · have null : frame.x 0 = 0 := nothing.resolve_left (by omega)
    simp [large, null, Port.print]
  · obtain invalid | null := nothing
    · simp [large, invalid, Port.print]
    · by_cases invalid : size.toInt ≤ 0 <;> simp [large, invalid, null, Port.print]

theorem toInt_of_pos {size : BitVec 32} (positive : 0 < size.toInt) : size.toInt = size.toNat := by
  rw [BitVec.toInt_eq_toNat_cond] at positive ⊢
  split at positive
  next small => rw [if_pos small]
  next => omega

theorem sysUartRead_served (serves : Serves frame) :
    (sysUartRead frame p).1.x 0 = BitVec.ofNat 64 (clamped (frame.x 1)) ∧
      ∃ p', (sysUartRead frame p).2 = getnLoop (clamped (frame.x 1)) (frame.x 0) p' ∧
        p'.memory = p.memory ∧ p'.received = p.received ∧ p'.taken = p.taken := by
  unfold Serves at serves
  unfold sysUartRead clamped
  generalize (frame.x 1).setWidth 32 = size at serves ⊢
  obtain ⟨positive, some_⟩ := serves
  by_cases large : 4096 < size.toInt
  · have most : (min size.toInt 4096).toNat = 4096 := by omega
    have count : (4096 : BitVec 32).toNat = 4096 := rfl
    simp only [if_pos large, if_neg (show ¬ (4096 : BitVec 32).toInt ≤ 0 by decide), if_neg some_, most, uartGetn,
      count]
    exact ⟨Function.update_self 0 _ frame.x, p.print sizeTooLarge, rfl, rfl, rfl, rfl⟩
  · have whole : (min size.toInt 4096).toNat = size.toNat := by
      have same := toInt_of_pos positive
      omega
    simp only [if_neg large, if_neg (Int.not_le.mpr positive), if_neg some_, whole, uartGetn,
      BitVec.ofNat_toNat]
    exact ⟨Function.update_self 0 _ frame.x, p, rfl, rfl, rfl, rfl⟩

theorem clamped_le (size : Word) : clamped size ≤ 4096 := by
  unfold clamped
  omega

/-- The memory after a read, by the offset from the buffer. -/
theorem sysUartRead_memory (serves : Serves frame) (a : Word) : (sysUartRead frame p).2.memory a =
    if (a - frame.x 0).toNat < clamped (frame.x 1) then p.received (p.taken + (a - frame.x 0).toNat)
    else if (a - frame.x 0).toNat = clamped (frame.x 1) then 0 else p.memory a := by
  obtain ⟨_, p', runs, memory, received, taken⟩ := sysUartRead_served (p := p) serves
  have small := clamped_le (frame.x 1)
  rw [runs, getnLoop_memory (by omega), memory, received, taken]

end Reading

/-- The call does what is asked for just under the condition on the state before it. -/
theorem readsExactly_iff (frame : TrapFrame) (p : Port) : ReadsExactly frame p ↔ ReadCondition frame p := by
  have small := requested_le (frame.x 1)
  have small' := clamped_le (frame.x 1)
  by_cases serves : Serves frame
  · have returned := (sysUartRead_served (p := p) serves).1
    have memory := sysUartRead_memory (p := p) serves
    have kept : SizeKept (frame.x 1) ↔ clamped (frame.x 1) = requested (frame.x 1) := by
      have positive := serves.1
      unfold SizeKept clamped
      omega
    constructor
    · intro exact_
      have equal : clamped (frame.x 1) = requested (frame.x 1) := by
        have same := congrArg BitVec.toNat (returned.symm.trans exact_.returned)
        rwa [BitVec.toNat_ofNat, BitVec.toNat_ofNat, Nat.mod_eq_of_lt (by omega), Nat.mod_eq_of_lt (by omega)] at same
      refine .inl ⟨serves, kept.mpr equal, ?_⟩
      rw [← exact_.frame _ fun i below same => ?_, memory, offset_toNat (by omega), equal,
        if_neg (Nat.lt_irrefl _), if_pos rfl]
      have offsets := congrArg (fun a => (a - frame.x 0).toNat) same
      simp only [offset_toNat (show requested (frame.x 1) < 2 ^ 64 by omega),
        offset_toNat (show i < 2 ^ 64 by omega)] at offsets
      exact Nat.ne_of_gt below offsets
    · rintro (⟨_, sizeKept, null⟩ | ⟨refused, _⟩)
      · have equal := kept.mp sizeKept
        rw [equal] at returned memory
        refine ⟨fun i below => ?_, returned, fun a outside => ?_⟩
        · rw [memory, offset_toNat (by omega), if_pos below]
        · have back : frame.x 0 + BitVec.ofNat 64 (a - frame.x 0).toNat = a := by
            rw [BitVec.ofNat_toNat, BitVec.setWidth_eq]
            bv_omega
          rw [memory]
          split
          next inside => exact absurd back.symm (outside _ inside)
          next =>
              split
              next last => rw [← null, ← last, back]
              next => rfl
      · exact absurd serves refused
  · obtain ⟨same, memory⟩ := sysUartRead_refused (p := p) serves
    constructor
    · intro exact_
      have returned := exact_.returned
      rw [same] at returned
      exact .inr ⟨serves, returned, fun i below => memory ▸ exact_.stored i below⟩
    · rintro (⟨serves', _⟩ | ⟨_, address, stored⟩)
      · exact absurd serves' serves
      · exact ⟨fun i below => memory ▸ stored i below, (congrArg (fun f : TrapFrame => f.x 0) same).trans address, fun a _ => congrFun memory a⟩

/-- A program asks for one character at an address. -/
def readOne : TrapFrame := ⟨fun i => if i = 0 then 0x1000 else 1, 0, 0, 0⟩

/-- There is no null character in memory. -/
def filled : Port := ⟨fun _ => 0xff, fun _ => 65, 0, []⟩

/-- The character behind a buffer for one character is overwritten. -/
theorem read_overruns : (sysUartRead readOne filled).2.memory 0x1001 = 0 ∧ filled.memory 0x1001 = 0xff ∧
    ¬ ReadsExactly readOne filled := by
  have null : (sysUartRead readOne filled).2.memory 0x1001 = 0 := by decide
  refine ⟨null, rfl, fun exact_ => ?_⟩
  have behind : ∀ i < requested (readOne.x 1), (0x1001 : Word) ≠ readOne.x 0 + BitVec.ofNat 64 i := by decide
  exact absurd (null.symm.trans (exact_.frame 0x1001 behind)) (by decide)

end OsdiKernel.Devices
