import Mathlib.Data.List.Induction
import OsdiKernel.Fs.System
import OsdiKernel.Fs.Transfer
import OsdiKernel.Sched.Descriptors

/-!
# The framebuffer

`dev_framebuffer_ioctl` asks the firmware for a framebuffer and notes where it is.
`dev_framebuffer_write` stores at the position of the file, which `lseek64` sets to
whatever a program asks for.
-/

namespace OsdiKernel.Devices

open Fs (einval)
open Sched (Word)

variable {H : Type}

/-! ## The mailbox -/

/-- What the firmware answers: the words that it leaves in the buffer, and the word that is
read from `MAILBOX_READ`. -/
structure Response where
  mbox : Nat → BitVec 32
  res : BitVec 32

def requestSucceed : BitVec 32 := 0x80000000
def mboxChProp : BitVec 8 := 8

/-- `mailbox_call`, for a buffer at an address. -/
def mailboxCall (mbox : Word) (channel : BitVec 8) (response : Response) : BitVec 32 :=
  let msg := (mbox.setWidth 32 &&& ~~~0xF) ||| (channel.setWidth 32 &&& 0xF)
  if msg = response.res then
    if response.mbox 1 &&& requestSucceed ≠ 0 then 1 else 0
  else 0

/-- The words of `mbox`; the last word of the array is not set. -/
def request : List (BitVec 32) :=
  [35 * 4, 0,
    0x48003, 8, 8, 1024, 768,
    0x48004, 8, 8, 1024, 768,
    0x48009, 8, 8, 0, 0,
    0x48005, 4, 4, 32,
    0x48006, 4, 4, 1,
    0x40001, 8, 8, 4096, 0,
    0x40008, 4, 4, 0,
    0]

/-! ## The device -/

/-- The memory, and the addresses to which `memcpy` has stored. -/
structure Memory where
  bytes : Word → UInt8
  stores : List Word

def Memory.store (m : Memory) (p : Word) (b : UInt8) : Memory :=
  ⟨Function.update m.bytes p b, m.stores ++ [p]⟩

/-- The files with their positions, the variables of the device and the memory. -/
structure Display (H : Type) extends Fs.State H where
  width : BitVec 32
  height : BitVec 32
  pitch : BitVec 32
  isrgb : BitVec 32
  lfb : Word
  memory : Memory

structure FramebufferInfo where
  width : BitVec 32
  height : BitVec 32
  pitch : BitVec 32
  isrgb : BitVec 32

/-- `memcpy(d, s, n)`. -/
def memcpy : Nat → Word → Word → Memory → Memory
  | 0, _, _, m => m
  | n + 1, d, s, m => memcpy n (d + 1) (s + 1) (m.store d (m.bytes s))

/-- The position of a file, which is a `size_t`. -/
def Display.pos (m : Display H) (file : Nat) : Word := BitVec.ofNat 64 (m.files file).fPos

/-- The length for `memcpy` is an `unsigned int`. -/
def devFramebufferWrite (m : Display H) (file : Option Nat) (buf len : Word) : Display H × Int :=
  match file with
  | none => (m, einval)
  | some f =>
      let (s, done) := Fs.deviceWrite m.toState f buf.toNat len.toNat
      if buf = 0 ∨ len = 0 then (m, Fs.returned done)
      else
        ({ m with
          toState := s
          memory := memcpy (len.setWidth 32).toNat (m.lfb + m.pos f) buf m.memory }, Fs.returned done)

def devFramebufferLseek64 (m : Display H) (file : Option Nat) (offset : Word) (whence : BitVec 32) :
    Display H × Int :=
  match file with
  | none => (m, einval)
  | some f =>
      let (s, newPos) := Sched.fileLseek64 .framebuffer m.toState f offset.toInt whence.toInt
      ({ m with toState := s }, newPos)

/-- The firmware has given a framebuffer of the depth that was asked for. -/
def granted (mbox : Word) (response : Response) : Bool :=
  mailboxCall mbox mboxChProp response ≠ 0 ∧ response.mbox 20 = 32 ∧ response.mbox 28 ≠ 0

/-- A GPU address as an ARM address. -/
def armAddress (pointer : BitVec 32) : Word := (pointer &&& 0x3FFFFFFF).setWidth 64

/-- The structure that `info` points to is returned; `mbox` is the address of the buffer. -/
def devFramebufferIoctl (m : Display H) (info mbox : Word) (firmware : List (BitVec 32) → Response) :
    Display H × Int × Option FramebufferInfo :=
  if info = 0 then (m, einval, none)
  else
    let response := firmware request
    let m :=
      if granted mbox response then
        { m with
          width := response.mbox 5
          height := response.mbox 6
          pitch := response.mbox 33
          isrgb := response.mbox 24
          lfb := armAddress (response.mbox 28) }
      else m
    (m, 0, some ⟨m.width, m.height, m.pitch, m.isrgb⟩)

/-! ## Runs -/

/-- The calls on the device; `sys_write` passes a length below `2 ^ 32`. -/
inductive Op where
  | lseek64 (file : Option Nat) (offset : Word) (whence : BitVec 32)
  | write (file : Option Nat) (buf len : Word)
  | ioctl (info mbox : Word) (firmware : List (BitVec 32) → Response)

/-- The device after a call, and the result. -/
def Display.call (m : Display H) : Op → Display H × Int
  | .lseek64 file offset whence => devFramebufferLseek64 m file offset whence
  | .write file buf len => devFramebufferWrite m file buf len
  | .ioctl info mbox firmware =>
      let (m, ret, _) := devFramebufferIoctl m info mbox firmware
      (m, ret)

def Display.calls (m : Display H) (ops : List Op) : Display H := ops.foldl (fun m op => (m.call op).1) m

/-- The framebuffer that a call gets: its address and its size. -/
def Op.mapped : Op → Option (Word × Nat)
  | .ioctl info mbox firmware =>
      let response := firmware request
      if info ≠ 0 ∧ granted mbox response then
        some (armAddress (response.mbox 28), (response.mbox 33).toNat * (response.mbox 6).toNat)
      else none
  | _ => none

/-- The framebuffer of the last successful call. -/
def lastMapped (ops : List Op) : Option (Word × Nat) := ops.reverse.findSome? Op.mapped

/-- The addresses to which a call stores. -/
def Display.newStores (m : Display H) (op : Op) : List Word :=
  (m.call op).1.memory.stores.drop m.memory.stores.length

/-- A call stores in the framebuffer only, and a write for which that has no room is
truncated or refused. -/
structure Contained (region : Option (Word × Nat)) (m : Display H) (op : Op) : Prop where
  inside : ∀ a ∈ m.newStores op, ∃ base extent, region = some (base, extent) ∧
    base.toNat ≤ a.toNat ∧ a.toNat < base.toNat + extent
  refused : ∀ f buf len, op = .write (some f) buf len →
    (∀ base extent, region = some (base, extent) → extent < (m.pos f).toNat + len.toNat) →
      (m.newStores op).length < len.toNat ∨ (m.call op).2 = einval

/-- A write has nothing to copy, or room for what it copies behind the position of the file. -/
def Fits (m : Display H) : Op → Prop
  | .write (some f) buf len =>
      let n := (len.setWidth 32).toNat
      buf = 0 ∨ n = 0 ∨ (m.pos f).toNat + n ≤ m.pitch.toNat * m.height.toNat ∧
        m.lfb.toNat + (m.pos f).toNat + n ≤ 2 ^ 64
  | _ => True

/-- What is known of the variables when some framebuffer was the last. -/
def Noted (region : Option (Word × Nat)) (m : Display H) : Prop :=
  match region with
  | none => m.pitch.toNat * m.height.toNat = 0
  | some (base, extent) => m.lfb = base ∧ m.pitch.toNat * m.height.toNat = extent

/-! ## One call -/

section Call

variable {m m' : Display H} {op : Op} {region : Option (Word × Nat)} {file f n : Nat} {d s buf len : Word}

/-- The cells to which a copy stores. -/
def cells (d : Word) (n : Nat) : List Word := (List.range n).map fun i => d + BitVec.ofNat 64 i

theorem cells_succ (d : Word) (n : Nat) : cells d (n + 1) = d :: cells (d + 1) n := by
  unfold cells
  rw [List.range_succ_eq_map, List.map_cons, List.map_map]
  refine congrArg₂ List.cons (by simp) (List.map_congr_left fun i _ => ?_)
  rw [Function.comp_apply, Nat.succ_eq_add_one, BitVec.ofNat_add, BitVec.add_comm (BitVec.ofNat 64 i),
    ← BitVec.add_assoc]
  rfl

theorem memcpy_stores (n : Nat) (d s : Word) (m : Memory) : (memcpy n d s m).stores = m.stores ++ cells d n := by
  induction n generalizing d s m with
  | zero => exact (List.append_nil _).symm
  | succ n ih =>
      rw [memcpy, ih, cells_succ]
      exact List.append_assoc _ _ _

/-- A copy stays inside just when it fits; a copy around the end of the address space does not. -/
theorem cells_inside_iff {base extent pos : Nat} (at_ : d = BitVec.ofNat 64 (base + pos)) (low : base < 2 ^ 64)
    (offset : pos < 2 ^ 64) (small : extent < 2 ^ 64 - 1) (some_ : n ≠ 0) (short : n ≤ 2 ^ 32) :
    (∀ a ∈ cells d n, base ≤ a.toNat ∧ a.toNat < base + extent) ↔
      pos + n ≤ extent ∧ base + pos + n ≤ 2 ^ 64 := by
  have cell : ∀ i, (d + BitVec.ofNat 64 i).toNat = (base + pos + i) % 2 ^ 64 := by
    intro i
    rw [at_, ← BitVec.ofNat_add, BitVec.toNat_ofNat]
  constructor
  · intro inside
    have at_ : ∀ i < n, base ≤ (base + pos + i) % 2 ^ 64 ∧ (base + pos + i) % 2 ^ 64 < base + extent :=
      fun i below => cell i ▸ inside _ (List.mem_map_of_mem (List.mem_range.mpr below))
    have first := at_ 0 (Nat.pos_of_ne_zero some_)
    by_cases around : base + pos + n ≤ 2 ^ 64
    · have last := at_ (n - 1) (by omega)
      rw [Nat.mod_eq_of_lt (by omega)] at last
      omega
    · by_cases start : base + pos < 2 ^ 64
      · -- the cell at address 0 is stored to, and the last one of the address space before it
        have zero := at_ (2 ^ 64 - (base + pos)) (by omega)
        have last := at_ (2 ^ 64 - (base + pos) - 1) (by omega)
        rw [show base + pos + (2 ^ 64 - (base + pos)) = 2 ^ 64 by omega, Nat.mod_self] at zero
        rw [show base + pos + (2 ^ 64 - (base + pos) - 1) = 2 ^ 64 - 1 by omega] at last
        omega
      · omega
  · rintro ⟨room, within⟩ a member
    obtain ⟨i, below, rfl⟩ := List.mem_map.mp member
    have bound := List.mem_range.mp below
    rw [cell i, Nat.mod_eq_of_lt (by omega)]
    omega

theorem length_cells (d : Word) (n : Nat) : (cells d n).length = n := by simp [cells]

/-- What a write stores to. -/
theorem newStores_write (m : Display H) (f : Nat) (buf len : Word) :
    m.newStores (.write (some f) buf len) =
      if buf = 0 ∨ len = 0 then [] else cells (m.lfb + m.pos f) (len.setWidth 32).toNat := by
  unfold Display.newStores Display.call devFramebufferWrite
  dsimp only
  split
  · exact List.drop_length
  · rw [memcpy_stores]
    exact List.drop_left

/-- Only a write stores. -/
theorem newStores_other (m : Display H) (other : ∀ f buf len, op ≠ .write (some f) buf len) :
    m.newStores op = [] := by
  have same : (m.call op).1.memory = m.memory := by
    cases op with
    | lseek64 file offset whence => cases file <;> rfl
    | write file buf len =>
        cases file with
        | none => rfl
        | some f => exact absurd rfl (other f buf len)
    | ioctl info mbox firmware =>
        unfold Display.call devFramebufferIoctl
        dsimp only
        split
        · rfl
        · split <;> rfl
  unfold Display.newStores
  rw [same]
  exact List.drop_length

theorem noted_of_same (noted : Noted region m) (lfb : m'.lfb = m.lfb) (pitch : m'.pitch = m.pitch)
    (height : m'.height = m.height) : Noted region m' := by
  unfold Noted at noted ⊢
  rw [lfb, pitch, height]
  exact noted

/-- The variables change just with a call that gets a framebuffer. -/
theorem call_noted (noted : Noted region m) (op : Op) :
    Noted (op.mapped.or region) (m.call op).1 := by
  cases op with
  | lseek64 file offset whence =>
      cases file with
      | none => exact noted
      | some f => exact noted_of_same noted rfl rfl rfl
  | write file buf len =>
      cases file with
      | none => exact noted
      | some f =>
          unfold Display.call devFramebufferWrite
          dsimp only
          split
          · exact noted
          · exact noted_of_same noted rfl rfl rfl
  | ioctl info mbox firmware =>
      unfold Op.mapped Display.call devFramebufferIoctl
      dsimp only
      by_cases refused : info = 0
      · rw [if_pos refused, if_neg (fun gets => gets.1 refused)]
        exact noted
      · rw [if_neg refused]
        by_cases gets : granted mbox (firmware request)
        · rw [if_pos gets, if_pos ⟨refused, gets⟩]
          exact ⟨rfl, rfl⟩
        · rw [if_neg gets, if_neg (fun both => gets both.2)]
          exact noted

theorem Noted.extent_lt {base : Word} {extent : Nat} (noted : Noted (some (base, extent)) m) :
    extent < 2 ^ 64 - 1 := by
  have pitch := m.pitch.isLt
  have height := m.height.isLt
  have bound : m.pitch.toNat * m.height.toNat ≤ (2 ^ 32 - 1) * (2 ^ 32 - 1) :=
    Nat.mul_le_mul (by omega) (by omega)
  have same := noted.2
  omega

/-- The cells of a write that copies something. -/
theorem write_inside_iff (noted : Noted region m) (f : Nat) (some_ : n ≠ 0) (short : n ≤ 2 ^ 32) :
    (∀ a ∈ cells (m.lfb + m.pos f) n, ∃ base extent, region = some (base, extent) ∧
        base.toNat ≤ a.toNat ∧ a.toNat < base.toNat + extent) ↔
      (m.pos f).toNat + n ≤ m.pitch.toNat * m.height.toNat ∧ m.lfb.toNat + (m.pos f).toNat + n ≤ 2 ^ 64 := by
  have first : m.lfb + m.pos f + BitVec.ofNat 64 0 ∈ cells (m.lfb + m.pos f) n :=
    List.mem_map_of_mem (List.mem_range.mpr (Nat.pos_of_ne_zero some_))
  cases region with
  | none =>
      have nothing : m.pitch.toNat * m.height.toNat = 0 := noted
      refine ⟨fun inside => ?_, fun room => by omega⟩
      obtain ⟨base, extent, mapped, _⟩ := inside _ first
      cases mapped
  | some mapped =>
      obtain ⟨base, extent⟩ := mapped
      have at_ : m.lfb + m.pos f = BitVec.ofNat 64 (base.toNat + (m.pos f).toNat) := by
        rw [noted.1, BitVec.ofNat_add, BitVec.ofNat_toNat, BitVec.ofNat_toNat, BitVec.setWidth_eq, BitVec.setWidth_eq]
      have room := cells_inside_iff at_ base.isLt (m.pos f).isLt noted.extent_lt some_ short
      rw [noted.2, congrArg BitVec.toNat noted.1, ← room]
      refine ⟨fun inside a member => ?_, fun inside a member => ⟨base, extent, rfl, inside a member⟩⟩
      obtain ⟨base', extent', same, within⟩ := inside a member
      cases same
      exact within

theorem refuses (m : Display H) {f : Nat} (nothing : buf = 0 ∨ len = 0) :
    Fs.returned (Fs.deviceWrite m.toState f buf.toNat len.toNat).2 = einval := by
  have nothing' : buf.toNat = 0 ∨ len.toNat = 0 :=
    nothing.imp (fun null => by rw [null]; rfl) fun empty => by rw [empty]; rfl
  unfold Fs.deviceWrite
  rw [if_pos nothing']
  rfl

/-- A write is contained just when it fits. -/
theorem contained_iff (noted : Noted region m) (op : Op) : Contained region m op ↔ Fits m op := by
  by_cases writes : ∃ f buf len, op = .write (some f) buf len
  · obtain ⟨f, buf, len, rfl⟩ := writes
    have stores := newStores_write m f buf len
    by_cases nothing : buf = 0 ∨ len = 0
    · rw [if_pos nothing] at stores
      have fits : Fits m (.write (some f) buf len) := by
        rcases nothing with null | empty
        · exact Or.inl null
        · exact Or.inr (Or.inl (by rw [empty]; rfl))
      refine ⟨fun _ => fits, fun _ => ⟨fun a member => ?_, fun f' buf' len' same _ => Or.inr ?_⟩⟩
      · rw [stores] at member
        cases member
      · unfold Display.call devFramebufferWrite
        dsimp only
        rw [if_pos nothing]
        exact refuses m nothing
    · rw [if_neg nothing] at stores
      obtain ⟨hasBuf, hasLen⟩ := not_or.mp nothing
      by_cases copies : (len.setWidth 32).toNat = 0
      · rw [copies] at stores
        refine ⟨fun _ => Or.inr (Or.inl copies), fun _ => ⟨fun a member => ?_, fun f' buf' len' same _ => Or.inl ?_⟩⟩
        · rw [stores] at member
          cases member
        · cases same
          rw [stores]
          exact Nat.pos_of_ne_zero fun zero => hasLen (BitVec.eq_of_toNat_eq zero)
      · have inside := write_inside_iff noted f copies (Nat.le_of_lt (len.setWidth 32).isLt)
        rw [← stores] at inside
        refine ⟨fun contained => Or.inr (Or.inr (inside.mp contained.inside)), fun fits => ?_⟩
        have room := (fits.resolve_left hasBuf).resolve_left copies
        refine ⟨inside.mpr room, fun f' buf' len' same unfit => Or.inl ?_⟩
        cases same
        rw [stores, length_cells]
        refine (Nat.lt_or_ge _ _).resolve_right fun whole => ?_
        have space := room.1
        cases region with
        | none =>
            have nothing : m.pitch.toNat * m.height.toNat = 0 := noted
            omega
        | some mapped =>
            have less := unfit mapped.1 mapped.2 rfl
            rw [noted.2] at space
            omega
  · have others : ∀ f buf len, op ≠ .write (some f) buf len :=
      fun f buf len same => writes ⟨f, buf, len, same⟩
    refine ⟨fun _ => ?_, fun _ => ⟨fun a member => ?_, fun f buf len same => absurd same (others f buf len)⟩⟩
    · unfold Fits
      split
      · exact absurd rfl (others _ _ _)
      · trivial
    · rw [newStores_other m others] at member
      cases member

end Call

/-! ## All calls -/

/-- The variables of the device before the first call. -/
structure Unmapped (m : Display H) : Prop where
  width : m.width = 0
  height : m.height = 0
  pitch : m.pitch = 0
  isrgb : m.isrgb = 0
  lfb : m.lfb = 0

section Calls

variable {start : Display H} {ops : List Op}

theorem calls_concat (start : Display H) (ops : List Op) (op : Op) :
    start.calls (ops ++ [op]) = ((start.calls ops).call op).1 := List.foldl_concat _ _ _ _

theorem lastMapped_concat (ops : List Op) (op : Op) :
    lastMapped (ops ++ [op]) = op.mapped.or (lastMapped ops) := by
  unfold lastMapped
  rw [List.reverse_append, List.reverse_singleton, List.singleton_append, List.findSome?_cons]
  cases op.mapped <;> rfl

theorem calls_noted (unmapped : Unmapped start) (ops : List Op) : Noted (lastMapped ops) (start.calls ops) := by
  induction ops using List.reverseRecOn with
  | nil =>
      change start.pitch.toNat * start.height.toNat = 0
      rw [unmapped.pitch]
      exact Nat.zero_mul _
  | append_singleton ops op ih =>
      rw [lastMapped_concat, calls_concat]
      exact call_noted ih op

/-- Each call of a run is contained just when each write of it fits. -/
theorem run_contained_iff (unmapped : Unmapped start) (ops : List Op) :
    (∀ before op after, ops = before ++ op :: after →
        Contained (lastMapped before) (start.calls before) op) ↔
      ∀ before op after, ops = before ++ op :: after → Fits (start.calls before) op :=
  forall_congr' fun before => forall₂_congr fun op _ =>
    imp_congr_right fun _ => contained_iff (calls_noted unmapped before) op

end Calls

/-! ## Two runs -/

open Fs (BootHeap initState)

/-- The device is opened. -/
def opened : Fs.State BootHeap × Int × Option Nat :=
  (Fs.vfsOpen initState none
    ['/', 'd', 'e', 'v', '/', 'f', 'r', 'a', 'm', 'e', 'b', 'u', 'f', 'f', 'e', 'r'] 0).get (by decide +kernel)

def displayFile : Nat := opened.2.2.get (by decide +kernel)

def bootDisplay : Display BootHeap :=
  { opened.1 with width := 0, height := 0, pitch := 0, isrgb := 0, lfb := 0, memory := ⟨fun _ => 0, []⟩ }

theorem bootDisplay_unmapped : Unmapped bootDisplay := ⟨rfl, rfl, rfl, rfl, rfl⟩

/-- The firmware grants what was asked for, at address `0x3c100000`. -/
def grants (mbox : List (BitVec 32)) : Response where
  mbox i := if i = 1 then 0x80000000 else if i = 28 then 0xfc100000 else if i = 33 then 4096 else mbox.getD i 0
  res := 0x1008

def mapsFirst : Op := .ioctl 0x2000 0x1000 grants

def drawsFirst : Op := .write (some displayFile) 0x3000 64

theorem run_contained_first : Contained (lastMapped [mapsFirst]) (bootDisplay.calls [mapsFirst]) drawsFirst := by
  have fits : Fits (bootDisplay.calls [mapsFirst]) drawsFirst := by
    refine Or.inr (Or.inr ?_)
    decide +kernel
  refine (run_contained_iff bootDisplay_unmapped [mapsFirst, drawsFirst]).mpr ?_ [mapsFirst] drawsFirst [] rfl
  intro before op after shape
  rcases before with _ | ⟨first, _ | ⟨second, rest⟩⟩
  · cases shape
    trivial
  · cases shape
    exact fits
  · simp at shape

/-- A write before the framebuffer is known goes to address 0. -/
theorem early_write_escapes : ¬ ∀ before op after, [drawsFirst] = before ++ op :: after →
    Contained (lastMapped before) (bootDisplay.calls before) op := by
  intro contained
  have stores : (bootDisplay.newStores drawsFirst).head? = some 0 := by decide +kernel
  obtain ⟨base, extent, mapped, _⟩ := (contained [] _ [] rfl).inside 0 (List.mem_of_mem_head? stores)
  cases mapped

end OsdiKernel.Devices
