import OsdiKernel.Lib.Aarch64

/-!
# Start-up code

The code of the kernel and of the bootloader that runs before `main`.  Both clear
the BSS section with the same instructions; the bootloader first copies itself.
-/

namespace OsdiKernel.Boot

open Aarch64

/-- The symbols of the linker script, and those of other files. -/
structure Symbols where
  bootBegin : Word
  bootEnd : Word
  bssBegin : Word
  bssEnd : Word
  stackTop : Word
  main : Word
  exceptionVectorTable : Word

/-- From the stack pointer to the end of `memzero`; `k` is the number of instructions before. -/
def setting (base : Word) (k : Nat) (s : Symbols) : List Instr :=
  [.load 0 s.stackTop,
    .movSp 0,
    .load 0 s.bssBegin,
    .load 1 s.bssEnd,
    .sub 1 1 0,
    .cbz 1 s.main,
    .bl (address base (k + 8)),
    .bl s.main,
    -- `memzero`
    .strZrPost 0 8,
    .subsImm 1 1 1,
    .bNe (address base (k + 8)),
    .ret]

/-- `proc_hang`. -/
def procHang (base : Word) (k : Nat) : List Instr := [.wfe, .b (address base k)]

/-- `_start`: only the first core goes on. -/
def start (base : Word) (procHang : Nat) : List Instr :=
  [.mov 20 0,
    .mrs 0 .mpidrEl1,
    .andImm 0 0 0xff,
    .cbz 0 (address base 5),
    .b (address base procHang)]

/-- `boot.S` of the kernel, and `set_exception_vector_table`, which it calls. -/
def kernelStart (base : Word) (s : Symbols) : List Instr :=
  start base 19 ++
  [.bl (address base 21),
    .bl (address base 27)] ++
  setting base 7 s ++
  procHang base 19 ++
  -- `from_el2_to_el1`
  [.movImm 0 (1 <<< 31),
    .msr .hcrEl2 0,
    .movImm 0 0x345,
    .msr .spsrEl2 0,
    .msr .elrEl2 30,
    .eret,
    -- `set_exception_vector_table`
    .adr 19 s.exceptionVectorTable,
    .msr .vbarEl1 19,
    .ret]

/-- `boot.S` of the bootloader. -/
def bootloaderStart (base : Word) (s : Symbols) : List Instr :=
  start base 35 ++
  [.adr 4 base,
    .load 1 s.bootBegin,
    .load 2 s.bootEnd,
    .sub 2 2 1,
    .cmp 4 1,
    .bEq (address base 22),
    .mov 0 4,
    -- `copy_bootloader`
    .cbz 2 (address base 17),
    .ldrPost 5 0 8,
    .strPost 5 1 8,
    .subImm 2 2 8,
    .b (address base 12),
    -- `finish_copy`
    .load 0 s.bootBegin,
    .sub 6 0 4,
    .adr 5 (address base 23),
    .add 5 5 6,
    .br 5,
    -- `already_relocated`
    .b (address base 23)] ++
  setting base 23 s ++
  procHang base 35

inductive Image where
  | kernel
  | bootloader

def Image.code (base : Word) (s : Symbols) : Image → List Instr
  | .kernel => kernelStart base s
  | .bootloader => bootloaderStart base s

/-- Where the code that clears the section begins: `master`, or `setting`. -/
def Image.entry : Image → Nat
  | .kernel => 5
  | .bootloader => 23

/-! ## The BSS section -/

/-- The next multiple of eight. -/
def align8 (n : Nat) : Nat := (n + 7) / 8 * 8

/-- Not in the section, nor in the padding behind it. -/
def Symbols.Outside (s : Symbols) (a : Word) : Prop :=
  a.toNat < s.bssBegin.toNat ∨ align8 s.bssEnd.toNat ≤ a.toNat

/-- The code gets to `main`, with the section cleared and nothing else changed. -/
def Clears (code : Word → Option Instr) (s : Symbols) (c : Cpu) : Prop :=
  ∃ c', Runs code c c' ∧ c'.pc = s.main ∧
    (∀ a : Word, s.bssBegin.toNat ≤ a.toNat → a.toNat < s.bssEnd.toNat → c'.mem a = 0) ∧
      ∀ a, s.Outside a → c'.mem a = c.mem a

/-- Memory is null already behind the section, as far as eight times its size. -/
def NullBehind (s : Symbols) (mem : Word → UInt8) : Prop :=
  ∀ a, s.Outside a → (a - s.bssBegin).toNat < 8 * (s.bssEnd - s.bssBegin).toNat → mem a = 0

/-! ## The copy -/

/-- The bootloader is loaded elsewhere, its image does not overlap the place for which it is
linked, and this code is a part of the image. -/
structure Loaded (base : Word) (s : Symbols) : Prop where
  ordered : s.bootBegin.toNat + 4 * (bootloaderStart base s).length ≤ s.bootEnd.toNat
  inMemory : base.toNat + (s.bootEnd.toNat - s.bootBegin.toNat) ≤ 2 ^ 64
  apart : base.toNat + (s.bootEnd.toNat - s.bootBegin.toNat) ≤ s.bootBegin.toNat ∨
    s.bootEnd.toNat ≤ base.toNat

/-- The code gets to the relocated address of `setting`, with the image copied and nothing else
changed but padding. -/
def Relocates (base : Word) (s : Symbols) (c : Cpu) : Prop :=
  ∃ c', Runs (placed base (bootloaderStart base s)) c c' ∧ c'.pc = address s.bootBegin 23 ∧
    (∀ i, s.bootBegin.toNat + i < s.bootEnd.toNat →
      c'.mem (s.bootBegin + BitVec.ofNat 64 i) = c.mem (base + BitVec.ofNat 64 i)) ∧
      ∀ a : Word, a.toNat < s.bootBegin.toNat ∨ align8 s.bootEnd.toNat ≤ a.toNat → c'.mem a = c.mem a

end OsdiKernel.Boot
