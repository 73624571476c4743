import Mathlib.Logic.Relation
import Mathlib.Logic.Function.Basic
import OsdiKernel.Lib.Bytes

/-!
# A part of AArch64

The registers of one core with its memory, and the instructions that code needs
before there is a stack.  The instructions are at addresses; where there is none,
the core is at rest, and its state belongs to other code.
-/

namespace OsdiKernel.Aarch64

abbrev Word := BitVec 64

/-- There are registers, which literals name. -/
instance registers_ne_zero : NeZero 31 := ⟨by decide⟩

inductive SysReg where
  | mpidrEl1
  | hcrEl2
  | spsrEl2
  | elrEl2
  | vbarEl1
  deriving DecidableEq

structure Cpu where
  x : Fin 31 → Word
  sp : Word
  z : Bool
  pc : Word
  sys : SysReg → Word
  mem : Word → UInt8

/-- The operand of a branch is the address of its label.  `ldr` with a constant and `adr` are
`load` and `adr`. -/
inductive Instr where
  | load (d : Fin 31) (value : Word)
  | adr (d : Fin 31) (label : Word)
  | mov (d n : Fin 31)
  | movImm (d : Fin 31) (value : Word)
  | movSp (n : Fin 31)
  | andImm (d n : Fin 31) (value : Word)
  | add (d n m : Fin 31)
  | sub (d n m : Fin 31)
  | subImm (d n : Fin 31) (value : Word)
  | subsImm (d n : Fin 31) (value : Word)
  | cmp (n m : Fin 31)
  | ldrPost (t n : Fin 31) (offset : Word)
  | strPost (t n : Fin 31) (offset : Word)
  | strZrPost (n : Fin 31) (offset : Word)
  | mrs (d : Fin 31) (reg : SysReg)
  | msr (reg : SysReg) (n : Fin 31)
  | wfe
  | b (label : Word)
  | bEq (label : Word)
  | bNe (label : Word)
  | cbz (n : Fin 31) (label : Word)
  | bl (label : Word)
  | br (n : Fin 31)
  | ret
  | eret

/-! ## Memory -/

/-- The eight bytes from an address on, around the end of the address space. -/
def load64 (mem : Word → UInt8) (a : Word) : Word := loadDouble (fun i => mem (a + BitVec.ofNat 64 i)) 0

def store64 (mem : Word → UInt8) (a value : Word) : Word → UInt8 := fun p =>
  if (p - a).toNat < 8 then (doubleBytes value).getD (p - a).toNat 0 else mem p

/-! ## Execution -/

namespace Cpu

def setX (c : Cpu) (d : Fin 31) (value : Word) : Cpu := { c with x := Function.update c.x d value }

def next (c : Cpu) : Cpu := { c with pc := c.pc + 4 }

def goto (c : Cpu) (label : Word) : Cpu := { c with pc := label }

def exec (c : Cpu) : Instr → Cpu
  | .load d value | .movImm d value => (c.setX d value).next
  | .adr d label => (c.setX d label).next
  | .mov d n => (c.setX d (c.x n)).next
  | .movSp n => { c with sp := c.x n }.next
  | .andImm d n value => (c.setX d (c.x n &&& value)).next
  | .add d n m => (c.setX d (c.x n + c.x m)).next
  | .sub d n m => (c.setX d (c.x n - c.x m)).next
  | .subImm d n value => (c.setX d (c.x n - value)).next
  | .subsImm d n value => { c.setX d (c.x n - value) with z := c.x n - value = 0 }.next
  | .cmp n m => { c with z := c.x n - c.x m = 0 }.next
  | .ldrPost t n offset => ((c.setX t (load64 c.mem (c.x n))).setX n (c.x n + offset)).next
  | .strPost t n offset => ({ c with mem := store64 c.mem (c.x n) (c.x t) }.setX n (c.x n + offset)).next
  | .strZrPost n offset => ({ c with mem := store64 c.mem (c.x n) 0 }.setX n (c.x n + offset)).next
  | .mrs d reg => (c.setX d (c.sys reg)).next
  | .msr reg n => { c with sys := Function.update c.sys reg (c.x n) }.next
  | .wfe => c.next
  | .b label => c.goto label
  | .bEq label => if c.z then c.goto label else c.next
  | .bNe label => if c.z then c.next else c.goto label
  | .cbz n label => if c.x n = 0 then c.goto label else c.next
  | .bl label => (c.setX 30 (c.pc + 4)).goto label
  | .br n => c.goto (c.x n)
  | .ret => c.goto (c.x 30)
  | .eret => { c with pc := c.sys .elrEl2, z := (c.sys .spsrEl2).getLsbD 30 }

end Cpu

/-- The next instruction is another one than that of the next address. -/
def Instr.jumps : Instr → Bool
  | .b _ | .bEq _ | .bNe _ | .cbz _ _ | .bl _ | .br _ | .ret | .eret => true
  | _ => false

/-- The address of an instruction. -/
def address (base : Word) (k : Nat) : Word := base + BitVec.ofNat 64 (4 * k)

/-- The instructions at their addresses. -/
def placed (base : Word) (instrs : List Instr) (a : Word) : Option Instr :=
  if (a - base).toNat % 4 = 0 then instrs[(a - base).toNat / 4]? else none

def step (code : Word → Option Instr) (c : Cpu) : Option Cpu := (code c.pc).map c.exec

/-- Some instructions are executed. -/
def Runs (code : Word → Option Instr) : Cpu → Cpu → Prop :=
  Relation.ReflTransGen fun c c' => step code c = some c'

section Memory

variable {mem : Word → UInt8} {a value p : Word} {d : Nat}

theorem doubleBytes_load (f : Nat → UInt8) (inside : d < 8) : (doubleBytes (loadDouble f 0)).getD d 0 = f d := by
  have low : (loadDouble f 0).extractLsb' 0 32 = loadWord f 0 := by
    refine BitVec.eq_of_getLsbD_eq fun i small => ?_
    rw [BitVec.getLsbD_extractLsb', loadDouble, BitVec.getLsbD_append]
    simp [small]
  have high : (loadDouble f 0).extractLsb' 32 32 = loadWord f 4 := by
    refine BitVec.eq_of_getLsbD_eq fun i small => ?_
    rw [BitVec.getLsbD_extractLsb', loadDouble, BitVec.getLsbD_append]
    simp [small]
  have bytes : doubleBytes (loadDouble f 0) = [f 0, f 1, f 2, f 3, f 4, f 5, f 6, f 7] := by
    rw [doubleBytes, low, high, loadWord, loadWord, littleEndian_word, littleEndian_word]
    rfl
  rw [bytes]
  match d, inside with
  | 0, _ | 1, _ | 2, _ | 3, _ | 4, _ | 5, _ | 6, _ | 7, _ => rfl

/-- A copied word, byte by byte. -/
theorem store64_load64 (mem : Word → UInt8) (a b p : Word) : store64 mem a (load64 mem b) p =
    if (p - a).toNat < 8 then mem (b + (p - a)) else mem p := by
  unfold store64
  split
  next inside => rw [load64, doubleBytes_load _ inside, BitVec.ofNat_toNat, BitVec.setWidth_eq]
  next => rfl

theorem store64_zero (mem : Word → UInt8) (a p : Word) :
    store64 mem a 0 p = if (p - a).toNat < 8 then 0 else mem p := by
  unfold store64
  split
  next inside =>
      match (p - a).toNat, inside with
      | 0, _ | 1, _ | 2, _ | 3, _ | 4, _ | 5, _ | 6, _ | 7, _ => rfl
  next => rfl

end Memory

section Runs

variable {code : Word → Option Instr} {c c' c'' : Cpu} {instrs block rest : List Instr} {base : Word} {k : Nat} {i : Instr}

theorem address_succ (base : Word) (k : Nat) : address base k + 4 = address base (k + 1) := by
  unfold address
  rw [Nat.mul_add, BitVec.ofNat_add, BitVec.add_assoc]
  rfl

theorem placed_address (small : k < 2 ^ 62) : placed base instrs (address base k) = instrs[k]? := by
  have offset : (address base k - base).toNat = 4 * k := by
    have back : address base k - base = BitVec.ofNat 64 (4 * k) := by
      unfold address
      rw [BitVec.add_comm]
      exact BitVec.add_sub_cancel _ _
    rw [back, BitVec.toNat_ofNat, Nat.mod_eq_of_lt (by omega)]
  unfold placed
  rw [offset, if_pos (Nat.mul_mod_right 4 k), Nat.mul_div_cancel_left k (by decide)]

theorem Runs.refl (code : Word → Option Instr) (c : Cpu) : Runs code c c := Relation.ReflTransGen.refl

theorem Runs.trans (runs : Runs code c c') (later : Runs code c' c'') : Runs code c c'' :=
  Relation.ReflTransGen.trans runs later

/-- The instruction at the program counter is executed. -/
theorem Runs.one (here : code c.pc = some i) : Runs code c (c.exec i) :=
  Relation.ReflTransGen.single (by simp [step, here])

theorem Instr.pc_exec (straight : i.jumps = false) (c : Cpu) : (c.exec i).pc = c.pc + 4 := by
  cases i <;> first | rfl | cases straight

/-- Instructions that do not jump are executed in order. -/
theorem Runs.straight (at_ : c.pc = address base k) (here : instrs.drop k = block ++ rest)
    (small : instrs.length < 2 ^ 62) (plain : ∀ i ∈ block, i.jumps = false) :
    Runs (placed base instrs) c (block.foldl Cpu.exec c) ∧
      (block.foldl Cpu.exec c).pc = address base (k + block.length) := by
  induction block generalizing c k with
  | nil => exact ⟨Runs.refl _ c, at_⟩
  | cons i block ih =>
      have inside : instrs[k]? = some i := by
        have head := congrArg List.head? here
        rwa [List.head?_drop] at head
      have bound := (List.getElem?_eq_some_iff.mp inside).1
      have first : placed base instrs c.pc = some i := by
        rw [at_, placed_address (Nat.lt_trans bound small)]
        exact inside
      have pc : (c.exec i).pc = address base (k + 1) := by
        rw [Instr.pc_exec (plain i List.mem_cons_self), at_, address_succ]
      have tail : instrs.drop (k + 1) = block ++ rest := by
        rw [← List.tail_drop, here]
        rfl
      obtain ⟨runs, ends⟩ := ih pc tail fun j mem => plain j (List.mem_cons_of_mem i mem)
      refine ⟨(Runs.one first).trans runs, ?_⟩
      rw [List.foldl_cons, ends, List.length_cons, Nat.add_assoc, Nat.add_comm 1]

/-- One instruction of the listed ones. -/
theorem Runs.instr (at_ : c.pc = address base k) (here : instrs[k]? = some i) (small : k < 2 ^ 62) :
    Runs (placed base instrs) c (c.exec i) :=
  Runs.one (by rw [at_, placed_address small, here])

/-- A run that ends goes through all that is reached. -/
theorem Runs.through (runs : Runs code c c') (ends : Runs code c c'') (rests : code c''.pc = none) :
    Runs code c' c'' := by
  induction runs using Relation.ReflTransGen.head_induction_on with
  | refl => exact ends
  | head first _ ih =>
      refine ih ?_
      cases ends using Relation.ReflTransGen.head_induction_on with
      | refl => simp [step, rests] at first
      | head first' later => exact (Option.some.inj (first.symm.trans first')) ▸ later

/-- There is one state in which a run ends. -/
theorem Runs.unique (runs : Runs code c c') (rests : code c'.pc = none) (ends : Runs code c c'')
    (rests' : code c''.pc = none) : c'' = c' := by
  have later := runs.through ends rests'
  cases later using Relation.ReflTransGen.head_induction_on with
  | refl => rfl
  | head first _ => simp [step, rests] at first

/-- What every instruction preserves holds of all that is reached. -/
theorem Runs.keeps {P : Cpu → Prop} (preserved : ∀ c i, P c → code c.pc = some i → P (c.exec i))
    (runs : Runs code c c') (holds : P c) : P c' := by
  induction runs with
  | refl => exact holds
  | @tail before after _ last ih =>
      obtain ⟨i, here, rfl⟩ := Option.map_eq_some_iff.mp last
      exact preserved before i ih here

end Runs

end OsdiKernel.Aarch64
