import OsdiKernel.Lib.Aarch64

/-!
# AArch64 at exception level 1

The registers that a kernel saves and restores, the instructions it does that with, and what the
core does when it takes an exception.  A straight piece of such code is executed symbolically: it
only moves words between registers and one area of memory, so that where each word goes can be
computed, for all values at once.
-/

namespace OsdiKernel.El1

open Aarch64 (Word load64 store64 address)

inductive SysReg where
  | spEl0
  | spsrEl1
  | elrEl1
  | esrEl1
  | tpidrEl1
  deriving DecidableEq

/-- The stack pointer is that of exception level 1. -/
structure Cpu where
  x : Fin 31 → Word
  sp : Word
  pc : Word
  pstate : Word
  sys : SysReg → Word
  mem : Word → UInt8

/-- The register that an address is relative to. -/
inductive Base where
  | sp
  | x (n : Fin 31)
  deriving DecidableEq

inductive Instr where
  | stp (t u : Fin 31) (base : Base) (offset : Nat)
  | ldp (t u : Fin 31) (base : Base) (offset : Nat)
  | str (t : Fin 31) (base : Base) (offset : Nat)
  | ldr (t : Fin 31) (base : Base) (offset : Nat)
  | subSp (value : Nat)
  | addSp (value : Nat)
  | movFromSp (d : Fin 31)
  | movToSp (n : Fin 31)
  | mrs (d : Fin 31) (reg : SysReg)
  | msr (reg : SysReg) (n : Fin 31)
  | b (label : Word)
  | bl (label : Word)
  | ret
  | eret
  deriving DecidableEq

/-- A word of an area. -/
def slot (a : Word) (i : Nat) : Word := a + BitVec.ofNat 64 (8 * i)

/-! ## Execution -/

namespace Cpu

def base (c : Cpu) : Base → Word
  | .sp => c.sp
  | .x n => c.x n

def setX (c : Cpu) (d : Fin 31) (value : Word) : Cpu := { c with x := Function.update c.x d value }

def store (c : Cpu) (a value : Word) : Cpu := { c with mem := store64 c.mem a value }

def next (c : Cpu) : Cpu := { c with pc := c.pc + 4 }

def exec (c : Cpu) : Instr → Cpu
  | .stp t u base offset =>
      ((c.store (c.base base + BitVec.ofNat 64 offset) (c.x t)).store
        (c.base base + BitVec.ofNat 64 (offset + 8)) (c.x u)).next
  | .ldp t u base offset =>
      ((c.setX t (load64 c.mem (c.base base + BitVec.ofNat 64 offset))).setX u
        (load64 c.mem (c.base base + BitVec.ofNat 64 (offset + 8)))).next
  | .str t base offset => (c.store (c.base base + BitVec.ofNat 64 offset) (c.x t)).next
  | .ldr t base offset => (c.setX t (load64 c.mem (c.base base + BitVec.ofNat 64 offset))).next
  | .subSp value => { c with sp := c.sp - BitVec.ofNat 64 value }.next
  | .addSp value => { c with sp := c.sp + BitVec.ofNat 64 value }.next
  | .movFromSp d => (c.setX d c.sp).next
  | .movToSp n => { c with sp := c.x n }.next
  | .mrs d reg => (c.setX d (c.sys reg)).next
  | .msr reg n => { c with sys := Function.update c.sys reg (c.x n) }.next
  | .b label => { c with pc := label }
  | .bl label => { c.setX 30 (c.pc + 4) with pc := label }
  | .ret => { c with pc := c.x 30 }
  | .eret => { c with pc := c.sys .elrEl1, pstate := c.sys .spsrEl1 }

end Cpu

/-- The next instruction is another one than that of the next address. -/
def Instr.jumps : Instr → Bool
  | .b _ | .bl _ | .ret | .eret => true
  | _ => false

/-- The instruction writes to memory. -/
def Instr.stores : Instr → Bool
  | .stp .. | .str .. => true
  | _ => false

/-- The instructions at their addresses. -/
def placed (base : Word) (instrs : List Instr) (a : Word) : Option Instr :=
  if (a - base).toNat % 4 = 0 then instrs[(a - base).toNat / 4]? else none

/-- Some instructions of the code, up to the first address outside it. -/
inductive Leaves (code : Word → Option Instr) : Cpu → Cpu → Prop
  | out {c : Cpu} (outside : code c.pc = none) : Leaves code c c
  | step {c c' : Cpu} {i : Instr} (here : code c.pc = some i) (later : Leaves code (c.exec i) c') :
      Leaves code c c'

/-! ## Exceptions -/

inductive Kind where
  | sync
  | irq
  | fiq
  | serror
  deriving DecidableEq

/-- The bits A, I and F. -/
def Kind.masked (pstate : Word) : Kind → Bool
  | .sync => false
  | .irq => pstate.getLsbD 7
  | .fiq => pstate.getLsbD 6
  | .serror => pstate.getLsbD 8

def Kind.index : Kind → Nat
  | .sync => 0
  | .irq => 1
  | .fiq => 2
  | .serror => 3

/-- The current level with the stack of level 0 or its own, or the level below with 64 or 32 bits. -/
def source (pstate : Word) : Nat :=
  if pstate.getLsbD 4 then 3
  else if !pstate.getLsbD 2 then 2
  else if pstate.getLsbD 0 then 1
  else 0

/-- Exception level 1 with its own stack pointer. -/
def Handles (pstate : Word) : Prop := source pstate = 1

/-- All exceptions are masked. -/
def entered (pstate : Word) : Word := (pstate &&& 0xf0000000) ||| 0x3c5

/-- An exception is taken: a system call returns to the address after it, others to the instruction
at which they were taken. -/
def Cpu.take (c : Cpu) (vbar : Word) (kind : Kind) (returnTo syndrome : Word) : Cpu :=
  { c with
    pc := vbar + BitVec.ofNat 64 (0x200 * source c.pstate + 0x80 * kind.index)
    pstate := entered c.pstate
    sys := fun reg =>
      match reg with
      | .spsrEl1 => c.pstate
      | .elrEl1 => returnTo
      | .esrEl1 => if kind = .sync then syndrome else c.sys .esrEl1
      | reg => c.sys reg }

/-! ## Words in memory -/

/-- Two words have no byte in common. -/
def Clear (a b : Word) : Prop := 8 ≤ (a - b).toNat ∧ 8 ≤ (b - a).toNat

instance (a b : Word) : Decidable (Clear a b) := inferInstanceAs (Decidable (_ ∧ _))

section Memory

variable {mem : Word → UInt8} {a b value : Word} {i j : Nat}

theorem load64_congr {mem' : Word → UInt8} (same : ∀ i < 8, mem' (a + BitVec.ofNat 64 i) = mem (a + BitVec.ofNat 64 i)) :
    load64 mem' a = load64 mem a :=
  loadDouble_congr fun i inside => by simpa using same i inside

theorem load64_store64 : load64 (store64 mem a value) a = value := by
  have bytes : load64 (store64 mem a value) a = loadDouble (storeDouble (fun _ => 0) 0 value) 0 := by
    refine loadDouble_congr fun i inside => ?_
    have offset : (a + BitVec.ofNat 64 (0 + i) - a).toNat = i := by bv_omega
    rw [storeDouble_apply inside]
    unfold store64
    rw [offset, if_pos inside]
  rw [bytes, loadDouble_storeDouble]

theorem load64_store64_clear (clear : Clear a b) : load64 (store64 mem a value) b = load64 mem b := by
  refine load64_congr fun i inside => ?_
  have far : ¬(b + BitVec.ofNat 64 i - a).toNat < 8 := by
    obtain ⟨below, above⟩ := clear
    bv_omega
  unfold store64
  rw [if_neg far]

theorem Clear.symm (clear : Clear a b) : Clear b a := And.symm clear

/-- The words of an area that does not go around the address space are apart. -/
theorem slot_clear (first : i < 2 ^ 60) (second : j < 2 ^ 60) (other : i ≠ j) :
    Clear (slot a i) (slot a j) := by
  unfold Clear slot
  constructor
  · bv_omega
  · bv_omega

theorem slot_of_offset (a : Word) {offset : Nat} (whole : offset % 8 = 0) :
    a + BitVec.ofNat 64 offset = slot a (offset / 8) := by
  unfold slot
  rw [Nat.mul_div_cancel' (Nat.dvd_of_mod_eq_zero whole)]

end Memory

/-! ## Runs -/

section Runs

variable {code : Word → Option Instr} {c c' : Cpu} {i : Instr} {base : Word} {k : Nat}

theorem placed_address {instrs : List Instr} (small : k < 2 ^ 62) :
    placed base instrs (address base k) = instrs[k]? := by
  have offset : (address base k - base).toNat = 4 * k := by
    unfold address
    bv_omega
  unfold placed
  rw [offset, if_pos (Nat.mul_mod_right 4 k), Nat.mul_div_cancel_left k (by decide)]

theorem Instr.pc_exec (straight : i.jumps = false) (c : Cpu) : (c.exec i).pc = c.pc + 4 := by
  cases i <;> first | rfl | cases straight

theorem mem_exec (loads : i.stores = false) (c : Cpu) : (c.exec i).mem = c.mem := by
  cases i <;> first | rfl | cases loads

theorem mem_block {block : List Instr} (loads : ∀ i ∈ block, i.stores = false) (c : Cpu) :
    (block.foldl Cpu.exec c).mem = c.mem := by
  induction block generalizing c with
  | nil => rfl
  | cons i block ih =>
      rw [List.foldl_cons, ih fun j member => loads j (List.mem_cons_of_mem i member),
        mem_exec (loads i List.mem_cons_self)]

theorem Leaves.step_iff (here : code c.pc = some i) : Leaves code c c' ↔ Leaves code (c.exec i) c' := by
  constructor
  · intro leaves
    cases leaves with
    | out outside => simp [here] at outside
    | step found later =>
        cases here.symm.trans found
        exact later
  · exact Leaves.step here

theorem Leaves.out_iff (outside : code c.pc = none) : Leaves code c c' ↔ c' = c := by
  constructor
  · intro leaves
    cases leaves with
    | out _ => rfl
    | step found _ => simp [outside] at found
  · rintro rfl
    exact .out outside

/-- Instructions that do not jump are executed in order. -/
theorem Leaves.block_iff {block : List Instr} (at_ : c.pc = address base k)
    (here : ∀ j i, block[j]? = some i → code (address base (k + j)) = some i)
    (plain : ∀ i ∈ block, i.jumps = false) :
    (∀ c', Leaves code c c' ↔ Leaves code (block.foldl Cpu.exec c) c') ∧
      (block.foldl Cpu.exec c).pc = address base (k + block.length) := by
  induction block generalizing c k with
  | nil => exact ⟨fun _ => Iff.rfl, at_⟩
  | cons i block ih =>
      have first : code c.pc = some i := at_ ▸ here 0 i rfl
      have pc : (c.exec i).pc = address base (k + 1) := by
        rw [Instr.pc_exec (plain i List.mem_cons_self), at_, Aarch64.address_succ]
      have tail : ∀ j i', block[j]? = some i' → code (address base (k + 1 + j)) = some i' := by
        intro j i' found
        rw [Nat.add_assoc, Nat.add_comm 1 j]
        exact here (j + 1) i' found
      obtain ⟨runs, ends⟩ := ih pc tail fun j member => plain j (List.mem_cons_of_mem i member)
      refine ⟨fun c' => (Leaves.step_iff first).trans (runs c'), ?_⟩
      rw [List.foldl_cons, ends, List.length_cons, Nat.add_assoc, Nat.add_comm 1]

end Runs

/-! ## Symbolic execution -/

/-- Which of the words that are followed each place holds. -/
structure Sym where
  x : Fin 31 → Option Nat
  sp : Option Nat
  sys : SysReg → Option Nat
  slots : Nat → Option Nat

namespace Sym

/-- none where the instruction does something else than move words between registers and the `n`
words from the base register on. -/
def exec (base : Base) (n : Nat) (s : Sym) : Instr → Option Sym
  | .stp t u relative offset =>
      if relative = base ∧ offset % 8 = 0 ∧ offset / 8 + 1 < n then
        some { s with
          slots := Function.update (Function.update s.slots (offset / 8) (s.x t)) (offset / 8 + 1) (s.x u) }
      else none
  | .ldp t u relative offset =>
      if relative = base ∧ offset % 8 = 0 ∧ offset / 8 + 1 < n ∧ base ≠ .x t ∧ base ≠ .x u then
        some { s with
          x := Function.update (Function.update s.x t (s.slots (offset / 8))) u (s.slots (offset / 8 + 1)) }
      else none
  | .str t relative offset =>
      if relative = base ∧ offset % 8 = 0 ∧ offset / 8 < n then
        some { s with slots := Function.update s.slots (offset / 8) (s.x t) }
      else none
  | .ldr t relative offset =>
      if relative = base ∧ offset % 8 = 0 ∧ offset / 8 < n ∧ base ≠ .x t then
        some { s with x := Function.update s.x t (s.slots (offset / 8)) }
      else none
  | .movFromSp d => if base ≠ .x d then some { s with x := Function.update s.x d s.sp } else none
  | .movToSp m => if base ≠ .sp then some { s with sp := s.x m } else none
  | .mrs d reg => if base ≠ .x d then some { s with x := Function.update s.x d (s.sys reg) } else none
  | .msr reg m => some { s with sys := Function.update s.sys reg (s.x m) }
  | .subSp _ | .addSp _ | .b _ | .bl _ | .ret | .eret => none

def run (base : Base) (n : Nat) (s : Sym) (block : List Instr) : Option Sym := block.foldlM (exec base n) s

/-- The places hold the words that they are said to hold. -/
structure Models (base : Base) (n : Nat) (words : Nat → Word) (a : Word) (s : Sym) (c : Cpu) : Prop where
  at_ : c.base base = a
  x : ∀ r i, s.x r = some i → c.x r = words i
  sp : ∀ i, s.sp = some i → c.sp = words i
  sys : ∀ reg i, s.sys reg = some i → c.sys reg = words i
  slots : ∀ j i, j < n → s.slots j = some i → load64 c.mem (slot a j) = words i

section Soundness

variable {base : Base} {n : Nat} {words : Nat → Word} {a : Word} {s s' : Sym} {c : Cpu} {i : Instr}

theorem update_holds {ι : Type} [DecidableEq ι] {names : ι → Option Nat} {values : ι → Word} {d : ι} {name : Option Nat}
    {value : Word} (holds : ∀ r i, names r = some i → values r = words i) (new : ∀ i, name = some i → value = words i)
    (r : ι) (i : Nat) (known : Function.update names d name r = some i) :
    Function.update values d value r = words i := by
  by_cases here : r = d
  · subst here
    rw [Function.update_self] at known ⊢
    exact new i known
  · rw [Function.update_of_ne here] at known ⊢
    exact holds r i known

theorem Models.setX {d : Fin 31} {name : Option Nat} {value : Word} (models : Models base n words a s c)
    (other : base ≠ .x d) (new : ∀ i, name = some i → value = words i) :
    Models base n words a { s with x := Function.update s.x d name } (c.setX d value) where
  at_ := by
    rw [← models.at_]
    cases base with
    | sp => rfl
    | x m => exact Function.update_of_ne (fun same => other (congrArg Base.x same)) _ _
  x := update_holds models.x new
  sp := models.sp
  sys := models.sys
  slots := models.slots

theorem Models.store {j : Nat} {name : Option Nat} {value : Word} (models : Models base n words a s c)
    (small : n ≤ 2 ^ 60) (inside : j < n) (new : ∀ i, name = some i → value = words i) :
    Models base n words a { s with slots := Function.update s.slots j name } (c.store (slot a j) value) where
  at_ := by
    rw [← models.at_]
    cases base <;> rfl
  x := models.x
  sp := models.sp
  sys := models.sys
  slots := by
    intro m i below known
    change Function.update s.slots j name m = some i at known
    by_cases here : m = j
    · subst here
      rw [Function.update_self] at known
      exact load64_store64.trans (new i known)
    · rw [Function.update_of_ne here] at known
      refine (load64_store64_clear ?_).trans (models.slots m i below known)
      exact slot_clear (Nat.lt_of_lt_of_le inside small) (Nat.lt_of_lt_of_le below small) (Ne.symm here)

/-- Nothing is known. -/
def unknown : Sym := ⟨fun _ => none, none, fun _ => none, fun _ => none⟩

theorem Models.unknown (at_ : c.base base = a) : Models base n words a unknown c where
  at_ := at_
  x _ _ known := by cases known
  sp _ known := by cases known
  sys _ _ known := by cases known
  slots _ _ _ known := by cases known

theorem Models.next (models : Models base n words a s c) : Models base n words a s c.next where
  at_ := by
    rw [← models.at_]
    cases base <;> rfl
  x := models.x
  sp := models.sp
  sys := models.sys
  slots := models.slots

theorem Models.known (models : Models base n words a s c) {j : Nat} (inside : j < n) (i : Nat)
    (known : s.slots j = some i) : load64 c.mem (slot a j) = words i := models.slots j i inside known

/-- What an instruction leaves alone. -/
structure Frame (n : Nat) (a : Word) (c c' : Cpu) : Prop where
  pstate : c'.pstate = c.pstate
  mem : ∀ q, (∀ j < n, Clear (slot a j) q) → load64 c'.mem q = load64 c.mem q

theorem Frame.refl (n : Nat) (a : Word) (c : Cpu) : Frame n a c c := ⟨rfl, fun _ _ => rfl⟩

theorem Frame.trans {c' c'' : Cpu} (first : Frame n a c c') (second : Frame n a c' c'') : Frame n a c c'' where
  pstate := second.pstate.trans first.pstate
  mem q clear := (second.mem q clear).trans (first.mem q clear)

theorem exec_sound (small : n ≤ 2 ^ 60) (models : Models base n words a s c) (stepped : exec base n s i = some s') :
    Models base n words a s' (c.exec i) ∧ Frame n a c (c.exec i) ∧ i.jumps = false := by
  have second (offset : Nat) (whole : offset % 8 = 0) :
      a + BitVec.ofNat 64 (offset + 8) = slot a (offset / 8 + 1) := by
    rw [slot_of_offset a (by omega), Nat.add_div_right offset (by decide)]
  cases i with
  | stp t u relative offset =>
      obtain ⟨⟨rfl, whole, inside⟩, ⟨⟩⟩ := Option.ite_none_right_eq_some.mp stepped
      simp only [Cpu.exec, models.at_, slot_of_offset a whole, second offset whole]
      exact ⟨((models.store small (Nat.lt_of_succ_lt inside) (models.x t)).store small inside (models.x u)).next,
        ⟨rfl, fun _ clear => (load64_store64_clear (clear _ inside)).trans
          (load64_store64_clear (clear _ (Nat.lt_of_succ_lt inside)))⟩, rfl⟩
  | ldp t u relative offset =>
      obtain ⟨⟨rfl, whole, inside, first, later⟩, ⟨⟩⟩ := Option.ite_none_right_eq_some.mp stepped
      simp only [Cpu.exec, models.at_, slot_of_offset a whole, second offset whole]
      exact ⟨((models.setX first (models.known (Nat.lt_of_succ_lt inside))).setX later (models.known inside)).next,
        ⟨rfl, fun _ _ => rfl⟩, rfl⟩
  | str t relative offset =>
      obtain ⟨⟨rfl, whole, inside⟩, ⟨⟩⟩ := Option.ite_none_right_eq_some.mp stepped
      simp only [Cpu.exec, models.at_, slot_of_offset a whole]
      exact ⟨(models.store small inside (models.x t)).next, ⟨rfl, fun _ clear => load64_store64_clear (clear _ inside)⟩, rfl⟩
  | ldr t relative offset =>
      obtain ⟨⟨rfl, whole, inside, other⟩, ⟨⟩⟩ := Option.ite_none_right_eq_some.mp stepped
      simp only [Cpu.exec, models.at_, slot_of_offset a whole]
      exact ⟨(models.setX other (models.known inside)).next, ⟨rfl, fun _ _ => rfl⟩, rfl⟩
  | movFromSp d =>
      obtain ⟨other, ⟨⟩⟩ := Option.ite_none_right_eq_some.mp stepped
      exact ⟨(models.setX other models.sp).next, ⟨rfl, fun _ _ => rfl⟩, rfl⟩
  | movToSp m =>
      obtain ⟨other, ⟨⟩⟩ := Option.ite_none_right_eq_some.mp stepped
      refine ⟨⟨?_, models.x, models.x m, models.sys, models.slots⟩, ⟨rfl, fun _ _ => rfl⟩, rfl⟩
      rw [← models.at_]
      cases base with
      | sp => exact absurd rfl other
      | x m => rfl
  | mrs d reg =>
      obtain ⟨other, ⟨⟩⟩ := Option.ite_none_right_eq_some.mp stepped
      exact ⟨(models.setX other (models.sys reg)).next, ⟨rfl, fun _ _ => rfl⟩, rfl⟩
  | msr reg m =>
      cases stepped
      refine ⟨⟨?_, models.x, models.sp, update_holds models.sys (models.x m), models.slots⟩, ⟨rfl, fun _ _ => rfl⟩, rfl⟩
      rw [← models.at_]
      cases base <;> rfl
  | subSp _ => cases stepped
  | addSp _ => cases stepped
  | b _ => cases stepped
  | bl _ => cases stepped
  | ret => cases stepped
  | eret => cases stepped

/-- What is computed for all words is what happens. -/
theorem run_sound {block : List Instr} (small : n ≤ 2 ^ 60) (models : Models base n words a s c)
    (ran : run base n s block = some s') :
    Models base n words a s' (block.foldl Cpu.exec c) ∧ Frame n a c (block.foldl Cpu.exec c) ∧
      ∀ i ∈ block, i.jumps = false := by
  induction block generalizing s c with
  | nil =>
      cases ran
      exact ⟨models, Frame.refl n a c, by simp⟩
  | cons i block ih =>
      obtain ⟨middle, stepped, later⟩ := Option.bind_eq_some_iff.mp ran
      obtain ⟨models', frame, plain⟩ := exec_sound small models stepped
      obtain ⟨models'', frame', plain'⟩ := ih models' later
      exact ⟨models'', frame.trans frame', List.forall_mem_cons.mpr ⟨plain, plain'⟩⟩

end Soundness

end Sym

end OsdiKernel.El1
