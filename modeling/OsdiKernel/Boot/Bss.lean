import OsdiKernel.Boot.StartUp

/-!
# Clearing the BSS section

`memzero` stores eight bytes in each round and counts the rounds with the size in
bytes.
-/

namespace OsdiKernel.Boot

open Aarch64

variable {base a : Word} {s : Symbols} {c : Cpu} {instrs rest : List Instr} {k n : Nat} {mem : Word → UInt8}

/-- The memory with `n` null bytes from an address on. -/
def zeroFrom (mem : Word → UInt8) (a : Word) (n : Nat) : Word → UInt8 := fun p =>
  if (p - a).toNat < n then 0 else mem p

section Memzero

/-- One round and the rounds behind it. -/
theorem zeroFrom_store (mem : Word → UInt8) (a : Word) (n : Nat) :
    zeroFrom (store64 mem a 0) (a + 8) n = zeroFrom mem a (8 + n) := by
  funext p
  simp only [zeroFrom, store64_zero]
  by_cases first : (p - a).toNat < 8
  · rw [if_pos first, ite_self, if_pos (Nat.lt_of_lt_of_le first (Nat.le_add_right 8 n))]
  · have offset : (p - (a + 8)).toNat = (p - a).toNat - 8 := by bv_omega
    rw [if_neg first, offset]
    exact if_congr (by omega) rfl rfl

/-- The instructions of a round before the branch. -/
def zeroRound : List Instr := [.strZrPost 0 8, .subsImm 1 1 1]

/-- Eight bytes are cleared for each byte that is counted. -/
theorem memzero_runs (at_ : c.pc = address base k) (small : instrs.length < 2 ^ 62)
    (here : instrs.drop k = zeroRound ++ ([.bNe (address base k), .ret] ++ rest))
    (count : (c.x 1).toNat = n + 1) :
    ∃ c', Runs (placed base instrs) c c' ∧ c'.pc = c.x 30 ∧ c'.mem = zeroFrom c.mem (c.x 0) (8 * (n + 1)) := by
  have bound : k + 4 ≤ instrs.length := by
    have length := congrArg List.length here
    simp only [zeroRound, List.length_drop, List.length_append, List.length_cons] at length
    omega
  have instr : ∀ j, instrs[k + j]? = (zeroRound ++ ([.bNe (address base k), .ret] ++ rest))[j]? := by
    intro j
    rw [← here, List.getElem?_drop]
  induction n generalizing c with
  | zero =>
      obtain ⟨runs, pc⟩ := Runs.straight at_ here small (by simp [zeroRound, Instr.jumps])
      have done : (zeroRound.foldl Cpu.exec c).z = true := decide_eq_true (show c.x 1 - 1 = 0 by bv_omega)
      have stored : (zeroRound.foldl Cpu.exec c).mem = store64 c.mem (c.x 0) 0 := rfl
      have link : (zeroRound.foldl Cpu.exec c).x 30 = c.x 30 := rfl
      generalize zeroRound.foldl Cpu.exec c = c₁ at runs pc done stored link
      have through := Runs.instr pc (instr 2) (show k + 2 < 2 ^ 62 by omega)
      rw [Cpu.exec, if_pos done] at through
      have pc₂ : c₁.next.pc = address base (k + 3) := by
        rw [Cpu.next, pc]
        exact address_succ base (k + 2)
      have return_ := Runs.instr pc₂ (instr 3) (by omega)
      refine ⟨_, (runs.trans through).trans return_, link, ?_⟩
      funext p
      exact (congrFun stored p).trans (store64_zero _ _ _)
  | succ n ih =>
      obtain ⟨runs, pc⟩ := Runs.straight at_ here small (by simp [zeroRound, Instr.jumps])
      have more : (zeroRound.foldl Cpu.exec c).z = false := decide_eq_false (show c.x 1 - 1 ≠ 0 by bv_omega)
      have stored : (zeroRound.foldl Cpu.exec c).mem = store64 c.mem (c.x 0) 0 := rfl
      have link : (zeroRound.foldl Cpu.exec c).x 30 = c.x 30 := rfl
      have pointer : (zeroRound.foldl Cpu.exec c).x 0 = c.x 0 + 8 := rfl
      have left : (zeroRound.foldl Cpu.exec c).x 1 = c.x 1 - 1 := rfl
      generalize zeroRound.foldl Cpu.exec c = c₁ at runs pc more stored link pointer left
      have back := Runs.instr pc (instr 2) (show k + 2 < 2 ^ 62 by omega)
      rw [Cpu.exec, more] at back
      obtain ⟨c', later, ends, zeroed⟩ := ih (c := c₁.goto (address base k)) rfl (by
        rw [Cpu.goto, left]
        bv_omega)
      refine ⟨c', (runs.trans back).trans later, ends.trans link, zeroed.trans ?_⟩
      simp only [Cpu.goto, stored, pointer]
      exact (zeroFrom_store c.mem (c.x 0) _).trans (congrArg (zeroFrom _ _) (by omega))

end Memzero

section Setting

/-- The instructions that load the bounds of the section. -/
def loadBounds (s : Symbols) : List Instr :=
  [.load 0 s.stackTop, .movSp 0, .load 0 s.bssBegin, .load 1 s.bssEnd, .sub 1 1 0]

/-- The common code gets to `main`. -/
theorem setting_runs (at_ : c.pc = address base k) (small : instrs.length < 2 ^ 62)
    (here : instrs.drop k = setting base k s ++ rest) :
    ∃ c', Runs (placed base instrs) c c' ∧ c'.pc = s.main ∧
      c'.mem = zeroFrom c.mem s.bssBegin (8 * (s.bssEnd - s.bssBegin).toNat) := by
  have bound : k + 12 ≤ instrs.length := by
    have length := congrArg List.length here
    simp only [setting, List.length_drop, List.length_append, List.length_cons, List.length_nil] at length
    omega
  have instr : ∀ j, instrs[k + j]? = (setting base k s ++ rest)[j]? := by
    intro j
    rw [← here, List.getElem?_drop]
  have first : instrs.drop k = loadBounds s ++ ((setting base k s).drop 5 ++ rest) := here
  obtain ⟨runs, pc⟩ := Runs.straight at_ first small (by simp [loadBounds, Instr.jumps])
  have size : ((loadBounds s).foldl Cpu.exec c).x 1 = s.bssEnd - s.bssBegin := rfl
  have pointer : ((loadBounds s).foldl Cpu.exec c).x 0 = s.bssBegin := rfl
  have same : ((loadBounds s).foldl Cpu.exec c).mem = c.mem := rfl
  generalize (loadBounds s).foldl Cpu.exec c = c₁ at runs pc size pointer same
  have test := Runs.instr pc (instr 5) (show k + 5 < 2 ^ 62 by omega)
  by_cases empty : s.bssEnd - s.bssBegin = 0
  · rw [Cpu.exec, if_pos (size.trans empty)] at test
    refine ⟨_, runs.trans test, rfl, ?_⟩
    rw [empty]
    exact same
  · rw [Cpu.exec, if_neg (by rwa [size])] at test
    have pc₂ : c₁.next.pc = address base (k + 6) := by
      rw [Cpu.next, pc]
      exact address_succ base (k + 5)
    have call := Runs.instr pc₂ (instr 6) (by omega)
    have pointer₂ : (c₁.next.exec (.bl (address base (k + 8)))).x 0 = s.bssBegin := pointer
    have size₂ : (c₁.next.exec (.bl (address base (k + 8)))).x 1 = s.bssEnd - s.bssBegin := size
    have same₂ : (c₁.next.exec (.bl (address base (k + 8)))).mem = c.mem := same
    have link : (c₁.next.exec (.bl (address base (k + 8)))).x 30 = address base (k + 7) :=
      (congrArg (· + 4) pc₂).trans (address_succ base (k + 6))
    -- The size is not zero, so that the count reaches zero.
    obtain ⟨n, count⟩ := Nat.exists_eq_succ_of_ne_zero (show (s.bssEnd - s.bssBegin).toNat ≠ 0 from
      fun null => empty (BitVec.eq_of_toNat_eq null))
    have loop : instrs.drop (k + 8) = zeroRound ++ ([.bNe (address base (k + 8)), .ret] ++ rest) := by
      rw [← List.drop_drop, here]
      rfl
    obtain ⟨c₃, clears, return_, zeroed⟩ := memzero_runs (c := c₁.next.exec (.bl (address base (k + 8)))) rfl
      small loop ((congrArg BitVec.toNat size₂).trans count)
    have last := Runs.instr (return_.trans link) (instr 7) (by omega)
    refine ⟨_, (((runs.trans test).trans call).trans clears).trans last, rfl, ?_⟩
    rw [count, ← same₂, ← pointer₂]
    exact zeroed

/-- `from_el2_to_el1` up to the return. -/
def toEl1 : List Instr := [.movImm 0 (1 <<< 31), .msr .hcrEl2 0, .movImm 0 0x345, .msr .spsrEl2 0, .msr .elrEl2 30]

/-- `set_exception_vector_table` up to the return. -/
def setVectors (s : Symbols) : List Instr := [.adr 19 s.exceptionVectorTable, .msr .vbarEl1 19]

/-- What the kernel does first changes no memory. -/
theorem master_runs (at_ : c.pc = address base 5) :
    ∃ c', Runs (placed base (kernelStart base s)) c c' ∧ c'.pc = address base 7 ∧ c'.mem = c.mem := by
  have small : (kernelStart base s).length < 2 ^ 62 := by
    rw [show (kernelStart base s).length = 30 from rfl]
    decide
  have instr : ∀ {j : Nat} {i : Instr} {c : Cpu}, c.pc = address base j → (kernelStart base s)[j]? = some i →
      j < 2 ^ 62 → Runs (placed base (kernelStart base s)) c (c.exec i) := Runs.instr
  have call := instr at_ rfl (by decide)
  have link : (c.exec (.bl (address base 21))).x 30 = address base 6 :=
    (congrArg (· + 4) at_).trans (address_succ base 5)
  obtain ⟨el1, pc⟩ := Runs.straight (c := c.exec (.bl (address base 21))) rfl
    (show (kernelStart base s).drop 21 = toEl1 ++ (kernelStart base s).drop 26 from rfl) small
    (by simp [toEl1, Instr.jumps])
  have elr : (toEl1.foldl Cpu.exec (c.exec (.bl (address base 21)))).sys .elrEl2 = address base 6 := link
  have same : (toEl1.foldl Cpu.exec (c.exec (.bl (address base 21)))).mem = c.mem := rfl
  generalize toEl1.foldl Cpu.exec (c.exec (.bl (address base 21))) = c₁ at el1 pc elr same
  have eret := instr (j := 26) pc rfl (by decide)
  have call' := instr (c := c₁.exec .eret) elr rfl (by decide)
  have link' : ((c₁.exec .eret).exec (.bl (address base 27))).x 30 = address base 7 :=
    (congrArg (· + 4) elr).trans (address_succ base 6)
  obtain ⟨vectors, pc'⟩ := Runs.straight (c := (c₁.exec .eret).exec (.bl (address base 27))) rfl
    (show (kernelStart base s).drop 27 = setVectors s ++ (kernelStart base s).drop 29 from rfl) small
    (by simp [setVectors, Instr.jumps])
  have return_ := instr (j := 29) pc' rfl (by decide)
  exact ⟨_, ((((call.trans el1).trans eret).trans call').trans vectors).trans return_, link', same⟩

end Setting

theorem image_runs (image : Image) (at_ : c.pc = address base image.entry) :
    ∃ c', Runs (placed base (image.code base s)) c c' ∧ c'.pc = s.main ∧
      c'.mem = zeroFrom c.mem s.bssBegin (8 * (s.bssEnd - s.bssBegin).toNat) := by
  cases image with
  | kernel =>
      obtain ⟨c₁, first, pc, same⟩ := master_runs (s := s) at_
      have small : (kernelStart base s).length < 2 ^ 62 := by
        rw [show (kernelStart base s).length = 30 from rfl]
        decide
      have here : (kernelStart base s).drop 7 = setting base 7 s ++ (kernelStart base s).drop 19 := rfl
      obtain ⟨c', later, ends, zeroed⟩ := setting_runs pc small here
      exact ⟨c', first.trans later, ends, same ▸ zeroed⟩
  | bootloader =>
      have small : (bootloaderStart base s).length < 2 ^ 62 := by
        rw [show (bootloaderStart base s).length = 37 from rfl]
        decide
      have here : (bootloaderStart base s).drop 23 =
          setting base 23 s ++ (bootloaderStart base s).drop 35 := rfl
      exact setting_runs at_ small here

/-- The section alone is cleared just when the memory behind it was null. -/
theorem clears_iff (image : Image) (at_ : c.pc = address base image.entry)
    (ordered : s.bssBegin.toNat ≤ s.bssEnd.toNat) (elsewhere : placed base (image.code base s) s.main = none) :
    Clears (placed base (image.code base s)) s c ↔ NullBehind s c.mem := by
  obtain ⟨c', runs, ends, zeroed⟩ := image_runs (s := s) image at_
  have rests : placed base (image.code base s) c'.pc = none := ends ▸ elsewhere
  constructor
  · rintro ⟨again, runs', ends', _, kept⟩ a outside written
    obtain rfl := Runs.unique runs rests runs' (ends' ▸ elsewhere)
    rw [← kept a outside, zeroed]
    exact if_pos written
  · intro null
    refine ⟨c', runs, ends, fun a above below => ?_, fun a outside => ?_⟩
    · rw [zeroed]
      exact if_pos (by bv_omega)
    · rw [zeroed, zeroFrom]
      split
      next written => exact (null a outside written).symm
      next => rfl

/-- An image at the address of the kernel with a section of `size` bytes. -/
def imageWith (size : Word) : Symbols :=
  { bootBegin := 0x80000, bootEnd := 0x81000 + size, bssBegin := 0x81000, bssEnd := 0x81000 + size
    stackTop := 0x92000, main := 0x80800, exceptionVectorTable := 0x80400 }

/-- A core at the entry of an image, with a memory without null bytes. -/
def atEntry (image : Image) : Cpu :=
  ⟨fun _ => 0, 0, false, address 0x80000 image.entry, fun _ => 0, fun _ => 0xff⟩

/-- A section of 16 bytes with nothing but null bytes behind it. -/
theorem clears_sixteen :
    Clears (placed 0x80000 (Image.kernel.code 0x80000 (imageWith 16))) (imageWith 16)
      { atEntry .kernel with mem := fun a => if a < 0x81010 then 0xff else 0 } := by
  refine (clears_iff .kernel rfl (by decide) (by decide)).mpr fun a outside written => ?_
  simp only [Symbols.Outside, imageWith, align8] at outside written
  have behind : ¬ a < 0x81010 := by bv_omega
  exact if_neg behind

/-- Eight times the section is cleared. -/
theorem overruns (image : Image) (elsewhere : placed 0x80000 (image.code 0x80000 (imageWith 16)) 0x80800 = none) :
    ¬ Clears (placed 0x80000 (image.code 0x80000 (imageWith 16))) (imageWith 16) (atEntry image) := by
  rintro ⟨again, runs', ends', _, kept⟩
  obtain ⟨c', runs, ends, zeroed⟩ := image_runs (s := imageWith 16) image (c := atEntry image) rfl
  obtain rfl := Runs.unique runs (ends ▸ elsewhere) runs' (ends' ▸ elsewhere)
  have byte : again.mem 0x81010 = 0 := by rw [zeroed]; rfl
  exact absurd (byte.symm.trans (kept 0x81010 (.inr (by decide)))) (show ¬ (0 : UInt8) = 0xff by decide)

theorem sixteen_overrun :
    ¬ Clears (placed 0x80000 (Image.kernel.code 0x80000 (imageWith 16))) (imageWith 16) (atEntry .kernel) ∧
      ¬ Clears (placed 0x80000 (Image.bootloader.code 0x80000 (imageWith 16))) (imageWith 16) (atEntry .bootloader) :=
  ⟨overruns .kernel (by decide), overruns .bootloader (by decide)⟩

end OsdiKernel.Boot
