import Mathlib.Data.BitVec
import Mathlib.Tactic.IntervalCases
import OsdiKernel.Boot.StartUp

/-!
# The relocation of the bootloader

The copy loop counts the size down in steps of eight and ends when nothing is
left, which it never finds for a size that is no multiple of eight.
-/

namespace OsdiKernel.Boot

open Aarch64

variable {base src dst : Word} {s : Symbols} {c c' : Cpu} {n k : Nat} {mem : Word → UInt8}

/-- The memory with `n` bytes copied. -/
def copied (mem : Word → UInt8) (src dst : Word) (n : Nat) : Word → UInt8 := fun p =>
  if (p - dst).toNat < n then mem (src + (p - dst)) else mem p

/-- Two ranges in memory without a common byte. -/
structure Apart (src dst : Word) (n : Nat) : Prop where
  source : src.toNat + n ≤ 2 ^ 64
  dest : dst.toNat + n ≤ 2 ^ 64
  apart : src.toNat + n ≤ dst.toNat ∨ dst.toNat + n ≤ src.toNat

section Copy

/-- One round and the rounds behind it. -/
theorem copied_store (apart : Apart src dst (8 + n)) :
    copied (store64 mem dst (load64 mem src)) (src + 8) (dst + 8) n = copied mem src dst (8 + n) := by
  obtain ⟨source, dest, disjoint⟩ := apart
  funext p
  simp only [copied, store64_load64]
  by_cases first : (p - dst).toNat < 8
  · have before : ¬ (p - (dst + 8)).toNat < n := by bv_omega
    rw [if_neg before, if_pos first, if_pos (by omega)]
  · have offset : (p - (dst + 8)).toNat = (p - dst).toNat - 8 := by bv_omega
    rw [offset, if_neg first]
    by_cases inside : (p - dst).toNat < 8 + n
    · have from_ : src + 8 + (p - (dst + 8)) = src + (p - dst) := by bv_omega
      have unchanged : ¬ (src + (p - dst) - dst).toNat < 8 := by bv_omega
      rw [if_pos inside, if_pos (by omega), from_, if_neg unchanged]
    · rw [if_neg inside, if_neg (by omega)]

theorem bootloader_instr {j : Nat} {i : Instr} {c : Cpu} (at_ : c.pc = address base j)
    (here : (bootloaderStart base s)[j]? = some i) (small : j < 37) :
    Runs (placed base (bootloaderStart base s)) c (c.exec i) := Runs.instr at_ here (by omega)

theorem bootloader_length : (bootloaderStart base s).length = 37 := rfl

/-- The instructions of a round between its branches. -/
def copyRound : List Instr := [.ldrPost 5 0 8, .strPost 5 1 8, .subImm 2 2 8]

theorem round_runs (at_ : c.pc = address base 12) (more : c.x 2 ≠ 0) :
    Runs (placed base (bootloaderStart base s)) c ((copyRound.foldl Cpu.exec c.next).goto (address base 12)) := by
  have test := bootloader_instr (s := s) at_ rfl (by decide)
  rw [Cpu.exec, if_neg more] at test
  have pc : c.next.pc = address base 13 := by
    rw [Cpu.next, at_]
    exact address_succ base 12
  obtain ⟨moves, pc'⟩ := Runs.straight pc
    (show (bootloaderStart base s).drop 13 = copyRound ++ (bootloaderStart base s).drop 16 from rfl)
    (by rw [bootloader_length]; decide) (by simp [copyRound, Instr.jumps])
  exact (test.trans moves).trans (bootloader_instr (j := 16) pc' rfl (by decide))

theorem copy_runs (at_ : c.pc = address base 12) (size : (c.x 2).toNat = 8 * n)
    (apart : Apart (c.x 0) (c.x 1) (8 * n)) :
    ∃ c', Runs (placed base (bootloaderStart base s)) c c' ∧ c'.pc = address base 17 ∧ c'.x 4 = c.x 4 ∧
      c'.mem = copied c.mem (c.x 0) (c.x 1) (8 * n) := by
  induction n generalizing c with
  | zero =>
      have test := bootloader_instr (s := s) at_ rfl (by decide)
      have done : c.x 2 = 0 := BitVec.eq_of_toNat_eq size
      rw [Cpu.exec, if_pos done] at test
      exact ⟨_, test, rfl, rfl, rfl⟩
  | succ n ih =>
      have round := round_runs (s := s) at_ (fun null => by
        rw [null] at size
        simp at size)
      have counts : (c.x 2 - 8).toNat = 8 * n := by bv_omega
      have source := apart.source
      have dest := apart.dest
      have rest : Apart (c.x 0 + 8) (c.x 1 + 8) (8 * n) := by
        obtain ⟨_, _, disjoint⟩ := apart
        exact ⟨by bv_omega, by bv_omega, by bv_omega⟩
      obtain ⟨c', later, ends, link, result⟩ := ih
        (c := (copyRound.foldl Cpu.exec c.next).goto (address base 12)) rfl counts rest
      refine ⟨c', round.trans later, ends, link, result.trans ?_⟩
      have whole : 8 * (n + 1) = 8 + 8 * n := by omega
      rw [whole] at apart ⊢
      exact copied_store apart

end Copy

/-! ## Around the loop -/

section Around

def findSelf (base : Word) (s : Symbols) : List Instr :=
  [.adr 4 base, .load 1 s.bootBegin, .load 2 s.bootEnd, .sub 2 2 1, .cmp 4 1]

theorem master_copies (at_ : c.pc = address base 5) (elsewhere : base ≠ s.bootBegin) :
    ∃ c', Runs (placed base (bootloaderStart base s)) c c' ∧ c'.pc = address base 12 ∧ c'.mem = c.mem ∧
      c'.x 0 = base ∧ c'.x 1 = s.bootBegin ∧ c'.x 2 = s.bootEnd - s.bootBegin ∧ c'.x 4 = base := by
  obtain ⟨finds, pc⟩ := Runs.straight at_
    (show (bootloaderStart base s).drop 5 = findSelf base s ++ (bootloaderStart base s).drop 10 from rfl)
    (by rw [bootloader_length]; decide) (by simp [findSelf, Instr.jumps])
  have differs : ((findSelf base s).foldl Cpu.exec c).z = false :=
    decide_eq_false fun same => elsewhere (sub_eq_zero.mp same)
  have registers : ((findSelf base s).foldl Cpu.exec c).x 1 = s.bootBegin ∧
      ((findSelf base s).foldl Cpu.exec c).x 2 = s.bootEnd - s.bootBegin ∧
      ((findSelf base s).foldl Cpu.exec c).x 4 = base ∧ ((findSelf base s).foldl Cpu.exec c).mem = c.mem :=
    ⟨rfl, rfl, rfl, rfl⟩
  generalize (findSelf base s).foldl Cpu.exec c = c₁ at finds pc differs registers
  obtain ⟨begin_, size, self, same⟩ := registers
  have test := bootloader_instr (s := s) (j := 10) pc rfl (by decide)
  rw [Cpu.exec, differs] at test
  have pc₂ : c₁.next.pc = address base 11 := by
    rw [Cpu.next, pc]
    exact address_succ base 10
  have moves := bootloader_instr (s := s) pc₂ rfl (by decide)
  exact ⟨_, (finds.trans test).trans moves, (congrArg (· + 4) pc₂).trans (address_succ base 11), same, self, begin_,
    size, self⟩

def findSetting (base : Word) (s : Symbols) : List Instr :=
  [.load 0 s.bootBegin, .sub 6 0 4, .adr 5 (address base 23), .add 5 5 6]

theorem finish_jumps (at_ : c.pc = address base 17) (self : c.x 4 = base) :
    ∃ c', Runs (placed base (bootloaderStart base s)) c c' ∧ c'.pc = address s.bootBegin 23 ∧ c'.mem = c.mem := by
  obtain ⟨finds, pc⟩ := Runs.straight at_
    (show (bootloaderStart base s).drop 17 = findSetting base s ++ (bootloaderStart base s).drop 21 from rfl)
    (by rw [bootloader_length]; decide) (by simp [findSetting, Instr.jumps])
  have target : ((findSetting base s).foldl Cpu.exec c).x 5 = address base 23 + (s.bootBegin - c.x 4) := rfl
  have same : ((findSetting base s).foldl Cpu.exec c).mem = c.mem := rfl
  generalize (findSetting base s).foldl Cpu.exec c = c₁ at finds pc target same
  have jumps := bootloader_instr (s := s) (j := 21) pc rfl (by decide)
  refine ⟨_, finds.trans jumps, target.trans ?_, same⟩
  rw [self]
  unfold address
  bv_omega

/-- Inside the loop, with a size that is no multiple of eight. -/
def Stuck (base : Word) (c : Cpu) : Prop :=
  ∃ j, 12 ≤ j ∧ j ≤ 16 ∧ c.pc = address base j ∧ (c.x 2).toNat % 8 ≠ 0

theorem Stuck.exec (stuck : Stuck base c) {i : Instr} (here : placed base (bootloaderStart base s) c.pc = some i) :
    Stuck base (c.exec i) := by
  obtain ⟨j, first, last, pc, odd⟩ := stuck
  rw [pc, placed_address (by omega)] at here
  interval_cases j
  · obtain rfl := Option.some.inj here
    have more : c.x 2 ≠ 0 := fun null => odd (by rw [null]; rfl)
    rw [Cpu.exec, if_neg more]
    exact ⟨13, by decide, by decide, (congrArg (· + 4) pc).trans (address_succ base 12), odd⟩
  · obtain rfl := Option.some.inj here
    exact ⟨14, by decide, by decide, (congrArg (· + 4) pc).trans (address_succ base 13), odd⟩
  · obtain rfl := Option.some.inj here
    exact ⟨15, by decide, by decide, (congrArg (· + 4) pc).trans (address_succ base 14), odd⟩
  · obtain rfl := Option.some.inj here
    refine ⟨16, by decide, by decide, (congrArg (· + 4) pc).trans (address_succ base 15), ?_⟩
    show (c.x 2 - 8).toNat % 8 ≠ 0
    bv_omega
  · obtain rfl := Option.some.inj here
    exact ⟨12, by decide, by decide, rfl, odd⟩

end Around

/-! ## The copy and its end -/

section Relocation

/-- The state in which the loop begins. -/
theorem loop_entry (loaded : Loaded base s) (at_ : c.pc = address base 5) :
    ∃ c', Runs (placed base (bootloaderStart base s)) c c' ∧ c'.pc = address base 12 ∧ c'.mem = c.mem ∧
      c'.x 0 = base ∧ c'.x 1 = s.bootBegin ∧ (c'.x 2).toNat = s.bootEnd.toNat - s.bootBegin.toNat ∧
      c'.x 4 = base := by
  obtain ⟨ordered, inMemory, apart⟩ := loaded
  rw [bootloader_length] at ordered
  have elsewhere : base ≠ s.bootBegin := by
    rintro rfl
    omega
  obtain ⟨c₁, runs, pc, same, source, dest, size, self⟩ := master_copies at_ elsewhere
  have length : (c₁.x 2).toNat = s.bootEnd.toNat - s.bootBegin.toNat := by
    rw [size]
    bv_omega
  exact ⟨c₁, runs, pc, same, source, dest, length, self⟩

/-- The relocated address of `setting` is not in the image that is executed. -/
theorem relocated_elsewhere (loaded : Loaded base s) :
    placed base (bootloaderStart base s) (address s.bootBegin 23) = none := by
  obtain ⟨ordered, inMemory, apart⟩ := loaded
  rw [bootloader_length] at ordered
  have beyond : 37 ≤ (address s.bootBegin 23 - base).toNat / 4 := by
    unfold address
    bv_omega
  unfold placed
  split
  · exact List.getElem?_eq_none beyond
  · rfl

/-- A size that is no multiple of eight never counts down to zero. -/
theorem relocates_dvd (loaded : Loaded base s) (at_ : c.pc = address base 5) (relocates : Relocates base s c) :
    8 ∣ s.bootEnd.toNat - s.bootBegin.toNat := by
  obtain ⟨c₁, runs, pc, _, _, _, length, _⟩ := loop_entry loaded at_
  have target := relocated_elsewhere loaded
  obtain ⟨c', runs', pc', _⟩ := relocates
  by_contra odd
  have later := runs.through runs' (pc' ▸ target)
  have stuck : Stuck base c₁ := ⟨12, by decide, by decide, pc, by omega⟩
  obtain ⟨j, first, last, inside, _⟩ := later.keeps (P := Stuck base) (fun _ _ stuck here => stuck.exec here) stuck
  rw [← pc', inside, placed_address (by omega)] at target
  have bound := List.getElem?_eq_none_iff.mp target
  rw [bootloader_length] at bound
  omega

theorem relocates_of_dvd (loaded : Loaded base s) (at_ : c.pc = address base 5)
    (whole : 8 ∣ s.bootEnd.toNat - s.bootBegin.toNat) : Relocates base s c := by
  obtain ⟨c₁, runs, pc, same, source, dest, length, self⟩ := loop_entry loaded at_
  obtain ⟨ordered, inMemory, apart⟩ := loaded
  obtain ⟨n, count⟩ := whole
  have separate : Apart (c₁.x 0) (c₁.x 1) (8 * n) := by
    rw [source, dest]
    exact ⟨by omega, by omega, by omega⟩
  obtain ⟨c₂, copies, pc₂, self₂, result⟩ := copy_runs pc (length.trans count) separate
  obtain ⟨c', jumps, pc', same'⟩ := finish_jumps (s := s) pc₂ (self₂.trans self)
  have final : c'.mem = copied c.mem base s.bootBegin (8 * n) := by rw [same', result, same, source, dest]
  refine ⟨c', (runs.trans copies).trans jumps, pc', fun i inside => ?_, fun a outside => ?_⟩
  · have offset : s.bootBegin + BitVec.ofNat 64 i - s.bootBegin = BitVec.ofNat 64 i := by bv_omega
    have small : (BitVec.ofNat 64 i).toNat < 8 * n := by
      rw [BitVec.toNat_ofNat]
      omega
    rw [final, copied, offset, if_pos small]
  · rw [final, copied, if_neg]
    unfold align8 at outside
    bv_omega

end Relocation

/-- The copy is as it should be just when the size of the image is a multiple of eight. -/
theorem relocates_iff (loaded : Loaded base s) (at_ : c.pc = address base 5) :
    Relocates base s c ↔ 8 ∣ s.bootEnd.toNat - s.bootBegin.toNat :=
  ⟨relocates_dvd loaded at_, relocates_of_dvd loaded at_⟩

/-- A bootloader for 0x60000 with an image of `size` bytes. -/
def bootloaderWith (size : Word) : Symbols :=
  { bootBegin := 0x60000, bootEnd := 0x60000 + size, bssBegin := 0x60000 + size, bssEnd := 0x60000 + size
    stackTop := 0x70000, main := 0x60094, exceptionVectorTable := 0 }

/-- A core at `master` of an image that is loaded at 0x80000. -/
def atMaster : Cpu := ⟨fun _ => 0, 0, false, address 0x80000 5, fun _ => 0, fun a => ⟨a.setWidth 8⟩⟩

theorem relocates_whole : Relocates 0x80000 (bootloaderWith 160) atMaster :=
  (relocates_iff ⟨by decide, by decide, by decide⟩ rfl).mpr (by decide)

theorem not_relocates_odd : ¬ Relocates 0x80000 (bootloaderWith 164) atMaster := fun relocates =>
  absurd (relocates_dvd ⟨by decide, by decide, by decide⟩ rfl relocates) (by decide)

end OsdiKernel.Boot
