import OsdiKernel.Trap.Frames

/-!
# What is resumed

After `eret` all registers are those of the trap frame, whatever has been taken on top of it and
whichever threads have run in between.  The exception is what the code itself leaves open: it sets
`spsr_el1` and `elr_el1` some instructions before `eret`, with exceptions unmasked.
-/

namespace OsdiKernel.Trap

open El1
open Aarch64 (Word load64 store64 address)

variable {s : Symbols} {c c' : Cpu} {a : Activation} {h : Handler} {m m' : Machine} {k : Nat}

/-! ## Where the code is -/

section Code

theorem text_length : (s.text h).length = 44 + h.arguments.length := by
  cases h <;> simp [Symbols.text, saveAll, saveRegisters, loadAll, loadRegisters, Handler.arguments]

theorem handlers_length : s.handlers.length = 135 := by
  simp [Symbols.handlers, text_length, Handler.arguments]

theorem offset_text : ∃ rest, s.handlers.drop (s.offset h) = s.text h ++ rest ∧
    s.offset h + (s.text h).length ≤ 135 := by
  cases h with
  | exceptionHandler => exact ⟨_, rfl, by simp [Symbols.offset, text_length, Handler.arguments]⟩
  | irqHandler => exact ⟨_, List.drop_left, by simp [Symbols.offset, text_length, Handler.arguments]⟩
  | el0SyncHandler =>
      refine ⟨[], ?_, by simp [Symbols.offset, text_length, Handler.arguments]⟩
      rw [Symbols.handlers, Symbols.offset, ← List.drop_drop, List.drop_left, List.drop_left, List.append_nil]

theorem code_handlers (inside : k < 135) :
    s.code (address s.handlersBegin k) = s.handlers[k]? := by
  have far : ¬(address s.handlersBegin k - s.exceptionVectorTable).toNat < 0x800 := by
    unfold address Symbols.handlersBegin
    bv_omega
  have found : s.handlers[k]? = some (s.handlers.get ⟨k, inside⟩) := List.getElem?_eq_getElem inside
  unfold Symbols.code
  rw [if_neg far, placed_address (Nat.lt_trans inside (by decide)), found]
  rfl

theorem code_vector {i : Nat} (inside : i < 16) :
    s.code (s.exceptionVectorTable + BitVec.ofNat 64 (0x80 * i)) =
      exceptionVectorTable[i]?.map fun h => .b (s.handler h) := by
  have near : (s.exceptionVectorTable + BitVec.ofNat 64 (0x80 * i) - s.exceptionVectorTable).toNat = 0x80 * i := by
    bv_omega
  unfold Symbols.code
  rw [near, if_pos (by omega), if_pos (Nat.mul_mod_right 0x80 i), Nat.mul_div_cancel_left i (by decide)]

theorem code_switch (linked : Linked s) (inside : k < cpuSwitchTo.length) :
    s.code (address s.cpuSwitchTo k) = cpuSwitchTo[k]? := by
  have apart := linked.apart k inside
  have far : ¬(address s.cpuSwitchTo k - s.exceptionVectorTable).toNat < 0x800 := by omega
  have elsewhere : placed s.handlersBegin s.handlers (address s.cpuSwitchTo k) = none := by
    unfold placed
    split
    · refine List.getElem?_eq_none ?_
      rw [handlers_length] at apart ⊢
      unfold Symbols.handlersBegin
      bv_omega
    · rfl
  unfold Symbols.code
  rw [if_neg far, elsewhere, placed_address (Nat.lt_trans inside (by decide))]
  rfl

theorem code_text {i : Instr} (found : (s.text h)[k]? = some i) :
    s.code (address s.handlersBegin (s.offset h + k)) = some i := by
  have inside := (List.getElem?_eq_some_iff.mp found).1
  obtain ⟨rest, place, bound⟩ := offset_text (s := s) (h := h)
  rw [code_handlers (by omega), ← List.getElem?_drop, place, List.getElem?_append_left inside, found]

/-- A handler up to its call. -/
theorem code_entry {i : Instr} (found : (saveAll ++ (h.arguments ++ [.bl (s.entry h)]))[k]? = some i) :
    s.code (address s.handlersBegin (s.offset h + k)) = some i := by
  refine code_text ?_
  have whole : s.text h = saveAll ++ (h.arguments ++ [.bl (s.entry h)]) ++ (loadAll ++ [.eret]) := by
    simp [Symbols.text]
  rw [whole, List.getElem?_append_left (List.getElem?_eq_some_iff.mp found).1, found]

/-- A handler after its call. -/
theorem code_load (small : k ≤ 21) : s.code (s.loadAddress h k) = (loadAll ++ [.eret])[k]? := by
  have inside : k < (loadAll ++ [Instr.eret]).length := Nat.lt_succ_of_le small
  have found := List.getElem?_eq_getElem inside
  rw [found]
  have place : s.loadBegin h + k = s.offset h + (saveAll.length + (h.arguments.length + (1 + k))) := by
    unfold Symbols.loadBegin
    omega
  unfold Symbols.loadAddress
  rw [place]
  refine code_text ?_
  unfold Symbols.text
  rw [List.getElem?_append_right (Nat.le_add_right _ _), Nat.add_sub_cancel_left,
    List.getElem?_append_right (Nat.le_add_right _ _), Nat.add_sub_cancel_left, Nat.add_comm 1 k,
    List.getElem?_cons_succ, found]

end Code

/-! ## Saving -/

section Saving

/-- Each register holds its own word of the frame. -/
def saving : Sym where
  x r := some r
  sp := none
  sys
    | .spEl0 => some 31
    | .spsrEl1 => some 32
    | .elrEl1 => some 33
    | _ => none
  slots _ := none

theorem exists_of_slots {o : Option Sym} {n : Nat} (positive : 0 < n)
    (stored : ∀ j : Fin n, (o.bind fun sym => sym.slots j) = some j.val) :
    ∃ sym, o = some sym ∧ ∀ j < n, sym.slots j = some j := by
  cases o with
  | none => cases stored ⟨0, positive⟩
  | some sym => exact ⟨sym, rfl, fun j inside => stored ⟨j, inside⟩⟩

/-- All words are in the frame, with whatever arguments the function is called. -/
theorem saves (h : Handler) : ∃ sym,
    Sym.run .sp frameLength saving (saveRegisters ++ h.arguments) = some sym ∧
      ∀ j < frameLength, sym.slots j = some j := by
  refine exists_of_slots (by decide) ?_
  cases h <;> decide

theorem saving_models (returnTo syndrome : Word) (kind : Kind) (vbar pc : Word) (c : Cpu) :
    Sym.Models .sp frameLength (trapFrame { c with pc := returnTo }) (c.sp - BitVec.ofNat 64 (16 * 17)) saving
      ({ c.take vbar kind returnTo syndrome with pc := pc }.exec (.subSp (16 * 17))) where
  at_ := rfl
  x r i known := by
    cases known
    show c.x r = dite _ _ _
    rw [dif_pos r.isLt]
  sp i known := by cases known
  sys reg i known := by
    cases reg <;> cases known <;> rfl
  slots j i inside known := by cases known

/-- What the handler has done when it calls its function. -/
structure Saved (s : Symbols) (a : Activation) (c c' : Cpu) : Prop where
  pc : c'.pc = s.entry a.handler
  sp : c'.sp = a.base
  back : c'.x 30 = s.loadAddress a.handler 0
  pstate : c'.pstate = entered c.pstate
  held : a.Held c'.mem
  kept : ∀ q, (∀ j < frameLength, Clear (slot a.base j) q) → load64 c'.mem q = load64 c.mem q

theorem code_saving {i : Instr} (found : (saveRegisters ++ h.arguments)[k]? = some i) :
    s.code (address s.handlersBegin (s.offset h + 1 + k)) = some i := by
  have inside := (List.getElem?_eq_some_iff.mp found).1
  rw [Nat.add_assoc]
  refine code_entry ?_
  rw [saveAll, Nat.add_comm 1 k, List.cons_append, List.getElem?_cons_succ, ← List.append_assoc,
    List.getElem?_append_left inside, found]

theorem code_call : s.code (address s.handlersBegin (s.offset h + 1 + (saveRegisters ++ h.arguments).length)) =
    some (.bl (s.entry h)) := by
  rw [Nat.add_assoc]
  refine code_entry ?_
  rw [saveAll, Nat.add_comm 1 _, List.cons_append, List.getElem?_cons_succ, ← List.append_assoc,
    List.getElem?_append_right (Nat.le_refl _), Nat.sub_self]
  rfl

/-- A handler comes to its call. -/
theorem take_saves (linked : Linked s) {kind : Kind} (returnTo syndrome : Word)
    (vector : exceptionVectorTable[4 * source c.pstate + kind.index]? = some h) :
    ∃ d, Saved s ⟨{ c with pc := returnTo }, h, [], none, false⟩ c d ∧
      ∀ c', Leaves s.code (c.take s.exceptionVectorTable kind returnTo syndrome) c' ↔ c' = d := by
  have entry : s.code (c.take s.exceptionVectorTable kind returnTo syndrome).pc = some (.b (s.handler h)) := by
    have number : 0x200 * source c.pstate + 0x80 * kind.index = 0x80 * (4 * source c.pstate + kind.index) := by
      omega
    show s.code (_ + BitVec.ofNat 64 _) = _
    rw [number, code_vector (List.getElem?_eq_some_iff.mp vector).1, vector]
    rfl
  have first : s.code (s.handler h) = some (.subSp (16 * 17)) := code_entry (k := 0) rfl
  obtain ⟨sym, ran, stored⟩ := saves h
  have starts := saving_models returnTo syndrome kind s.exceptionVectorTable (s.handler h) c
  obtain ⟨models, frame, plain⟩ := Sym.run_sound (by decide) starts ran
  have at_ : ({ c.take s.exceptionVectorTable kind returnTo syndrome with pc := s.handler h }.exec
      (.subSp (16 * 17))).pc = address s.handlersBegin (s.offset h + 1) := Aarch64.address_succ _ _
  have block := Leaves.block_iff at_ (fun j i => code_saving) plain
  generalize (saveRegisters ++ h.arguments).foldl Cpu.exec _ = d at models frame block
  have call := code_call (s := s) (h := h)
  rw [← block.2] at call
  refine ⟨d.exec (.bl (s.entry h)), ?_, fun c' => ?_⟩
  · exact {
      pc := rfl
      sp := models.at_
      back := by
        have place : s.offset h + 1 + (saveRegisters ++ h.arguments).length + 1 = s.loadBegin h + 0 := by
          simp only [Symbols.loadBegin, saveAll, List.length_append, List.length_cons]
          omega
        show d.pc + 4 = _
        rw [block.2, Aarch64.address_succ, place]
        rfl
      pstate := frame.pstate
      held := fun j inside => models.slots j j inside (stored j inside)
      kept := frame.mem }
  · -- the branch, the first instruction, all that only moves words, and the call
    rw [Leaves.step_iff entry]
    change Leaves s.code { c.take s.exceptionVectorTable kind returnTo syndrome with pc := s.handler h } c' ↔ _
    rw [Leaves.step_iff first, block.1, Leaves.step_iff call, Leaves.out_iff (linked.outside h)]

end Saving

/-! ## Loading -/

section Loading

/-- What stays known of the registers when an exception is taken and returned from. -/
def remembered (sym : Sym) : Sym where
  x := sym.x
  sp := none
  sys reg := if reg = .spEl0 then sym.sys reg else none
  slots _ := none

/-- The words that the registers hold after some of the instructions. -/
def loadedAt : Nat → Option Sym
  | 0 => some Sym.unknown
  | k + 1 => do
      let sym ← loadedAt k
      let i ← loadRegisters[k]?
      let sym ← Sym.exec .sp frameLength { sym with slots := some } i
      return remembered sym

/-- All registers are loaded in the end. -/
theorem loadedAt_end : ∃ sym, loadedAt 20 = some sym ∧ (∀ r, sym.x r = some r.val) ∧ sym.sys .spEl0 = some 31 := by
  have isSome : (loadedAt 20).isSome = true := by decide
  obtain ⟨sym, found⟩ := Option.isSome_iff_exists.mp isSome
  refine ⟨sym, found, fun r => ?_, ?_⟩
  · have all : ∀ r : Fin 31, ((loadedAt 20).bind fun sym => sym.x r) = some r.val := by decide
    have known := all r
    rwa [found] at known
  · have known : ((loadedAt 20).bind fun sym => sym.sys .spEl0) = some 31 := by decide
    rwa [found] at known

/-- The first two words, until they are in `spsr_el1` and `elr_el1`. -/
theorem loadedAt_start {sym : Sym} (inside : k = 1 ∨ k = 2) (found : loadedAt k = some sym) :
    sym.x 0 = some 32 ∧ sym.x 1 = some 33 := by
  rcases inside with rfl | rfl
  · cases found
    decide
  · cases found
    decide

/-- A handler that loads the registers, which exceptions taken on top of it do not change. -/
structure Loading (s : Symbols) (a : Activation) (k : Nat) (c : Cpu) : Prop where
  small : k ≤ 21
  pc : c.pc = s.loadAddress a.handler k
  handles : Handles c.pstate
  some_ : k ≤ 20 → a.spent = false ∧ ∃ sym, loadedAt k = some sym ∧
    Sym.Models .sp frameLength a.words a.base sym c
  all : k = 21 → (∀ r, c.x r = a.words r) ∧ c.sys .spEl0 = a.words 31 ∧ c.sp = a.taken.sp
  late : ∀ l, a.late = some l → Handles l.2 ∧ ∃ j, 2 ≤ j ∧ j ≤ k ∧ l.1 = s.loadAddress a.handler j

/-- The state with which `eret` goes on. -/
def Activation.pstate (a : Activation) : Word := (a.late.map Prod.snd).getD (a.words 32)

/-- The address at which `eret` goes on: if an exception was taken after `elr_el1` was set, that of
the instruction at which it was taken. -/
def Activation.target (s : Symbols) (a : Activation) : Word :=
  match a.late with
  | none => a.words 33
  | some l => if l.1 = s.loadAddress a.handler 2 then a.words 33 else l.1

/-- What `eret` will use. -/
structure Armed (s : Symbols) (a : Activation) (k : Nat) (c : Cpu) : Prop where
  spsr : 2 ≤ k → c.sys .spsrEl1 = a.pstate
  elr : 3 ≤ k → c.sys .elrEl1 = a.target s

theorem loadedAt_forgets {sym : Sym} (found : loadedAt k = some sym) :
    sym.sp = none ∧ (∀ reg, reg ≠ .spEl0 → sym.sys reg = none) ∧ ∀ j, sym.slots j = none := by
  cases k with
  | zero =>
      cases found
      exact ⟨rfl, fun _ _ => rfl, fun _ => rfl⟩
  | succ k =>
      simp only [loadedAt, Option.bind_eq_bind, Option.bind_eq_some_iff] at found
      obtain ⟨_, _, _, _, last, _, ⟨⟩⟩ := found
      exact ⟨rfl, fun reg other => if_neg other, fun _ => rfl⟩

/-- The known registers are the same in a later state with the same registers. -/
theorem Loading.resume {d : Cpu} (loading : Loading s a k c) (pc : d.pc = c.pc) (handles : Handles d.pstate)
    (x : d.x = c.x) (sp : d.sp = c.sp) (spEl0 : d.sys .spEl0 = c.sys .spEl0) : Loading s a k d where
  small := loading.small
  pc := pc.trans loading.pc
  handles := handles
  some_ early := by
    obtain ⟨unspent, sym, found, models⟩ := loading.some_ early
    obtain ⟨noSp, onlySpEl0, noSlots⟩ := loadedAt_forgets found
    refine ⟨unspent, sym, found, sp.trans models.at_, fun r i known => x ▸ models.x r i known, ?_, ?_, ?_⟩
    · intro i known
      rw [noSp] at known
      cases known
    · intro reg i known
      by_cases here : reg = .spEl0
      · subst here
        exact spEl0.trans (models.sys _ i known)
      · rw [onlySpEl0 reg here] at known
        cases known
    · intro j i _ known
      rw [noSlots] at known
      cases known
  all last := by
    rw [x, sp, spEl0]
    exact loading.all last
  late := loading.late

theorem remembered_models {sym : Sym} {words : Nat → Word} {base : Word}
    (models : Sym.Models .sp frameLength words base sym c) :
    Sym.Models .sp frameLength words base (remembered sym) c where
  at_ := models.at_
  x := models.x
  sp i known := by cases known
  sys reg i known := by
    obtain ⟨_, same⟩ := Option.ite_none_right_eq_some.mp known
    exact models.sys reg i same
  slots j i _ known := by cases known

theorem loadedAt_next (inside : k < 20) {sym : Sym} {i : Instr} (found : loadedAt k = some sym)
    (here : loadRegisters[k]? = some i) : ∃ sym', loadedAt (k + 1) = some (remembered sym') ∧
      Sym.exec .sp frameLength { sym with slots := some } i = some sym' := by
  have all : ∀ k : Fin 20, (loadedAt (k + 1)).isSome = true := by decide
  have next := all ⟨k, inside⟩
  simp only [loadedAt, found, here, Option.bind_eq_bind, Option.bind_some] at next ⊢
  cases stepped : Sym.exec .sp frameLength { sym with slots := some } i with
  | none => simp [stepped] at next
  | some sym' => exact ⟨sym', rfl, rfl⟩

theorem sys_exec {reg : SysReg} {i : Instr} (other : ∀ n, i ≠ .msr reg n) (c : Cpu) :
    (c.exec i).sys reg = c.sys reg := by
  cases i with
  | msr reg' n =>
      refine Function.update_of_ne ?_ _ _
      rintro rfl
      exact other n rfl
  | _ => rfl

/-- The two registers that `eret` uses are written once. -/
theorem msr_once (reg : SysReg) (first : Nat) (isFirst : (reg, first) ∈ [(.spsrEl1, 2), (.elrEl1, 3)])
    (after : first ≤ k) (inside : k ≤ 20) {i : Instr} (here : (loadAll ++ [.eret])[k]? = some i) (n : Fin 31) :
    i ≠ .msr reg n := by
  have all : ∀ entry ∈ [(SysReg.spsrEl1, 2), (SysReg.elrEl1, 3)], ∀ k : Fin 21, entry.2 ≤ k.val →
      ∀ n : Fin 31, (loadAll ++ [.eret])[k.val]? ≠ some (.msr entry.1 n) := by decide
  rintro rfl
  exact all (reg, first) isFirst ⟨k, Nat.lt_succ_of_le inside⟩ after n here

theorem loadAddress_succ : s.loadAddress h k + 4 = s.loadAddress h (k + 1) := Aarch64.address_succ _ _

/-- The next register is loaded. -/
theorem Loading.load (loading : Loading s a k c) (inside : k < 20) {i : Instr} (here : loadRegisters[k]? = some i)
    (held : a.Held c.mem) : Loading s a (k + 1) (c.exec i) := by
  obtain ⟨unspent, sym, found, models⟩ := loading.some_ (by omega)
  obtain ⟨sym', next, stepped⟩ := loadedAt_next inside found here
  have ready : Sym.Models .sp frameLength a.words a.base { sym with slots := some } c :=
    { models with
      slots := fun j i below known => by
        cases known
        exact held j below }
  obtain ⟨models', frame, plain⟩ := Sym.exec_sound (by decide) ready stepped
  exact {
    small := by omega
    pc := by rw [Instr.pc_exec plain, loading.pc, loadAddress_succ]
    handles := by
      rw [frame.pstate]
      exact loading.handles
    some_ := fun _ => ⟨unspent, remembered sym', next, remembered_models models'⟩
    all := by omega
    late := fun l isLate => by
      obtain ⟨handles, j, first, last, place⟩ := loading.late l isLate
      exact ⟨handles, j, first, by omega, place⟩ }

/-- The stack pointer is moved back. -/
theorem Loading.finish (loading : Loading s a 20 c) : Loading s a 21 (c.exec (.addSp (16 * 17))) := by
  obtain ⟨_, sym, found, models⟩ := loading.some_ (by omega)
  obtain ⟨sym', found', registers, spEl0⟩ := loadedAt_end
  cases found.symm.trans found'
  exact {
    small := by omega
    pc := by
      show c.pc + 4 = _
      rw [loading.pc, loadAddress_succ]
    handles := loading.handles
    some_ := by omega
    all := fun _ => ⟨fun r => models.x r r (registers r), models.sys _ _ spEl0, by
      show c.sp + _ = _
      rw [show c.sp = a.base from models.at_]
      exact BitVec.sub_add_cancel _ _⟩
    late := fun l isLate => by
      obtain ⟨handles, j, first, last, place⟩ := loading.late l isLate
      exact ⟨handles, j, first, by omega, place⟩ }

theorem Loading.not_late (loading : Loading s a k c) (early : k < 2) : a.late = none := by
  cases isLate : a.late with
  | none => rfl
  | some l =>
      obtain ⟨_, j, first, last, _⟩ := loading.late l isLate
      omega

/-- One instruction of `load_all`. -/
theorem Loading.step (loading : Loading s a k c) (armed : Armed s a k c) (inside : k ≤ 20) {i : Instr}
    (here : (loadAll ++ [.eret])[k]? = some i) (held : a.spent = false → a.Held c.mem) :
    Loading s a (k + 1) (c.exec i) ∧ Armed s a (k + 1) (c.exec i) := by
  obtain ⟨unspent, sym, found, models⟩ := loading.some_ inside
  constructor
  · rcases Nat.lt_or_eq_of_le inside with before | rfl
    · refine loading.load before ?_ (held unspent)
      rwa [loadAll, List.append_assoc, List.getElem?_append_left before] at here
    · cases here
      exact loading.finish
  · constructor
    · intro after
      rcases Nat.lt_or_eq_of_le after with later | same
      · rw [sys_exec (msr_once .spsrEl1 2 (by decide) (by omega) inside here)]
        exact armed.spsr (by omega)
      · obtain rfl : k = 1 := by omega
        cases here
        show Function.update c.sys .spsrEl1 (c.x 0) .spsrEl1 = _
        rw [Function.update_self, models.x 0 32 (loadedAt_start (Or.inl rfl) found).1, Activation.pstate,
          loading.not_late (by decide)]
        rfl
    · intro after
      rcases Nat.lt_or_eq_of_le after with later | same
      · rw [sys_exec (msr_once .elrEl1 3 (by decide) (by omega) inside here)]
        exact armed.elr (by omega)
      · obtain rfl : k = 2 := by omega
        cases here
        show Function.update c.sys .elrEl1 (c.x 1) .elrEl1 = _
        rw [Function.update_self, models.x 1 33 (loadedAt_start (Or.inr rfl) found).2, Activation.target]
        cases isLate : a.late with
        | none => rfl
        | some l =>
            obtain ⟨_, j, first, last, place⟩ := loading.late l isLate
            obtain rfl : j = 2 := by omega
            exact (if_pos place).symm

end Loading

/-! ## Switching -/

section Switching

variable {w : Nat → Word} {current next : Word}

/-- The registers that a function keeps, and the argument that is still needed. -/
def switching : Sym where
  x r := if 19 ≤ r.val then some (r - 19) else if r = 1 then some contextLength else none
  sp := some 12
  sys _ := none
  slots _ := none

/-- Only the words of the other thread are known. -/
def loadingContext : Sym where
  x _ := none
  sp := none
  sys _ := none
  slots := some

theorem stores_context : ∃ sym, Sym.run (.x 0) contextLength switching storeContext = some sym ∧
    sym.x 1 = some contextLength ∧ ∀ j < contextLength, sym.slots j = some j := by
  have stored : ∀ j : Fin contextLength,
      ((Sym.run (.x 0) contextLength switching storeContext).bind fun sym => sym.slots j) = some j.val := by decide
  have argument : ((Sym.run (.x 0) contextLength switching storeContext).bind fun sym => sym.x 1) =
      some contextLength := by decide
  obtain ⟨sym, ran, slots⟩ := exists_of_slots (by decide) stored
  rw [ran] at argument
  exact ⟨sym, ran, argument, slots⟩

theorem loads_context : ∃ sym, Sym.run (.x 1) contextLength loadingContext loadContext = some sym ∧
    sym.sp = some 12 ∧ ∀ i (inside : i < 12), sym.x ⟨i + 19, Nat.add_lt_add_right inside 19⟩ = some i := by
  have isSome : (Sym.run (.x 1) contextLength loadingContext loadContext).isSome = true := by decide
  obtain ⟨sym, ran⟩ := Option.isSome_iff_exists.mp isSome
  refine ⟨sym, ran, ?_, fun i inside => ?_⟩
  · have known : ((Sym.run (.x 1) contextLength loadingContext loadContext).bind fun sym => sym.sp) = some 12 := by
      decide
    rwa [ran] at known
  · have all : ∀ i : Fin 12, ((Sym.run (.x 1) contextLength loadingContext loadContext).bind fun sym =>
        sym.x ⟨i + 19, Nat.add_lt_add_right i.isLt 19⟩) = some i.val := by decide
    have known := all ⟨i, inside⟩
    rwa [ran] at known

/-- What `cpu_switch_to` has done when it returns in the other thread. -/
structure Switched (current next : Word) (w : Nat → Word) (c c' : Cpu) : Prop where
  pc : c'.pc = w 11
  sp : c'.sp = w 12
  x : ∀ i (inside : i < 12), c'.x ⟨i + 19, Nat.add_lt_add_right inside 19⟩ = w i
  thread : c'.sys .tpidrEl1 = next
  pstate : c'.pstate = c.pstate
  saved : ∀ i < contextLength, load64 c'.mem (slot current i) = cpuContext c i
  kept : ∀ q, (∀ j < contextLength, Clear (slot current j) q) → load64 c'.mem q = load64 c.mem q

/-- The words that are stored, and the argument. -/
def outgoing (c : Cpu) (next : Word) (i : Nat) : Word := if i < contextLength then cpuContext c i else next

theorem switching_models (prev : c.x 0 = current) (arg : c.x 1 = next) :
    Sym.Models (.x 0) contextLength (outgoing c next) current switching { c with pc := s.cpuSwitchTo } where
  at_ := prev
  x r i known := by
    change (if 19 ≤ r.val then some (r.val - 19) else if r = 1 then some contextLength else none) = some i at known
    split at known
    next late =>
        cases known
        have inside : r.val - 19 < 12 := by omega
        have same : (⟨r.val - 19 + 19, Nat.add_lt_add_right inside 19⟩ : Fin 31) = r :=
          Fin.ext (Nat.sub_add_cancel late)
        show c.x r = _
        have below : r.val - 19 < contextLength := Nat.lt_succ_of_lt inside
        rw [outgoing, if_pos below, cpuContext, dif_pos inside, same]
    next early =>
        obtain ⟨rfl, same⟩ := Option.ite_none_right_eq_some.mp known
        cases same
        exact arg
  sp i known := by
    cases known
    rfl
  sys _ _ known := by cases known
  slots _ _ _ known := by cases known

theorem switch_stores (linked : Linked s) (prev : c.x 0 = current) (arg : c.x 1 = next) :
    ∃ d, (∀ c', Leaves s.code { c with pc := s.cpuSwitchTo } c' ↔ Leaves s.code d c') ∧
      d.pc = address s.cpuSwitchTo storeContext.length ∧ d.x 1 = next ∧
        (∀ i < contextLength, load64 d.mem (slot current i) = cpuContext c i) ∧
          Sym.Frame contextLength current c d := by
  obtain ⟨sym, ran, argument, stored⟩ := stores_context
  obtain ⟨models, frame, plain⟩ := Sym.run_sound (by decide) (switching_models (s := s) prev arg) ran
  have begins : { c with pc := s.cpuSwitchTo }.pc = address s.cpuSwitchTo 0 := (BitVec.add_zero _).symm
  have here : ∀ j i, storeContext[j]? = some i → s.code (address s.cpuSwitchTo (0 + j)) = some i := by
    intro j i found
    have inside := (List.getElem?_eq_some_iff.mp found).1
    have below : j < cpuSwitchTo.length := Nat.lt_trans inside (by decide)
    rw [Nat.zero_add, code_switch linked below, cpuSwitchTo, List.getElem?_append_left inside, found]
  have block := Leaves.block_iff begins here plain
  have ends := block.2
  rw [Nat.zero_add] at ends
  refine ⟨_, block.1, ends, models.x 1 _ argument, fun i inside => ?_, ⟨frame.pstate, frame.mem⟩⟩
  exact (models.slots i i inside (stored i inside)).trans (if_pos inside)

/-- The last two instructions of `cpu_switch_to`. -/
theorem switch_returns {target : Word} (linked : Linked s) (begins : c.pc = address s.cpuSwitchTo 16) (arg : c.x 1 = next)
    (link : c.x 30 = target) (entry : s.code target = none) :
    ∃ d, (∀ c', Leaves s.code c c' ↔ c' = d) ∧ d.pc = target ∧ d.sp = c.sp ∧ d.x = c.x ∧
      d.sys .tpidrEl1 = next ∧ d.pstate = c.pstate ∧ d.mem = c.mem := by
  have atMsr := code_switch linked (k := 16) (by decide)
  have atRet := code_switch linked (k := 17) (by decide)
  have after : (c.exec (.msr .tpidrEl1 1)).pc = address s.cpuSwitchTo 17 := by
    show c.pc + 4 = _
    rw [begins, Aarch64.address_succ]
  rw [← begins] at atMsr
  rw [← after] at atRet
  have outside : s.code ((c.exec (.msr .tpidrEl1 1)).exec .ret).pc = none := by
    show s.code (c.x 30) = none
    rw [link, entry]
  have thread : Function.update c.sys .tpidrEl1 (c.x 1) .tpidrEl1 = next := by
    rw [Function.update_self, arg]
  refine ⟨(c.exec (.msr .tpidrEl1 1)).exec .ret, fun c' => ?_, link, rfl, rfl, thread, rfl, rfl⟩
  rw [Leaves.step_iff atMsr, Leaves.step_iff atRet, Leaves.out_iff outside]

theorem switch_loads (linked : Linked s) (begins : c.pc = address s.cpuSwitchTo storeContext.length)
    (arg : c.x 1 = next) (context : ∀ i < contextLength, load64 c.mem (slot next i) = w i)
    (entry : s.code (w 11) = none) :
    ∃ d, (∀ c', Leaves s.code c c' ↔ c' = d) ∧ d.pc = w 11 ∧ d.sp = w 12 ∧
      (∀ i (inside : i < 12), d.x ⟨i + 19, Nat.add_lt_add_right inside 19⟩ = w i) ∧
        d.sys .tpidrEl1 = next ∧ d.pstate = c.pstate ∧ d.mem = c.mem := by
  obtain ⟨sym, ran, sp, x⟩ := loads_context
  have starts : Sym.Models (.x 1) contextLength w next loadingContext c := {
    at_ := arg
    x := fun _ _ known => by cases known
    sp := fun _ known => by cases known
    sys := fun _ _ known => by cases known
    slots := fun j i inside known => by
      cases known
      exact context j inside }
  obtain ⟨models, frame, plain⟩ := Sym.run_sound (by decide) starts ran
  have here : ∀ j i, loadContext[j]? = some i → s.code (address s.cpuSwitchTo (storeContext.length + j)) = some i := by
    intro j i found
    have inside := (List.getElem?_eq_some_iff.mp found).1
    have below : storeContext.length + j < cpuSwitchTo.length :=
      Nat.lt_of_lt_of_le (Nat.add_lt_add_left inside _) (by decide)
    rw [code_switch linked below, cpuSwitchTo, List.getElem?_append_right (Nat.le_add_right _ _),
      Nat.add_sub_cancel_left, List.getElem?_append_left inside, found]
  have block := Leaves.block_iff begins here plain
  have same := @mem_block loadContext (by decide) c
  -- the state has a name, so that nothing executes the block again
  obtain ⟨d, isD⟩ : ∃ d, loadContext.foldl Cpu.exec c = d := ⟨_, rfl⟩
  rw [isD] at models frame block same
  obtain ⟨e, reached, pc, sp', x', thread, pstate, mem⟩ :=
    switch_returns linked block.2 models.at_ (models.x _ _ (x 11 (by decide))) entry
  refine ⟨e, fun c' => (block.1 c').trans (reached c'), pc, sp'.trans (models.sp 12 sp), fun i inside => ?_, thread,
    pstate.trans frame.pstate, mem.trans same⟩
  rw [x']
  exact models.x _ _ (x i inside)

theorem switch_switches (linked : Linked s) (prev : c.x 0 = current) (arg : c.x 1 = next)
    (context : ∀ i < contextLength, load64 c.mem (slot next i) = w i)
    (apart : ∀ j < contextLength, ∀ i < contextLength, Clear (slot current j) (slot next i))
    (entry : s.code (w 11) = none) :
    ∃ d, Switched current next w c d ∧ ∀ c', Leaves s.code { c with pc := s.cpuSwitchTo } c' ↔ c' = d := by
  obtain ⟨e, half, begins, arg', saved, frame⟩ := switch_stores (s := s) linked prev arg
  have context' : ∀ i < contextLength, load64 e.mem (slot next i) = w i := by
    intro i inside
    rw [frame.mem _ fun j below => apart j below i inside, context i inside]
  obtain ⟨d, reached, pc, sp, x, thread, pstate, mem⟩ := switch_loads linked begins arg' context' entry
  refine ⟨d, ?_, fun c' => (half c').trans (reached c')⟩
  exact {
    pc := pc
    sp := sp
    x := x
    thread := thread
    pstate := pstate.trans frame.pstate
    saved := fun i inside => by rw [mem, saved i inside]
    kept := fun q clear => by rw [mem, frame.mem q clear] }

end Switching

end OsdiKernel.Trap
