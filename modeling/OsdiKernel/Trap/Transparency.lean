import OsdiKernel.Trap.Resumption

/-!
# Interrupts and switches in any order

One invariant of the machine: the frames and contexts in use are in memory, and each exception that
has not been returned from was taken in a function called by the handler below it, or while that
handler was loading registers.
-/

namespace OsdiKernel.Trap

open El1
open Aarch64 (Word load64 store64 address)

variable {s : Symbols} {c c' : Cpu} {a : Activation} {rest : List Activation} {m m' : Machine} {t : Word}
  {event : Event}

/-! ## The invariant -/

/-- The handler is in the function that it has called. -/
structure Calling (s : Symbols) (a : Activation) (pc : Word) : Prop where
  outside : s.code pc = none
  unspent : a.spent = false
  notLate : a.late = none

/-- A handler executes `load_all` again and again: nothing is left that it would return to. -/
def Astray (s : Symbols) (pc : Word) : Prop := ∃ h k, 3 ≤ k ∧ k ≤ 21 ∧ pc = s.loadAddress h k

/-- The code in which an exception was taken. -/
def Below (s : Symbols) (c : Cpu) : List Activation → Prop
  | [] => s.code c.pc = none ∨ Astray s c.pc
  | a :: _ => Calling s a c.pc ∨ ∃ k, Loading s a k c

/-- The code that runs. -/
def Top (s : Symbols) (c : Cpu) : List Activation → Prop
  | [] => s.code c.pc = none ∨ Astray s c.pc ∧ Astray s (c.sys .elrEl1)
  | a :: _ => Calling s a c.pc ∨ ∃ k, Loading s a k c ∧ Armed s a k c

/-- A thread that has called `cpu_switch_to`. -/
def Switching : List Activation → Prop
  | [] => True
  | a :: _ => a.spent = false ∧ a.late = none

/-- One exception that has not been returned from. -/
structure Stacked (s : Symbols) (mem : Word → UInt8) (a : Activation) (rest : List Activation) : Prop where
  held : a.spent = false → a.Held mem
  unedited : s.code a.taken.pc ≠ none → a.edits = []
  target : s.code a.taken.pc = none → s.code (a.words 33) = none
  below : Below s a.taken rest

def Frames (s : Symbols) (mem : Word → UInt8) : List Activation → Prop
  | [] => True
  | a :: rest => Stacked s mem a rest ∧ Frames s mem rest

structure Inv (s : Symbols) (m : Machine) : Prop where
  top : Top s m.cpu (m.activations m.current)
  frames : ∀ t, Frames s m.cpu.mem (m.activations t)
  idle : ∀ t, t ≠ m.current → Switching (m.activations t)
  held : ∀ t w, m.contexts t = some w → ∀ i < contextLength, load64 m.cpu.mem (slot t i) = w i
  back : ∀ t w, m.contexts t = some w → s.code (w 11) = none
  running : m.contexts m.current = none

/-- No exception has been taken, and there is one thread. -/
structure Starts (s : Symbols) (m : Machine) : Prop where
  outside : s.code m.cpu.pc = none
  activations : ∀ t, m.activations t = []
  contexts : ∀ t, m.contexts t = none

theorem Starts.inv (starts : Starts s m) : Inv s m where
  top := by
    rw [starts.activations]
    exact Or.inl starts.outside
  frames t := by
    rw [starts.activations]
    trivial
  idle t _ := by
    rw [starts.activations]
    trivial
  held t w found := by simp [starts.contexts] at found
  back t w found := by simp [starts.contexts] at found
  running := starts.contexts m.current

/-! ## Memory -/

section Memory

variable {mem mem' : Word → UInt8} {stack : List Activation}

theorem Frames.kept (frames : Frames s mem stack)
    (same : ∀ a ∈ stack, a.spent = false → ∀ i < frameLength, load64 mem' (slot a.base i) = load64 mem (slot a.base i)) :
    Frames s mem' stack := by
  induction stack with
  | nil => trivial
  | cons a rest ih =>
      obtain ⟨stacked, frames⟩ := frames
      refine ⟨{ stacked with held := fun unspent i inside => ?_ }, ih frames fun b member => ?_⟩
      · rw [same a List.mem_cons_self unspent i inside]
        exact stacked.held unspent i inside
      · exact same b (List.mem_cons_of_mem a member)

theorem Frames.held (frames : Frames s mem stack) (member : a ∈ stack) (unspent : a.spent = false) : a.Held mem := by
  induction stack with
  | nil => cases member
  | cons b rest ih =>
      rcases List.mem_cons.mp member with rfl | later
      · exact frames.1.held unspent
      · exact ih frames.2 later

theorem Machine.InUse.frame {a : Activation} (member : a ∈ m.activations t) (unspent : a.spent = false) {i : Nat}
    (inside : i < frameLength) : m.InUse (slot a.base i) := Or.inl ⟨t, a, member, unspent, i, inside, rfl⟩

theorem Machine.InUse.context {w : Nat → Word} (found : m.contexts t = some w) {i : Nat}
    (inside : i < contextLength) : m.InUse (slot t i) := Or.inr ⟨t, w, found, i, inside, rfl⟩

end Memory

/-! ## Where the code is -/

theorem loadAddress_inside {h : Handler} {k : Nat} (small : k ≤ 21) : s.code (s.loadAddress h k) ≠ none := by
  rw [code_load small, List.getElem?_eq_getElem (Nat.lt_succ_of_le small)]
  simp

theorem Loading.inside {k : Nat} (loading : Loading s a k c) : s.code c.pc ≠ none := by
  rw [loading.pc]
  exact loadAddress_inside loading.small

theorem Astray.inside {pc : Word} (astray : Astray s pc) : s.code pc ≠ none := by
  obtain ⟨h, k, _, small, rfl⟩ := astray
  exact loadAddress_inside small

theorem loadAddress_inj {h : Handler} {j k : Nat} (first : j ≤ 21) (second : k ≤ 21)
    (same : s.loadAddress h j = s.loadAddress h k) : j = k := by
  have bound : s.loadBegin h ≤ 200 := by
    cases h <;> simp [Symbols.loadBegin, Symbols.offset, text_length, Handler.arguments, saveAll, saveRegisters]
  unfold Symbols.loadAddress address at same
  bv_omega

theorem Top.calling (top : Top s c (a :: rest)) (outside : s.code c.pc = none) : Calling s a c.pc := by
  rcases top with calling | ⟨k, loading, _⟩
  · exact calling
  · exact absurd outside loading.inside

theorem Top.loading (top : Top s c (a :: rest)) (inside : s.code c.pc ≠ none) :
    ∃ k, Loading s a k c ∧ Armed s a k c := by
  rcases top with calling | loading
  · exact absurd calling.outside inside
  · exact loading

theorem Top.outside (outside : s.code c.pc = none) {stack : List Activation} (idle : Switching stack) : Top s c stack := by
  cases stack with
  | nil => exact Or.inl outside
  | cons a rest => exact Or.inl ⟨outside, idle.1, idle.2⟩

theorem Top.idle {stack : List Activation} (top : Top s c stack) (outside : s.code c.pc = none) : Switching stack := by
  cases stack with
  | nil => trivial
  | cons a rest =>
      have calling := top.calling outside
      exact ⟨calling.unspent, calling.notLate⟩

/-! ## One step -/

section Steps

theorem Inv.keeps (inv : Inv s m) {mem : Word → UInt8} (keeps : m.Keeps mem) :
    (∀ t, Frames s mem (m.activations t)) ∧
      ∀ t w, m.contexts t = some w → ∀ i < contextLength, load64 mem (slot t i) = w i := by
  constructor
  · intro t
    refine (inv.frames t).kept fun a member unspent i inside => ?_
    exact keeps _ (Machine.InUse.frame member unspent inside)
  · intro t w found i inside
    rw [keeps _ (Machine.InUse.context found inside)]
    exact inv.held t w found i inside

theorem Inv.code (inv : Inv s m) (outside : s.code m.cpu.pc = none) (outside' : s.code c.pc = none)
    (keeps : m.Keeps c.mem) : Inv s (m.setCpu c) where
  top := Top.outside outside' (inv.top.idle outside)
  frames := (inv.keeps keeps).1
  idle := inv.idle
  held := (inv.keeps keeps).2
  back := inv.back
  running := inv.running

/-- The exceptions of the running thread change. -/
theorem Inv.setStack (inv : Inv s m) {stack : List Activation} (top : Top s c stack) (frames : Frames s c.mem stack)
    (keeps : (m.setActivations m.current []).Keeps c.mem) : Inv s ((m.setCpu c).setActivations m.current stack) where
  top := by simpa using top
  frames t := by
    by_cases here : t = m.current
    · subst here
      simpa using frames
    · rw [Machine.activations_elsewhere here]
      refine (inv.frames t).kept fun b member unspent j inside => ?_
      have member' : b ∈ (m.setActivations m.current []).activations t := by
        rwa [Machine.activations_elsewhere here]
      exact keeps _ (Machine.InUse.frame member' unspent inside)
  idle t other := by
    have same : ((m.setCpu c).setActivations m.current stack).activations t = m.activations t :=
      Machine.activations_elsewhere other
    rw [same]
    exact inv.idle t other
  held t w found i inside := by
    have kept := keeps _ (Machine.InUse.context (m := m.setActivations m.current []) found inside)
    exact kept.trans (inv.held t w found i inside)
  back := inv.back
  running := inv.running

theorem Inv.stack (inv : Inv s m) (top : m.activations m.current = a :: rest) :
    Top s m.cpu (a :: rest) ∧ Stacked s m.cpu.mem a rest ∧ Frames s m.cpu.mem rest := by
  have frames := inv.frames m.current
  have isTop := inv.top
  rw [top] at frames isTop
  exact ⟨isTop, frames⟩

theorem Machine.Keeps.others {stack : List Activation} {mem : Word → UInt8}
    (keeps : (m.setActivations t stack).Keeps mem) : (m.setActivations t []).Keeps mem := by
  intro q inUse
  refine keeps q ?_
  rcases inUse with ⟨u, b, member, rest⟩ | context
  · by_cases here : u = t
    · subst here
      simp at member
    · rw [Machine.activations_elsewhere here] at member
      exact Or.inl ⟨u, b, by rwa [Machine.activations_elsewhere here], rest⟩
  · exact Or.inr context

theorem Inv.edit (inv : Inv s m) {i : Nat} {value : Word} (top : m.activations m.current = a :: rest)
    (outside : s.code m.cpu.pc = none) (outside' : s.code c.pc = none) (fromCode : s.code a.taken.pc = none)
    (keeps : (m.setActivations m.current rest).Keeps c.mem)
    (held : { a with edits := (i, value) :: a.edits }.Held c.mem) (target : i = 33 → s.code value = none) :
    Inv s ((m.setCpu c).setActivations m.current ({ a with edits := (i, value) :: a.edits } :: rest)) := by
  obtain ⟨isTop, stacked, frames⟩ := inv.stack top
  have calling := isTop.calling outside
  refine inv.setStack (Or.inl ⟨outside', calling.unspent, calling.notLate⟩) ⟨?_, ?_⟩ keeps.others
  · refine ⟨fun _ => held, fun inside => absurd fromCode inside, fun _ => ?_, stacked.below⟩
    show s.code (Function.update a.words i value 33) = none
    by_cases isTarget : i = 33
    · subst isTarget
      rw [Function.update_self]
      exact target rfl
    · rw [Function.update_of_ne (Ne.symm isTarget)]
      exact stacked.target fromCode
  · refine frames.kept fun b member unspent j inside => ?_
    have member' : b ∈ (m.setActivations m.current rest).activations m.current := by simpa using member
    exact keeps _ (Machine.InUse.frame member' unspent inside)

theorem Inv.ret (inv : Inv s m) (top : m.activations m.current = a :: rest) (outside : s.code m.cpu.pc = none)
    (sp : m.cpu.sp = a.base) (handles : Handles m.cpu.pstate) :
    Inv s (m.setCpu { m.cpu with pc := s.loadAddress a.handler 0 }) := by
  obtain ⟨isTop, _⟩ := inv.stack top
  have calling := isTop.calling outside
  have starts : Loading s a 0 { m.cpu with pc := s.loadAddress a.handler 0 } := {
    small := Nat.zero_le _
    pc := rfl
    handles := handles
    some_ := fun _ => ⟨calling.unspent, Sym.unknown, rfl, Sym.Models.unknown sp⟩
    all := by omega
    late := by simp [calling.notLate] }
  refine ⟨?_, inv.frames, inv.idle, inv.held, inv.back, inv.running⟩
  show Top s _ (m.activations m.current)
  rw [top]
  exact Or.inr ⟨0, starts, by omega, by omega⟩

theorem Astray.step {h : Handler} {k : Nat} (late : 3 ≤ k) (inside : k ≤ 20) (at_ : c.pc = s.loadAddress h k) {i : Instr}
    (here : s.code c.pc = some i) (elr : Astray s (c.sys .elrEl1)) :
    Astray s (c.exec i).pc ∧ Astray s ((c.exec i).sys .elrEl1) := by
  rw [at_, code_load (Nat.le_succ_of_le inside)] at here
  have straight : ∀ k : Fin 21, ((loadAll ++ [.eret])[k.val]?.map Instr.jumps) = some false := by decide
  have plain := straight ⟨k, Nat.lt_succ_of_le inside⟩
  rw [here] at plain
  constructor
  · refine ⟨h, k + 1, by omega, by omega, ?_⟩
    rw [Instr.pc_exec (Option.some.inj plain), at_, loadAddress_succ]
  · rwa [sys_exec (msr_once .elrEl1 3 (by decide) late inside here)]

theorem load_before {h : Handler} {k : Nat} (small : k ≤ 21) (at_ : c.pc = s.loadAddress h k) {i : Instr}
    (here : s.code c.pc = some i) (other : i ≠ .eret) : k ≤ 20 := by
  refine Nat.le_of_lt_succ (Nat.lt_of_le_of_ne small ?_)
  rintro rfl
  rw [at_, code_load (Nat.le_refl 21)] at here
  exact other (Option.some.inj here).symm

/-- One instruction of `load_all`. -/
theorem Inv.load (inv : Inv s m) {i : Instr} (here : s.code m.cpu.pc = some i) (other : i ≠ .eret) :
    Inv s (m.setCpu (m.cpu.exec i)) := by
  have isTop := inv.top
  have frames := inv.frames m.current
  have inside : s.code m.cpu.pc ≠ none := by simp [here]
  suffices next : Top s (m.cpu.exec i) (m.activations m.current) ∧ i.stores = false by
    have mem := mem_exec next.2 m.cpu
    refine ⟨next.1, fun t => ?_, inv.idle, fun t w found => ?_, inv.back, inv.running⟩
    · show Frames s (m.cpu.exec i).mem _
      rw [mem]
      exact inv.frames t
    · show ∀ i' < _, load64 (m.cpu.exec i).mem _ = _
      rw [mem]
      exact inv.held t w found
  have loads : ∀ k : Fin 22, (loadAll ++ [.eret])[k.val]?.map Instr.stores = some false := by decide
  have load {h : Handler} {k : Nat} (small : k ≤ 21) (at_ : m.cpu.pc = s.loadAddress h k) :
      k ≤ 20 ∧ (loadAll ++ [.eret])[k]? = some i ∧ i.stores = false := by
    have found := here
    rw [at_, code_load small] at found
    have stores := loads ⟨k, Nat.lt_succ_of_le small⟩
    rw [found] at stores
    exact ⟨load_before small at_ here other, found, Option.some.inj stores⟩
  cases stack : m.activations m.current with
  | nil =>
      rw [stack] at isTop
      obtain ⟨⟨h, k, late, small, at_⟩, elr⟩ := isTop.resolve_left inside
      obtain ⟨before, _, stores⟩ := load small at_
      exact ⟨Or.inr (Astray.step late before at_ here elr), stores⟩
  | cons a rest =>
      rw [stack] at isTop frames
      obtain ⟨k, loading, armed⟩ := isTop.loading inside
      obtain ⟨before, found, stores⟩ := load loading.small loading.pc
      exact ⟨Or.inr ⟨k + 1, loading.step armed before found frames.1.held⟩, stores⟩

/-- What `eret` makes of the registers. -/
structure Resumes (s : Symbols) (a : Activation) (c : Cpu) : Prop where
  x : ∀ r, c.x r = a.words r
  spEl0 : c.sys .spEl0 = a.words 31
  sp : c.sp = a.taken.sp
  pstate : c.pstate = a.pstate
  pc : c.pc = a.target s
  late : ∀ l, a.late = some l → Handles l.2 ∧ ∃ k, 2 ≤ k ∧ k ≤ 21 ∧ l.1 = s.loadAddress a.handler k

theorem load_after {h : Handler} {k : Nat} (small : k ≤ 21) (at_ : c.pc = s.loadAddress h k)
    (here : s.code c.pc = some .eret) : k = 21 := by
  have all : ∀ k : Fin 22, (loadAll ++ [.eret])[k.val]? = some .eret → k.val = 21 := by decide
  rw [at_, code_load small] at here
  exact all ⟨k, Nat.lt_succ_of_le small⟩ here

theorem Loading.resumes (loading : Loading s a 21 c) (armed : Armed s a 21 c) : Resumes s a (c.exec .eret) := by
  obtain ⟨x, spEl0, sp⟩ := loading.all rfl
  exact {
    x := x
    spEl0 := spEl0
    sp := sp
    pstate := armed.spsr (by decide)
    pc := armed.elr (by decide)
    late := loading.late }

/-- Another address than that of the frame is one of the handler itself. -/
theorem Resumes.astray (resumes : Resumes s a c) (other : c.pc ≠ a.words 33) : Astray s c.pc := by
  rw [resumes.pc] at other ⊢
  cases isLate : a.late with
  | none => simp [Activation.target, isLate] at other
  | some l =>
      obtain ⟨_, k, first, last, place⟩ := resumes.late l isLate
      simp only [Activation.target, isLate] at other ⊢
      by_cases early : l.1 = s.loadAddress a.handler 2
      · rw [if_pos early] at other
        exact absurd rfl other
      · rw [if_neg early]
        refine ⟨a.handler, k, Nat.lt_of_le_of_ne first ?_, last, place⟩
        rintro rfl
        exact early place

/-- The state that is resumed, where the frame has not been written to. -/
theorem Resumes.taken (resumes : Resumes s a c) (unedited : a.edits = []) (pc : c.pc = a.words 33) :
    c.pc = a.taken.pc ∧ c.x = a.taken.x ∧ c.sp = a.taken.sp ∧ c.sys .spEl0 = a.taken.sys .spEl0 := by
  have words : a.words = trapFrame a.taken := by
    unfold Activation.words
    rw [unedited]
    rfl
  refine ⟨by rw [pc, words]; rfl, ?_, resumes.sp, by rw [resumes.spEl0, words]; rfl⟩
  funext r
  rw [resumes.x, words]
  exact dif_pos r.isLt

theorem Resumes.handles (resumes : Resumes s a c) (unedited : a.edits = []) (handles : Handles a.taken.pstate) :
    Handles c.pstate := by
  rw [resumes.pstate]
  cases isLate : a.late with
  | none =>
      have words : a.words 32 = a.taken.pstate := by
        unfold Activation.words
        rw [unedited]
        rfl
      simpa [Activation.pstate, isLate, words] using handles
  | some l => simpa [Activation.pstate, isLate] using (resumes.late l isLate).1

theorem InWindow.iff {h : Handler} {k : Nat} (small : k ≤ 21) : InWindow s h (s.loadAddress h k) ↔ 2 ≤ k := by
  constructor
  · rintro ⟨j, first, last, same⟩
    rwa [loadAddress_inj small last same]
  · exact fun first => ⟨k, first, small, rfl⟩

/-- A handler goes on loading registers after an exception. -/
theorem Loading.returned {k : Nat} {b : Activation} (loading : Loading s b k a.taken) (resumes : Resumes s a c)
    (unedited : a.edits = []) (pc : c.pc = a.words 33) (elr : c.sys .elrEl1 = c.pc) (spsr : c.sys .spsrEl1 = c.pstate) :
    ∃ late, late = (if InWindow s b.handler c.pc then some (c.pc, c.pstate) else b.late) ∧
      Loading s { b with late := late } k c ∧ Armed s { b with late := late } k c := by
  obtain ⟨samePc, sameX, sameSp, sameSpEl0⟩ := resumes.taken unedited pc
  have handles := resumes.handles unedited loading.handles
  have again := loading.resume samePc handles sameX sameSp sameSpEl0
  have place : c.pc = s.loadAddress b.handler k := samePc.trans loading.pc
  rcases Nat.lt_or_ge k 2 with early | after
  · have notLate := loading.not_late early
    have outsideWindow : ¬InWindow s b.handler c.pc := by
      rw [place, InWindow.iff loading.small]
      omega
    refine ⟨_, rfl, ?_, by omega, by omega⟩
    rw [if_neg outsideWindow]
    exact again
  · have inWindow : InWindow s b.handler c.pc := by
      rw [place, InWindow.iff loading.small]
      exact after
    refine ⟨_, rfl, ?_, ?_⟩
    · rw [if_pos inWindow]
      exact { again with
        late := by
          rintro l ⟨⟩
          exact ⟨handles, k, after, Nat.le_refl k, place⟩ }
    · rw [if_pos inWindow]
      refine ⟨fun _ => spsr, fun third => ?_⟩
      have notSecond : c.pc ≠ s.loadAddress b.handler 2 := by
        rw [place]
        intro same
        have equal := loadAddress_inj loading.small (by decide) same
        omega
      show c.sys .elrEl1 = if c.pc = _ then _ else c.pc
      rw [if_neg notSecond, elr]

theorem Stacked.returned {mem : Word → UInt8} (stacked : Stacked s mem a rest) (resumes : Resumes s a c)
    (pc : c.pc = a.words 33) (elr : c.sys .elrEl1 = c.pc) (spsr : c.sys .spsrEl1 = c.pstate) :
    Top s c (resumed s c rest) := by
  have below := stacked.below
  -- code that is no handler is gone on with, and a handler with the frame as it was saved
  by_cases fromCode : s.code a.taken.pc = none
  · have outside : s.code c.pc = none := pc ▸ stacked.target fromCode
    refine Top.outside outside ?_
    cases rest with
    | nil => trivial
    | cons b rest =>
        have notInWindow : ¬InWindow s b.handler c.pc := by
          rintro ⟨k, _, small, place⟩
          exact loadAddress_inside small (place ▸ outside)
        rcases below with calling | ⟨k, loading⟩
        · exact ⟨calling.unspent, (if_neg notInWindow).trans calling.notLate⟩
        · exact absurd fromCode loading.inside
  · have unedited := stacked.unedited fromCode
    cases rest with
    | nil =>
        have astray := below.resolve_left fromCode
        rw [← (resumes.taken unedited pc).1] at astray
        exact Or.inr ⟨astray, elr ▸ astray⟩
    | cons b rest =>
        obtain ⟨k, loading⟩ := below.resolve_left fun calling => fromCode calling.outside
        obtain ⟨late, same, again⟩ := loading.returned resumes unedited pc elr spsr
        subst same
        exact Or.inr ⟨k, again⟩

theorem Frames.resumed {mem : Word → UInt8} (frames : Frames s mem rest) : Frames s mem (resumed s c rest) := by
  cases rest with
  | nil => trivial
  | cons b rest => exact ⟨⟨frames.1.held, frames.1.unedited, frames.1.target, frames.1.below⟩, frames.2⟩

theorem Inv.resumes (inv : Inv s m) (top : m.activations m.current = a :: rest)
    (here : s.code m.cpu.pc = some .eret) : Resumes s a (m.cpu.exec .eret) := by
  obtain ⟨isTop, _⟩ := inv.stack top
  obtain ⟨k, loading, armed⟩ := isTop.loading (by simp [here])
  obtain rfl := load_after loading.small loading.pc here
  exact loading.resumes armed

theorem Machine.Keeps.refl (m : Machine) : m.Keeps m.cpu.mem := fun _ _ => rfl

theorem Inv.eret (inv : Inv s m) (top : m.activations m.current = a :: rest) (here : s.code m.cpu.pc = some .eret) :
    Inv s ((m.setCpu (m.cpu.exec .eret)).setActivations m.current (returned s a (m.cpu.exec .eret) rest)) := by
  obtain ⟨_, stacked, frames⟩ := inv.stack top
  have resumes := inv.resumes top here
  have keeps : (m.setActivations m.current []).Keeps (m.cpu.exec .eret).mem := Machine.Keeps.refl _
  unfold returned
  split
  next pc => exact inv.setStack (stacked.returned resumes pc rfl rfl) frames.resumed keeps
  next other =>
      have astray := resumes.astray other
      exact inv.setStack (Or.inr ⟨astray, astray⟩) trivial keeps

theorem Inv.eretAgain (inv : Inv s m) (astray : m.activations m.current = []) (here : s.code m.cpu.pc = some .eret) :
    Inv s (m.setCpu (m.cpu.exec .eret)) := by
  have isTop := inv.top
  rw [astray] at isTop
  obtain ⟨_, elr⟩ := isTop.resolve_left (by simp [here])
  refine ⟨?_, inv.frames, inv.idle, inv.held, inv.back, inv.running⟩
  show Top s _ (m.activations m.current)
  rw [astray]
  exact Or.inr ⟨elr, elr⟩

/-- A handler that is interrupted needs its frame unless only `eret` is left. -/
theorem Top.interrupted {stack : List Activation} {returnTo : Word} (top : Top s c stack)
    (back : returnTo = c.pc ∨ s.code c.pc = none ∧ s.code returnTo = none) :
    Below s { c with pc := returnTo } (interrupted s c.pc stack) := by
  have outside (here : s.code c.pc = none) : s.code returnTo = none := by
    rcases back with rfl | ⟨_, outside⟩
    · exact here
    · exact outside
  have same (inside : s.code c.pc ≠ none) : returnTo = c.pc := back.resolve_right fun both => inside both.1
  cases stack with
  | nil =>
      rcases top with here | ⟨astray, _⟩
      · exact Or.inl (outside here)
      · obtain rfl := same astray.inside
        exact Or.inr astray
  | cons a rest =>
      rcases top with calling | ⟨k, loading, _⟩
      · have notLast : c.pc ≠ s.loadAddress a.handler 21 := by
          intro last
          exact loadAddress_inside (Nat.le_refl 21) (last ▸ calling.outside)
        exact Or.inl ⟨outside calling.outside, by simp [calling.unspent, notLast], calling.notLate⟩
      · obtain rfl := same loading.inside
        refine Or.inr ⟨k, { loading with some_ := fun early => ?_ }⟩
        obtain ⟨unspent, known⟩ := loading.some_ early
        have notLast : c.pc ≠ s.loadAddress a.handler 21 := by
          rw [loading.pc]
          intro last
          have equal := loadAddress_inj loading.small (Nat.le_refl 21) last
          omega
        exact ⟨by simp [unspent, notLast], known⟩

theorem Frames.interrupted {mem : Word → UInt8} {stack : List Activation} {pc : Word} (frames : Frames s mem stack) :
    Frames s mem (interrupted s pc stack) := by
  cases stack with
  | nil => trivial
  | cons a rest =>
      refine ⟨⟨fun unspent => frames.1.held ?_, frames.1.unedited, frames.1.target, frames.1.below⟩, frames.2⟩
      exact (Bool.or_eq_false_iff.mp unspent).1

theorem Machine.Free.keeps {length : Nat} {base : Word} {mem : Word → UInt8} (free : m.Free base length)
    (kept : ∀ q, (∀ j < length, Clear (slot base j) q) → load64 mem q = load64 m.cpu.mem q) : m.Keeps mem :=
  fun q inUse => kept q fun j inside => free j inside q inUse

theorem Inv.take (linked : Linked s) (inv : Inv s m) {kind : Kind} {h : Handler} {returnTo syndrome : Word}
    (async : kind ≠ .sync → returnTo = m.cpu.pc)
    (sync : kind = .sync → s.code m.cpu.pc = none ∧ s.code returnTo = none)
    (vector : exceptionVectorTable[4 * source m.cpu.pstate + kind.index]? = some h)
    (free : (m.setActivations m.current (interrupted s m.cpu.pc (m.activations m.current))).Free
      (m.cpu.sp - BitVec.ofNat 64 (16 * 17)) frameLength)
    (leaves : Leaves s.code (m.cpu.take s.exceptionVectorTable kind returnTo syndrome) c) :
    Inv s ((m.setCpu c).setActivations m.current
      (⟨{ m.cpu with pc := returnTo }, h, [], none, false⟩ :: interrupted s m.cpu.pc (m.activations m.current))) := by
  obtain ⟨d, saved, reached⟩ := take_saves linked returnTo syndrome vector
  obtain rfl := (reached c).mp leaves
  have keeps := free.keeps saved.kept
  have outside : s.code c.pc = none := by
    rw [saved.pc]
    exact linked.outside h
  have back : returnTo = m.cpu.pc ∨ s.code m.cpu.pc = none ∧ s.code returnTo = none := by
    by_cases isSync : kind = .sync
    · exact Or.inr (sync isSync)
    · exact Or.inl (async isSync)
  refine inv.setStack (Or.inl ⟨outside, rfl, rfl⟩) ⟨⟨fun _ => saved.held, fun _ => rfl, id, ?_⟩, ?_⟩ keeps.others
  · exact inv.top.interrupted back
  · refine (inv.frames m.current).interrupted.kept fun b member unspent j inside => ?_
    have member' : b ∈ (m.setActivations m.current
        (interrupted s m.cpu.pc (m.activations m.current))).activations m.current := by
      simpa using member
    exact keeps _ (Machine.InUse.frame member' unspent inside)

theorem Inv.switch (linked : Linked s) (inv : Inv s m) {next : Word} {w : Nat → Word}
    (outside : s.code m.cpu.pc = none) (prev : m.cpu.x 0 = m.current) (arg : m.cpu.x 1 = next)
    (other : next ≠ m.current) (context : m.contexts next = some w) (back : s.code (m.cpu.x 30) = none)
    (free : m.Free m.current contextLength) (leaves : Leaves s.code { m.cpu with pc := s.cpuSwitchTo } c) :
    Switched m.current next w m.cpu c ∧
      Inv s { ((m.setCpu c).setContext m.current (some (cpuContext m.cpu))).setContext next none with
        current := next } := by
  have apart : ∀ j < contextLength, ∀ i < contextLength, Clear (slot m.current j) (slot next i) :=
    fun j below i inside => free j below _ (Machine.InUse.context context inside)
  obtain ⟨d, switched, reached⟩ :=
    switch_switches linked prev arg (inv.held next w context) apart (inv.back next w context)
  obtain rfl := (reached c).mp leaves
  have keeps := free.keeps switched.kept
  have contexts : ∀ t v, Function.update (Function.update m.contexts m.current (some (cpuContext m.cpu))) next none t =
      some v → (t = m.current ∧ v = cpuContext m.cpu) ∨ (t ≠ m.current ∧ m.contexts t = some v) := by
    intro t v found
    by_cases isNext : t = next
    · subst isNext
      simp at found
    · rw [Function.update_of_ne isNext] at found
      by_cases isCurrent : t = m.current
      · subst isCurrent
        rw [Function.update_self] at found
        exact Or.inl ⟨rfl, (Option.some.inj found).symm⟩
      · rw [Function.update_of_ne isCurrent] at found
        exact Or.inr ⟨isCurrent, found⟩
  refine ⟨switched, ?_, fun t => ?_, fun t otherThread => ?_, fun t v found => ?_, fun t v found => ?_, ?_⟩
  · have outside' : s.code c.pc = none := by
      rw [switched.pc]
      exact inv.back next w context
    exact Top.outside outside' (inv.idle next other)
  · exact (inv.keeps keeps).1 t
  · show Switching (m.activations t)
    by_cases isCurrent : t = m.current
    · subst isCurrent
      exact inv.top.idle outside
    · exact inv.idle t isCurrent
  · rcases contexts t v found with ⟨rfl, rfl⟩ | ⟨_, found'⟩
    · exact switched.saved
    · exact (inv.keeps keeps).2 t v found'
  · rcases contexts t v found with ⟨rfl, rfl⟩ | ⟨_, found'⟩
    · exact back
    · exact inv.back t v found'
  · exact Function.update_self _ _ _

theorem Inv.create (inv : Inv s m) {w : Nat → Word} (other : t ≠ m.current)
    (initial : ∀ i < contextLength, load64 m.cpu.mem (slot t i) = w i) (entry : s.code (w 11) = none) :
    Inv s (m.setContext t (some w)) := by
  have contexts : ∀ u v, (m.setContext t (some w)).contexts u = some v → u = t ∧ v = w ∨ m.contexts u = some v := by
    intro u v found
    change Function.update m.contexts t (some w) u = some v at found
    by_cases isNew : u = t
    · subst isNew
      rw [Function.update_self] at found
      exact Or.inl ⟨rfl, (Option.some.inj found).symm⟩
    · rw [Function.update_of_ne isNew] at found
      exact Or.inr found
  refine ⟨inv.top, inv.frames, inv.idle, fun u v found => ?_, fun u v found => ?_, ?_⟩
  · rcases contexts u v found with ⟨rfl, rfl⟩ | old
    · exact initial
    · exact inv.held u v old
  · rcases contexts u v found with ⟨rfl, rfl⟩ | old
    · exact entry
    · exact inv.back u v old
  · exact (Function.update_of_ne (Ne.symm other) _ _).trans inv.running

theorem Inv.reap (inv : Inv s m) (other : t ≠ m.current) : Inv s ((m.setContext t none).setActivations t []) := by
  have remains : ∀ u, ((m.setContext t none).setActivations t []).activations u = m.activations u ∨
      ((m.setContext t none).setActivations t []).activations u = [] := by
    intro u
    by_cases isReaped : u = t
    · subst isReaped
      exact Or.inr Machine.activations_here
    · exact Or.inl (Machine.activations_elsewhere isReaped)
  have contexts : ∀ u v, ((m.setContext t none).setActivations t []).contexts u = some v → m.contexts u = some v := by
    intro u v found
    change Function.update m.contexts t none u = some v at found
    by_cases isReaped : u = t
    · subst isReaped
      simp at found
    · rwa [Function.update_of_ne isReaped] at found
  refine ⟨?_, fun u => ?_, fun u otherThread => ?_, fun u v found => inv.held u v (contexts u v found),
    fun u v found => inv.back u v (contexts u v found), ?_⟩
  · have same : ((m.setContext t none).setActivations t []).activations m.current = m.activations m.current :=
      Machine.activations_elsewhere (Ne.symm other)
    show Top s m.cpu (((m.setContext t none).setActivations t []).activations m.current)
    rw [same]
    exact inv.top
  · rcases remains u with same | same
    · rw [same]
      exact inv.frames u
    · rw [same]
      trivial
  · rcases remains u with same | same
    · rw [same]
      exact inv.idle u otherThread
    · rw [same]
      trivial
  · exact (Function.update_of_ne (Ne.symm other) _ _).trans inv.running

/-- Every step keeps the invariant. -/
theorem Step.preserves (linked : Linked s) (inv : Inv s m) (step : Step s m event m') : Inv s m' := by
  cases step with
  | code outside outside' keeps => exact inv.code outside outside' keeps
  | edit top outside outside' fromCode keeps held target =>
      exact inv.edit top outside outside' fromCode keeps held target
  | ret top outside sp handles => exact inv.ret top outside sp handles
  | take unmasked async sync vector free leaves => exact inv.take linked async sync vector free leaves
  | load here other => exact inv.load here other
  | eret here top => exact inv.eret top here
  | eretAgain here astray => exact inv.eretAgain astray here
  | switch outside masked prev arg other context back free leaves =>
      exact (inv.switch linked outside prev arg other context back free leaves).2
  | create outside new other initial entry => exact inv.create other initial entry
  | reap outside other => exact inv.reap other

theorem Run.preserves {events : List Event} (linked : Linked s) (inv : Inv s m) (run : Run s m events m') :
    Inv s m' := by
  induction run with
  | nil => exact inv
  | snoc _ step ih => exact step.preserves linked ih

theorem Run.inv {events : List Event} (linked : Linked s) (starts : Starts s m) (run : Run s m events m') : Inv s m' :=
  run.preserves linked starts.inv

end Steps

end OsdiKernel.Trap
