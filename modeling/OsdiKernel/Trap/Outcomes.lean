import OsdiKernel.Trap.Transparency

/-!
# What every run comes to

An exception is returned from with the registers with which it was taken, a thread that is switched
to goes on after its own call of `cpu_switch_to`, and a handler that is interrupted between the
second `msr` and its `eret` never comes to an end.
-/

namespace OsdiKernel.Trap

open El1
open Aarch64 (Word load64 store64 address)

variable {s : Symbols} {c : Cpu} {a : Activation} {rest : List Activation} {m m' m₀ m₁ m₂ m₃ : Machine} {t : Word}
  {event : Event} {events later : List Event}

/-! ## Returning from an exception -/

section Resumes

theorem words_unedited (unedited : a.edits = []) : a.words = trapFrame a.taken := by
  unfold Activation.words
  rw [unedited]
  rfl

theorem Inv.eret_resumes (inv : Inv s m) (top : m.activations m.current = a :: rest) (step : Step s m .eret m') :
    Resumes s a m'.cpu := by
  cases step with
  | eret here top' =>
      cases top.symm.trans top'
      exact inv.resumes top here
  | eretAgain _ astray => cases top.symm.trans astray

/-- In every run, `eret` loads the words of its own trap frame, and goes on with its address and
state unless an exception was taken on top after `spsr_el1` was set.  After one that was taken
before `elr_el1` was set it goes on at the address of the frame, but at exception level 1, and after
any later one at the instruction of the handler at which that was taken. -/
theorem Run.resumes_interrupted (linked : Linked s) (starts : Starts s m₀) (run : Run s m₀ events m)
    (top : m.activations m.current = a :: rest) (step : Step s m .eret m') :
    (∀ r, m'.cpu.x r = a.words r) ∧ m'.cpu.sys .spEl0 = a.words 31 ∧ m'.cpu.sp = a.taken.sp ∧
      (a.edits = [] → a.words = trapFrame a.taken) ∧
      (a.late = none → m'.cpu.pstate = a.words 32 ∧ m'.cpu.pc = a.words 33) ∧
      ∀ l, a.late = some l → m'.cpu.pstate = l.2 ∧ Handles l.2 ∧ ∃ k, 2 ≤ k ∧ k ≤ 21 ∧
        l.1 = s.loadAddress a.handler k ∧ m'.cpu.pc = if k = 2 then a.words 33 else l.1 := by
  have resumes := (run.inv linked starts).eret_resumes top step
  refine ⟨resumes.x, resumes.spEl0, resumes.sp, words_unedited, fun onTime => ?_, fun l isLate => ?_⟩
  · rw [resumes.pstate, resumes.pc]
    simp [Activation.pstate, Activation.target, onTime]
  · obtain ⟨handles, k, first, last, place⟩ := resumes.late l isLate
    have pstate : m'.cpu.pstate = l.2 := by
      rw [resumes.pstate]
      simp [Activation.pstate, isLate]
    refine ⟨pstate, handles, k, first, last, place, ?_⟩
    have second : l.1 = s.loadAddress a.handler 2 ↔ k = 2 := by
      rw [place]
      exact ⟨loadAddress_inj last (by decide), fun same => same ▸ rfl⟩
    rw [resumes.pc]
    simp [Activation.target, isLate, second]

end Resumes

/-! ## Switching back -/

section ComesBack

/-- A thread that waits to be switched to. -/
structure Waits (t : Word) (w : Nat → Word) (stack : List Activation) (m : Machine) : Prop where
  other : t ≠ m.current
  context : m.contexts t = some w
  activations : m.activations t = stack

variable {w : Nat → Word} {stack : List Activation}

theorem Step.waits (step : Step s m event m') (waits : Waits t w stack m) (notSwitched : event ≠ .switch t)
    (notReaped : event ≠ .reap t) : Waits t w stack m' := by
  obtain ⟨other, context, activations⟩ := waits
  have elsewhere (stack' : List Activation) :
      (m.setActivations m.current stack').activations t = stack := by
    rw [Machine.activations_elsewhere other, activations]
  cases step with
  | code => exact ⟨other, context, activations⟩
  | edit => exact ⟨other, context, elsewhere _⟩
  | ret => exact ⟨other, context, activations⟩
  | take => exact ⟨other, context, elsewhere _⟩
  | load => exact ⟨other, context, activations⟩
  | eret => exact ⟨other, context, elsewhere _⟩
  | eretAgain => exact ⟨other, context, activations⟩
  | @switch _ next =>
      have notNext : t ≠ next := fun same => notSwitched (same ▸ rfl)
      refine ⟨notNext, ?_, activations⟩
      show Function.update (Function.update m.contexts m.current _) next none t = some w
      rw [Function.update_of_ne notNext, Function.update_of_ne other, context]
  | @create u _ _ new =>
      have notNew : t ≠ u := by
        rintro rfl
        rw [context] at new
        cases new
      exact ⟨other, (Function.update_of_ne notNew _ _).trans context, activations⟩
  | @reap u =>
      have kept : t ≠ u := fun same => notReaped (same ▸ rfl)
      refine ⟨other, (Function.update_of_ne kept _ _).trans context, ?_⟩
      rw [Machine.activations_elsewhere kept]
      exact activations

theorem Run.waits (run : Run s m events m') (waits : Waits t w stack m)
    (stays : ∀ event ∈ events, event ≠ .switch t ∧ event ≠ .reap t) : Waits t w stack m' := by
  induction run with
  | nil => exact waits
  | snoc _ step ih =>
      have last := stays _ (List.mem_append_right _ List.mem_cons_self)
      exact step.waits (ih fun event member => stays event (List.mem_append_left _ member)) last.1 last.2

theorem Run.trans (first : Run s m events m') (second : Run s m' later m₂) : Run s m (events ++ later) m₂ := by
  induction second with
  | nil => rwa [List.append_nil]
  | snoc _ step ih =>
      rw [← List.append_assoc]
      exact .snoc ih step

/-- In every run, a thread that is switched to goes on where it has called `cpu_switch_to`, with the
registers that it had then and the exceptions that it had to return from, whatever the other
threads have done and whichever exceptions they have taken. -/
theorem Run.comes_back (linked : Linked s) (starts : Starts s m₀) (run : Run s m₀ events m) {u : Word}
    (away : Step s m (.switch u) m₁) (elsewhere : Run s m₁ later m₂)
    (stays : ∀ event ∈ later, event ≠ .switch m.current ∧ event ≠ .reap m.current)
    (back : Step s m₂ (.switch m.current) m₃) :
    m₃.cpu.pc = m.cpu.x 30 ∧ m₃.cpu.sp = m.cpu.sp ∧ (∀ r : Fin 31, 19 ≤ r.val → m₃.cpu.x r = m.cpu.x r) ∧
      m₃.current = m.current ∧ m₃.cpu.sys .tpidrEl1 = m.current ∧
      m₃.activations m.current = m.activations m.current ∧
      ∀ a ∈ m₃.activations m.current, a.spent = false → a.Held m₃.cpu.mem := by
  have inv := run.inv linked starts
  have run₁ := Run.snoc run away
  have run₂ := run₁.trans elsewhere
  have inv₃ := (Run.snoc run₂ back).inv linked starts
  have waits : Waits m.current (cpuContext m.cpu) (m.activations m.current) m₁ := by
    cases away with
    | switch outside masked prev arg other context =>
        refine ⟨Ne.symm other, ?_, rfl⟩
        show Function.update (Function.update m.contexts m.current _) u none m.current = _
        rw [Function.update_of_ne (Ne.symm other), Function.update_self]
  obtain ⟨other, context, activations⟩ := elsewhere.waits waits stays
  have frames := inv₃.frames m.current
  cases back with
  | switch outside masked prev arg different found isBack free leaves =>
      cases context.symm.trans found
      obtain ⟨switched, _⟩ := (run₂.inv linked starts).switch linked outside prev arg different found isBack free leaves
      refine ⟨switched.pc, switched.sp, fun r late => ?_, rfl, switched.thread, activations,
        fun a member unspent => ?_⟩
      · have inside : r.val - 19 < 12 := by omega
        have same : (⟨r.val - 19 + 19, Nat.add_lt_add_right inside 19⟩ : Fin 31) = r :=
          Fin.ext (Nat.sub_add_cancel late)
        have loaded := switched.x (r.val - 19) inside
        rw [same, cpuContext, dif_pos inside, same] at loaded
        exact loaded
      · exact frames.held member unspent

end ComesBack

/-! ## Never returning -/

section NeverReturns

/-- The thread goes round in a handler: below all exceptions that have been taken since. -/
structure Lost (s : Symbols) (t : Word) (m : Machine) : Prop where
  running : m.activations t = [] → m.current = t ∧ Astray s m.cpu.pc
  interrupted : ∀ init a, m.activations t = init ++ [a] → Astray s a.taken.pc

theorem Lost.of_current (empty : m.activations m.current = []) (astray : Astray s m.cpu.pc) : Lost s m.current m where
  running _ := ⟨rfl, astray⟩
  interrupted init a stack := by simp [empty] at stack

theorem Lost.of_stack {init : List Activation} (stack : m.activations t = init ++ [a]) (astray : Astray s a.taken.pc) :
    Lost s t m where
  running empty := by simp [empty] at stack
  interrupted init' b stack' := by
    obtain ⟨_, same⟩ := List.append_inj' (stack.symm.trans stack') rfl
    cases same
    exact astray

/-- A step of code is one of a function that was called, or of another thread. -/
theorem Lost.nonempty (lost : Lost s t m) (outside : s.code m.cpu.pc = none) : m.activations t ≠ [] := by
  intro empty
  exact (lost.running empty).2.inside outside

theorem Lost.same (lost : Lost s t m) (stack : m'.activations t = m.activations t) (nonempty : m.activations t ≠ []) :
    Lost s t m' where
  running empty := absurd (stack ▸ empty) nonempty
  interrupted init a stack' := lost.interrupted init a (stack ▸ stack')

/-- One exception of the thread changes, but not where it was taken. -/
theorem Lost.changed {b : Activation} (lost : Lost s t m) (top : m.activations t = a :: rest)
    (top' : m'.activations t = b :: rest) (same : b.taken = a.taken) : Lost s t m' where
  running empty := by simp [empty] at top'
  interrupted init last stack := by
    rw [top'] at stack
    cases init with
    | nil =>
        cases stack
        rw [same]
        exact lost.interrupted [] a top
    | cons first init =>
        cases stack
        exact lost.interrupted (a :: init) last top

/-- One more exception is taken. -/
theorem Lost.pushed {b : Activation} {stack : List Activation} (lost : Lost s t m) (top : m.activations t = stack)
    (nonempty : stack ≠ []) (top' : m'.activations t = b :: stack) : Lost s t m' where
  running empty := by simp [empty] at top'
  interrupted init last whole := by
    rw [top'] at whole
    cases init with
    | nil =>
        cases whole
        exact absurd rfl nonempty
    | cons first init =>
        cases whole
        exact lost.interrupted init last top

/-- One exception is returned from. -/
theorem Lost.popped {b : Activation} (lost : Lost s t m) (top : m.activations t = a :: b :: rest)
    (top' : m'.activations t = b :: rest) : Lost s t m' where
  running empty := by simp [empty] at top'
  interrupted init last stack := by
    rw [top'] at stack
    refine lost.interrupted (a :: init) last ?_
    rw [top, stack]
    rfl

theorem Lost.take (lost : Lost s m.current m) {kind : Kind} {h : Handler} {returnTo : Word}
    (async : kind ≠ .sync → returnTo = m.cpu.pc)
    (sync : kind = .sync → s.code m.cpu.pc = none ∧ s.code returnTo = none) :
    Lost s m.current ((m.setCpu c).setActivations m.current
      (⟨{ m.cpu with pc := returnTo }, h, [], none, false⟩ :: Trap.interrupted s m.cpu.pc (m.activations m.current))) := by
  cases stack : m.activations m.current with
  | nil =>
      have astray := (lost.running stack).2
      have isAsync : kind ≠ .sync := fun isSync => astray.inside (sync isSync).1
      refine Lost.of_stack (show _ = [] ++ [_] from Machine.activations_here) ?_
      rw [async isAsync]
      exact astray
  | cons a rest =>
      -- the mark on the handler first, then the new exception
      have marked : Lost s m.current (m.setActivations m.current (Trap.interrupted s m.cpu.pc (a :: rest))) :=
        lost.changed stack Machine.activations_here rfl
      exact marked.pushed Machine.activations_here (by simp [Trap.interrupted]) Machine.activations_here

theorem Lost.eret (inv : Inv s m) (lost : Lost s m.current m) (top : m.activations m.current = a :: rest)
    (here : s.code m.cpu.pc = some .eret) :
    Lost s m.current ((m.setCpu (m.cpu.exec .eret)).setActivations m.current
      (returned s a (m.cpu.exec .eret) rest)) := by
  have resumes := inv.resumes top here
  obtain ⟨_, stacked, _⟩ := inv.stack top
  by_cases pc : (m.cpu.exec .eret).pc = a.words 33
  · cases rest with
    | nil =>
        have astray := lost.interrupted [] a top
        have unedited := stacked.unedited astray.inside
        refine Lost.of_current (m := (m.setCpu (m.cpu.exec .eret)).setActivations m.current _) ?_ ?_
        · show Function.update m.activations m.current (returned s a (m.cpu.exec .eret) []) m.current = []
          rw [Function.update_self, returned, if_pos pc]
          rfl
        · show Astray s (m.cpu.exec .eret).pc
          rw [(resumes.taken unedited pc).1]
          exact astray
    | cons b rest =>
        have popped : Lost s m.current (m.setActivations m.current (b :: rest)) :=
          lost.popped top Machine.activations_here
        have top' : ((m.setCpu (m.cpu.exec .eret)).setActivations m.current
            (returned s a (m.cpu.exec .eret) (b :: rest))).activations m.current =
              resumed s (m.cpu.exec .eret) (b :: rest) := by
          rw [Machine.activations_here, returned, if_pos pc]
        exact popped.changed Machine.activations_here top' rfl
  · refine Lost.of_current (m := (m.setCpu (m.cpu.exec .eret)).setActivations m.current _) ?_ (resumes.astray pc)
    show Function.update m.activations m.current (returned s a (m.cpu.exec .eret) rest) m.current = []
    rw [Function.update_self, returned, if_neg pc]

theorem Step.lost (inv : Inv s m) (step : Step s m event m') (lost : Lost s t m) (notReaped : event ≠ .reap t) :
    Lost s t m' := by
  have elsewhere {c : Cpu} {stack : List Activation} (other : t ≠ m.current) :
      Lost s t ((m.setCpu c).setActivations m.current stack) := by
    refine lost.same (Machine.activations_elsewhere other) fun empty => ?_
    exact other (lost.running empty).1.symm
  have alone {c : Cpu} (running : t = m.current → m.activations m.current = [] → Astray s c.pc) :
      Lost s t (m.setCpu c) := by
    refine ⟨fun empty => ?_, lost.interrupted⟩
    obtain ⟨rfl, _⟩ := lost.running empty
    exact ⟨rfl, running rfl empty⟩
  cases step with
  | code outside => exact lost.same rfl (lost.nonempty outside)
  | edit top =>
      by_cases here : t = m.current
      · subst here
        exact lost.changed top Machine.activations_here rfl
      · exact elsewhere here
  | ret top outside => exact lost.same rfl (lost.nonempty outside)
  | take unmasked async sync =>
      by_cases here : t = m.current
      · subst here
        exact lost.take async sync
      · exact elsewhere here
  | load here other =>
      refine alone fun same empty => ?_
      have top := inv.top
      rw [empty] at top
      obtain ⟨⟨h, k, late, small, at_⟩, elr⟩ := top.resolve_left (by simp [here])
      exact (Astray.step late (load_before small at_ here other) at_ here elr).1
  | eret here top =>
      by_cases same : t = m.current
      · subst same
        exact lost.eret inv top here
      · exact elsewhere same
  | eretAgain here astray =>
      refine alone fun _ empty => ?_
      have top := inv.top
      rw [empty] at top
      exact (top.resolve_left (by simp [here])).2
  | switch outside => exact lost.same rfl (lost.nonempty outside)
  | create outside => exact lost.same rfl (lost.nonempty outside)
  | @reap u outside =>
      have kept : t ≠ u := fun same => notReaped (same ▸ rfl)
      exact lost.same (Machine.activations_elsewhere kept) (lost.nonempty outside)

theorem Run.lost (linked : Linked s) (inv : Inv s m) (run : Run s m events m') (lost : Lost s t m)
    (alive : .reap t ∉ events) : Inv s m' ∧ Lost s t m' := by
  induction run with
  | nil => exact ⟨inv, lost⟩
  | snoc _ step ih =>
      obtain ⟨inv', lost'⟩ := ih fun member => alive (List.mem_append_left _ member)
      refine ⟨step.preserves linked inv', step.lost inv' lost' ?_⟩
      rintro rfl
      exact alive (List.mem_append_right _ List.mem_cons_self)

/-- If the last exception that was taken on top of a handler came after `elr_el1` was set, then the
handler never returns to the code that it interrupted: in the rest of every run in which the thread is
not reaped, it goes round in the instructions that load the registers, or in exceptions that were
taken there. -/
theorem Run.never_returns (linked : Linked s) (starts : Starts s m₀) (run : Run s m₀ events m)
    (top : m.activations m.current = a :: rest) (fromCode : s.code a.taken.pc = none) {l : Word × Word}
    (isLate : a.late = some l) (after : l.1 ≠ s.loadAddress a.handler 2) (step : Step s m .eret m')
    (on : Run s m' later m₁) (alive : .reap m.current ∉ later) :
    (m₁.activations m.current = [] → m₁.current = m.current ∧ Astray s m₁.cpu.pc) ∧
      ∀ init b, m₁.activations m.current = init ++ [b] → Astray s b.taken.pc := by
  have inv := run.inv linked starts
  have inv' := step.preserves linked inv
  obtain ⟨_, stacked, _⟩ := inv.stack top
  cases step with
  | eret here top' =>
      cases top.symm.trans top'
      have resumes := inv.resumes top here
      have target : (m.cpu.exec .eret).pc = l.1 := by
        rw [resumes.pc]
        simp [Activation.target, isLate, after]
      obtain ⟨_, k, _, last, place⟩ := resumes.late l isLate
      have other : (m.cpu.exec .eret).pc ≠ a.words 33 := by
        intro same
        have outside := stacked.target fromCode
        rw [← same, target, place] at outside
        exact loadAddress_inside last outside
      have lost : Lost s m.current ((m.setCpu (m.cpu.exec .eret)).setActivations m.current
          (returned s a (m.cpu.exec .eret) rest)) := by
        refine Lost.of_current (m := (m.setCpu (m.cpu.exec .eret)).setActivations m.current _) ?_ (resumes.astray other)
        show Function.update m.activations m.current (returned s a (m.cpu.exec .eret) rest) m.current = []
        rw [Function.update_self, returned, if_neg other]
      obtain ⟨_, stays⟩ := on.lost linked inv' lost alive
      exact ⟨stays.running, stays.interrupted⟩
  | eretAgain _ astray => cases top.symm.trans astray

end NeverReturns

/-! ## Runs that there are -/

section Progress

theorem pstate_exec {i : Instr} (other : i ≠ .eret) (c : Cpu) : (c.exec i).pstate = c.pstate := by
  cases i with
  | eret => exact absurd rfl other
  | _ => rfl

/-- A handler that is not interrupted loads the registers one after the other. -/
theorem loads {h : Handler} {k n : Nat} (at_ : m.cpu.pc = s.loadAddress h k) (inside : k + n ≤ 21) :
    ∃ c, Run s m (List.replicate n .load) (m.setCpu c) ∧ c.pc = s.loadAddress h (k + n) ∧
      c.pstate = m.cpu.pstate := by
  induction n with
  | zero => exact ⟨m.cpu, .nil m, at_, rfl⟩
  | succ n ih =>
      obtain ⟨c, run, pc, pstate⟩ := ih (by omega)
      have before : k + n ≤ 20 := by omega
      have all : ∀ k : Fin 21, ∃ i, (loadAll ++ [Instr.eret])[k.val]? = some i ∧ i ≠ .eret ∧ i.jumps = false := by
        decide
      obtain ⟨i, found, other, straight⟩ := all ⟨k + n, Nat.lt_succ_of_le before⟩
      have here : s.code c.pc = some i := by rw [pc, code_load (Nat.le_succ_of_le before), found]
      refine ⟨c.exec i, ?_, ?_, (pstate_exec other c).trans pstate⟩
      · rw [List.replicate_succ']
        exact .snoc run (.load here other)
      · rw [Instr.pc_exec straight, pc, loadAddress_succ]
        rfl

/-- An interrupt is taken, and the function that the handler calls unmasks interrupts. -/
theorem enters (linked : Linked s) (unmasked : Kind.irq.masked m.cpu.pstate = false)
    (vector : exceptionVectorTable[4 * source m.cpu.pstate + 1]? = some .irqHandler)
    (free : (m.setActivations m.current (interrupted s m.cpu.pc (m.activations m.current))).Free
      (m.cpu.sp - BitVec.ofNat 64 (16 * 17)) frameLength) :
    ∃ c, Run s m [.take .irq, .code] ((m.setCpu c).setActivations m.current
      (⟨m.cpu, .irqHandler, [], none, false⟩ :: interrupted s m.cpu.pc (m.activations m.current))) ∧
        s.code c.pc = none ∧ c.sp = m.cpu.sp - BitVec.ofNat 64 (16 * 17) ∧ c.pstate = 5 ∧
          Activation.Held ⟨m.cpu, .irqHandler, [], none, false⟩ c.mem := by
  have entry : exceptionVectorTable[4 * source m.cpu.pstate + Kind.irq.index]? = some .irqHandler := vector
  obtain ⟨d, saved, reached⟩ := take_saves linked m.cpu.pc 0 entry
  have taken := Step.take unmasked (fun _ => rfl) (fun isSync => by cases isSync) entry free ((reached d).mpr rfl)
  have outside : s.code d.pc = none := by
    rw [saved.pc]
    exact linked.outside .irqHandler
  have unmasks := Step.code (m := (m.setCpu d).setActivations m.current
      (⟨m.cpu, .irqHandler, [], none, false⟩ :: interrupted s m.cpu.pc (m.activations m.current)))
    (c := { d with pstate := 5 }) outside outside (Machine.Keeps.refl _)
  exact ⟨_, .snoc (.snoc (.nil m) taken) unmasks, outside, saved.sp, rfl, saved.held⟩

/-- An interrupt is taken and its function returns at once. -/
theorem takes (linked : Linked s) (unmasked : Kind.irq.masked m.cpu.pstate = false)
    (vector : exceptionVectorTable[4 * source m.cpu.pstate + 1]? = some .irqHandler)
    (free : (m.setActivations m.current (interrupted s m.cpu.pc (m.activations m.current))).Free
      (m.cpu.sp - BitVec.ofNat 64 (16 * 17)) frameLength) :
    ∃ c, Run s m [.take .irq, .code, .ret] ((m.setCpu c).setActivations m.current
      (⟨m.cpu, .irqHandler, [], none, false⟩ :: interrupted s m.cpu.pc (m.activations m.current))) ∧
        c.pc = s.loadAddress .irqHandler 0 ∧ c.sp = m.cpu.sp - BitVec.ofNat 64 (16 * 17) ∧ c.pstate = 5 := by
  obtain ⟨c, run, outside, sp, pstate, _⟩ := enters linked unmasked vector free
  have handles : Handles c.pstate := by
    rw [pstate]
    exact (show source 5 = 1 by decide)
  have returns := Step.ret (m := (m.setCpu c).setActivations m.current
      (⟨m.cpu, .irqHandler, [], none, false⟩ :: interrupted s m.cpu.pc (m.activations m.current)))
    Machine.activations_here outside sp handles
  exact ⟨_, .snoc run returns, rfl, sp, pstate⟩

theorem Starts.free (starts : Starts s m) {stack : List Activation} (empty : stack = []) (base : Word) (length : Nat) :
    (m.setActivations m.current stack).Free base length := by
  rintro i inside q (⟨t, b, member, _⟩ | ⟨t, w, found, _⟩)
  · subst empty
    by_cases here : t = m.current
    · subst here
      simp at member
    · rw [Machine.activations_elsewhere here, starts.activations] at member
      cases member
  · simp [starts.contexts] at found

/-- A program is interrupted, and the handler comes to its `eret`. -/
theorem Starts.interrupted (linked : Linked s) (starts : Starts s m) (unmasked : Kind.irq.masked m.cpu.pstate = false)
    (vector : exceptionVectorTable[4 * source m.cpu.pstate + 1]? = some .irqHandler) {n : Nat} (inside : n ≤ 21) :
    ∃ c, Run s m ([.take .irq, .code, .ret] ++ List.replicate n .load)
        ((m.setCpu c).setActivations m.current [⟨m.cpu, .irqHandler, [], none, false⟩]) ∧
      c.pc = s.loadAddress .irqHandler n ∧ c.pstate = 5 := by
  have nothing : Trap.interrupted s m.cpu.pc (m.activations m.current) = [] := by
    rw [starts.activations]
    rfl
  obtain ⟨c, run, pc, _, pstate⟩ := takes linked unmasked vector (starts.free nothing _ _)
  rw [nothing] at run
  have at_ : ((m.setCpu c).setActivations m.current [⟨m.cpu, .irqHandler, [], none, false⟩]).cpu.pc =
      s.loadAddress .irqHandler 0 := pc
  obtain ⟨d, run', pc', pstate'⟩ := loads at_ (show 0 + n ≤ 21 by omega)
  refine ⟨d, run.trans run', ?_, pstate'.trans pstate⟩
  rw [pc', Nat.zero_add]

theorem Inv.sp_of_loading {k : Nat} (inv : Inv s m) (top : m.activations m.current = a :: rest)
    (at_ : m.cpu.pc = s.loadAddress a.handler k) (inside : k ≤ 20) : m.cpu.sp = a.base := by
  obtain ⟨isTop, _⟩ := inv.stack top
  have loadsHere : s.code m.cpu.pc ≠ none := by
    rw [at_]
    exact loadAddress_inside (Nat.le_succ_of_le inside)
  obtain ⟨j, loading, _⟩ := isTop.loading loadsHere
  obtain rfl := loadAddress_inj (Nat.le_succ_of_le inside) loading.small (at_.symm.trans loading.pc)
  obtain ⟨_, _, _, models⟩ := loading.some_ inside
  exact models.at_

/-- The frame below a frame. -/
theorem frame_below {base : Word} {i j : Nat} (first : i < frameLength) (second : j < frameLength) :
    Clear (slot (base - BitVec.ofNat 64 (16 * 17)) j) (slot base i) := by
  unfold frameLength at first second
  unfold Clear slot
  constructor
  · bv_omega
  · bv_omega

theorem Machine.overwrite (m : Machine) (c c' : Cpu) (t : Word) (stack stack' : List Activation) :
    (((m.setCpu c).setActivations t stack).setCpu c').setActivations t stack' =
      (m.setCpu c').setActivations t stack' := by
  unfold Machine.setCpu Machine.setActivations
  simp

/-- One thread, which has one exception to return from. -/
structure Alone (m : Machine) (a : Activation) : Prop where
  here : m.activations m.current = [a]
  elsewhere : ∀ t, t ≠ m.current → m.activations t = []
  contexts : ∀ t, m.contexts t = none

theorem Starts.alone (starts : Starts s m) (c : Cpu) (a : Activation) :
    Alone ((m.setCpu c).setActivations m.current [a]) a where
  here := Machine.activations_here
  elsewhere t other := (Function.update_of_ne other _ _).trans (starts.activations t)
  contexts := starts.contexts

/-- The next frame on the stack. -/
theorem Alone.free (alone : Alone m a) (sp : m.cpu.sp = a.base) :
    (m.setActivations m.current [a]).Free (m.cpu.sp - BitVec.ofNat 64 (16 * 17)) frameLength := by
  rintro j below q (⟨t, b, member, _, i, inside, rfl⟩ | ⟨t, w, found, _⟩)
  · by_cases here : t = m.current
    · subst here
      rw [Machine.activations_here] at member
      obtain rfl := List.mem_singleton.mp member
      rw [sp]
      exact frame_below inside below
    · rw [Machine.activations_elsewhere here, alone.elsewhere t here] at member
      cases member
  · rw [Machine.contexts_setActivations, alone.contexts] at found
    cases found

/-- The handler is interrupted, and the handler of the second interrupt returns to it. -/
theorem Alone.nested (linked : Linked s) (inv : Inv s m) (alone : Alone m a) (sp : m.cpu.sp = a.base)
    (notLast : m.cpu.pc ≠ s.loadAddress a.handler 21) (pstate : m.cpu.pstate = 5) :
    ∃ events c, Run s m events ((m.setCpu c).setActivations m.current (resumed s c [a])) ∧
      c.pc = m.cpu.pc ∧ c.sp = m.cpu.sp ∧ c.pstate = 5 := by
  have unmarked : Trap.interrupted s m.cpu.pc (m.activations m.current) = [a] := by
    rw [alone.here]
    simp [Trap.interrupted, notLast]
  have vector : exceptionVectorTable[4 * source m.cpu.pstate + 1]? = some .irqHandler := by
    rw [pstate]
    decide
  obtain ⟨c₁, run₁, pc₁, _⟩ := takes linked (by rw [pstate]; decide) vector
    (by rw [unmarked]; exact alone.free sp)
  rw [unmarked] at run₁
  obtain ⟨m₁, isM₁⟩ : ∃ m₁, m₁ = (m.setCpu c₁).setActivations m.current
    [⟨m.cpu, .irqHandler, [], none, false⟩, a] := ⟨_, rfl⟩
  rw [← isM₁] at run₁
  have at₁ : m₁.cpu.pc = s.loadAddress .irqHandler 0 := by rw [isM₁]; exact pc₁
  obtain ⟨c₂, run₂, pc₂, _⟩ := loads at₁ (show 0 + 21 ≤ 21 by decide)
  have here : s.code (m₁.setCpu c₂).cpu.pc = some .eret := by
    show s.code c₂.pc = _
    rw [pc₂, code_load (by decide)]
    rfl
  have top : (m₁.setCpu c₂).activations (m₁.setCpu c₂).current =
      [⟨m.cpu, .irqHandler, [], none, false⟩, a] := by
    simp [isM₁]
  have step := Step.eret here top
  have resumes := ((run₁.trans run₂).preserves linked inv).resumes top here
  have back : ((m₁.setCpu c₂).cpu.exec .eret).pc = m.cpu.pc := resumes.pc
  have isReturned : returned s ⟨m.cpu, .irqHandler, [], none, false⟩ ((m₁.setCpu c₂).cpu.exec .eret) [a] =
      resumed s ((m₁.setCpu c₂).cpu.exec .eret) [a] := if_pos back
  rw [isReturned] at step
  have shape : ∀ c stack, ((m₁.setCpu c₂).setCpu c).setActivations (m₁.setCpu c₂).current stack =
      (m.setCpu c).setActivations m.current stack := by
    intro c stack
    rw [isM₁]
    exact m.overwrite c₁ c m.current _ stack
  rw [shape] at step
  exact ⟨_, _, (run₁.trans run₂).snoc step, back, resumes.sp, resumes.pstate.trans pstate⟩

/-- A program is interrupted, and its handler after `elr_el1` has been set. -/
theorem Starts.late (linked : Linked s) (starts : Starts s m) (unmasked : Kind.irq.masked m.cpu.pstate = false)
    (vector : exceptionVectorTable[4 * source m.cpu.pstate + 1]? = some .irqHandler) :
    ∃ events m' l, Run s m events m' ∧ m'.current = m.current ∧
      m'.activations m.current = [⟨m.cpu, .irqHandler, [], some l, false⟩] ∧
      l.1 = s.loadAddress .irqHandler 3 ∧ s.code m'.cpu.pc = some .eret := by
  obtain ⟨c, run, pc, pstate⟩ := starts.interrupted linked unmasked vector (show 3 ≤ 21 by decide)
  have alone := starts.alone c ⟨m.cpu, .irqHandler, [], none, false⟩
  obtain ⟨m₁, isM₁⟩ : ∃ m₁, m₁ = (m.setCpu c).setActivations m.current
    [⟨m.cpu, .irqHandler, [], none, false⟩] := ⟨_, rfl⟩
  rw [← isM₁] at run alone
  have current₁ : m₁.current = m.current := by rw [isM₁]; rfl
  have pc₁ : m₁.cpu.pc = s.loadAddress .irqHandler 3 := by rw [isM₁]; exact pc
  have pstate₁ : m₁.cpu.pstate = 5 := by rw [isM₁]; exact pstate
  have inv₁ := run.inv linked starts
  have sp₁ := inv₁.sp_of_loading alone.here pc₁ (by decide)
  have notLast : m₁.cpu.pc ≠ s.loadAddress .irqHandler 21 := by
    rw [pc₁]
    intro same
    cases loadAddress_inj (by decide) (by decide) same
  obtain ⟨events, c₂, run₂, pc₂, _, _⟩ := alone.nested linked inv₁ sp₁ notLast pstate₁
  have inWindow : InWindow s .irqHandler c₂.pc := by
    rw [pc₂, pc₁, InWindow.iff (by decide)]
    decide
  have isLate : resumed s c₂ [⟨m.cpu, .irqHandler, [], none, false⟩] =
      [⟨m.cpu, .irqHandler, [], some (c₂.pc, c₂.pstate), false⟩] := by
    rw [resumed, if_pos inWindow]
  rw [isLate] at run₂
  -- the rest of the handler that was interrupted
  have at₃ : ((m₁.setCpu c₂).setActivations m₁.current
      [⟨m.cpu, .irqHandler, [], some (c₂.pc, c₂.pstate), false⟩]).cpu.pc = s.loadAddress .irqHandler 3 :=
    pc₂.trans pc₁
  obtain ⟨c₃, run₃, pc₃, _⟩ := loads at₃ (show 3 + 18 ≤ 21 by decide)
  refine ⟨_, _, (c₂.pc, c₂.pstate), (run.trans run₂).trans run₃, current₁, ?_, pc₂.trans pc₁, ?_⟩
  · rw [← current₁]
    exact Machine.activations_here
  · show s.code c₃.pc = _
    rw [pc₃, code_load (by decide)]
    rfl

/-- The function that the handler calls writes to the first word of the frame. -/
theorem Alone.edit (alone : Alone m a) (outside : s.code m.cpu.pc = none) (fromCode : s.code a.taken.pc = none)
    (held : a.Held m.cpu.mem) (value : Word) :
    ∃ c, Step s m .edit ((m.setCpu c).setActivations m.current [{ a with edits := (0, value) :: a.edits }]) ∧
      c.pc = m.cpu.pc ∧ c.sp = m.cpu.sp ∧ c.pstate = m.cpu.pstate := by
  have stored : Activation.Held { a with edits := (0, value) :: a.edits }
      (store64 m.cpu.mem (slot a.base 0) value) := by
    intro i inside
    show load64 (store64 m.cpu.mem (slot a.base 0) value) (slot a.base i) =
      Function.update a.words 0 value i
    by_cases here : i = 0
    · rw [here, Function.update_self]
      exact load64_store64
    · rw [Function.update_of_ne here, load64_store64_clear]
      · exact held i inside
      · unfold frameLength at inside
        exact slot_clear (by decide) (by omega) (Ne.symm here)
  have keeps : (m.setActivations m.current []).Keeps (store64 m.cpu.mem (slot a.base 0) value) := by
    rintro q (⟨t, b, member, _⟩ | ⟨t, w, found, _⟩)
    · by_cases here : t = m.current
      · subst here
        rw [Machine.activations_here] at member
        cases member
      · rw [Machine.activations_elsewhere here, alone.elsewhere t here] at member
        cases member
    · rw [Machine.contexts_setActivations, alone.contexts] at found
      cases found
  exact ⟨{ m.cpu with mem := store64 m.cpu.mem (slot a.base 0) value },
    .edit alone.here outside outside fromCode keeps stored (fun last => by cases last), rfl, rfl, rfl⟩

/-- A program is interrupted; the function that the handler calls writes to the first word of the
frame, is interrupted itself, and returns. -/
theorem Starts.edited (linked : Linked s) (starts : Starts s m) (unmasked : Kind.irq.masked m.cpu.pstate = false)
    (vector : exceptionVectorTable[4 * source m.cpu.pstate + 1]? = some .irqHandler) (value : Word) :
    ∃ events m', Run s m events m' ∧ m'.current = m.current ∧
      m'.activations m.current = [⟨m.cpu, .irqHandler, [(0, value)], none, false⟩] ∧
      s.code m'.cpu.pc = some .eret := by
  have nothing : Trap.interrupted s m.cpu.pc (m.activations m.current) = [] := by
    rw [starts.activations]
    rfl
  obtain ⟨c, run, outside, sp, pstate, held⟩ := enters linked unmasked vector (starts.free nothing _ _)
  rw [nothing] at run
  have alone := starts.alone c ⟨m.cpu, .irqHandler, [], none, false⟩
  obtain ⟨c₁, edits, pc₁, sp₁, pstate₁⟩ := alone.edit outside starts.outside held value
  have run₁ := run.snoc edits
  change Run s m _ ((((m.setCpu c).setActivations m.current _).setCpu c₁).setActivations m.current _) at run₁
  rw [Machine.overwrite] at run₁
  have alone₁ := starts.alone c₁ ⟨m.cpu, .irqHandler, [(0, value)], none, false⟩
  obtain ⟨m₁, isM₁⟩ : ∃ m₁, m₁ = (m.setCpu c₁).setActivations m.current
    [⟨m.cpu, .irqHandler, [(0, value)], none, false⟩] := ⟨_, rfl⟩
  rw [← isM₁] at run₁ alone₁
  have current₁ : m₁.current = m.current := by rw [isM₁]; rfl
  have outside₁ : s.code m₁.cpu.pc = none := by
    rw [isM₁]
    exact pc₁ ▸ outside
  have atBase : m₁.cpu.sp = m.cpu.sp - BitVec.ofNat 64 (16 * 17) := by
    rw [isM₁]
    exact sp₁.trans sp
  have unmasked₁ : m₁.cpu.pstate = 5 := by
    rw [isM₁]
    exact pstate₁.trans pstate
  have inside : ∀ k ≤ 21, m₁.cpu.pc ≠ s.loadAddress .irqHandler k := by
    intro k last same
    rw [same] at outside₁
    exact loadAddress_inside last outside₁
  obtain ⟨events, c₂, run₂, pc₂, sp₂, pstate₂⟩ := alone₁.nested linked (run₁.inv linked starts) atBase
    (inside 21 (Nat.le_refl _)) unmasked₁
  have isEdited : resumed s c₂ [⟨m.cpu, .irqHandler, [(0, value)], none, false⟩] =
      [⟨m.cpu, .irqHandler, [(0, value)], none, false⟩] := by
    rw [resumed, if_neg]
    rintro ⟨k, _, last, same⟩
    exact inside k last (pc₂.symm.trans same)
  rw [isEdited] at run₂
  -- the function that was interrupted returns
  have handles : Handles c₂.pstate := by
    rw [pstate₂]
    exact (show source 5 = 1 by decide)
  have returns := Step.ret (m := (m₁.setCpu c₂).setActivations m₁.current
      [⟨m.cpu, .irqHandler, [(0, value)], none, false⟩])
    Machine.activations_here (show s.code c₂.pc = none from pc₂ ▸ outside₁) (sp₂.trans atBase) handles
  obtain ⟨c₃, run₃, pc₃, _⟩ := loads (m := ((m₁.setCpu c₂).setActivations m₁.current
      [⟨m.cpu, .irqHandler, [(0, value)], none, false⟩]).setCpu { c₂ with pc := s.loadAddress .irqHandler 0 })
    rfl (show 0 + 21 ≤ 21 by decide)
  refine ⟨_, _, ((run₁.trans run₂).snoc returns).trans run₃, current₁, ?_, ?_⟩
  · rw [← current₁]
    exact Machine.activations_here
  · show s.code c₃.pc = _
    rw [pc₃, code_load (by decide)]
    rfl

end Progress

/-! ## A kernel and a program -/

section Witness

/-- Some places for the code. -/
def someSymbols : Symbols where
  exceptionVectorTable := 0x80000
  cpuSwitchTo := 0x81000
  exceptionEntry := 0x90000
  irqEntry := 0x91000
  el0SyncEntry := 0x92000

theorem someSymbols_linked : Linked someSymbols where
  apart := by decide +kernel
  outside h := by cases h <;> decide +kernel

/-- A program at exception level 0, with interrupts unmasked. -/
def someMachine : Machine where
  cpu := ⟨fun r => BitVec.ofNat 64 r, 0x200000, 0x400000, 0, fun _ => 0, fun _ => 0⟩
  current := 0x300000
  activations _ := []
  contexts _ := none

theorem someMachine_starts : Starts someSymbols someMachine where
  outside := by decide +kernel
  activations _ := rfl
  contexts _ := rfl

/-- The program is interrupted, and so is the handler, which has written 7 to the frame. -/
theorem Run.resumes_program : ∃ events m m', Run someSymbols someMachine events m ∧
    Step someSymbols m .eret m' ∧ m'.cpu.x 0 = 7 ∧ m'.cpu.x 1 = 1 ∧ m'.cpu.pc = 0x400000 := by
  obtain ⟨events, m, run, current, activations, here⟩ :=
    someMachine_starts.edited someSymbols_linked (by decide) (by decide) 7
  have top : m.activations m.current = [⟨someMachine.cpu, .irqHandler, [(0, 7)], none, false⟩] := by
    rw [current]
    exact activations
  have step := Step.eret here top
  obtain ⟨x, _, _, _, onTime, _⟩ := Run.resumes_interrupted someSymbols_linked someMachine_starts run top step
  exact ⟨events, m, _, run, step, x 0, x 1, (onTime rfl).2⟩

/-- A thread that is about to switch to another one. -/
def someSwitch : Machine where
  cpu := { someMachine.cpu with
    x := fun r => if r = 0 then 0x300000 else if r = 1 then 0x310000 else BitVec.ofNat 64 r
    pstate := 0x3c5 }
  current := 0x300000
  activations _ := []
  contexts _ := none

theorem someSwitch_starts : Starts someSymbols someSwitch where
  outside := by decide +kernel
  activations _ := rfl
  contexts _ := rfl

/-- The task of the other thread is elsewhere. -/
theorem contexts_clear {i j : Nat} (first : i < contextLength) (second : j < contextLength) :
    Clear (slot 0x300000 i) (slot 0x310000 j) := by
  unfold contextLength at first second
  unfold Clear slot
  constructor
  · bv_omega
  · bv_omega

theorem free_of_context {u base : Word} (activations : ∀ t, m.activations t = [])
    (only : ∀ t v, m.contexts t = some v → t = u)
    (clear : ∀ i < contextLength, ∀ j < contextLength, Clear (slot base i) (slot u j)) : m.Free base contextLength := by
  rintro i inside q (⟨t, b, member, _⟩ | ⟨t, v, found, j, below, rfl⟩)
  · simp [activations t] at member
  · rw [only t v found]
    exact clear i inside j below

/-- The words of the other thread's task. -/
def someContext (i : Nat) : Word := load64 someSwitch.cpu.mem (slot 0x310000 i)

/-- One thread switches to another one that can be switched to. -/
theorem switches {u : Word} {w : Nat → Word} (linked : Linked s) (inv : Inv s m) (outside : s.code m.cpu.pc = none)
    (masked : ∀ kind : Kind, kind ≠ .sync → kind.masked m.cpu.pstate = true) (prev : m.cpu.x 0 = m.current)
    (arg : m.cpu.x 1 = u) (other : u ≠ m.current) (context : m.contexts u = some w) (back : s.code (m.cpu.x 30) = none)
    (free : m.Free m.current contextLength) : ∃ c, Step s m (.switch u)
      { ((m.setCpu c).setContext m.current (some (cpuContext m.cpu))).setContext u none with current := u } ∧
        Switched m.current u w m.cpu c := by
  have apart : ∀ j < contextLength, ∀ i < contextLength, Clear (slot m.current j) (slot u i) :=
    fun j below i inside => free j below _ (Machine.InUse.context context inside)
  obtain ⟨c, switched, reached⟩ := switch_switches linked prev arg (inv.held u w context) apart (inv.back u w context)
  exact ⟨c, .switch outside masked prev arg other context back free ((reached c).mpr rfl), switched⟩

/-- Two threads switch to each other. -/
theorem switches_back {u : Word} {w : Nat → Word} (linked : Linked s) (inv : Inv s m) (outside : s.code m.cpu.pc = none)
    (masked : ∀ kind : Kind, kind ≠ .sync → kind.masked m.cpu.pstate = true) (prev : m.cpu.x 0 = m.current)
    (arg : m.cpu.x 1 = u) (other : u ≠ m.current) (context : m.contexts u = some w) (back : s.code (m.cpu.x 30) = none)
    (clear : ∀ i < contextLength, ∀ j < contextLength, Clear (slot m.current i) (slot u j))
    (activations : ∀ t, m.activations t = []) (only : ∀ t v, m.contexts t = some v → t = u) :
    ∃ m₁ m₂ m₃, Step s m (.switch u) m₁ ∧ Run s m₁ [.code] m₂ ∧ Step s m₂ (.switch m.current) m₃ := by
  obtain ⟨c, away, switched⟩ := switches linked inv outside masked prev arg other context back
    (free_of_context activations only clear)
  have inv₁ := away.preserves linked inv
  have outside₁ : s.code c.pc = none := by rw [switched.pc, inv.back u w context]
  -- the other thread calls `cpu_switch_to` as well
  have called := Step.code (s := s) (c := { c with x := fun r => if r = 0 then u else if r = 1 then m.current else m.cpu.x 30 })
    (m := { ((m.setCpu c).setContext m.current (some (cpuContext m.cpu))).setContext u none with current := u })
    outside₁ outside₁ (Machine.Keeps.refl _)
  have contexts : ∀ t v, Function.update (Function.update m.contexts m.current (some (cpuContext m.cpu))) u none t =
      some v → t = m.current := by
    intro t v found
    by_contra notCurrent
    by_cases isNext : t = u
    · subst isNext
      simp at found
    · rw [Function.update_of_ne isNext, Function.update_of_ne notCurrent] at found
      exact isNext (only t v found)
  have saved : Function.update (Function.update m.contexts m.current (some (cpuContext m.cpu))) u none m.current =
      some (cpuContext m.cpu) := by
    rw [Function.update_of_ne (Ne.symm other), Function.update_self]
  obtain ⟨d, returns, _⟩ := switches linked (called.preserves linked inv₁) outside₁
    (fun kind async => (switched.pstate ▸ masked kind async : kind.masked c.pstate = true)) rfl rfl (Ne.symm other)
    saved back (free_of_context activations contexts fun i below j inside => (clear j inside i below).symm)
  exact ⟨_, _, _, away, .snoc (.nil _) called, returns⟩

theorem Run.comes_back_twice : ∃ m m₁ m₂ m₃, Step someSymbols m (.switch 0x310000) m₁ ∧
    Run someSymbols m₁ [.code] m₂ ∧ Step someSymbols m₂ (.switch m.current) m₃ ∧
    m₃.cpu.pc = m.cpu.x 30 ∧ m₃.cpu.sp = m.cpu.sp := by
  have entry : someSymbols.code (someContext 11) = none := by decide +kernel
  have created : Step someSymbols someSwitch (.create 0x310000) (someSwitch.setContext 0x310000 (some someContext)) :=
    .create someSwitch_starts.outside rfl (by decide) (fun _ _ => rfl) entry
  have run := Run.snoc (.nil someSwitch) created
  have context : (someSwitch.setContext 0x310000 (some someContext)).contexts 0x310000 = some someContext :=
    Machine.context_here
  have masked : ∀ kind : Kind, kind ≠ .sync → kind.masked 0x3c5 = true := by
    intro kind async
    cases kind <;> first | rfl | exact absurd rfl async
  have only : ∀ t v, (someSwitch.setContext 0x310000 (some someContext)).contexts t = some v → t = 0x310000 := by
    intro t v found
    by_contra other
    change Function.update someSwitch.contexts 0x310000 (some someContext) t = some v at found
    rw [Function.update_of_ne other] at found
    cases found
  obtain ⟨m₁, m₂, m₃, away, elsewhere, back⟩ := switches_back someSymbols_linked
    (run.inv someSymbols_linked someSwitch_starts) someSwitch_starts.outside masked rfl rfl (by decide) context
    (by decide +kernel) (fun i below j inside => contexts_clear below inside) (fun _ => rfl) only
  obtain ⟨pc, sp, _⟩ := Run.comes_back someSymbols_linked someSwitch_starts run away elsewhere (by simp) back
  exact ⟨_, m₁, m₂, m₃, away, elsewhere, back, pc, sp⟩

theorem Run.never_returns_program : ∃ events m l m', Run someSymbols someMachine events m ∧
    m.activations m.current = [⟨someMachine.cpu, .irqHandler, [], some l, false⟩] ∧ Step someSymbols m .eret m' ∧
    ∀ later m₁, Run someSymbols m' later m₁ → .reap m.current ∉ later → m₁.activations m.current = [] →
      Astray someSymbols m₁.cpu.pc := by
  obtain ⟨events, m, l, run, current, top, place, here⟩ :=
    someMachine_starts.late someSymbols_linked (by decide) (by decide)
  rw [← current] at top
  have step := Step.eret here top
  have after : l.1 ≠ someSymbols.loadAddress .irqHandler 2 := by
    rw [place]
    intro same
    cases loadAddress_inj (by decide) (by decide) same
  have fromCode : someSymbols.code someMachine.cpu.pc = none := someMachine_starts.outside
  refine ⟨events, m, l, _, run, top, step, fun later m₁ on alive empty => ?_⟩
  exact ((Run.never_returns someSymbols_linked someMachine_starts run top fromCode rfl after step on alive).1 empty).2

end Witness

end OsdiKernel.Trap
