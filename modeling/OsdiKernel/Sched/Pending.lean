import OsdiKernel.Lib.Mailbox
import OsdiKernel.Sched.Signals
import OsdiKernel.Sched.Untouched

/-!
# Pending signals

`sys_sigkill` sets a bit of a mask, and the loop of `check_pending_signals`
clears the bits that are set and calls their handlers.  Between two rounds of
the loop other tasks raise signals, and an interrupt may begin the loop again; a
custom handler leaves the loop for good.
-/

namespace OsdiKernel.Sched

open Mailbox (Event)

variable {H : Type}

/-! ## The source -/

/-- `1 << sig`. -/
def sigBit (sig : Nat) : BitVec 32 := 1#32 <<< sig

def raiseSignal (k : Kernel H) (task sig : Nat) : Kernel H :=
  k.modify task fun t => { t with pendingSig := t.pendingSig ||| sigBit sig }

/-- `sys_sigkill`, which leaves the trap frame as it is. -/
def sysSigkill (k : Kernel H) (frame : TrapFrame) : Option (Kernel H) := do
  let pid : BitVec 32 := (frame.x 0).setWidth 32
  let sig := ((frame.x 1).setWidth 32).toInt
  match ← getThreadTaskById k pid with
  | none => return k
  | some task =>
      if sig < 0 ∨ (sigNum : Int) ≤ sig then return k
      else return raiseSignal k task sig.toNat

variable [Allocator H]

/-- A round of the loop of `check_pending_signals`. -/
def checkPendingRound (wrapper : Word) (k : SignalKernel H) (task sig : Nat) (frame : TrapFrame)
    (registers : CpuContext) : Option (SignalKernel H × SignalOutcome) :=
  if (k.tasks task).pendingSig &&& sigBit sig ≠ 0 then
    let cleared := k.toKernel.modify task fun t => { t with pendingSig := t.pendingSig &&& ~~~sigBit sig }
    handleSignal wrapper { k with toKernel := cleared } task sig frame registers
  else some (k, .ignored)

/-- The loop is left for a custom handler, and for good when `_exit` has switched to
another task. -/
def checkPendingLoop (wrapper : Word) (task : Nat) (frame : TrapFrame) (registers : CpuContext) :
    Nat → Nat → SignalKernel H → Option (SignalKernel H × Option UserEntry)
  | 0, _, k => some (k, none)
  | left + 1, sig, k => do
      match ← checkPendingRound wrapper k task sig frame registers with
      | (k, .entered entry) => return (k, some entry)
      | (k, .exited) =>
          if k.current = some task then
            checkPendingLoop wrapper task frame registers left (sig + 1) k
          else return (k, none)
      | (k, _) => checkPendingLoop wrapper task frame registers left (sig + 1) k

def checkPendingSignals (wrapper : Word) (k : SignalKernel H) (task : Nat) (frame : TrapFrame)
    (registers : CpuContext) : Option (SignalKernel H × Option UserEntry) :=
  if (k.tasks task).pendingSig = 0 then some (k, none)
  else checkPendingLoop wrapper task frame registers sigNum 0 k

/-! ## Runs -/

omit [Allocator H] in
/-- The signals of a task that are pending. -/
def SignalKernel.pendingSignals (k : SignalKernel H) (task : Nat) : Set (Fin sigNum) :=
  {sig | (k.tasks task).pendingSig.getLsbD sig = true}

/-- The kernel, the loop counters of the runs of `check_pending_signals` that have
begun and not ended, and what was raised and delivered. -/
structure PendingSystem (H : Type) where
  kernel : SignalKernel H
  counter : Nat → Option Nat
  history : List (Event Nat (Fin sigNum))

namespace PendingSystem

omit [Allocator H]

def setCounter (sys : PendingSystem H) (run : Nat) (sig : Option Nat) : PendingSystem H :=
  { sys with counter := Function.update sys.counter run sig }

theorem setCounter_self (sys : PendingSystem H) (run : Nat) (sig : Option Nat) :
    (sys.setCounter run sig).counter run = sig := Function.update_self _ _ _

theorem setCounter_of_ne (sys : PendingSystem H) {run other : Nat} (different : other ≠ run)
    (sig : Option Nat) : (sys.setCounter run sig).counter other = sys.counter other :=
  Function.update_of_ne different _ _

/-- A round of a run delivers its signal when a handler is called. -/
def afterRound (sys : PendingSystem H) (run : Nat) (sig : Fin sigNum) (k : SignalKernel H)
    (outcome : SignalOutcome) : PendingSystem H where
  kernel := k
  counter := sys.counter
  history := sys.history ++ if outcome.delivers then [.delivered run sig] else []

end PendingSystem

/-- One round of a run, a signal that is raised for the task, or anything that
leaves the mask of the task as it is. -/
inductive PendingStep (task : Nat) (sys : PendingSystem H) : PendingSystem H → Prop
  | raise {k : Kernel H} {frame : TrapFrame} {sig : Fin sigNum}
      (found : getThreadTaskById sys.kernel.toKernel ((frame.x 0).setWidth 32) = some (some task))
      (isSig : ((frame.x 1).setWidth 32).toInt = sig)
      (raised : sysSigkill sys.kernel.toKernel frame = some k) :
      PendingStep task sys
        { sys with
          kernel := { sys.kernel with toKernel := k }
          history := sys.history ++ [.raised sig] }
  | begin {run : Nat} (new : sys.counter run = none ∧ ∀ sig, .delivered run sig ∉ sys.history)
      (pending : (sys.kernel.tasks task).pendingSig ≠ 0) : PendingStep task sys (sys.setCounter run (some 0))
  | round {run : Nat} {sig : Fin sigNum} {k : SignalKernel H} {wrapper : Word} {frame : TrapFrame}
      {registers : CpuContext} {outcome : SignalOutcome} (here : sys.counter run = some sig)
      (handlers : ∀ sig, (sys.kernel.tasks task).sigHandlers sig ≠ .null)
      (ended : checkPendingRound wrapper sys.kernel task sig frame registers = some (k, outcome))
      (returns : ∀ entry, outcome ≠ .entered entry) :
      PendingStep task sys ((sys.afterRound run sig k outcome).setCounter run (some (sig + 1)))
  | leave {run : Nat} {sig : Fin sigNum} {k : SignalKernel H} {wrapper : Word} {frame : TrapFrame}
      {registers : CpuContext} {outcome : SignalOutcome} (here : sys.counter run = some sig)
      (handlers : ∀ sig, (sys.kernel.tasks task).sigHandlers sig ≠ .null)
      (ended : checkPendingRound wrapper sys.kernel task sig frame registers = some (k, outcome))
      (leaves : outcome = .exited ∨ ∃ entry, outcome = .entered entry) :
      PendingStep task sys ((sys.afterRound run sig k outcome).setCounter run none)
  | finish {run : Nat} (last : sys.counter run = some sigNum) :
      PendingStep task sys (sys.setCounter run none)
  | rest {k : SignalKernel H} (same : (k.tasks task).pendingSig = (sys.kernel.tasks task).pendingSig) :
      PendingStep task sys { sys with kernel := k }

inductive PendingRun (task : Nat) (start : PendingSystem H) : PendingSystem H → Prop
  | refl : PendingRun task start start
  | step {sys sys' : PendingSystem H} (run : PendingRun task start sys)
      (stepped : PendingStep task sys sys') : PendingRun task start sys'

/-- Before the first run nothing was raised or delivered. -/
structure NoHistory (sys : PendingSystem H) : Prop where
  counter : sys.counter = fun _ => none
  history : sys.history = []

/-- The mask has the signals that are pending by the history, only pending signals
were delivered, and each run has delivered signals in order, up to its counter. -/
structure Recorded (task : Nat) (start : Set (Fin sigNum)) (sys : PendingSystem H) : Prop where
  proper : Mailbox.Proper start sys.history
  pending : sys.kernel.pendingSignals task = Mailbox.pending start sys.history
  increasing : ∀ run, (Mailbox.deliveries run sys.history).Pairwise (· < ·)
  passed : ∀ run sig, sys.counter run = some sig → ∀ a ∈ Mailbox.deliveries run sys.history, a.val < sig

/-! ## One round -/

section Bits

variable {mask : BitVec 32} {sig i : Nat}

theorem sigBit_eq (sig : Nat) : sigBit sig = BitVec.twoPow 32 sig := by
  unfold sigBit
  rw [BitVec.twoPow_eq]

theorem getLsbD_sigBit (inside : i < 32) : (sigBit sig).getLsbD i = decide (i = sig) := by
  rw [sigBit_eq, BitVec.getLsbD_twoPow, ← Bool.decide_and, decide_eq_decide]
  exact ⟨fun both => both.2.symm, fun same => ⟨same ▸ inside, same.symm⟩⟩

theorem getLsbD_raised (inside : i < 32) :
    (mask ||| sigBit sig).getLsbD i = true ↔ i = sig ∨ mask.getLsbD i = true := by
  rw [BitVec.getLsbD_or, getLsbD_sigBit inside, Bool.or_eq_true, decide_eq_true_eq, or_comm]

theorem getLsbD_cleared (inside : i < 32) :
    (mask &&& ~~~sigBit sig).getLsbD i = true ↔ mask.getLsbD i = true ∧ i ≠ sig := by
  rw [BitVec.getLsbD_and, BitVec.getLsbD_not, getLsbD_sigBit inside, Bool.and_eq_true]
  simp only [inside, decide_true, Bool.true_and, Bool.not_eq_true', decide_eq_false_iff_not, ne_eq]

theorem and_sigBit_ne_zero (inside : sig < 32) : mask &&& sigBit sig ≠ 0 ↔ mask.getLsbD sig = true := by
  rw [sigBit_eq, BitVec.and_twoPow]
  cases bit : mask.getLsbD sig with
  | false => simp
  | true =>
      simp only [if_true, ne_eq, iff_true]
      intro zero
      have bit' := congrArg (BitVec.getLsbD · sig) zero
      simp [inside] at bit'

end Bits

section Round

variable {k k' : SignalKernel H} {task run : Nat} {sig : Fin sigNum} {wrapper : Word} {frame : TrapFrame}
  {registers : CpuContext} {outcome : SignalOutcome}

/-- A handler writes only what the scheduler writes and what lies behind the saved frame. -/
theorem handleSignal_kept {α : Type} (f : Task → α) (independent : ∀ t : Task, f t.unscheduled = f t)
    (stored : ∀ (t : Task) words context, f { storeWords t words with cpuContext := context } = f t) {sig : Int}
    (handled : handleSignal wrapper k task sig frame registers = some (k', outcome)) :
    f (k'.tasks task) = f (k.tasks task) := by
  unfold handleSignal at handled
  split at handled
  · cases handled
    rfl
  · split at handled
    · cases handled
      rfl
    · cases handled
      rfl
    · obtain ⟨exited, exits, same⟩ := Option.bind_eq_some_iff.mp handled
      cases same
      exact (exit_untouched exits).field f independent task
    · next handler _ =>
        obtain ⟨context, same⟩ := @deliver_task H _ k task wrapper handler frame
        have entered : k' = (deliver wrapper k task handler frame).1 :=
          (Prod.mk.inj (Option.some.inj handled)).1.symm
        rw [entered, same]
        exact stored _ _ _

/-- A handler is called if there is one. -/
theorem handleSignal_delivers
    (handled : handleSignal wrapper k task sig frame registers = some (k', outcome)) :
    outcome.delivers = true ↔ (k.tasks task).sigHandlers sig ≠ .null := by
  have inRange : ¬ ((sig : Int) < 0 ∨ (sigNum : Int) ≤ sig) := by
    have bound := sig.isLt
    omega
  have same : (⟨(sig : Int).toNat, by omega⟩ : Fin sigNum) = sig := Fin.ext (Int.toNat_natCast _)
  unfold handleSignal at handled
  rw [dif_neg inRange, same] at handled
  cases handler : (k.tasks task).sigHandlers sig with
  | null =>
      rw [handler] at handled
      cases handled
      simp [SignalOutcome.delivers]
  | defaultHandler =>
      rw [handler] at handled
      cases handled
      simp [SignalOutcome.delivers]
  | defaultSigkillHandler =>
      rw [handler] at handled
      obtain ⟨exited, _, last⟩ := Option.bind_eq_some_iff.mp handled
      cases last
      simp [SignalOutcome.delivers]
  | custom address =>
      rw [handler] at handled
      cases handled
      simp [SignalOutcome.delivers]

/-- A round calls a handler just when its signal is pending. -/
theorem checkPendingRound_delivers (handlers : ∀ sig, (k.tasks task).sigHandlers sig ≠ .null)
    (round : checkPendingRound wrapper k task sig frame registers = some (k', outcome)) :
    outcome.delivers = true ↔ sig ∈ k.pendingSignals task := by
  have pending : sig ∈ k.pendingSignals task ↔ (k.tasks task).pendingSig &&& sigBit sig ≠ 0 :=
    (and_sigBit_ne_zero sig.isLt).symm
  rw [pending]
  unfold checkPendingRound at round
  split at round
  · next waits =>
      refine iff_of_true ((handleSignal_delivers round).mpr ?_) waits
      have kept := congrArg (fun t => t.sigHandlers sig) (modify_self k.toKernel task
        fun t => { t with pendingSig := t.pendingSig &&& ~~~sigBit sig })
      exact ne_of_eq_of_ne kept (handlers sig)
  · next clear =>
      cases round
      exact iff_of_false Bool.false_ne_true clear

/-- A round clears its bit, whatever it was. -/
theorem checkPendingRound_pendingSig
    (round : checkPendingRound wrapper k task sig frame registers = some (k', outcome)) :
    (k'.tasks task).pendingSig = (k.tasks task).pendingSig &&& ~~~sigBit sig := by
  unfold checkPendingRound at round
  split at round
  · rw [handleSignal_kept Task.pendingSig (fun _ => rfl) (fun _ _ _ => rfl) round]
    exact congrArg Task.pendingSig (modify_self k.toKernel task
      fun t => { t with pendingSig := t.pendingSig &&& ~~~sigBit sig })
  · next clear =>
      cases round
      rw [and_sigBit_ne_zero sig.isLt] at clear
      refine BitVec.eq_of_getLsbD_eq fun i inside => ?_
      rw [Bool.eq_iff_iff, getLsbD_cleared inside]
      refine ⟨fun bit => ⟨bit, fun here => clear (here ▸ bit)⟩, And.left⟩

theorem checkPendingRound_handlers
    (round : checkPendingRound wrapper k task sig frame registers = some (k', outcome)) :
    (k'.tasks task).sigHandlers = (k.tasks task).sigHandlers := by
  unfold checkPendingRound at round
  split at round
  · rw [handleSignal_kept Task.sigHandlers (fun _ => rfl) (fun _ _ _ => rfl) round]
    exact (congrArg Task.sigHandlers (modify_self k.toKernel task
      fun t => { t with pendingSig := t.pendingSig &&& ~~~sigBit sig })).trans rfl
  · cases round
    rfl

theorem checkPendingRound_pending
    (round : checkPendingRound wrapper k task sig frame registers = some (k', outcome)) :
    k'.pendingSignals task = k.pendingSignals task \ {sig} := by
  ext other
  unfold SignalKernel.pendingSignals
  rw [Set.mem_ofPred_eq, checkPendingRound_pendingSig round, getLsbD_cleared other.isLt, Set.mem_sdiff,
    Set.mem_ofPred_eq, Set.mem_singleton_iff, ne_eq, Fin.val_inj]

omit [Allocator H] in
theorem raiseSignal_pending (k : SignalKernel H) (task : Nat) (sig : Fin sigNum) :
    SignalKernel.pendingSignals { k with toKernel := raiseSignal k.toKernel task sig } task =
      insert sig (k.pendingSignals task) := by
  ext other
  have mask : ((raiseSignal k.toKernel task sig).tasks task).pendingSig =
      (k.tasks task).pendingSig ||| sigBit sig := congrArg Task.pendingSig (modify_self k.toKernel task _)
  unfold SignalKernel.pendingSignals
  rw [Set.mem_ofPred_eq, mask, getLsbD_raised other.isLt, Set.mem_insert_iff, Set.mem_ofPred_eq, Fin.val_inj]

omit [Allocator H] in
/-- A call that finds the task raises the signal. -/
theorem sysSigkill_found {k : Kernel H}
    (found : getThreadTaskById k ((frame.x 0).setWidth 32) = some (some task))
    (isSig : ((frame.x 1).setWidth 32).toInt = sig) : sysSigkill k frame = some (raiseSignal k task sig) := by
  have inRange : ¬ ((sig.val : Int) < 0 ∨ (sigNum : Int) ≤ sig.val) := by
    have bound := sig.isLt
    omega
  unfold sysSigkill
  simp only [found, Option.bind_eq_bind, Option.bind_some, isSig, if_neg inRange, Int.toNat_natCast]
  rfl

end Round

/-! ## All rounds -/

section Runs

variable {sys sys' start : PendingSystem H} {task run : Nat} {pending : Set (Fin sigNum)}

omit [Allocator H] in
theorem deliveries_concat {history : List (Event Nat (Fin sigNum))} (event : Event Nat (Fin sigNum)) :
    Mailbox.deliveries run (history ++ [event]) =
      Mailbox.deliveries run history ++ Mailbox.deliveries run [event] := List.filterMap_append

omit [Allocator H] in
/-- A round that delivers adds its signal to the deliveries of its run. -/
theorem Recorded.afterRound {sig : Fin sigNum} {k : SignalKernel H} {outcome : SignalOutcome}
    {next : Option Nat} (recorded : Recorded task pending sys) (here : sys.counter run = some sig)
    (delivers : outcome.delivers = true ↔ sig ∈ sys.kernel.pendingSignals task)
    (cleared : k.pendingSignals task = sys.kernel.pendingSignals task \ {sig})
    (later : ∀ c, next = some c → c = sig + 1) :
    Recorded task pending ((sys.afterRound run sig k outcome).setCounter run next) := by
  have counters : ∀ other c,
      ((sys.afterRound run sig k outcome).setCounter run next).counter other = some c →
      other = run ∧ c = sig + 1 ∨ other ≠ run ∧ sys.counter other = some c := by
    intro other c at_
    by_cases same : other = run
    · subst same
      exact Or.inl ⟨rfl, later c ((PendingSystem.setCounter_self _ _ _).symm.trans at_)⟩
    · exact Or.inr ⟨same, (Function.update_of_ne same _ _).symm.trans at_⟩
  by_cases called : outcome.delivers = true
  · have history : ((sys.afterRound run sig k outcome).setCounter run next).history =
        sys.history ++ [.delivered run sig] := congrArg (sys.history ++ ·) (if_pos called)
    have own : Mailbox.deliveries run [Event.delivered run sig] = [sig] := by simp [Mailbox.deliveries]
    have others : ∀ other, other ≠ run → Mailbox.deliveries other [Event.delivered run sig] = [] := by
      intro other different
      simp [Mailbox.deliveries, different.symm]
    have waits : sig ∈ Mailbox.pending pending sys.history := by
      rw [← recorded.pending]
      exact delivers.mp called
    refine ⟨?_, ?_, fun other => ?_, fun other c at_ a member => ?_⟩
    · rw [history]
      exact recorded.proper.delivered run waits
    · rw [history, Mailbox.pending_append, ← recorded.pending]
      exact cleared
    · rw [history, deliveries_concat]
      by_cases same : other = run
      · subst same
        rw [own]
        refine List.pairwise_append.mpr ⟨recorded.increasing other, List.pairwise_singleton _ _, ?_⟩
        intro a earlier b last
        rw [List.mem_singleton.mp last]
        exact recorded.passed other sig here a earlier
      · rw [others other same, List.append_nil]
        exact recorded.increasing other
    · rw [history, deliveries_concat] at member
      rcases counters other c at_ with ⟨rfl, rfl⟩ | ⟨different, old⟩
      · rw [own] at member
        rcases List.mem_append.mp member with earlier | last
        · exact Nat.lt_succ_of_lt (recorded.passed other sig here a earlier)
        · rw [List.mem_singleton.mp last]
          exact Nat.lt_succ_self _
      · rw [others other different, List.append_nil] at member
        exact recorded.passed other c old a member
  · have history : ((sys.afterRound run sig k outcome).setCounter run next).history = sys.history :=
      (congrArg (sys.history ++ ·) (if_neg called)).trans (List.append_nil _)
    have absent : sig ∉ sys.kernel.pendingSignals task := fun waits => called (delivers.mpr waits)
    refine ⟨history.symm ▸ recorded.proper, ?_, history.symm ▸ recorded.increasing, fun other c at_ => ?_⟩
    · rw [history, ← recorded.pending]
      exact cleared.trans (Set.sdiff_singleton_eq_self absent)
    · rw [history]
      intro a member
      rcases counters other c at_ with ⟨rfl, rfl⟩ | ⟨_, old⟩
      · exact Nat.lt_succ_of_lt (recorded.passed other sig here a member)
      · exact recorded.passed other c old a member

theorem Recorded.step (recorded : Recorded task pending sys) (stepped : PendingStep task sys sys') :
    Recorded task pending sys' := by
  cases stepped with
  | raise found isSig raised =>
      cases (sysSigkill_found found isSig).symm.trans raised
      refine ⟨recorded.proper.raised _, ?_, fun run => ?_, fun run sig at_ => ?_⟩
      · rw [raiseSignal_pending, recorded.pending, Mailbox.pending_append]
        rfl
      · rw [deliveries_concat]
        exact (List.append_nil _).symm ▸ recorded.increasing run
      · rw [deliveries_concat]
        exact (List.append_nil _).symm ▸ recorded.passed run sig at_
  | @begin run new waits =>
      refine { recorded with passed := fun other sig here a member => ?_ }
      by_cases same : other = run
      · obtain ⟨event, inHistory, isDelivery⟩ := List.mem_filterMap.mp member
        cases event with
        | raised b => cases isDelivery
        | delivered receiver b =>
            dsimp only at isDelivery
            split at isDelivery
            · next own =>
                cases isDelivery
                exact absurd inHistory (own ▸ same ▸ new.2 a)
            · cases isDelivery
      · exact recorded.passed other sig ((PendingSystem.setCounter_of_ne _ same _).symm.trans here) a member
  | round here handlers ended returns =>
      exact recorded.afterRound here (checkPendingRound_delivers handlers ended)
        (checkPendingRound_pending ended) fun c same => (Option.some.inj same).symm
  | leave here handlers ended leaves =>
      refine recorded.afterRound here (checkPendingRound_delivers handlers ended)
        (checkPendingRound_pending ended) fun c impossible => ?_
      cases impossible
  | @finish run last =>
      refine { recorded with passed := fun other sig here => ?_ }
      by_cases same : other = run
      · subst same
        cases (PendingSystem.setCounter_self _ _ _).symm.trans here
      · exact recorded.passed other sig ((PendingSystem.setCounter_of_ne _ same _).symm.trans here)
  | rest same =>
      refine { recorded with pending := ?_ }
      rw [← recorded.pending]
      unfold SignalKernel.pendingSignals
      rw [same]

theorem PendingRun.recorded (initial : NoHistory start) (run : PendingRun task start sys) :
    Recorded task (start.kernel.pendingSignals task) sys := by
  induction run with
  | refl =>
      obtain ⟨counter, history⟩ := initial
      refine ⟨history.symm ▸ .nil, by rw [history]; rfl, fun run => by rw [history]; exact .nil,
        fun run sig here => ?_⟩
      rw [counter] at here
      cases here
  | step _ stepped ih => exact ih.step stepped

/-- A signal that was raised is pending or has been delivered since; what is delivered
has been raised, or was pending at the start, and not delivered since; a run of
`check_pending_signals` delivers signals in order, each once; and exactly what was
not delivered is pending. -/
theorem run_delivers_pending (initial : NoHistory start) (run : PendingRun task start sys) :
    (∀ before after sig, sys.history = before ++ .raised sig :: after →
      sig ∈ sys.kernel.pendingSignals task ∨ ∃ run, .delivered run sig ∈ after) ∧
    (∀ before after run sig, sys.history = before ++ .delivered run sig :: after →
      (sig ∈ start.kernel.pendingSignals task ∧ ∀ run, .delivered run sig ∉ before) ∨
        ∃ first last, before = first ++ .raised sig :: last ∧ ∀ run, .delivered run sig ∉ last) ∧
    (∀ run, (Mailbox.deliveries run sys.history).Pairwise (· < ·)) ∧
    ∀ sig, sig ∈ sys.kernel.pendingSignals task ↔
      (sig ∈ start.kernel.pendingSignals task ∧ ∀ run, .delivered run sig ∉ sys.history) ∨
        ∃ first last, sys.history = first ++ .raised sig :: last ∧ ∀ run, .delivered run sig ∉ last := by
  obtain ⟨proper, pending, increasing, _⟩ := run.recorded initial
  refine ⟨fun before after sig shape => ?_, fun before after run sig shape => ?_, increasing, fun sig => ?_⟩
  · rw [pending, shape]
    exact Mailbox.pending_or_delivered _ before after sig
  · exact Mailbox.mem_pending_iff.mp (proper.waits shape)
  · rw [pending]
    exact Mailbox.mem_pending_iff

/-! ### The loop -/

variable {wrapper : Word} {frame : TrapFrame} {registers : CpuContext} {k' : SignalKernel H}
  {entry : Option UserEntry}

theorem checkPendingLoop_run {left sig : Nat} (earlier : PendingRun task start sys)
    (here : sys.counter run = some sig) (last : sig + left = sigNum)
    (handlers : ∀ sig, (sys.kernel.tasks task).sigHandlers sig ≠ .null)
    (ran : checkPendingLoop wrapper task frame registers left sig sys.kernel = some (k', entry)) :
    ∃ sys', PendingRun task start sys' ∧ sys'.kernel = k' := by
  induction left generalizing sig sys with
  | zero =>
      cases ran
      have ended : sys.counter run = some sigNum := by rw [here, ← last, Nat.add_zero]
      exact ⟨_, earlier.step (.finish ended), rfl⟩
  | succ left ih =>
      rw [checkPendingLoop] at ran
      obtain ⟨⟨k₁, outcome⟩, round, rest⟩ := Option.bind_eq_some_iff.mp ran
      have below : sig < sigNum := by omega
      have round' : checkPendingRound wrapper sys.kernel task (⟨sig, below⟩ : Fin sigNum) frame registers =
          some (k₁, outcome) := round
      -- the call comes back, and the loop goes on with the next signal
      have goesOn : (∀ entry, outcome ≠ .entered entry) →
          checkPendingLoop wrapper task frame registers left (sig + 1) k₁ = some (k', entry) →
          ∃ sys', PendingRun task start sys' ∧ sys'.kernel = k' := by
        intro returns later
        refine @ih _ (sig + 1) (earlier.step (.round here handlers round' returns)) ?_ (by omega) ?_ later
        · exact PendingSystem.setCounter_self _ _ _
        · exact fun other => (congrFun (checkPendingRound_handlers round') other).symm ▸ handlers other
      cases outcome with
      | ignored => exact goesOn (fun _ => SignalOutcome.noConfusion) rest
      | defaultHandler => exact goesOn (fun _ => SignalOutcome.noConfusion) rest
      | exited =>
          dsimp only at rest
          split at rest
          · exact goesOn (fun _ => SignalOutcome.noConfusion) rest
          · cases rest
            exact ⟨_, earlier.step (.leave here handlers round' (Or.inl rfl)), rfl⟩
      | entered entry₁ =>
          cases rest
          exact ⟨_, earlier.step (.leave here handlers round' (Or.inr ⟨entry₁, rfl⟩)), rfl⟩

/-- A call that is not interrupted is a run of rounds. -/
theorem checkPendingSignals_run (new : sys.counter run = none ∧ ∀ sig, .delivered run sig ∉ sys.history)
    (handlers : ∀ sig, (sys.kernel.tasks task).sigHandlers sig ≠ .null)
    (ran : checkPendingSignals wrapper sys.kernel task frame registers = some (k', entry)) :
    ∃ sys', PendingRun task sys sys' ∧ sys'.kernel = k' := by
  unfold checkPendingSignals at ran
  split at ran
  · cases ran
    exact ⟨sys, .refl, rfl⟩
  · next pending =>
      exact @checkPendingLoop_run H _ _ sys task run wrapper frame registers k' entry sigNum 0
        (.step .refl (.begin new pending)) (PendingSystem.setCounter_self _ _ _) rfl handlers ran

end Runs

/-! ## A first signal -/

section First

variable {k : Kernel H} {task : Nat} {frame : TrapFrame}

omit [Allocator H] in
def quietSystem (k : Kernel H) : PendingSystem H := ⟨⟨k, fun _ _ => 0⟩, fun _ => none, []⟩

/-- A signal that is pending and has the default handler. -/
theorem checkPendingRound_default {k : SignalKernel H} {sig : Fin sigNum} (wrapper : Word)
    (frame : TrapFrame) (registers : CpuContext)
    (isDefault : (k.tasks task).sigHandlers sig = .defaultHandler)
    (pending : (k.tasks task).pendingSig &&& sigBit sig ≠ 0) :
    ∃ k', checkPendingRound wrapper k task sig frame registers = some (k', .defaultHandler) := by
  have inRange : ¬ ((sig : Int) < 0 ∨ (sigNum : Int) ≤ sig) := by
    have bound := sig.isLt
    omega
  have same : (⟨(sig : Int).toNat, by omega⟩ : Fin sigNum) = sig := Fin.ext (Int.toNat_natCast _)
  have still : ((k.toKernel.modify task fun t =>
      { t with pendingSig := t.pendingSig &&& ~~~sigBit sig }).tasks task).sigHandlers sig =
        .defaultHandler := (congrArg (fun t => t.sigHandlers sig) (modify_self _ _ _)).trans isDefault
  unfold checkPendingRound
  rw [if_pos pending]
  unfold handleSignal
  rw [dif_neg inRange, same]
  dsimp only
  rw [still]
  exact ⟨_, rfl⟩

/-- The first signal is raised, and the first round of a run delivers it. -/
theorem deliveredSystem_run (found : getThreadTaskById k ((frame.x 0).setWidth 32) = some (some task))
    (isSig : ((frame.x 1).setWidth 32).toInt = ((0 : Fin sigNum) : Nat))
    (handlers : ∀ sig, (k.tasks task).sigHandlers sig ≠ .null)
    (isDefault : (k.tasks task).sigHandlers 0 = .defaultHandler) :
    ∃ sys, PendingRun task (quietSystem k) sys ∧ sys.history = [.raised 0, .delivered 0 0] := by
  have raised := sysSigkill_found found isSig
  have fields : (raiseSignal k task (0 : Fin sigNum)).tasks task =
      { k.tasks task with pendingSig := (k.tasks task).pendingSig ||| sigBit (0 : Fin sigNum) } :=
    modify_self _ _ _
  have pending : ((raiseSignal k task (0 : Fin sigNum)).tasks task).pendingSig &&&
      sigBit (0 : Fin sigNum) ≠ 0 := by
    rw [fields, and_sigBit_ne_zero (by decide)]
    exact (getLsbD_raised (by decide)).mpr (Or.inl rfl)
  have installed : ∀ sig, ((raiseSignal k task (0 : Fin sigNum)).tasks task).sigHandlers sig ≠ .null := by
    rw [fields]
    exact handlers
  obtain ⟨k', round⟩ := @checkPendingRound_default H _ task
    ⟨raiseSignal k task (0 : Fin sigNum), fun _ _ => 0⟩ 0 0 frame .zero (by rw [fields]; exact isDefault)
    pending
  have first : PendingRun task (quietSystem k) _ := .step .refl (.raise found isSig raised)
  have unused : ∀ sig : Fin sigNum, Event.delivered 0 sig ∉ [Event.raised (0 : Fin sigNum)] := by simp
  have waits : ((raiseSignal k task (0 : Fin sigNum)).tasks task).pendingSig ≠ 0 := by
    intro none
    rw [none] at pending
    exact pending BitVec.zero_and
  have begun := first.step (@PendingStep.begin H _ task _ 0 ⟨rfl, unused⟩ waits)
  exact ⟨_, begun.step (.round (PendingSystem.setCounter_self _ _ _) installed round
    fun _ => SignalOutcome.noConfusion), rfl⟩

end First

/-- A signal of the first thread is raised and delivered. -/
theorem run_delivers_pending_first : ∃ sys, PendingRun idleThread (quietSystem started) sys ∧
    sys.history = [.raised 0, .delivered 0 0] ∧
      (0 ∈ sys.kernel.pendingSignals idleThread ∨
        ∃ run, .delivered run 0 ∈ ([.delivered 0 0] : List (Event Nat (Fin sigNum)))) := by
  have found : getThreadTaskById started ((blankFrame.x 0).setWidth 32) = some (some idleThread) := by
    decide +kernel
  have isSig : ((blankFrame.x 1).setWidth 32).toInt = ((0 : Fin sigNum) : Nat) := by simp [blankFrame]
  have initial : NoHistory (quietSystem started) := ⟨rfl, rfl⟩
  obtain ⟨sys, run, history⟩ := deliveredSystem_run found isSig (by decide +kernel) (by decide +kernel)
  exact ⟨sys, run, history, (run_delivers_pending initial run).1 [] _ 0 history⟩

end OsdiKernel.Sched
