import Mathlib.Data.List.Rotate
import OsdiKernel.Sched.Exec

/-!
# Turns

The thread that runs and the threads that are ready form a cycle, and `schedule`
rotates it.  A caller of `exec` leaves a thread that runs and is ready as well:
if that thread is the first of the queue, `schedule` takes no other.
-/

namespace OsdiKernel.Sched

open Queue (Chain)

variable {H : Type}

/-! ## Calls of `schedule` -/

def scheduleTimes (registers : Nat → CpuContext) (k : Kernel H) : Nat → Option (Kernel H)
  | 0 => some k
  | n + 1 => do schedule (← scheduleTimes registers k n) (registers n)

/-- The task that runs after some calls. -/
def RunsAfter (registers : Nat → CpuContext) (k : Kernel H) (n p : Nat) : Prop :=
  ∃ k', scheduleTimes registers k n = some k' ∧ k'.current = some p

/-- Each ready task has its turn; and if the current task is marked as running, each has
one turn, the current task the last, and then everything is as it was. -/
structure Rotates (k : Kernel H) : Prop where
  turn : ∀ registers ready i p, Chain k.next k.readyQueue ready → ready[i]? = some p → k.current ≠ some p →
    (scheduleTimes registers k (i + 1)).isSome ∧ ∃ j ≤ i, RunsAfter registers k (j + 1) p
  round : ∀ registers ready c, Chain k.next k.readyQueue ready → k.current = some c →
    (k.tasks c).state = .running → ready ≠ [] →
      (∀ p ∈ ready ++ [c], ∃! j, j ≤ ready.length ∧ RunsAfter registers k (j + 1) p) ∧
        ∃ k', scheduleTimes registers k (ready.length + 1) = some k' ∧ k'.current = some c ∧
          Chain k'.next k'.readyQueue ready

/-- The current task is the first of the ready queue, and not alone there. -/
def Starves (k : Kernel H) : Prop :=
  k.readyQueue = k.current ∧ ∃ p, k.InQueue .ready p ∧ k.current ≠ some p

/-- No thread is created while the current task is the first that is ready, and no first
task is killed that has the current one behind it, and more tasks behind that. -/
def KeepsTurns (k : Kernel H) : Op → Prop
  | .threadCreate | .fork => k.readyQueue ≠ k.current
  | .kill pid => ∀ p c, getThreadTaskById k pid = some (some p) → k.readyQueue = some p →
      k.current = some c → p ≠ c → k.next p = some c → k.next c = none
  | _ => True

namespace Threads

variable {a b : Threads} {p : Nat}

/-- The thread that runs and those that are ready, in the order of their turns. -/
def cycle (a : Threads) : List Nat := a.current :: a.ready

def Starved (a : Threads) : Prop := a.ready.head? = some a.current ∧ a.ready ≠ [a.current]

theorem Ordered.cycle_nodup (ordered : a.Ordered) (running : a.state a.current = .running) :
    a.cycle.Nodup :=
  List.nodup_cons.mpr ⟨ordered.not_ready (by rw [running]; decide), ordered.ready⟩

theorem not_starved_of_not_ready (notReady : a.current ∉ a.ready) : ¬ a.Starved :=
  fun starved => notReady (List.mem_of_mem_head? starved.1)

/-- A switch takes the first thread that is ready, which is marked as running. -/
theorem Ordered.schedule_switches {next : Nat} {rest : List Nat} (ordered : a.Ordered)
    (shape : a.ready = next :: rest) (other : next ≠ a.current) :
    a.schedule.state a.schedule.current = .running ∧ ∃ more, a.schedule.cycle = a.ready ++ more := by
  obtain ⟨isNext, more, ready⟩ := ordered.schedule_next shape other
  refine ⟨?_, more, ?_⟩
  · unfold Threads.schedule
    rw [shape]
    dsimp only
    rw [if_neg other]
    rcases ordered.currentState.2 with running | exited | ⟨isReady, _⟩
    · rw [running]
      exact setState_self _ _ _
    · rw [exited]
      exact setState_self _ _ _
    · rw [isReady]
      exact setState_self _ _ _
  · unfold cycle
    rw [isNext, ready, shape, List.cons_append]

theorem Ordered.schedule_rotates (ordered : a.Ordered) (running : a.state a.current = .running) :
    a.schedule.state a.schedule.current = .running ∧ a.schedule.cycle = a.cycle.rotate 1 := by
  cases shape : a.ready with
  | nil =>
      have same : a.schedule = a := by
        unfold Threads.schedule
        rw [shape]
      have alone : a.cycle = [a.current] := congrArg (a.current :: ·) shape
      rw [same, alone, List.rotate_singleton]
      exact ⟨running, rfl⟩
  | cons next rest =>
      have unlike := ordered.cycle_nodup running
      have other : next ≠ a.current := by
        rintro rfl
        exact (List.nodup_cons.mp unlike).1 (shape ▸ List.mem_cons_self)
      refine ⟨(ordered.schedule_switches shape other).1, ?_⟩
      have rotated : a.cycle.rotate 1 = (next :: rest) ++ [a.current] := by
        unfold cycle
        rw [shape, List.rotate_cons_succ, List.rotate_zero]
      rw [rotated]
      unfold cycle Threads.schedule
      rw [shape]
      dsimp only
      rw [if_neg other, running]
      rfl

/-- The cycle turns by one thread with each call. -/
theorem Ordered.rotates (ordered : a.Ordered) (running : a.state a.current = .running) (n : Nat) :
    (Threads.schedule^[n] a).Ordered ∧ (Threads.schedule^[n] a).state (Threads.schedule^[n] a).current = .running ∧
      (Threads.schedule^[n] a).cycle = a.cycle.rotate n := by
  induction n with
  | zero => exact ⟨ordered, running, (List.rotate_zero _).symm⟩
  | succ n ih =>
      obtain ⟨ordered', running', cycle⟩ := ih
      obtain ⟨running'', cycle'⟩ := ordered'.schedule_rotates running'
      rw [Function.iterate_succ_apply']
      refine ⟨ordered'.schedule, running'', ?_⟩
      rw [cycle', cycle, List.rotate_rotate]

theorem current_of_cycle {n : Nat} {l : List Nat} (inside : n < l.length) (cycle : a.cycle = l.rotate n) :
    l[n]? = some a.current := by
  rw [← List.head?_rotate inside, ← cycle]
  rfl

/-- The thread at a position of the queue has its turn after that many calls and one. -/
theorem Ordered.turn (ordered : a.Ordered) (notStarved : ¬ a.Starved) {i : Nat} (at_ : a.ready[i]? = some p)
    (other : a.current ≠ p) : (Threads.schedule^[i + 1] a).current = p := by
  obtain ⟨inside, _⟩ := List.getElem?_eq_some_iff.mp at_
  cases shape : a.ready with
  | nil => simp [shape] at at_
  | cons next rest =>
      have notFirst : next ≠ a.current := by
        rintro rfl
        refine notStarved ⟨by rw [shape]; rfl, fun alone => ?_⟩
        rw [alone] at at_
        exact other (List.mem_singleton.mp (List.mem_of_getElem? at_)).symm
      obtain ⟨running, more, cycle⟩ := ordered.schedule_switches shape notFirst
      obtain ⟨-, -, rotated⟩ := ordered.schedule.rotates running i
      rw [cycle] at rotated
      have isCurrent := current_of_cycle (by rw [List.length_append]; omega) rotated
      rw [List.getElem?_append_left inside, at_] at isCurrent
      rw [Function.iterate_succ_apply]
      exact (Option.some.inj isCurrent).symm

/-- The threads run in the order of the cycle, and each one once. -/
theorem Ordered.round (ordered : a.Ordered) (running : a.state a.current = .running) {j : Nat}
    (inside : j ≤ a.ready.length) : (a.ready ++ [a.current])[j]? = some (Threads.schedule^[j + 1] a).current := by
  obtain ⟨running', cycle⟩ := ordered.schedule_rotates running
  obtain ⟨-, -, rotated⟩ := ordered.schedule.rotates running' j
  have start : a.cycle.rotate 1 = a.ready ++ [a.current] := by
    unfold Threads.cycle
    rw [List.rotate_cons_succ, List.rotate_zero]
  rw [cycle, start] at rotated
  rw [Function.iterate_succ_apply]
  exact current_of_cycle (by rw [List.length_append, List.length_singleton]; omega) rotated

theorem Ordered.round_ends (ordered : a.Ordered) (running : a.state a.current = .running) :
    (Threads.schedule^[a.ready.length + 1] a).cycle = a.cycle := by
  obtain ⟨-, -, rotated⟩ := ordered.rotates running (a.ready.length + 1)
  have whole : a.cycle.length = a.ready.length + 1 := List.length_cons
  rw [rotated, ← whole, List.rotate_length]

/-! ### Threads without a turn -/

theorem Starved.schedule (starved : a.Starved) : a.schedule = a := by
  obtain ⟨rest, shape⟩ := List.head?_eq_some_iff.mp starved.1
  unfold Threads.schedule
  rw [shape]
  exact if_pos rfl

theorem Starved.stays (starved : a.Starved) (n : Nat) : Threads.schedule^[n] a = a := by
  induction n with
  | zero => rfl
  | succ n ih => rw [Function.iterate_succ_apply', ih, starved.schedule]

theorem Ordered.schedule_not_starved (ordered : a.Ordered) (notStarved : ¬ a.Starved) :
    ¬ a.schedule.Starved := by
  cases shape : a.ready with
  | nil =>
      have same : a.schedule = a := by
        unfold Threads.schedule
        rw [shape]
      exact same.symm ▸ notStarved
  | cons next rest =>
      by_cases first : next = a.current
      · have same : a.schedule = a := by
          unfold Threads.schedule
          rw [shape]
          exact if_pos first
        exact same.symm ▸ notStarved
      · obtain ⟨running, _⟩ := ordered.schedule_switches shape first
        exact not_starved_of_not_ready (ordered.schedule.not_ready (by rw [running]; decide))

theorem Ordered.exit_not_starved (ordered : a.Ordered) : ¬ a.exit.Starved :=
  (ordered.retire a.current).schedule_not_starved (not_starved_of_not_ready ordered.ready.not_mem_erase)

theorem Ordered.create_not_starved (ordered : a.Ordered) (fresh : p ∉ a.live)
    (notFirst : a.ready.head? ≠ some a.current) : ¬ (a.create p).Starved := by
  rintro ⟨first, _⟩
  change (a.ready ++ [p]).head? = some a.current at first
  cases shape : a.ready with
  | nil =>
      rw [shape] at first
      exact fresh (Option.some.inj first ▸ ordered.currentLive)
  | cons next rest =>
      rw [shape] at first notFirst
      exact notFirst first

theorem Ordered.exec_not_starved (ordered : a.Ordered) (fresh : p ∉ a.live) : ¬ (a.exec p).Starved := by
  rintro ⟨first, notAlone⟩
  change (a.ready ++ [p]).head? = some p at first
  cases shape : a.ready with
  | nil => exact notAlone (congrArg (· ++ [p]) shape)
  | cons next rest =>
      rw [shape] at first
      have same : next = p := Option.some.inj first
      exact fresh (ordered.readyLive (shape ▸ same ▸ List.mem_cons_self))

/-- A thread that is killed makes the current thread the first one only if it was first
and the current thread second. -/
theorem kill_starved (other : a.current ≠ p) (notStarved : ¬ a.Starved) (starved : (a.kill p).Starved) :
    ∃ next rest, a.ready = p :: a.current :: next :: rest := by
  obtain ⟨first, notAlone⟩ := starved
  have shape' : (a.kill p).ready = a.ready.erase p ∧ (a.kill p).current = a.current := by
    unfold Threads.kill
    rw [if_neg other]
    exact ⟨rfl, rfl⟩
  rw [shape'.1, shape'.2] at first notAlone
  cases shape : a.ready with
  | nil => simp [shape] at first
  | cons x rest =>
      by_cases here : x = p
      · subst here
        rw [shape, List.erase_cons_head] at first notAlone
        obtain ⟨rest', rfl⟩ := List.head?_eq_some_iff.mp first
        cases rest' with
        | nil => exact absurd rfl notAlone
        | cons next rest' => exact ⟨next, rest', rfl⟩
      · rw [shape, List.erase_cons_tail (by simpa using here)] at first
        have isFirst : x = a.current := Option.some.inj first
        refine absurd ⟨by rw [shape, isFirst]; rfl, fun alone => ?_⟩ notStarved
        rw [alone, List.erase_of_not_mem (by simpa using other.symm)] at notAlone
        exact notAlone rfl

end Threads

section Runs

variable {allowed : Kernel H → Op → Prop} {k k' : Kernel H} {a b : Threads} {op : Op} {p n : Nat}
  {registers : Nat → CpuContext}

/-! ## Simulation -/

theorem scheduleTimes_refines (ordered : a.Ordered) (represents : Represents k a) (n : Nat) :
    ∃ k', scheduleTimes registers k n = some k' ∧ (Threads.schedule^[n] a).Ordered ∧
      Represents k' (Threads.schedule^[n] a) := by
  induction n with
  | zero => exact ⟨k, rfl, ordered, represents⟩
  | succ n ih =>
      obtain ⟨k₁, calls, ordered', represents'⟩ := ih
      obtain ⟨k₂, switched, represents''⟩ := schedule_refines ordered' represents' (registers n)
      rw [Function.iterate_succ_apply']
      refine ⟨k₂, ?_, ordered'.schedule, represents''⟩
      rw [scheduleTimes, calls]
      exact switched

theorem runsAfter_iff (ordered : a.Ordered) (represents : Represents k a) :
    RunsAfter registers k n p ↔ (Threads.schedule^[n] a).current = p := by
  obtain ⟨k', calls, _, represents'⟩ := @scheduleTimes_refines H k a registers ordered represents n
  unfold RunsAfter
  rw [calls]
  refine ⟨fun ⟨k'', same, isCurrent⟩ => ?_, fun isCurrent => ⟨k', rfl, ?_⟩⟩
  · cases same
    exact Option.some.inj (represents'.current.symm.trans isCurrent)
  · rw [represents'.current, isCurrent]

theorem starves_iff (ordered : a.Ordered) (represents : Represents k a) : Starves k ↔ a.Starved := by
  have first : k.readyQueue = k.current ↔ a.ready.head? = some a.current := by
    rw [represents.ready.head_eq, represents.current]
  unfold Starves Threads.Starved
  rw [first]
  refine and_congr_right fun isFirst => ⟨?_, fun notAlone => ?_⟩
  · rintro ⟨p, ⟨nodes, chain, member⟩, other⟩ alone
    rw [chain.unique represents.ready, alone] at member
    exact other (represents.current.trans (congrArg some (List.mem_singleton.mp member).symm))
  · obtain ⟨rest, shape⟩ := List.head?_eq_some_iff.mp isFirst
    cases rest with
    | nil => exact absurd shape notAlone
    | cons p rest =>
        have member : p ∈ a.ready := shape ▸ List.mem_cons_of_mem _ List.mem_cons_self
        refine ⟨p, ⟨a.ready, represents.ready, member⟩, fun isCurrent => ?_⟩
        have unlike := shape ▸ ordered.ready
        have same : a.current = p := Option.some.inj (represents.current.symm.trans isCurrent)
        exact (List.nodup_cons.mp unlike).1 (same ▸ List.mem_cons_self)

theorem rotates_of_not_starved (ordered : a.Ordered) (represents : Represents k a) (notStarved : ¬ a.Starved) :
    Rotates k where
  turn registers ready i p chain at_ other := by
    cases chain.unique represents.ready
    obtain ⟨k', calls, _⟩ := @scheduleTimes_refines H k a registers ordered represents (i + 1)
    refine ⟨by rw [calls]; rfl, i, le_rfl, ?_⟩
    rw [runsAfter_iff ordered represents]
    exact ordered.turn notStarved at_ fun same => other (represents.current.trans (congrArg some same))
  round registers ready c chain isCurrent running _ := by
    cases chain.unique represents.ready
    cases represents.current.symm.trans isCurrent
    have running' : a.state a.current = .running := (represents.state _).symm.trans running
    refine ⟨fun p member => ?_, ?_⟩
    · have unlike : (a.ready ++ [a.current]).Nodup :=
        Threads.nodup_concat ordered.ready (ordered.not_ready (by rw [running']; decide))
      obtain ⟨j, inside, here⟩ := List.getElem_of_mem member
      have short : j ≤ a.ready.length := by
        rw [List.length_append, List.length_singleton] at inside
        omega
      have turn := ordered.round running' short
      rw [List.getElem?_eq_getElem inside, here] at turn
      refine ⟨j, ⟨short, (runsAfter_iff ordered represents).mpr (Option.some.inj turn).symm⟩, ?_⟩
      rintro j' ⟨short', runs⟩
      have turn' := ordered.round running' short'
      rw [(runsAfter_iff ordered represents).mp runs, ← here] at turn'
      obtain ⟨inside', same⟩ := List.getElem?_eq_some_iff.mp turn'
      exact (unlike.getElem_inj_iff).mp same
    · obtain ⟨k', calls, _, represents'⟩ :=
        @scheduleTimes_refines H k a registers ordered represents (a.ready.length + 1)
      obtain ⟨same, sameReady⟩ := List.cons.inj (ordered.round_ends running')
      exact ⟨k', calls, represents'.current.trans (congrArg some same), sameReady ▸ represents'.ready⟩

theorem Threads.Starved.not_rotates (starved : a.Starved) (ordered : a.Ordered) (represents : Represents k a) :
    ¬ Rotates k := by
  intro rotates
  obtain ⟨rest, shape⟩ := List.head?_eq_some_iff.mp starved.1
  cases rest with
  | nil => exact starved.2 shape
  | cons p rest =>
      have other : a.current ≠ p := by
        rintro rfl
        exact (List.nodup_cons.mp (shape ▸ ordered.ready)).1 List.mem_cons_self
      obtain ⟨_, j, _, runs⟩ := rotates.turn (fun _ => .zero) a.ready 1 p represents.ready (by rw [shape]; rfl)
        fun isCurrent => other (Option.some.inj (represents.current.symm.trans isCurrent))
      have turn := (runsAfter_iff ordered represents).mp runs
      rw [starved.stays] at turn
      exact other turn

/-! ## Runs in which no thread starves -/

theorem KeepsTurns.notFirst (keeps : KeepsTurns k op) (creates : op = .threadCreate ∨ op = .fork)
    (represents : Represents k a) : a.ready.head? ≠ some a.current := by
  rw [← represents.ready.head_eq, ← represents.current]
  rcases creates with rfl | rfl
  · exact keeps
  · exact keeps

theorem Moves.not_starved [Allocator H] (moves : Moves k a op b) (ordered : a.Ordered)
    (represents : Represents k a) (keeps : KeepsTurns k op) (notStarved : ¬ a.Starved) : ¬ b.Starved := by
  cases moves with
  | none => exact notStarved
  | create creates fresh => exact ordered.create_not_starved fresh (keeps.notFirst creates represents)
  | exec fresh => exact ordered.exec_not_starved fresh
  | schedule => exact ordered.schedule_not_starved notStarved
  | exit => exact ordered.exit_not_starved
  | @kill p pid ready found =>
      by_cases self : a.current = p
      · subst self
        rw [Threads.kill_current]
        exact ordered.exit_not_starved
      · intro starved
        obtain ⟨next, rest, shape⟩ := Threads.kill_starved self notStarved starved
        have chain := shape ▸ represents.ready
        obtain ⟨_, same, tail⟩ := (chain.head_eq ▸ chain).tail
        cases same
        obtain ⟨_, same, tail'⟩ := (tail.head_eq ▸ tail).tail
        cases same
        have last := keeps p a.current found chain.head_eq represents.current (Ne.symm self) tail.head_eq
        rw [last] at tail'
        cases tail'
  | killZombies => exact notStarved

theorem Booted.not_starved [Allocator H] (booted : Booted k) :
    ∃ a : Threads, a.Ordered ∧ Represents k a ∧ ¬ a.Starved := by
  obtain ⟨a, ordered, represents, running, _⟩ := booted.represented
  exact ⟨a, ordered, represents, Threads.not_starved_of_not_ready (ordered.not_ready (by rw [running]; decide))⟩

theorem Reachable.not_starved [Allocator H] (reached : Reachable KeepsTurns k) :
    ∃ a : Threads, a.Ordered ∧ Represents k a ∧ ¬ a.Starved := by
  induction reached with
  | boot booted => exact booted.not_starved
  | step _ keeps stepped ih =>
      obtain ⟨a, ordered, represents, notStarved⟩ := ih
      obtain ⟨b, moves, represents'⟩ := stepped.refines ordered represents
      exact ⟨b, moves.ordered ordered, represents', moves.not_starved ordered represents keeps notStarved⟩

/-- The ready tasks have their turns in each state in which the current task is not the first of
several ready tasks, and so in each run that keeps the turns. -/
theorem run_rotates [Allocator H] (allowed : Kernel H → Op → Prop) :
    (∀ k : Kernel H, Reachable allowed k → (Rotates k ↔ ¬ Starves k)) ∧
      ∀ k : Kernel H, Reachable KeepsTurns k → Rotates k := by
  refine ⟨fun k reached => ?_, fun k reached => ?_⟩
  · obtain ⟨a, ordered, represents⟩ := reached.represented
    rw [starves_iff ordered represents]
    exact ⟨fun rotates starved => starved.not_rotates ordered represents rotates,
      rotates_of_not_starved ordered represents⟩
  · obtain ⟨a, ordered, represents, notStarved⟩ := reached.not_starved
    exact rotates_of_not_starved ordered represents notStarved

end Runs

open Fs (BootHeap)

/-- Two tasks are ready, the second of them created by the one that runs. -/
theorem run_rotates_several : (Rotates threadMade.1 ↔ ¬ Starves threadMade.1) ∧
    Rotates threadMade.1 ∧ threadMade.1.readyQueue.bind threadMade.1.next ≠ none := by
  have keeps : KeepsTurns started .threadCreate := by
    show started.readyQueue ≠ started.current
    decide +kernel
  have several : threadMade.1.readyQueue.bind threadMade.1.next ≠ none := by decide +kernel
  exact ⟨(run_rotates fun _ _ => True).1 threadMade.1 (.step (.boot started_booted) trivial threadMade_step),
    (run_rotates fun _ _ => True).2 threadMade.1 (.step (.boot started_booted) keeps threadMade_step),
    several⟩

/-! ## A child without a turn -/

/-- The thread that the first `exec` started kills the idle thread. -/
def execAlone : Kernel BootHeap × Int := (kill firstExec.1 0 .zero).get (by decide +kernel)

def childWaits : Kernel BootHeap × Option Nat := (threadCreate execAlone.1 0).get (by decide +kernel)

theorem execAlone_step : Step firstExec.1 (.kill 0) execAlone.1 :=
  .kill (Fs.eq_some_get (by decide +kernel) rfl)

theorem childWaits_step : Step execAlone.1 .threadCreate childWaits.1 :=
  .threadCreate (freshTask_of (by decide +kernel)) (Fs.eq_some_get (by decide +kernel) rfl)

theorem childWaits_reachable : Reachable (fun _ op => op ≠ .killZombies ∧ op ≠ .rest) childWaits.1 := by
  have execed : Reachable (fun _ op => op ≠ .killZombies ∧ op ≠ .rest) firstExec.1 :=
    .step (.boot started_booted) (by decide) firstExec_step
  have killed : Reachable (fun _ op => op ≠ .killZombies ∧ op ≠ .rest) execAlone.1 :=
    .step execed (by decide) execAlone_step
  exact .step killed (by decide) childWaits_step

/-- The new thread is second in the queue, behind the one that runs. -/
theorem childWaits_not_rotates : Reachable (fun _ op => op ≠ .killZombies ∧ op ≠ .rest) childWaits.1 ∧
    ¬ Rotates childWaits.1 := by
  refine ⟨childWaits_reachable, ?_⟩
  obtain ⟨a, ordered, represents⟩ := childWaits_reachable.represented
  obtain ⟨first, second⟩ : childWaits.1.readyQueue = childWaits.1.current ∧
      childWaits.1.current.bind childWaits.1.next ≠ none := by decide +kernel
  rw [represents.ready.head_eq, represents.current] at first
  rw [represents.current, Option.bind_some] at second
  have starved : a.Starved := by
    refine ⟨first, fun alone => second ?_⟩
    have chain := alone ▸ represents.ready
    obtain ⟨_, same, tail⟩ := (chain.head_eq ▸ chain).tail
    cases same
    exact tail.head_eq
  exact starved.not_rotates ordered represents

end OsdiKernel.Sched
