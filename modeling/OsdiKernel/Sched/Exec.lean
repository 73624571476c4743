import OsdiKernel.Sched.Exits

/-!
# The thread that calls `exec`

`exec` makes a new thread the current one without `schedule`.  A caller that was
in no queue is lost: it does not run again and is not released.  A caller that
was still ready, since it was itself made by `exec`, gets its turn again.
-/

namespace OsdiKernel.Sched

open Queue (Chain)

variable {H : Type} [Allocator H]

/-- The caller of `exec` is replaced: it does not run again, it can become a
zombie, and as many threads can run as before. -/
structure Retires (k k' : Kernel H) (old : Nat) : Prop where
  neverRuns : ∀ k'', Steps (fun _ op => op ≠ .killZombies) k' k'' → k''.current ≠ some old
  becomesZombie : ∃ k'', Steps (fun _ _ => True) k' k'' ∧ k''.InQueue .zombie old
  sameCount : ∀ ready ready' new, Chain k.next k.readyQueue ready →
    Chain k'.next k'.readyQueue ready' → k'.current = some new →
      (old :: ready).dedup.length = (new :: ready').dedup.length

theorem Steps.trans {allowed : Kernel H → Op → Prop} {k k₁ k₂ : Kernel H}
    (first : Steps allowed k k₁) (second : Steps allowed k₁ k₂) : Steps allowed k k₂ := by
  induction second with
  | refl => exact first
  | tail _ ok stepped ih => exact ih.tail ok stepped

namespace Threads

variable {a : Threads} {p : Nat}

/-! ## Lost threads -/

/-- The thread is in no queue and does not run. -/
structure Lost (a : Threads) (p : Nat) : Prop where
  live : p ∈ a.live
  notCurrent : a.current ≠ p
  notReady : p ∉ a.ready
  notZombie : p ∉ a.zombies

theorem Lost.schedule (lost : a.Lost p) : a.schedule.Lost p := by
  have notLast : p ∉ [a.current] := fun member => lost.notCurrent (List.mem_singleton.mp member).symm
  unfold Threads.schedule
  split
  · exact lost
  · next next rest shape =>
      have waits : p ∉ next :: rest := shape ▸ lost.notReady
      have notNext : next ≠ p := fun same => waits (same ▸ List.mem_cons_self)
      have notRest : p ∉ rest := fun member => waits (List.mem_cons_of_mem next member)
      have others : ∀ {l}, p ∉ l → p ∉ l ++ [a.current] := fun out member =>
        (List.mem_append.mp member).elim out notLast
      split
      · exact lost
      · split
        · exact ⟨lost.live, notNext, others notRest, lost.notZombie⟩
        · exact ⟨lost.live, notNext, notRest, others lost.notZombie⟩
        · exact ⟨lost.live, notNext, notRest, lost.notZombie⟩
        · exact lost

theorem Lost.retire (lost : a.Lost p) (q : Nat) : (a.retire q).Lost p :=
  { lost with notReady := fun member => lost.notReady (List.mem_of_mem_erase member) }

theorem Lost.kill {q : Nat} (lost : a.Lost p) (ready : q ∈ a.ready) : (a.kill q).Lost p := by
  unfold Threads.kill
  split
  · exact (lost.retire q).schedule
  · refine { lost.retire q with notZombie := fun member => ?_ }
    rcases List.mem_append.mp member with old | last
    · exact lost.notZombie old
    · exact lost.notReady (List.mem_singleton.mp last ▸ ready)

theorem Lost.create {q : Nat} (lost : a.Lost p) (fresh : q ∉ a.live) : (a.create q).Lost p where
  live := List.mem_cons_of_mem q lost.live
  notCurrent := lost.notCurrent
  notReady member := (List.mem_append.mp member).elim lost.notReady fun last =>
    fresh (List.mem_singleton.mp last ▸ lost.live)
  notZombie := lost.notZombie

theorem Lost.exec {q : Nat} (lost : a.Lost p) (fresh : q ∉ a.live) : (a.exec q).Lost p :=
  { lost.create fresh with
    notCurrent := by
      rintro rfl
      exact fresh lost.live }

theorem Lost.reap (lost : a.Lost p) (ordered : a.Ordered) : a.reap.Lost p :=
  { lost with
    live := ordered.live.mem_sdiff_iff.mpr ⟨lost.live, lost.notZombie⟩
    notZombie := List.not_mem_nil }

/-- A caller that waits in no queue is lost. -/
theorem Ordered.exec_lost {q : Nat} (ordered : a.Ordered) (fresh : q ∉ a.live)
    (notReady : a.current ∉ a.ready) : (a.exec q).Lost a.current where
  live := List.mem_cons_of_mem q ordered.currentLive
  notCurrent := by
    intro same
    have isNew : q = a.current := same
    exact fresh (isNew ▸ ordered.currentLive)
  notReady member := (List.mem_append.mp member).elim notReady fun last =>
    fresh (List.mem_singleton.mp last ▸ ordered.currentLive)
  notZombie := ordered.currentState.1

/-! ## Threads that wait -/

/-- The first thread that is ready runs, and the others move up. -/
theorem Ordered.schedule_next {next : Nat} {rest : List Nat} (ordered : a.Ordered)
    (shape : a.ready = next :: rest) (other : next ≠ a.current) :
    a.schedule.current = next ∧ ∃ more, a.schedule.ready = rest ++ more := by
  unfold Threads.schedule
  rw [shape]
  dsimp only
  rw [if_neg other]
  rcases ordered.currentState.2 with running | exited | ⟨ready, _⟩
  · rw [running]
    exact ⟨rfl, [a.current], rfl⟩
  · rw [exited]
    exact ⟨rfl, [], (List.append_nil rest).symm⟩
  · rw [ready]
    exact ⟨rfl, [], (List.append_nil rest).symm⟩

end Threads

section Runs

variable {allowed : Kernel H → Op → Prop} {k k' : Kernel H} {a b : Threads} {op : Op} {p : Nat}

omit [Allocator H] in
theorem Moves.lost (moves : Moves k a op b) (ordered : a.Ordered) (lost : a.Lost p) : b.Lost p := by
  cases moves with
  | none => exact { lost with }
  | create _ fresh => exact lost.create fresh
  | exec fresh => exact lost.exec fresh
  | schedule => exact lost.schedule
  | exit => exact (lost.retire a.current).schedule
  | kill ready => exact lost.kill ready
  | killZombies => exact lost.reap ordered

theorem Steps.lost (steps : Steps allowed k k') (ordered : a.Ordered) (represents : Represents k a)
    (lost : a.Lost p) : ∃ b : Threads, b.Ordered ∧ Represents k' b ∧ b.Lost p := by
  induction steps with
  | refl => exact ⟨a, ordered, represents, lost⟩
  | tail _ _ stepped ih =>
      obtain ⟨b, ordered', represents', lost'⟩ := ih
      obtain ⟨c, moves, represents''⟩ := stepped.refines ordered' represents'
      exact ⟨c, moves.ordered ordered', represents'', moves.lost ordered' lost'⟩

/-- A lost thread is never released. -/
theorem Steps.lost_not_zombie (steps : Steps allowed k k') (ordered : a.Ordered)
    (represents : Represents k a) (lost : a.Lost p) : ¬ k'.InQueue .zombie p := by
  rintro ⟨nodes, chain, member⟩
  obtain ⟨b, _, represents', lost'⟩ := steps.lost ordered represents lost
  exact lost'.notZombie (chain.unique represents'.zombies ▸ member)

/-- Each thread that is ready gets its turn after as many calls of `schedule` as
there are threads before it. -/
theorem turn_comes {front back : List Nat} (ordered : a.Ordered) (represents : Represents k a)
    (shape : a.ready = front ++ p :: back) (notFirst : a.current ∉ front ++ [p]) :
    ∃ k', Steps (fun _ op => op ≠ .killZombies) k k' ∧ k'.current = some p := by
  have first : ∀ {k : Kernel H} {a : Threads} {next : Nat} {rest : List Nat}, a.Ordered →
      Represents k a → a.ready = next :: rest → a.current ≠ next →
        ∃ k' b, Steps (fun _ op => op ≠ .killZombies) k k' ∧ Threads.Ordered b ∧ Represents k' b ∧
          b.current = next ∧ ∃ more, b.ready = rest ++ more := by
    intro k a next rest ordered represents shape other
    obtain ⟨k', switched, represents'⟩ := schedule_refines ordered represents .zero
    exact ⟨k', a.schedule, .tail .refl (by decide) (.schedule switched), ordered.schedule,
      represents', ordered.schedule_next shape other.symm⟩
  induction front generalizing k a back with
  | nil =>
      obtain ⟨k', b, steps, _, represents', isNext, _⟩ := first ordered represents shape
        fun same => notFirst (List.mem_singleton.mpr same)
      exact ⟨k', steps, represents'.current.trans (congrArg some isNext)⟩
  | cons x front ih =>
      obtain ⟨k₁, b, steps, ordered', represents', isNext, more, shape'⟩ :=
        first ordered represents (shape.trans (List.cons_append ..)) fun same =>
          notFirst (same ▸ List.mem_cons_self)
      have unlike : x ∉ front ++ [p] := by
        have nodup := ordered.ready
        rw [shape, List.cons_append, List.append_cons] at nodup
        exact fun member => (List.nodup_cons.mp nodup).1 (List.mem_append_left _ member)
      rw [List.append_assoc, List.cons_append] at shape'
      obtain ⟨k', steps', isCurrent⟩ := ih ordered' represents' shape' (isNext ▸ unlike)
      exact ⟨k', steps.trans steps', isCurrent⟩

/-- What an `exec` does to the lists. -/
theorem exec_moves (execs : Step k .exec k') (ordered : a.Ordered) (represents : Represents k a) :
    ∃ new, new ∉ a.live ∧ (a.exec new).Ordered ∧ Represents k' (a.exec new) := by
  obtain ⟨b, moves, represents'⟩ := execs.refines ordered represents
  have ordered' := moves.ordered ordered
  cases moves with
  | none _ quiet => exact absurd rfl quiet.1
  | create creates => exact absurd creates (by decide)
  | exec fresh => exact ⟨_, fresh, ordered', represents'⟩

/-- A caller of `exec` that is not ready will not be released. -/
theorem exec_loses (reached : Reachable allowed k) (isCurrent : k.current = some p)
    (notReady : (k.tasks p).state ≠ .ready) (execs : Step k .exec k') {k'' : Kernel H}
    (steps : Steps (fun _ _ => True) k' k'') : ¬ k''.InQueue .zombie p := by
  obtain ⟨a, ordered, represents⟩ := reached.represented
  rw [represents.current] at isCurrent
  cases isCurrent
  rw [represents.state] at notReady
  obtain ⟨new, fresh, ordered', represents'⟩ := exec_moves execs ordered represents
  exact steps.lost_not_zombie ordered' represents'
    (ordered.exec_lost fresh (ordered.not_ready notReady))

/-- A caller of `exec` that is ready runs again. -/
theorem exec_runs_again (reached : Reachable allowed k) (isCurrent : k.current = some p)
    (isReady : (k.tasks p).state = .ready) (execs : Step k .exec k') :
    ∃ k'', Steps (fun _ op => op ≠ .killZombies) k' k'' ∧ k''.current = some p := by
  obtain ⟨a, ordered, represents⟩ := reached.represented
  rw [represents.current] at isCurrent
  cases isCurrent
  rw [represents.state] at isReady
  have waits : a.current ∈ a.ready := by
    rcases ordered.currentState.2 with running | exited | ⟨_, waits⟩
    · rw [running] at isReady
      cases isReady
    · rw [exited] at isReady
      cases isReady
    · exact waits
  obtain ⟨new, fresh, ordered', represents'⟩ := exec_moves execs ordered represents
  obtain ⟨front, back, shape⟩ := List.append_of_mem waits
  have shape' : (a.exec new).ready = front ++ a.current :: (back ++ [new]) := by
    change a.ready ++ [new] = _
    rw [shape, List.append_assoc, List.cons_append]
  refine turn_comes ordered' represents' shape' fun member => fresh (ordered.readyLive ?_)
  rw [shape, List.append_cons]
  exact List.mem_append_left _ member

/-- No caller of `exec` is replaced. -/
theorem run_exec_keeps_caller (reached : Reachable allowed k) (isCurrent : k.current = some p)
    (execs : Step k .exec k') : ¬ Retires k k' p := by
  intro retires
  by_cases isReady : (k.tasks p).state = .ready
  · obtain ⟨k'', steps, again⟩ := exec_runs_again reached isCurrent isReady execs
    exact retires.neverRuns k'' steps again
  · obtain ⟨k'', steps, zombie⟩ := retires.becomesZombie
    exact exec_loses reached isCurrent isReady execs steps zombie

end Runs

/-! ## The first `exec` -/

open Fs (BootHeap)

def firstExec : Kernel BootHeap × Option Nat := (exec started 4096).get (by decide +kernel)

theorem firstExec_isSome : firstExec.2.isSome := by decide +kernel

theorem firstExec_step : Step started .exec firstExec.1 := by
  have fresh : FreshTask (started.alloc 4096).1 := freshTask_of (by decide +kernel)
  have made : exec started 4096 = some (firstExec.1, some (firstExec.2.get firstExec_isSome)) :=
    Fs.eq_some_get _ (Option.some_get firstExec_isSome).symm
  exact .exec fresh made

theorem run_exec_keeps_caller_first : ¬ Retires started firstExec.1 idleTask :=
  run_exec_keeps_caller (@Reachable.boot _ _ (fun _ _ => True) _ started_booted)
    (by decide +kernel) firstExec_step

/-- The first thread is lost when it calls `exec`. -/
theorem exec_loses_caller : ∃ (k k' : Kernel BootHeap) (p : Nat),
    Reachable (fun _ _ => True) k ∧ k.current = some p ∧ Step k .exec k' ∧
      ∀ k'', Steps (fun _ _ => True) k' k'' → ¬ k''.InQueue .zombie p := by
  have isCurrent : started.current = some idleTask := by decide +kernel
  have notReady : (started.tasks idleTask).state ≠ .ready := by decide +kernel
  have reached : Reachable (fun _ _ => True) started := .boot started_booted
  refine ⟨started, firstExec.1, idleTask, reached, isCurrent, firstExec_step, ?_⟩
  intro k'' steps
  exact exec_loses reached isCurrent notReady firstExec_step steps

end OsdiKernel.Sched
