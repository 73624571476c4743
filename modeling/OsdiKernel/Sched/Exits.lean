import OsdiKernel.Sched.Order

/-!
# Tasks that have exited

`schedule` returns at once when no task is ready, and then so does the `_exit`
that called it.  Where another task is ready, the task that exits becomes a
zombie, and it stays one until it is released.
-/

namespace OsdiKernel.Sched

variable {H : Type} [Allocator H]

/-- The states that follow by steps which are all allowed. -/
inductive Steps (allowed : Kernel H → Op → Prop) (k : Kernel H) : Kernel H → Prop
  | refl : Steps allowed k k
  | tail {k₁ k₂ : Kernel H} {op : Op} (steps : Steps allowed k k₁) (ok : allowed k₁ op)
      (stepped : Step k₁ op k₂) : Steps allowed k k₂

omit [Allocator H] in
/-- The current task calls `_exit`, or `_kill` of itself. -/
def Exits (k : Kernel H) (op : Op) : Prop :=
  op = .exit ∨ ∃ pid, op = .kill pid ∧ getThreadTaskById k pid = some k.current

omit [Allocator H] in
/-- When the current task exits, another one is ready. -/
def OtherReady (k : Kernel H) (op : Op) : Prop :=
  Exits k op → ∃ p, k.InQueue .ready p ∧ k.current ≠ some p

omit [Allocator H] in
/-- The same, as long as no zombie is released. -/
def OtherReadyKept (k : Kernel H) (op : Op) : Prop := OtherReady k op ∧ op ≠ .killZombies

namespace Threads

variable {a : Threads} {p : Nat}

/-- Every thread that has exited is to be released. -/
def Stopped (a : Threads) : Prop := ∀ p ∈ a.live, a.state p = .exited → p ∈ a.zombies

theorem kill_current (a : Threads) : a.kill a.current = a.exit := if_pos rfl

/-- The first of the other threads that are ready runs after an exit. -/
theorem exit_eq {next : Nat} {rest : List Nat} (shape : a.ready.erase a.current = next :: rest)
    (other : next ≠ a.current) :
    a.exit = { (a.setState a.current .exited).setState next .running with
      ready := rest, zombies := a.zombies ++ [a.current], current := next } := by
  have exited : (a.retire a.current).state a.current = .exited := setState_self a a.current .exited
  have ready : (a.retire a.current).ready = next :: rest := shape
  have same : (a.retire a.current).current = a.current := rfl
  unfold exit schedule
  rw [ready]
  dsimp only
  rw [same, if_neg other, exited]
  rfl

/-- Another thread is ready when one exits. -/
theorem Ordered.successor (ordered : a.Ordered) (ready : p ∈ a.ready) (other : p ≠ a.current) :
    ∃ next rest, a.ready.erase a.current = next :: rest ∧ next ≠ a.current := by
  have stays : p ∈ a.ready.erase a.current := (List.mem_erase_of_ne other).mpr ready
  cases shape : a.ready.erase a.current with
  | nil =>
      rw [shape] at stays
      cases stays
  | cons next rest =>
      refine ⟨next, rest, rfl, ?_⟩
      rintro rfl
      exact ordered.ready.not_mem_erase (shape ▸ List.mem_cons_self)

/-- The thread that exits goes on if it is the only one. -/
theorem exit_alone (shape : a.ready.erase a.current = []) : a.exit.current = a.current := by
  have ready : (a.retire a.current).ready = [] := shape
  unfold exit schedule
  rw [ready]
  rfl

theorem Stopped.exit (stopped : a.Stopped) {next : Nat} {rest : List Nat}
    (shape : a.ready.erase a.current = next :: rest) (other : next ≠ a.current) :
    a.exit.Stopped := by
  rw [exit_eq shape other]
  intro p isLive exited
  dsimp only at exited
  by_cases isNext : p = next
  · rw [isNext, setState_self] at exited
    cases exited
  · rw [setState_of_ne isNext] at exited
    by_cases here : p = a.current
    · exact List.mem_append_right _ (List.mem_singleton.mpr here)
    · rw [setState_of_ne here] at exited
      exact List.mem_append_left _ (stopped p isLive exited)

/-- A thread in another state than the exited one has just been given it. -/
theorem Stopped.setState (stopped : a.Stopped) {state : TaskState} (other : state ≠ .exited) :
    (a.setState p state).Stopped := by
  intro q isLive exited
  by_cases here : q = p
  · rw [here, setState_self] at exited
    exact absurd exited other
  · rw [setState_of_ne here] at exited
    exact stopped q isLive exited

theorem Stopped.schedule (stopped : a.Stopped) : a.schedule.Stopped := by
  unfold Threads.schedule
  split
  · exact stopped
  · next next rest shape =>
      split
      · exact stopped
      · split
        · have waits := @Stopped.setState a a.current stopped .ready (by decide)
          exact @Stopped.setState _ next waits .running (by decide)
        · intro p isLive exited
          exact List.mem_append_left _
            (@Stopped.setState a next stopped .running (by decide) p isLive exited)
        · exact @Stopped.setState a next stopped .running (by decide)
        · exact stopped

theorem Stopped.kill (stopped : a.Stopped) (other : a.current ≠ p) : (a.kill p).Stopped := by
  unfold Threads.kill
  rw [if_neg other]
  intro q isLive exited
  by_cases here : q = p
  · exact List.mem_append_right _ (List.mem_singleton.mpr here)
  · have same : (a.retire p).state q = a.state q := setState_of_ne here _
    exact List.mem_append_left _ (stopped q isLive (same.symm.trans exited))

theorem Stopped.create (stopped : a.Stopped) : (a.create p).Stopped := by
  intro q isLive exited
  rcases List.mem_cons.mp isLive with rfl | old
  · have ready : (a.create q).state q = .ready := setState_self a q .ready
    rw [ready] at exited
    cases exited
  · exact @Stopped.setState a p stopped .ready (by decide) q old exited

theorem Stopped.reap (stopped : a.Stopped) (ordered : a.Ordered) : a.reap.Stopped := by
  intro p isLive exited
  obtain ⟨old, notZombie⟩ := ordered.live.mem_sdiff_iff.mp isLive
  exact absurd (stopped p old exited) notZombie

theorem Stopped.rest (stopped : a.Stopped) {state : Nat → TaskState}
    (same : ∀ p ∈ a.live, state p = a.state p) : { a with state := state }.Stopped :=
  fun p isLive exited => stopped p isLive ((same p isLive).symm.trans exited)

/-- No zombie leaves the list while others run. -/
theorem zombies_schedule (a : Threads) : a.zombies ⊆ a.schedule.zombies := by
  unfold schedule
  split
  · exact List.Subset.refl _
  · split
    · exact List.Subset.refl _
    · split
      · exact List.Subset.refl _
      · exact List.subset_append_left _ _
      · exact List.Subset.refl _
      · exact List.Subset.refl _

theorem zombies_kill (a : Threads) (p : Nat) : a.zombies ⊆ (a.kill p).zombies := by
  unfold kill
  split
  · exact (a.retire p).zombies_schedule
  · exact List.subset_append_left _ _

end Threads

section Runs

variable {k k' k₁ k₂ : Kernel H} {a b : Threads} {op : Op} {p : Nat}

omit [Allocator H] in
theorem Moves.zombies (moves : Moves k a op b) (keeps : op ≠ .killZombies) :
    a.zombies ⊆ b.zombies := by
  cases moves with
  | none | create | exec => exact List.Subset.refl _
  | schedule => exact a.zombies_schedule
  | exit => exact (a.retire a.current).zombies_schedule
  | kill => exact a.zombies_kill _
  | killZombies => exact absurd rfl keeps

omit [Allocator H] in
/-- The thread that exits has a successor. -/
theorem OtherReady.successor (other : OtherReady k op) (exits : Exits k op) (ordered : a.Ordered)
    (represents : Represents k a) :
    ∃ next rest, a.ready.erase a.current = next :: rest ∧ next ≠ a.current := by
  obtain ⟨p, ⟨nodes, chain, member⟩, notCurrent⟩ := other exits
  have same : nodes = a.ready := chain.unique represents.ready
  rw [represents.current] at notCurrent
  exact ordered.successor (same ▸ member) fun here => notCurrent (congrArg some here.symm)

omit [Allocator H] in
theorem Moves.stopped (moves : Moves k a op b) (ordered : a.Ordered) (represents : Represents k a)
    (other : OtherReady k op) (stopped : a.Stopped) : b.Stopped := by
  cases moves with
  | none same => exact stopped.rest same
  | create | exec => exact stopped.create
  | schedule => exact stopped.schedule
  | exit =>
      obtain ⟨next, rest, shape, notCurrent⟩ := other.successor (Or.inl rfl) ordered represents
      exact stopped.exit shape notCurrent
  | @kill p pid ready found =>
      by_cases here : a.current = p
      · subst here
        rw [← represents.current] at found
        obtain ⟨next, rest, shape, notCurrent⟩ :=
          other.successor (Or.inr ⟨pid, rfl, found⟩) ordered represents
        rw [Threads.kill_current]
        exact stopped.exit shape notCurrent
      · exact stopped.kill here
  | killZombies => exact stopped.reap ordered

theorem Reachable.stopped (reached : Reachable OtherReady k) :
    ∃ a : Threads, a.Ordered ∧ Represents k a ∧ a.Stopped := by
  induction reached with
  | boot booted =>
      obtain ⟨a, ordered, represents, running, others⟩ := booted.represented
      refine ⟨a, ordered, represents, fun p isLive exited => ?_⟩
      rcases others p isLive with rfl | ready
      · rw [running] at exited
        cases exited
      · rw [ordered.readyState p ready] at exited
        cases exited
  | step _ other stepped ih =>
      obtain ⟨a, ordered, represents, stopped⟩ := ih
      obtain ⟨b, moves, represents'⟩ := stepped.refines ordered represents
      exact ⟨b, moves.ordered ordered, represents', moves.stopped ordered represents other stopped⟩

/-- A zombie is one until it is released. -/
theorem Steps.zombie (steps : Steps OtherReadyKept k k') (ordered : a.Ordered)
    (represents : Represents k a) (zombie : p ∈ a.zombies) :
    ∃ b : Threads, b.Ordered ∧ Represents k' b ∧ p ∈ b.zombies := by
  induction steps with
  | refl => exact ⟨a, ordered, represents, zombie⟩
  | tail _ ok stepped ih =>
      obtain ⟨b, ordered', represents', zombie'⟩ := ih
      obtain ⟨c, moves, represents''⟩ := stepped.refines ordered' represents'
      exact ⟨c, moves.ordered ordered', represents'', moves.zombies ok.2 zombie'⟩

/-- A task that has exited does not run again. -/
theorem Reachable.exited_stops (reached : Reachable OtherReady k) (isLive : p ∈ k.live)
    (exited : (k.tasks p).state = .exited) (later : Steps OtherReadyKept k k') :
    (k'.tasks p).state = .exited ∧ k'.current ≠ some p := by
  obtain ⟨a, ordered, represents, stopped⟩ := reached.stopped
  rw [represents.live] at isLive
  rw [represents.state p] at exited
  obtain ⟨b, ordered', represents', zombie⟩ :=
    later.zombie ordered represents (stopped p isLive exited)
  refine ⟨(represents'.state p).trans (ordered'.zombiesState p zombie), fun isCurrent => ?_⟩
  rw [represents'.current] at isCurrent
  exact ordered'.currentState.1 (Option.some.inj isCurrent ▸ zombie)

/-- What an exit of the current task does to the lists. -/
theorem Exits.refines (exits : Exits k op) (stepped : Step k op k₁) (ordered : a.Ordered)
    (represents : Represents k a) : Represents k₁ a.exit := by
  obtain ⟨b, moves, represents'⟩ := stepped.refines ordered represents
  rcases exits with rfl | ⟨pid, rfl, self⟩
  · cases moves with
    | none _ quiet => exact absurd rfl quiet.2.2.1
    | create creates => exact absurd creates (by decide)
    | exit => exact represents'
  · cases stepped with
    | @kill _ _ registers _ killed =>
        obtain ⟨k', result, killed', outcome⟩ := kill_refines ordered represents pid registers
        rw [killed] at killed'
        cases killed'
        have search := getThreadTaskById_spec ordered represents pid
        rw [self, represents.current] at search
        cases outcome with
        | missed missing _ =>
            have found := (Option.some.inj search).symm
            have isPid := List.find?_some found
            exact absurd (of_decide_eq_true isPid) (missing _ (List.mem_of_find?_eq_some found))
        | hit ready found represents'' =>
            rw [self, represents.current] at found
            cases found
            exact a.kill_current ▸ represents''

/-- Where each task that exits leaves another one ready, it never continues. -/
theorem run_exited_stops (reached : Reachable OtherReady k) (isCurrent : k.current = some p)
    (exits : Exits k op) (other : OtherReady k op) (stepped : Step k op k₁)
    (later : Steps OtherReadyKept k₁ k₂) :
    (k₁.tasks p).state = .exited ∧ (k₂.tasks p).state = .exited ∧ k₂.current ≠ some p := by
  obtain ⟨a, ordered, represents⟩ := reached.represented
  have exited := exits.refines stepped ordered represents
  obtain ⟨next, rest, shape, notCurrent⟩ := other.successor exits ordered represents
  rw [represents.current] at isCurrent
  cases isCurrent
  rw [Threads.exit_eq shape notCurrent] at exited
  have state : (k₁.tasks a.current).state = .exited :=
    (exited.state a.current).trans ((Threads.setState_of_ne notCurrent.symm _).trans
      (Threads.setState_self a a.current _))
  have isLive : a.current ∈ k₁.live := exited.live ▸ ordered.currentLive
  exact ⟨state, (Reachable.step reached other stepped).exited_stops isLive state later⟩

/-- A task that exits continues just when no other task is ready. -/
theorem exits_continues_iff {allowed : Kernel H → Op → Prop} (reached : Reachable allowed k)
    (exits : Exits k op) (stepped : Step k op k₁) :
    k₁.current = k.current ↔ ¬ ∃ p, k.InQueue .ready p ∧ k.current ≠ some p := by
  obtain ⟨a, ordered, represents⟩ := reached.represented
  have exited := exits.refines stepped ordered represents
  constructor
  · rintro same other
    have ready : OtherReady k op := fun _ => other
    obtain ⟨next, rest, shape, notCurrent⟩ := ready.successor exits ordered represents
    rw [Threads.exit_eq shape notCurrent] at exited
    rw [exited.current, represents.current] at same
    exact notCurrent (Option.some.inj same)
  · intro alone
    have shape : a.ready.erase a.current = [] := by
      refine List.eq_nil_iff_forall_not_mem.mpr fun p member => alone ⟨p, ?_, ?_⟩
      · exact ⟨a.ready, represents.ready, List.mem_of_mem_erase member⟩
      · rw [represents.current]
        rintro ⟨⟩
        exact ordered.ready.not_mem_erase member
    rw [exited.current, Threads.exit_alone shape, represents.current]

end Runs

/-! ## The first exits -/

open Fs (BootHeap)

/-- The thread that `sched_init` creates. -/
def idleThread : Nat := started.readyQueue.get (by decide +kernel)

theorem idleThread_ready : started.InQueue .ready idleThread := by
  have head : started.head .ready = some idleThread := (Option.some_get _).symm
  have last : started.next idleThread = none := by decide +kernel
  exact ⟨[idleThread], head ▸ .single last, List.mem_singleton.mpr rfl⟩

def firstExit : Kernel BootHeap := (exit started .zero).get (by decide +kernel)

theorem firstExit_step : Step started .exit firstExit := .exit (Option.some_get _).symm

theorem run_exited_stops_first : (firstExit.tasks idleTask).state = .exited ∧
    (firstExit.tasks idleTask).state = .exited ∧ firstExit.current ≠ some idleTask := by
  obtain ⟨isCurrent, notIdle⟩ : started.current = some idleTask ∧
      started.current ≠ some idleThread := by decide +kernel
  have other : OtherReady started .exit := fun _ => ⟨idleThread, idleThread_ready, notIdle⟩
  exact run_exited_stops (.boot started_booted) isCurrent (Or.inl rfl) other firstExit_step .refl

/-- The only other thread is killed. -/
def idleKilled : Kernel BootHeap × Int := (kill started 0 .zero).get (by decide +kernel)

def lastExit : Kernel BootHeap := (exit idleKilled.1 .zero).get (by decide +kernel)

theorem idleKilled_step : Step started (.kill 0) idleKilled.1 :=
  .kill (Fs.eq_some_get (by decide +kernel) rfl)

theorem lastExit_step : Step idleKilled.1 .exit lastExit := .exit (Option.some_get _).symm

/-- A task that exits alone continues. -/
theorem exit_alone_continues : ∃ (k k₁ : Kernel BootHeap) (p : Nat),
    Reachable (fun _ op => op ≠ .exec ∧ op ≠ .killZombies) k ∧ k.current = some p ∧
      Step k .exit k₁ ∧ (k₁.tasks p).state = .exited ∧ k₁.current = some p := by
  obtain ⟨isCurrent, exited, continues⟩ : idleKilled.1.current = some idleTask ∧
      (lastExit.tasks idleTask).state = .exited ∧ lastExit.current = some idleTask := by
    decide +kernel
  refine ⟨idleKilled.1, lastExit, idleTask, ?_, isCurrent, lastExit_step, exited, continues⟩
  have allowed : Op.kill 0 ≠ .exec ∧ Op.kill 0 ≠ .killZombies := ⟨nofun, nofun⟩
  exact .step (.boot started_booted) allowed idleKilled_step

end OsdiKernel.Sched
