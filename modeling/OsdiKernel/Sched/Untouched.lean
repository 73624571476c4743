import OsdiKernel.Sched.Model

/-!
# What the scheduler does not touch

Of a task the scheduler writes the state, the link and the saved context, and
nothing else.
-/

namespace OsdiKernel.Sched

variable {H : Type}

/-- A task without what the scheduler writes. -/
def Task.unscheduled (t : Task) : Task := { t with cpuContext := .zero, state := .ready, next := none }

/-- The heap is the same, and so is the rest of every task. -/
structure Untouched (k k' : Kernel H) : Prop where
  state : k'.toState = k.toState
  tasks : ∀ p, (k'.tasks p).unscheduled = (k.tasks p).unscheduled

section Untouched

variable {k k' k'' : Kernel H} {q : TaskQueue} {p task : Nat} {registers : CpuContext}

/-- A part of a task that does not depend on what the scheduler writes. -/
theorem Untouched.field {α : Type} (untouched : Untouched k k') (f : Task → α)
    (independent : ∀ t : Task, f t.unscheduled = f t) (p : Nat) : f (k'.tasks p) = f (k.tasks p) := by
  rw [← independent, untouched.tasks p, independent]

theorem Untouched.refl (k : Kernel H) : Untouched k k := ⟨rfl, fun _ => rfl⟩

theorem Untouched.trans (first : Untouched k k') (second : Untouched k' k'') :
    Untouched k k'' where
  state := second.state.trans first.state
  tasks p := (second.tasks p).trans (first.tasks p)

theorem modify_self (k : Kernel H) (task : Nat) (f : Task → Task) :
    (k.modify task f).tasks task = f (k.tasks task) := Function.update_self _ _ _

theorem modify_of_ne (k : Kernel H) {task p : Nat} (other : p ≠ task) (f : Task → Task) :
    (k.modify task f).tasks p = k.tasks p := Function.update_of_ne other _ _

theorem untouched_modify (k : Kernel H) (task : Nat) (f : Task → Task)
    (same : ∀ t, (f t).unscheduled = t.unscheduled) : Untouched k (k.modify task f) where
  state := rfl
  tasks p := by
    by_cases here : p = task
    · rw [here, modify_self, same]
    · rw [modify_of_ne k here]

theorem untouched_setNext (k : Kernel H) (p : Nat) (link : Option Nat) :
    Untouched k (k.setNext p link) := untouched_modify k p _ fun _ => rfl

theorem untouched_setState (k : Kernel H) (p : Nat) (state : TaskState) :
    Untouched k (k.setState p state) := untouched_modify k p _ fun _ => rfl

theorem untouched_setHead (k : Kernel H) (q : TaskQueue) (p : Option Nat) :
    Untouched k (k.setHead q p) := by
  cases q with
  | ready | wait | zombie => exact ⟨rfl, fun _ => rfl⟩

theorem addThreadTask_untouched (added : addThreadTask k q task = some k') : Untouched k k' := by
  have noted : Untouched k (k.noteAdded task) := ⟨rfl, fun _ => rfl⟩
  unfold addThreadTask at added
  dsimp only at added
  split at added
  · cases added
    exact (noted.trans (untouched_setHead _ q _)).trans (untouched_setNext _ _ _)
  · obtain ⟨current, _, same⟩ := Option.bind_eq_some_iff.mp added
    cases same
    exact (noted.trans (untouched_setNext _ _ _)).trans (untouched_setNext _ _ _)

theorem popThreadTask_untouched (k : Kernel H) (q : TaskQueue) :
    Untouched k (popThreadTask k q).1 := by
  unfold popThreadTask
  split
  · exact .refl k
  · exact untouched_setHead k q _

theorem rmThreadTaskLoop_untouched {fuel : Nat} {prev current : Option Nat}
    (removed : rmThreadTaskLoop k q task fuel prev current = some k') : Untouched k k' := by
  induction fuel generalizing prev current with
  | zero =>
      cases current with
      | none =>
          cases removed
          exact .refl k
      | some current => cases removed
  | succ fuel ih =>
      cases current with
      | none =>
          cases removed
          exact .refl k
      | some current =>
          unfold rmThreadTaskLoop at removed
          split at removed
          · split at removed
            · cases removed
              exact untouched_setHead k q _
            · cases removed
              exact untouched_setNext k _ _
          · exact ih removed

theorem rmThreadTask_untouched (removed : rmThreadTask k q task = some k') : Untouched k k' := by
  unfold rmThreadTask at removed
  split at removed
  · cases removed
    exact .refl k
  · exact rmThreadTaskLoop_untouched removed

theorem requeue_untouched (requeued : requeue k task = some (some k')) : Untouched k k' := by
  unfold requeue at requeued
  split at requeued
  · exact (untouched_setState k task .ready).trans
      (addThreadTask_untouched (Option.some.inj requeued))
  · exact addThreadTask_untouched (Option.some.inj requeued)
  · exact addThreadTask_untouched (Option.some.inj requeued)
  · cases requeued
    exact .refl k
  · cases requeued

theorem schedule_untouched (switched : schedule k registers = some k') : Untouched k k' := by
  unfold schedule at switched
  split at switched
  · obtain ⟨first, _, same⟩ := Option.bind_eq_some_iff.mp switched
    cases same
    exact (untouched_setState k first .running).trans ⟨rfl, fun _ => rfl⟩
  · next prev _ =>
      split at switched
      · cases switched
        exact .refl k
      · next next _ =>
          split at switched
          · cases switched
            exact .refl k
          · split at switched
            · cases switched
              exact .refl k
            · next requeued found =>
                obtain ⟨k₁, same, switched⟩ := Option.bind_eq_some_iff.mp switched
                obtain ⟨after, _, switched⟩ := Option.bind_eq_some_iff.mp switched
                cases switched
                have waits := requeue_untouched (found.trans (congrArg some same))
                have runs := waits.trans (untouched_setState k₁ next .running)
                have taken := runs.trans (popThreadTask_untouched _ .ready)
                have saved := taken.trans (untouched_modify _ prev
                  (fun t => { t with cpuContext := registers }) fun _ => rfl)
                exact saved.trans ⟨rfl, fun _ => rfl⟩

theorem exit_untouched (exited : exit k registers = some k') : Untouched k k' := by
  unfold exit at exited
  split at exited
  · cases exited
    exact .refl k
  · next curr _ =>
      obtain ⟨k₁, first, exited⟩ := Option.bind_eq_some_iff.mp exited
      obtain ⟨k₂, second, exited⟩ := Option.bind_eq_some_iff.mp exited
      have removed := (rmThreadTask_untouched first).trans (rmThreadTask_untouched second)
      exact (removed.trans (untouched_setState k₂ curr .exited)).trans (schedule_untouched exited)

theorem kill_untouched {pid : BitVec 32} {result : Int}
    (killed : kill k pid registers = some (k', result)) : Untouched k k' := by
  unfold kill at killed
  obtain ⟨found, _, killed⟩ := Option.bind_eq_some_iff.mp killed
  cases found with
  | none =>
      cases killed
      exact .refl k
  | some task =>
      obtain ⟨k₁, first, killed⟩ := Option.bind_eq_some_iff.mp killed
      obtain ⟨k₂, second, killed⟩ := Option.bind_eq_some_iff.mp killed
      have removed := (rmThreadTask_untouched first).trans (rmThreadTask_untouched second)
      have exited := removed.trans (untouched_setState k₂ task .exited)
      dsimp only at killed
      split at killed
      · obtain ⟨k₃, switched, same⟩ := Option.bind_eq_some_iff.mp killed
        cases same
        exact exited.trans (schedule_untouched switched)
      · obtain ⟨k₃, added, same⟩ := Option.bind_eq_some_iff.mp killed
        cases same
        exact exited.trans (addThreadTask_untouched added)

end Untouched

end OsdiKernel.Sched
