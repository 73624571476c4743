import OsdiKernel.Sched.Results
import OsdiKernel.Sched.StackRuns

/-!
# While a handler runs

The words that a delivery writes from the field `sig_frame` on are the saved
frame, the current directory, the open files and the link of the task at once.
The frame comes back if no system call and no switch of the meantime writes one
of them.  For each call and each operation of the scheduler there is a condition
on the state before it under which it does not.
-/

namespace OsdiKernel.Sched

open Fs (BootHeap)

variable {H : Type}

/-! ## Links -/

/-- A walk through the queue comes to the task. -/
def Kernel.Visits (k : Kernel H) (q : TaskQueue) (p : Nat) : Prop := Queue.Visits k.next (k.head q) p

/-- The task is the last one of the queue. -/
def EndsQueue (k : Kernel H) (q : TaskQueue) (p : Nat) : Prop := k.next p = none ∧ k.Visits q p

/-- Adding a task to a queue leaves the link of `task`. -/
def AddKeeps (k : Kernel H) (q : TaskQueue) (added task : Nat) : Prop :=
  if added = task then k.next task = none else ¬ EndsQueue k q task

/-- Unlinking a task leaves the link of `task`, which is not directly before it. -/
def UnlinkKeeps (k : Kernel H) (unlinked task : Nat) : Prop :=
  ∀ q, k.Visits q task → k.next task ≠ some unlinked

/-- Another task may end. -/
structure RetireKeeps (k : Kernel H) (retired task : Nat) : Prop where
  other : retired ≠ task
  unlink : UnlinkKeeps k retired task
  zombie : ¬ EndsQueue k .zombie task

/-- The queue to which `schedule` adds the task that stops. -/
def requeueTo : TaskState → Option TaskQueue
  | .running => some .ready
  | .blocked => some .wait
  | .exited => some .zombie
  | .ready => none
  | .invalid => none

/-- A switch, if there is one, leaves the link of `task`. -/
def SwitchKeeps (k : Kernel H) (task : Nat) : Prop :=
  ∀ prev q, k.current = some prev → k.readyQueue ≠ none → k.readyQueue ≠ some prev →
    requeueTo (k.tasks prev).state = some q → AddKeeps k q prev task

/-- A new thread is not added behind the task. -/
structure CreateKeeps (k : Kernel H) (task : Nat) : Prop where
  isLive : task ∈ k.live
  ready : ¬ EndsQueue k .ready task

/-- The operations of the scheduler that leave the saved words of the task. -/
def OpKeeps (k : Kernel H) (task : Nat) : Op → Prop
  | .threadCreate => CreateKeeps k task
  | .fork => CreateKeeps k task
  | .exec => CreateKeeps k task
  | .schedule => SwitchKeeps k task
  | .exit => ∀ curr, k.current = some curr → RetireKeeps k curr task
  | .kill pid => ∀ p, getThreadTaskById k pid = some (some p) → RetireKeeps k p task
  | .killZombies => True
  | .rest => False

/-- The fields of a task from `sig_frame` on are as they were. -/
structure SameSaved (t t' : Task) : Prop where
  sigFrame : t'.sigFrame = t.sigFrame
  cwd : t'.cwd = t.cwd
  fdTable : t'.fdTable = t.fdTable
  next : t'.next = t.next

theorem SameSaved.of_eq {t t' : Task} (same : t' = t) : SameSaved t t' := by
  subst same
  exact ⟨rfl, rfl, rfl, rfl⟩

theorem sameSaved_modify (k : Kernel H) (task p : Nat) (f : Task → Task)
    (same : ∀ t, SameSaved t (f t)) : SameSaved (k.tasks task) ((k.modify p f).tasks task) := by
  by_cases here : task = p
  · rw [here, modify_self]
    exact same _
  · exact .of_eq (modify_of_ne k here f)

theorem SameSaved.trans {t t' t'' : Task} (first : SameSaved t t') (second : SameSaved t' t'') :
    SameSaved t t'' :=
  ⟨second.sigFrame.trans first.sigFrame, second.cwd.trans first.cwd,
    second.fdTable.trans first.fdTable, second.next.trans first.next⟩

section Links

variable {k k' : Kernel H} {q : TaskQueue} {p task : Nat} {registers : CpuContext}

/-- The scheduler writes nothing of the saved words but the link. -/
theorem Untouched.sameSaved (untouched : Untouched k k') (next : k'.next task = k.next task) :
    SameSaved (k.tasks task) (k'.tasks task) where
  sigFrame := untouched.field Task.sigFrame (fun _ => rfl) task
  cwd := untouched.field Task.cwd (fun _ => rfl) task
  fdTable := untouched.field Task.fdTable (fun _ => rfl) task
  next := next

theorem next_setState (k : Kernel H) (p : Nat) (state : TaskState) :
    (k.setState p state).next = k.next := next_modify k p _ fun _ => rfl

theorem head_setState (k : Kernel H) (p : Nat) (state : TaskState) (q : TaskQueue) :
    (k.setState p state).head q = k.head q := by cases q <;> rfl

theorem endsQueue_setState {state : TaskState} :
    EndsQueue (k.setState p state) q task ↔ EndsQueue k q task := by
  unfold EndsQueue Kernel.Visits
  rw [next_setState, head_setState]

/-- Two links are written: that of the last task of the queue, and that of the new one. -/
theorem addThreadTask_next (added : addThreadTask k q p = some k') (keeps : AddKeeps k q p task) :
    k'.next task = k.next task := by
  have head : (k.noteAdded p).head q = k.head q := by cases q <;> rfl
  unfold addThreadTask at added
  unfold AddKeeps at keeps
  dsimp only at added
  rw [head] at added
  by_cases here : p = task
  · rw [if_pos here] at keeps
    subst here
    cases first : k.head q with
    | none =>
        rw [first] at added
        cases added
        rw [next_setNext, Function.update_self, keeps]
    | some current =>
        rw [first] at added
        obtain ⟨last, _, same⟩ := Option.bind_eq_some_iff.mp added
        cases same
        rw [next_setNext, Function.update_self, keeps]
  · rw [if_neg here] at keeps
    cases first : k.head q with
    | none =>
        rw [first] at added
        cases added
        rw [next_setNext, Function.update_of_ne (Ne.symm here), next_setHead]
        rfl
    | some current =>
        rw [first] at added
        obtain ⟨last, found, same⟩ := Option.bind_eq_some_iff.mp added
        cases same
        have notLast : task ≠ last := by
          rintro rfl
          obtain ⟨visits, ends⟩ := Queue.Visits.last found
          exact keeps ⟨ends, show Queue.Visits k.next (k.head q) task from first ▸ visits⟩
        rw [next_setNext, Function.update_of_ne (Ne.symm here), next_setNext,
          Function.update_of_ne notLast]
        rfl

/-- The head is moved, or the link of a task that the walk visits, or nothing. -/
theorem rmThreadTaskLoop_cases {fuel : Nat} {prev current : Option Nat}
    (removed : rmThreadTaskLoop k q p fuel prev current = some k')
    (passed : ∀ x, prev = some x → k.Visits q x ∧ k.next x = current)
    (begins : prev = none → k.head q = current) :
    k' = k ∨ (k.head q = some p ∧ k' = k.setHead q (k.next p)) ∨
      ∃ x, k.Visits q x ∧ k.next x = some p ∧ k' = k.setNext x (k.next p) := by
  induction fuel generalizing prev current with
  | zero =>
      cases current with
      | none =>
          cases removed
          exact Or.inl rfl
      | some current => cases removed
  | succ fuel ih =>
      cases current with
      | none =>
          cases removed
          exact Or.inl rfl
      | some current =>
          unfold rmThreadTaskLoop at removed
          have visited : k.Visits q current := by
            unfold Kernel.Visits
            cases prev with
            | none => exact begins rfl ▸ .here
            | some x => exact (passed x rfl).1.link (passed x rfl).2
          split at removed
          · next here =>
              subst here
              cases prev with
              | none =>
                  cases removed
                  exact Or.inr (Or.inl ⟨begins rfl, rfl⟩)
              | some x =>
                  cases removed
                  exact Or.inr (Or.inr ⟨x, (passed x rfl).1, (passed x rfl).2, rfl⟩)
          · refine ih removed (fun x same => ?_) fun impossible => ?_
            · cases same
              exact ⟨visited, rfl⟩
            · cases impossible

theorem rmThreadTask_cases (removed : rmThreadTask k q p = some k') :
    k' = k ∨ (k.head q = some p ∧ k' = k.setHead q (k.next p)) ∨
      ∃ x, k.Visits q x ∧ k.next x = some p ∧ k' = k.setNext x (k.next p) := by
  unfold rmThreadTask at removed
  split at removed
  · cases removed
    exact Or.inl rfl
  · next current first =>
      refine rmThreadTaskLoop_cases removed (fun x impossible => ?_) fun _ => first
      cases impossible

/-- After a task is unlinked, the link of another one is as before, and no walk visits more. -/
theorem rmThreadTask_keeps (removed : rmThreadTask k q p = some k')
    (keeps : k.Visits q task → k.next task ≠ some p) :
    k'.next task = k.next task ∧ ∀ q' x, k'.Visits q' x → k.Visits q' x := by
  rcases rmThreadTask_cases removed with same | ⟨first, same⟩ | ⟨prev, visited, linked, same⟩
  · subst same
    exact ⟨rfl, fun _ _ => id⟩
  · subst same
    rw [next_setHead]
    refine ⟨rfl, fun q' x visits => ?_⟩
    unfold Kernel.Visits at *
    rw [next_setHead] at visits
    by_cases here : q' = q
    · subst here
      rw [head_setHead] at visits
      rw [first]
      exact .behind visits
    · rwa [head_setHead_of_ne here] at visits
  · subst same
    have other : task ≠ prev := by
      rintro rfl
      exact keeps visited linked
    rw [next_setNext, Function.update_of_ne other]
    refine ⟨rfl, fun q' x visits => ?_⟩
    unfold Kernel.Visits at *
    rw [next_setNext, head_setNext] at visits
    exact visits.of_unlinked linked

/-- Both removals of a task that ends. -/
theorem retire_keeps {k₁ k₂ : Kernel H} (keeps : RetireKeeps k p task)
    (first : rmThreadTask k .ready p = some k₁) (second : rmThreadTask k₁ .wait p = some k₂) :
    k₂.next task = k.next task ∧ ¬ EndsQueue (k₂.setState p .exited) .zombie task := by
  obtain ⟨next₁, visits₁⟩ := rmThreadTask_keeps first (keeps.unlink .ready)
  obtain ⟨next₂, visits₂⟩ := rmThreadTask_keeps second fun visits => by
    rw [next₁]
    exact keeps.unlink .wait (visits₁ .wait task visits)
  refine ⟨next₂.trans next₁, ?_⟩
  rw [endsQueue_setState]
  rintro ⟨ends, visits⟩
  rw [next₂, next₁] at ends
  exact keeps.zombie ⟨ends, visits₁ _ _ (visits₂ _ _ visits)⟩

theorem next_popThreadTask (k : Kernel H) (q : TaskQueue) : (popThreadTask k q).1.next = k.next := by
  unfold popThreadTask
  split
  · rfl
  · exact next_setHead k q _

theorem requeue_next {prev : Nat} (requeued : requeue k prev = some (some k'))
    (keeps : ∀ q, requeueTo (k.tasks prev).state = some q → AddKeeps k q prev task) :
    k'.next task = k.next task := by
  unfold requeue at requeued
  cases state : (k.tasks prev).state with
  | running =>
      rw [state] at requeued keeps
      have kept : AddKeeps (k.setState prev .ready) .ready prev task := by
        unfold AddKeeps
        rw [endsQueue_setState, next_setState]
        exact keeps .ready rfl
      rw [addThreadTask_next (Option.some.inj requeued) kept, next_setState]
  | blocked =>
      rw [state] at requeued keeps
      exact addThreadTask_next (Option.some.inj requeued) (keeps .wait rfl)
  | exited =>
      rw [state] at requeued keeps
      exact addThreadTask_next (Option.some.inj requeued) (keeps .zombie rfl)
  | ready =>
      rw [state] at requeued
      cases requeued
      rfl
  | invalid =>
      rw [state] at requeued
      cases requeued

theorem schedule_next (switched : schedule k registers = some k') (keeps : SwitchKeeps k task) :
    k'.next task = k.next task := by
  unfold schedule at switched
  split at switched
  · obtain ⟨first, _, same⟩ := Option.bind_eq_some_iff.mp switched
    cases same
    exact congrFun (next_setState k first .running) task
  · next prev isCurrent =>
      split at switched
      · cases switched
        rfl
      · next next isFirst =>
          split at switched
          · cases switched
            rfl
          · next other =>
              split at switched
              · cases switched
                rfl
              · next requeued found =>
                  obtain ⟨k₁, same, switched⟩ := Option.bind_eq_some_iff.mp switched
                  obtain ⟨after, _, switched⟩ := Option.bind_eq_some_iff.mp switched
                  cases switched
                  have kept := requeue_next (found.trans (congrArg some same)) fun q moves =>
                    keeps prev q isCurrent (by rw [isFirst]; exact Option.some_ne_none next)
                      (by rw [isFirst]; exact fun same => other (Option.some.inj same)) moves
                  have taken := congrFun (next_popThreadTask (k₁.setState next .running) .ready) task
                  rw [next_cpuSwitchTo, ← kept, ← next_setState k₁ next .running]
                  exact taken

/-- A task that has exited goes to the zombies. -/
theorem switchKeeps_retired {k : Kernel H} (other : p ≠ task) (isCurrent : k.current = some p)
    (keeps : ¬ EndsQueue (k.setState p .exited) .zombie task) :
    SwitchKeeps (k.setState p .exited) task := by
  intro prev q found _ _ moves
  cases isCurrent.symm.trans found
  have state : ((k.setState p .exited).tasks p).state = .exited := by
    unfold Kernel.setState
    rw [modify_self]
  rw [state] at moves
  cases moves
  unfold AddKeeps
  rwa [if_neg other]

theorem rmThreadTask_current (removed : rmThreadTask k q p = some k') : k'.current = k.current := by
  rcases rmThreadTask_cases removed with same | ⟨_, same⟩ | ⟨_, _, _, same⟩
  · rw [same]
  · rw [same]
    cases q <;> rfl
  · rw [same]
    rfl

theorem exit_next (exited : exit k registers = some k')
    (keeps : ∀ curr, k.current = some curr → RetireKeeps k curr task) : k'.next task = k.next task := by
  unfold exit at exited
  split at exited
  · cases exited
    rfl
  · next curr isCurrent =>
      obtain ⟨k₁, first, exited⟩ := Option.bind_eq_some_iff.mp exited
      obtain ⟨k₂, second, exited⟩ := Option.bind_eq_some_iff.mp exited
      obtain ⟨next, ends⟩ := retire_keeps (keeps curr isCurrent) first second
      have current : k₂.current = some curr :=
        (rmThreadTask_current second).trans ((rmThreadTask_current first).trans isCurrent)
      rw [schedule_next exited (switchKeeps_retired (keeps curr isCurrent).other current ends),
        next_setState, next]

theorem kill_next {pid : BitVec 32} {result : Int} (killed : kill k pid registers = some (k', result))
    (keeps : ∀ p, getThreadTaskById k pid = some (some p) → RetireKeeps k p task) :
    k'.next task = k.next task := by
  unfold kill at killed
  obtain ⟨found, isFound, killed⟩ := Option.bind_eq_some_iff.mp killed
  cases found with
  | none =>
      cases killed
      rfl
  | some p =>
      obtain ⟨k₁, first, killed⟩ := Option.bind_eq_some_iff.mp killed
      obtain ⟨k₂, second, killed⟩ := Option.bind_eq_some_iff.mp killed
      obtain ⟨next, ends⟩ := retire_keeps (keeps p isFound) first second
      dsimp only at killed
      split at killed
      · next isCurrent =>
          obtain ⟨k₃, switched, same⟩ := Option.bind_eq_some_iff.mp killed
          cases same
          have current : k₂.current = some p := isCurrent
          have kept := switchKeeps_retired (keeps p isFound).other current ends
          rw [schedule_next switched kept, next_setState, next]
      · obtain ⟨k₃, added, same⟩ := Option.bind_eq_some_iff.mp killed
        cases same
        have kept : AddKeeps (k₂.setState p .exited) .zombie p task := by
          unfold AddKeeps
          rwa [if_neg (keeps p isFound).other]
        rw [addThreadTask_next added kept, next_setState, next]

end Links

/-! ## New threads -/

section Creation

variable [Allocator H] {k k' : Kernel H} {task : Nat}

/-- What a creation comes to: no memory, or a task with its stacks that is built, with a
null link, and added to the ready queue. -/
inductive Creates (k : Kernel H) : Kernel H → Prop
  | failed {k' : Kernel H} {counter priority preemptCount : Int}
      (none : allocThread k counter priority preemptCount = (k', none)) : Creates k k'
  | made {k₁ k₂ k' : Kernel H} {counter priority preemptCount : Int} {p : Nat}
      (allocated : allocThread k counter priority preemptCount = (k₁, some p))
      (builds : Builds k₁ k₂ p) (unlinked : k₂.next p = .none)
      (added : addThreadTask k₂ .ready p = some k') : Creates k k'

theorem threadCreate_creates {callback : Word} {result : Option Nat}
    (made : threadCreate k callback = some (k', result)) : Creates k k' := by
  unfold threadCreate at made
  cases allocated : allocThread k defaultPriority defaultPriority 1 with
  | mk k₁ found =>
      rw [allocated] at made
      cases found with
      | none =>
          cases made
          exact .failed allocated
      | some p =>
          obtain ⟨k₂, inited, same⟩ := Option.bind_eq_some_iff.mp made
          cases same
          obtain ⟨k₃, builds, unlinked, added⟩ := threadInit_builds inited
          exact .made allocated builds unlinked added

theorem sysFork_creates {frame frame' : TrapFrame} {currSp forkEnd : Word}
    {child : Option (Nat × TrapFrame)}
    (made : sysFork k frame currSp forkEnd = some (k', frame', child)) : k' = k ∨ Creates k k' := by
  unfold sysFork at made
  split at made
  · cases made
    exact Or.inl rfl
  · next parent _ =>
      dsimp only at made
      cases allocated : allocThread k (k.tasks parent).counter (k.tasks parent).priority
          (k.tasks parent).preemptCount with
      | mk k₁ found =>
          rw [allocated] at made
          cases found with
          | none =>
              cases made
              exact Or.inr (.failed allocated)
          | some p =>
              obtain ⟨⟨k₂, frames⟩, inited, same⟩ := Option.bind_eq_some_iff.mp made
              cases same
              obtain ⟨k₃, builds, unlinked, added⟩ := forkInit_builds inited
              exact Or.inr (.made allocated builds unlinked added)

/-- The allocation of a thread leaves the queues. -/
theorem head_allocThread (k : Kernel H) (counter priority preemptCount : Int) (q : TaskQueue) :
    (allocThread k counter priority preemptCount).1.head q = k.head q := by
  unfold allocThread Kernel.allocTask Kernel.alloc
  cases (k.toState.alloc taskSize).2 with
  | none => cases q <;> rfl
  | some task =>
      dsimp only [enrol, Kernel.modify]
      cases ((k.toState.alloc taskSize).1.alloc threadStackSize).2 with
      | none => cases q <;> rfl
      | some kernelStack =>
          dsimp only
          cases (((k.toState.alloc taskSize).1.alloc threadStackSize).1.alloc threadStackSize).2 with
          | none => cases q <;> rfl
          | some userStack => cases q <;> rfl

/-- A task behind which no thread is added. -/
theorem Creates.sameSaved (creates : Creates k k') (fresh : FreshTask k) (keeps : CreateKeeps k task) :
    SameSaved (k.tasks task) (k'.tasks task) := by
  cases creates with
  | @failed _ counter priority preemptCount none =>
      have others := @allocThread_others _ _ k counter priority preemptCount fresh task keeps.isLive
      rw [none] at others
      exact .of_eq others
  | @made k₁ k₂ _ counter priority preemptCount p allocated builds unlinked added =>
      obtain ⟨_, _, memory, tasks⟩ := allocThread_task allocated
      have other : task ≠ p := by
        rintro rfl
        exact fresh task memory.task keeps.isLive
      have others : ∀ x, x ≠ p → k₂.tasks x = k.tasks x := by
        intro x apart
        rw [builds.others x apart, tasks, Function.update_of_ne apart]
      have heads : k₂.head .ready = k.head .ready := by
        have head := head_allocThread k counter priority preemptCount .ready
        rw [allocated] at head
        exact (builds.heads .ready).trans head
      have kept : AddKeeps k₂ .ready p task := by
        unfold AddKeeps
        rw [if_neg other.symm]
        rintro ⟨last, visits⟩
        refine keeps.ready ⟨(congrArg Task.next (others task other)).symm.trans last, ?_⟩
        unfold Kernel.Visits at *
        rw [heads] at visits
        exact visits.of_ended (fun x apart => congrArg Task.next (others x apart)) unlinked other
      have same : SameSaved (k.tasks task) (k₂.tasks task) := .of_eq (others task other)
      exact same.trans ((addThreadTask_untouched added).sameSaved (addThreadTask_next added kept))

/-- An operation of the scheduler that meets its condition leaves the saved words. -/
theorem Step.sameSaved {op : Op} (stepped : Step k op k') (keeps : OpKeeps k task op) :
    SameSaved (k.tasks task) (k'.tasks task) := by
  cases stepped with
  | threadCreate fresh made => exact (threadCreate_creates made).sameSaved fresh keeps
  | fork fresh made =>
      rcases sysFork_creates made with same | creates
      · exact .of_eq (congrFun (congrArg Kernel.tasks same) task)
      · exact creates.sameSaved fresh keeps
  | @exec _ execSize _ fresh made =>
      obtain ⟨k₁, callback, created, same⟩ := exec_creates made
      subst same
      have kept : CreateKeeps (k.alloc execSize).1 task := ⟨keeps.isLive, keeps.ready⟩
      exact (threadCreate_creates created).sameSaved fresh kept
  | schedule switched => exact (schedule_untouched switched).sameSaved (schedule_next switched keeps)
  | exit exited => exact (exit_untouched exited).sameSaved (exit_next exited keeps)
  | kill killed => exact (kill_untouched killed).sameSaved (kill_next killed keeps)
  | killZombies reaped => exact .of_eq (congrFun (killZombies_tasks reaped) task)
  | rest same => exact keeps.elim

end Creation

/-! ## System calls on files -/

section Calls

variable [Allocator H] {k k' : Kernel H} {task : Nat} {frame frame' : TrapFrame}
  {strings : Word → Fs.Name}

/-- The calls that leave the saved words of the task: those of other tasks, and those
of its own that open, close and change nothing. -/
def CallKeeps (k : Kernel H) (task : Nat) (call : SysCall) : Prop :=
  k.current = some task →
    match call.op with
    | .fd .open =>
        noString call.strings (call.frame.x 0) ∨ freeSlot (k.tasks task).fdTable = none ∨
          ∀ s ret file, Fs.vfsOpen k.toState (k.tasks task).cwd (call.strings (call.frame.x 0))
            ((call.frame.x 1).setWidth 32).toNat = some (s, ret, file) → file = none
    | .fd .close => ∀ fd, slot (fdArg call.frame) = some fd → (k.tasks task).fdTable fd = none
    | .fd .read => True
    | .fd .write => True
    | .fd .lseek64 => True
    | .mkdir => True
    | .mount => True
    | .chdir =>
        noString call.strings (call.frame.x 0) ∨
          ∀ s ret target, Fs.vfsLookup k.toState none (call.strings (call.frame.x 0)) =
            some (s, ret, target) → target = (k.tasks task).cwd

omit [Allocator H] in
/-- A slot of the current task is written. -/
theorem sameSaved_setSlot {curr : Nat} {fd : Fin threadMaxFd} {file : Option Nat}
    (same : curr = task → file = (k.tasks task).fdTable fd) :
    SameSaved (k.tasks task) ((k.modify curr fun t =>
      { t with fdTable := Function.update t.fdTable fd file }).tasks task) := by
  by_cases here : task = curr
  · subst here
    rw [modify_self, same rfl]
    exact ⟨rfl, rfl, Function.update_eq_self fd _, rfl⟩
  · exact .of_eq (modify_of_ne k here _)

theorem sysOpen_sameSaved (opened : sysOpen strings k frame = some (k', frame'))
    (keeps : k.current = some task → noString strings (frame.x 0) ∨
      freeSlot (k.tasks task).fdTable = none ∨
        ∀ s ret file, Fs.vfsOpen k.toState (k.tasks task).cwd (strings (frame.x 0))
          ((frame.x 1).setWidth 32).toNat = some (s, ret, file) → file = none) :
    SameSaved (k.tasks task) (k'.tasks task) := by
  unfold sysOpen at opened
  dsimp only at opened
  split at opened
  · cases opened
    exact .of_eq rfl
  · next named =>
      obtain ⟨curr, isCurrent, opened⟩ := Option.bind_eq_some_iff.mp opened
      split at opened
      · cases opened
        exact .of_eq rfl
      · next i isFree =>
          obtain ⟨⟨s, ret, file⟩, found, opened⟩ := Option.bind_eq_some_iff.mp opened
          have stored : curr = task → file = (k.tasks task).fdTable i := by
            intro here
            subst here
            rw [(freeSlot_some isFree).1]
            rcases keeps isCurrent with unnamed | full | nothing
            · exact absurd unnamed named
            · rw [full] at isFree
              cases isFree
            · exact nothing s ret file found
          have same := @sameSaved_setSlot H { k with toState := s } task curr i file stored
          dsimp only at opened
          split at opened
          · cases opened
            exact same
          · cases opened
            exact same

theorem sysClose_sameSaved (closed : sysClose k frame = some (k', frame'))
    (keeps : k.current = some task → ∀ fd, slot (fdArg frame) = some fd →
      (k.tasks task).fdTable fd = none) : SameSaved (k.tasks task) (k'.tasks task) := by
  unfold sysClose at closed
  split at closed
  · cases closed
    exact .of_eq rfl
  · next fd inRange =>
      split at closed
      · cases closed
        exact .of_eq rfl
      · next curr isCurrent =>
          cases closed
          refine @sameSaved_setSlot H { k with toState := _ } task curr fd none fun here => ?_
          subst here
          exact (keeps isCurrent fd inRange).symm

omit [Allocator H] in
/-- Reading and writing leave the tasks. -/
theorem transfer_tasks {io : Fs.FileOps → Kernel H → Nat → Word → Word → Option (Kernel H × Int)}
    {fd : Fin threadMaxFd} {buf count : Word}
    (ioTasks : ∀ ops k file buf count k' ret, io ops k file buf count = some (k', ret) →
      k'.tasks = k.tasks)
    (moved : transfer io k frame fd buf count = some (k', frame')) : k'.tasks = k.tasks := by
  unfold transfer at moved
  split at moved
  · cases moved
    rfl
  · obtain ⟨file, _, moved⟩ := Option.bind_eq_some_iff.mp moved
    split at moved
    · obtain ⟨⟨k₁, ret⟩, done, same⟩ := Option.bind_eq_some_iff.mp moved
      cases same
      exact ioTasks _ _ _ _ _ _ _ done
    · cases moved
      rfl

theorem sysChdir_sameSaved (changed : sysChdir strings k frame = some (k', frame'))
    (keeps : k.current = some task → noString strings (frame.x 0) ∨
      ∀ s ret target, Fs.vfsLookup k.toState none (strings (frame.x 0)) = some (s, ret, target) →
        target = (k.tasks task).cwd) : SameSaved (k.tasks task) (k'.tasks task) := by
  unfold sysChdir at changed
  split at changed
  · cases changed
    exact .of_eq rfl
  · next named =>
      split at changed
      · cases changed
        exact .of_eq rfl
      · next curr isCurrent =>
          obtain ⟨⟨k₁, ret⟩, looked, same⟩ := Option.bind_eq_some_iff.mp changed
          cases same
          obtain ⟨⟨s, ret', target⟩, found, last⟩ := Option.bind_eq_some_iff.mp looked
          cases last
          rw [modify_self] at found
          by_cases here : task = curr
          · subst here
            have back := (keeps isCurrent).resolve_left named s ret target found
            subst back
            rw [modify_self]
            dsimp only
            rw [modify_self]
            exact ⟨rfl, rfl, rfl, rfl⟩
          · refine .of_eq ?_
            rw [modify_of_ne _ here]
            exact modify_of_ne k here fun t => { t with cwd := none }

/-- A call that meets its condition leaves the saved words. -/
theorem handle_sameSaved {call : SysCall} (handled : handle k call = some (k', frame'))
    (keeps : CallKeeps k task call) : SameSaved (k.tasks task) (k'.tasks task) := by
  obtain ⟨op, frame, strings, input⟩ := call
  unfold CallKeeps at keeps
  cases op with
  | fd op =>
      cases op with
      | «open» => exact sysOpen_sameSaved handled keeps
      | close => exact sysClose_sameSaved handled keeps
      | read =>
          refine .of_eq (congrFun ?_ task)
          have moved : sysRead (fileIo input) k frame = some (k', frame') := handled
          unfold sysRead at moved
          split at moved
          · cases moved
            rfl
          · refine transfer_tasks (fun ops k file buf count k' ret done => ?_) moved
            cases done
            rfl
      | write =>
          refine .of_eq (congrFun ?_ task)
          have moved : sysWrite (fileIo input) k frame = some (k', frame') := handled
          unfold sysWrite at moved
          dsimp only at moved
          split at moved
          · cases moved
            rfl
          · split at moved
            · cases moved
              rfl
            · refine transfer_tasks (fun ops k file buf count k' ret done => ?_) moved
              obtain ⟨⟨s, n⟩, _, same⟩ := Option.bind_eq_some_iff.mp done
              cases same
              rfl
      | lseek64 =>
          have moved : sysLseek64 k frame = some (k', frame') := handled
          unfold sysLseek64 at moved
          dsimp only at moved
          split at moved
          · cases moved
            exact .of_eq rfl
          · obtain ⟨curr, _, same⟩ := Option.bind_eq_some_iff.mp moved
            cases same
            exact .of_eq rfl
  | mkdir =>
      have made : sysMkdir strings k frame = some (k', frame') := handled
      unfold sysMkdir at made
      split at made
      · cases made
        exact .of_eq rfl
      · obtain ⟨curr, _, made⟩ := Option.bind_eq_some_iff.mp made
        obtain ⟨_, _, same⟩ := Option.bind_eq_some_iff.mp made
        cases same
        exact .of_eq rfl
  | mount =>
      have made : sysMount strings k frame = some (k', frame') := handled
      unfold sysMount at made
      split at made
      · cases made
        exact .of_eq rfl
      · split at made
        · cases made
          exact .of_eq rfl
        · obtain ⟨curr, _, made⟩ := Option.bind_eq_some_iff.mp made
          obtain ⟨_, _, same⟩ := Option.bind_eq_some_iff.mp made
          cases same
          exact .of_eq rfl
  | chdir => exact sysChdir_sameSaved handled keeps

end Calls

/-! ## Runs -/

theorem setHandler_sameSaved (k : Kernel H) (task p : Nat) (sig : Fin sigNum) (handler : Handler) :
    SameSaved (k.tasks task) ((setHandler k p sig handler).tasks task) :=
  sameSaved_modify k task p _ fun _ => ⟨rfl, rfl, rfl, rfl⟩

theorem raiseSignal_sameSaved (k : Kernel H) (task p sig : Nat) :
    SameSaved (k.tasks task) ((raiseSignal k p sig).tasks task) :=
  sameSaved_modify k task p _ fun _ => ⟨rfl, rfl, rfl, rfl⟩

inductive HandlerOp where
  | call (call : SysCall)
  | scheduler (op : Op)
  | sigkill
  | signal
  | rest

variable [Allocator H]

/-- A step of any task: a system call on files, an operation of the scheduler, a
signal that is raised or gets a handler, or anything else that leaves the tasks. -/
inductive HandlerStep (k : SignalKernel H) : HandlerOp → SignalKernel H → Prop
  | call {call : SysCall} {k' : Kernel H} {frame : TrapFrame}
      (handled : handle k.toKernel call = some (k', frame)) :
      HandlerStep k (.call call) { k with toKernel := k' }
  | scheduler {op : Op} {k' : Kernel H} (stepped : Step k.toKernel op k') :
      HandlerStep k (.scheduler op) { k with toKernel := k' }
  | sigkill {k' : Kernel H} {frame : TrapFrame} (raised : sysSigkill k.toKernel frame = some k') :
      HandlerStep k .sigkill { k with toKernel := k' }
  | signal {curr : Nat} {sig : Fin sigNum} {handler : Handler} (isCurrent : k.current = some curr) :
      HandlerStep k .signal { k with toKernel := setHandler k.toKernel curr sig handler }
  | rest {s : Fs.State H} : HandlerStep k .rest { k with toState := s }

/-- The steps that leave the saved words of the task. -/
def Keeps (k : SignalKernel H) (task : Nat) : HandlerOp → Prop
  | .call call => CallKeeps k.toKernel task call
  | .scheduler op => OpKeeps k.toKernel task op
  | .sigkill => True
  | .signal => True
  | .rest => True

/-- The states that are reached from `k` by such steps. -/
inductive HandlerRun (task : Nat) (k : SignalKernel H) : SignalKernel H → Prop
  | refl : HandlerRun task k k
  | step {k₁ k₂ : SignalKernel H} {op : HandlerOp} (run : HandlerRun task k k₁)
      (keeps : Keeps k₁ task op) (stepped : HandlerStep k₁ op k₂) : HandlerRun task k k₂

/-- The fields that a delivery should leave as they are. -/
structure SameFields (t t' : Task) : Prop where
  cwd : t'.cwd = t.cwd
  fdTable : ∀ fd, t'.fdTable fd = t.fdTable fd
  next : t'.next = t.next

/-- `x2` for the first descriptor, and so on. -/
def fdRegister (fd : Fin threadMaxFd) : Fin 31 :=
  ⟨fd + 2, Nat.add_lt_add_right (Nat.lt_of_lt_of_le fd.isLt (by decide : threadMaxFd ≤ 29)) 2⟩

/-- The registers `x1` to `x18` already hold what these fields hold. -/
structure RegistersMatch (frame : TrapFrame) (t : Task) : Prop where
  cwd : pointer (frame.x 1) = t.cwd
  fdTable : ∀ fd, pointer (frame.x (fdRegister fd)) = t.fdTable fd
  next : pointer (frame.x 18) = t.next

section Run

variable {k k₁ k₂ : SignalKernel H} {task : Nat} {wrapper : Word} {frame : TrapFrame}

omit [Allocator H] in
theorem SameSaved.areaWords {t t' : Task} (same : SameSaved t t') (tail : TailWords) :
    areaWords t' tail = areaWords t tail := by
  obtain ⟨sigFrame, cwd, fdTable, next⟩ := same
  unfold Sched.areaWords
  rw [sigFrame, cwd, fdTable, next]

theorem HandlerStep.sameSaved {op : HandlerOp} (stepped : HandlerStep k op k₁)
    (keeps : Keeps k task op) : SameSaved (k.tasks task) (k₁.tasks task) ∧ k₁.tail = k.tail := by
  cases stepped with
  | call handled => exact ⟨handle_sameSaved handled keeps, rfl⟩
  | scheduler stepped => exact ⟨stepped.sameSaved keeps, rfl⟩
  | @sigkill _ frame raised =>
      refine ⟨?_, rfl⟩
      unfold sysSigkill at raised
      dsimp only at raised
      obtain ⟨found, _, raised⟩ := Option.bind_eq_some_iff.mp raised
      split at raised
      · cases raised
        exact .of_eq rfl
      · split at raised
        · cases raised
          exact .of_eq rfl
        · cases raised
          exact raiseSignal_sameSaved k.toKernel task _ _
  | @signal curr sig handler _ => exact ⟨setHandler_sameSaved k.toKernel task curr sig handler, rfl⟩
  | rest => exact ⟨.of_eq rfl, rfl⟩

/-- All 34 words are as they were. -/
theorem HandlerRun.area (run : HandlerRun task k k₁) : k₁.area task = k.area task := by
  induction run with
  | refl => rfl
  | step _ keeps stepped ih =>
      obtain ⟨same, tail⟩ := stepped.sameSaved keeps
      refine Eq.trans ?_ ih
      unfold SignalKernel.area
      rw [tail]
      exact same.areaWords _

/-- A delivery writes the registers over the fields. -/
theorem deliver_sameFields_iff {handler : Word} :
    SameFields (k.tasks task) ((deliver wrapper k task handler frame).1.tasks task) ↔
      RegistersMatch frame (k.tasks task) := by
  obtain ⟨context, fields⟩ := @deliver_task H _ k task wrapper handler frame
  have table : ∀ fd : Fin threadMaxFd, (storeWords (k.tasks task) (frameWords frame)).fdTable fd =
      pointer (frame.x (fdRegister fd)) := fun fd => congrArg pointer (dif_pos (fdRegister fd).isLt)
  rw [fields]
  constructor
  · rintro ⟨cwd, fdTable, next⟩
    exact ⟨cwd, fun fd => (table fd).symm.trans (fdTable fd), next⟩
  · rintro ⟨cwd, fdTable, next⟩
    exact ⟨cwd, fun fd => (table fd).trans (fdTable fd), next⟩

/-- After any run of steps that leave the saved words, the delivery has left the fields
of the task and the return restores the frame just when the registers held these fields. -/
theorem signal_restores_iff {sig : Int} {registers : CpuContext} {entry : UserEntry}
    (handled : handleSignal wrapper k task sig frame registers = some (k₁, .entered entry))
    (run : HandlerRun task k₁ k₂) (isCurrent : k₂.current = some task) (frame' : TrapFrame) :
    SameFields (k.tasks task) (k₁.tasks task) ∧ (sysSigreturn k₂ frame').2 = frame ↔
      RegistersMatch frame (k.tasks task) := by
  obtain ⟨handler, rfl⟩ := handleSignal_entered handled
  have restored : (sysSigreturn k₂ frame').2 = frame := by
    rw [sysSigreturn_frame isCurrent, run.area, deliver_area, ofWords_frameWords]
  rw [and_iff_left restored]
  exact deliver_sameFields_iff

/-- The task is preempted, and the one that runs instead exits. -/
theorem handlerRun_resumed {k₁ k₂ : Kernel H} {other : Nat} {registers : CpuContext}
    (isCurrent : k.current = some task) (link : k.next task = none)
    (switched : schedule k.toKernel registers = some k₁) (otherRuns : k₁.current = some other)
    (later : k₁.next task = none) (zombies : k₁.head .zombie = none) (apart : other ≠ task)
    (exited : exit k₁ registers = some k₂) : HandlerRun task k { k with toKernel := k₂ } := by
  have switchKeeps : Keeps k task (.scheduler .schedule) := by
    intro prev q found _ _ moves
    cases isCurrent.symm.trans found
    unfold AddKeeps
    rw [if_pos rfl]
    exact link
  have exitKeeps : Keeps { k with toKernel := k₁ } task (.scheduler .exit) := by
    intro curr found
    cases otherRuns.symm.trans found
    refine ⟨apart, fun q _ linked => ?_, ?_⟩
    · cases later.symm.trans linked
    · rintro ⟨_, visits⟩
      unfold Kernel.Visits at visits
      rw [show Kernel.head _ .zombie = none from zombies] at visits
      cases visits
  have preempted : HandlerRun task k { k with toKernel := k₁ } :=
    .step .refl switchKeeps (.scheduler (.schedule switched))
  exact preempted.step exitKeeps (.scheduler (.exit exited))

end Run

/-! ## A first delivery -/

/-- The first task, which has no directory and no files, has a handler for a signal. -/
def bareHandler : SignalKernel BootHeap :=
  ⟨setHandler started idleTask someSignal (.custom 0x80000), fun _ _ => 0⟩

/-- Its registers when it is interrupted. -/
def bareFrame : TrapFrame := ⟨fun i => if i.val = 30 then 0x80400 else 0, 0x3000, 0, 0x80408⟩

def bareDelivered : SignalKernel BootHeap × UserEntry :=
  deliver 0x1000 bareHandler idleTask 0x80000 bareFrame

/-- The handler is preempted, and the other thread runs. -/
def barePreempted : Kernel BootHeap := (schedule bareDelivered.1.toKernel .zero).get (by decide +kernel)

/-- The other thread exits. -/
def bareResumed : Kernel BootHeap := (exit barePreempted .zero).get (by decide +kernel)

theorem bareResumed_run :
    HandlerRun idleTask bareDelivered.1 { bareDelivered.1 with toKernel := bareResumed } := by
  obtain ⟨first, link, isCurrent, later, zombies⟩ : bareDelivered.1.current = some idleTask ∧
      bareDelivered.1.next idleTask = none ∧ barePreempted.current = some idleThread ∧
        barePreempted.next idleTask = none ∧ barePreempted.head .zombie = none := by decide +kernel
  exact handlerRun_resumed first link (Option.some_get _).symm isCurrent later zombies (by decide +kernel)
    (Option.some_get _).symm

theorem signal_restores_iff_first :
    SameFields (bareHandler.tasks idleTask) (bareDelivered.1.tasks idleTask) ∧
        (sysSigreturn { bareDelivered.1 with toKernel := bareResumed } blankFrame).2 = bareFrame ↔
      RegistersMatch bareFrame (bareHandler.tasks idleTask) := by
  have handled : handleSignal 0x1000 bareHandler idleTask (someSignal : Nat) bareFrame .zero =
      some (bareDelivered.1, .entered bareDelivered.2) := handleSignal_custom (by decide +kernel)
  have isCurrent : bareResumed.current = some idleTask := by decide +kernel
  exact signal_restores_iff handled bareResumed_run isCurrent blankFrame

theorem delivered_handled : handleSignal 0x1000 withHandler idleThread (someSignal : Nat)
    blankFrame .zero = some (delivered.1, .entered delivered.2) :=
  handleSignal_custom (by decide +kernel)

/-- A delivery with `x1` zero takes the current directory from the thread. -/
theorem delivery_clears_cwd : ∃ (k k₁ : SignalKernel BootHeap) (task : Nat) (sig : Int)
    (frame : TrapFrame) (entry : UserEntry), Reachable (fun _ _ => True) k.toKernel ∧
      k.current = some task ∧ handleSignal 0x1000 k task sig frame .zero = some (k₁, .entered entry) ∧
        (k.tasks task).cwd ≠ none ∧ (k₁.tasks task).cwd = none :=
  ⟨withHandler, delivered.1, idleThread, _, blankFrame, delivered.2,
    setHandler_reachable secondRuns_reachable, by decide +kernel, delivered_handled,
    by decide +kernel, by decide +kernel⟩

end OsdiKernel.Sched
