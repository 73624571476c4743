import OsdiKernel.Sched.Exits

/-!
# What a child inherits

`sys_fork` writes the fields of the child one by one.  Three of them are left
out, the current directory, the table of open files and the saved signal frame,
and keep what the memory held before.
-/

namespace OsdiKernel.Sched

variable {H : Type}

/-- The context that a child has from its parent, where `frames` are the trap
frames that are allocated and that no other task uses. -/
structure Inherits (frames : Set Nat) (parent child : Task) : Prop where
  cwd : child.cwd = parent.cwd
  closed : ∀ fd, child.fdTable fd = none ↔ parent.fdTable fd = none
  sameFile : ∀ fd file, parent.fdTable fd = some file → child.fdTable fd = some file
  sigFrame : ∃ frame ∈ frames, child.sigFrame = some frame

/-- Two tasks agree on the fields that `sys_fork` does not write. -/
def SameLeftOver (first second : Task) : Prop :=
  first.sigFrame = second.sigFrame ∧ first.cwd = second.cwd ∧ first.fdTable = second.fdTable

/-- The context is in the fields that are left out. -/
theorem SameLeftOver.inherits_iff {frames : Set Nat} {parent first second : Task}
    (same : SameLeftOver first second) :
    Inherits frames parent first ↔ Inherits frames parent second := by
  obtain ⟨sigFrame, cwd, fdTable⟩ := same
  constructor
  · rintro ⟨h₁, h₂, h₃, h₄⟩
    rw [sigFrame] at h₄
    rw [fdTable] at h₂ h₃
    exact ⟨cwd ▸ h₁, h₂, h₃, h₄⟩
  · rintro ⟨h₁, h₂, h₃, h₄⟩
    rw [← sigFrame] at h₄
    rw [← fdTable] at h₂ h₃
    exact ⟨cwd ▸ h₁, h₂, h₃, h₄⟩

/-- The new task ends its queue. -/
theorem addThreadTask_self {k k' : Kernel H} {q : TaskQueue} {task : Nat}
    (added : addThreadTask k q task = some k') :
    k'.tasks task = { k.tasks task with next := none } := by
  have ends : ∀ k₁ : Kernel H, k₁.tasks task = { k.tasks task with next := (k₁.tasks task).next } →
      (k₁.setNext task none).tasks task = { k.tasks task with next := none } := by
    intro k₁ same
    rw [tasks_setNext, next_setNext, Function.update_self, same]
  unfold addThreadTask at added
  dsimp only at added
  split at added
  · cases added
    refine ends _ ?_
    rw [tasks_setHead]
    rfl
  · obtain ⟨current, _, same⟩ := Option.bind_eq_some_iff.mp added
    cases same
    refine ends _ ?_
    rw [tasks_setNext]
    rfl

variable [Allocator H]

/-- The memory of a new thread: the task and its two stacks. -/
structure ThreadMemory (s : Fs.State H) (task : Nat) (kernelStack userStack : Option Nat) : Prop where
  task : (s.alloc taskSize).2 = some task
  kernelStack : ((s.alloc taskSize).1.alloc threadStackSize).2 = kernelStack
  userStack :
    (((s.alloc taskSize).1.alloc threadStackSize).1.alloc threadStackSize).2 = userStack

/-- Of the memory of the new task only the first fields and the stacks are written. -/
theorem allocThread_task {k k' : Kernel H} {counter priority preemptCount : Int} {task : Nat}
    (made : allocThread k counter priority preemptCount = (k', some task)) :
    ∃ kernelStack userStack, ThreadMemory k.toState task kernelStack userStack ∧
      k'.tasks = Function.update k.tasks task { k.tasks task with
        id := k.threadCnt
        state := .ready
        counter := counter
        priority := priority
        preemptCount := preemptCount
        kernelStack := kernelStack
        userStack := userStack } := by
  unfold allocThread Kernel.allocTask Kernel.alloc at made
  cases first : (k.toState.alloc taskSize).2 with
  | none =>
      rw [first] at made
      cases congrArg Prod.snd made
  | some p =>
      rw [first] at made
      dsimp only [enrol, Kernel.modify] at made
      cases second : ((k.toState.alloc taskSize).1.alloc threadStackSize).2 with
      | none =>
          rw [second] at made
          cases congrArg Prod.snd made
      | some kernelStack =>
          rw [second] at made
          dsimp only at made
          cases third : (((k.toState.alloc taskSize).1.alloc threadStackSize).1.alloc
              threadStackSize).2 with
          | none =>
              rw [third] at made
              cases congrArg Prod.snd made
          | some userStack =>
              rw [third] at made
              obtain ⟨same, here⟩ := Prod.mk.inj made
              cases here
              refine ⟨some kernelStack, some userStack, ⟨first, second, third⟩, ?_⟩
              rw [← same]
              dsimp only
              rw [Function.update_self, Function.update_idem, Function.update_self,
                Function.update_idem]

/-- The child of a fork, field by field. -/
theorem sysFork_child {k k' : Kernel H} {frame frame' childFrame : TrapFrame}
    {currSp forkEnd : Word} {parent child : Nat} (isCurrent : k.current = some parent)
    (forked : sysFork k frame currSp forkEnd = some (k', frame', some (child, childFrame))) :
    ∃ kernelStack userStack, ThreadMemory k.toState child kernelStack userStack ∧
      (child ≠ parent → k'.tasks child = { k.tasks parent with
        id := k.threadCnt
        state := .ready
        kernelStack := kernelStack
        userStack := userStack
        cpuContext := { (k.tasks parent).cpuContext with
          sp := addr kernelStack + (currSp - addr (k.tasks parent).kernelStack)
          lr := forkEnd }
        sigFrame := (k.tasks child).sigFrame
        cwd := (k.tasks child).cwd
        fdTable := (k.tasks child).fdTable
        next := none }) := by
  unfold sysFork at forked
  rw [isCurrent] at forked
  dsimp only at forked
  cases made : allocThread k (k.tasks parent).counter (k.tasks parent).priority
      (k.tasks parent).preemptCount with
  | mk k₁ found =>
      rw [made] at forked
      cases found with
      | none => cases forked
      | some task =>
          obtain ⟨⟨k₂, frames⟩, inited, same⟩ := Option.bind_eq_some_iff.mp forked
          cases same
          obtain ⟨kernelStack, userStack, memory, tasks⟩ := allocThread_task made
          unfold forkInit at inited
          obtain ⟨k₃, added, same⟩ := Option.bind_eq_some_iff.mp inited
          cases same
          refine ⟨kernelStack, userStack, memory, fun apart => ?_⟩
          rw [addThreadTask_self added]
          dsimp only [Kernel.modify]
          rw [Function.update_self, Function.update_self, tasks, Function.update_self,
            Function.update_of_ne apart.symm]

/-- The child has its parent's context just when that was in the memory already,
and two contents of the memory lead to one child just when they agree on it. -/
theorem sysFork_inherits_iff {k k' : Kernel H} {frame frame' childFrame : TrapFrame}
    {currSp forkEnd : Word} {parent child : Nat} (isCurrent : k.current = some parent)
    (forked : sysFork k frame currSp forkEnd = some (k', frame', some (child, childFrame)))
    (apart : child ≠ parent) (frames : Set Nat) :
    (Inherits frames (k.tasks parent) (k'.tasks child) ↔
      Inherits frames (k.tasks parent) (k.tasks child)) ∧
    ∀ (stale : Task) (other : Kernel H) (again : TrapFrame) (child' : Nat) (childAgain : TrapFrame),
      sysFork (k.modify child fun _ => stale) frame currSp forkEnd =
        some (other, again, some (child', childAgain)) →
      (other.tasks child' = k'.tasks child ↔ SameLeftOver stale (k.tasks child)) := by
  obtain ⟨kernelStack, userStack, memory, fields⟩ := sysFork_child isCurrent forked
  have fields := fields apart
  constructor
  · refine SameLeftOver.inherits_iff ?_
    rw [fields]
    exact ⟨rfl, rfl, rfl⟩
  · intro stale other again child' childAgain forked'
    have isCurrent' : (k.modify child fun _ => stale).current = some parent := isCurrent
    obtain ⟨kernelStack', userStack', memory', fields'⟩ := sysFork_child isCurrent' forked'
    have memory'' : ThreadMemory k.toState child' kernelStack' userStack' := memory'
    obtain rfl : child' = child := Option.some.inj (memory''.task.symm.trans memory.task)
    obtain rfl : kernelStack' = kernelStack := memory''.kernelStack.symm.trans memory.kernelStack
    obtain rfl : userStack' = userStack := memory''.userStack.symm.trans memory.userStack
    have parents : (k.modify child' fun _ => stale).tasks parent = k.tasks parent :=
      Function.update_of_ne apart.symm _ _
    have children : (k.modify child' fun _ => stale).tasks child' = stale :=
      Function.update_self _ _ _
    rw [fields, fields' apart, parents, children]
    constructor
    · intro same
      have sigFrame := congrArg Task.sigFrame same
      have cwd := congrArg Task.cwd same
      have fdTable := congrArg Task.fdTable same
      exact ⟨sigFrame, cwd, fdTable⟩
    · rintro ⟨sigFrame, cwd, fdTable⟩
      rw [sigFrame, cwd, fdTable]
      rfl

/-! ## A first fork -/

open Fs (BootHeap)

/-- A thread that `thread_create` has made runs. -/
def secondRuns : Kernel BootHeap := (schedule started .zero).get (by decide +kernel)

theorem firstFork_returns : (sysFork secondRuns blankFrame 0 0).isSome := by decide +kernel

def firstFork : Kernel BootHeap × TrapFrame × Option (Nat × TrapFrame) :=
  (sysFork secondRuns blankFrame 0 0).get firstFork_returns

theorem firstFork_succeeds : firstFork.2.2.isSome := by decide +kernel

def firstChild : Nat × TrapFrame := firstFork.2.2.get firstFork_succeeds

theorem firstFork_forked : sysFork secondRuns blankFrame 0 0 =
    some (firstFork.1, firstFork.2.1, some (firstChild.1, firstChild.2)) := by
  unfold firstChild
  have returned : some firstFork = sysFork secondRuns blankFrame 0 0 := Option.some_get _
  rw [← returned, Prod.mk.eta, Option.some_get]

theorem secondRuns_reachable : Reachable (fun _ _ => True) secondRuns :=
  .step (.boot started_booted) trivial (.schedule (Option.some_get _).symm)

theorem idleThread_current : secondRuns.current = some idleThread := by decide +kernel

theorem sysFork_inherits_iff_first :
    Inherits Set.univ (secondRuns.tasks idleThread) (firstFork.1.tasks firstChild.1) ↔
      Inherits Set.univ (secondRuns.tasks idleThread) (secondRuns.tasks firstChild.1) := by
  have apart : firstChild.1 ≠ idleThread := by decide +kernel
  exact (sysFork_inherits_iff idleThread_current firstFork_forked apart Set.univ).1

/-- The child of the first fork has no current directory, but its parent has one. -/
theorem firstChild_lacks_cwd : ∃ (k k' : Kernel BootHeap) (frame frame' childFrame : TrapFrame)
    (parent child : Nat), Reachable (fun _ _ => True) k ∧ k.current = some parent ∧
      sysFork k frame 0 0 = some (k', frame', some (child, childFrame)) ∧
        (k'.tasks child).cwd = none ∧ (k.tasks parent).cwd ≠ none := by
  exact ⟨secondRuns, firstFork.1, blankFrame, firstFork.2.1, firstChild.2, idleThread,
    firstChild.1, secondRuns_reachable, idleThread_current, firstFork_forked, by decide +kernel,
    by decide +kernel⟩

end OsdiKernel.Sched
