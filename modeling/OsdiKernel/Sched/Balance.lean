import OsdiKernel.Fs.Sessions
import OsdiKernel.Sched.Exits
import OsdiKernel.Sched.Untouched

/-!
# What threads leave allocated

A thread owns its task and two stacks, which `kill_zombies` releases.  A thread
that `thread_create` makes also gets a signal frame and three open files, which
nothing releases; one that `sys_fork` makes gets no more than what is released.
-/

namespace OsdiKernel.Sched

open Allocator (Holds)
open Queue (Chain)

variable {H : Type}

/-- The memory to which a task points. -/
def Task.pointers (t : Task) : Option Nat × Option Nat × Option Nat :=
  (t.kernelStack, t.userStack, t.sigFrame)

/-- The memory that is released with a thread. -/
def Kernel.blocks (k : Kernel H) (p : Nat) : List Nat :=
  p :: ((k.tasks p).kernelStack.toList ++ (k.tasks p).userStack.toList)

/-! ## Operations that use no memory -/

theorem blocks_eq {k k' : Kernel H} {p : Nat} (same : (k'.tasks p).pointers = (k.tasks p).pointers) :
    k'.blocks p = k.blocks p := by
  obtain ⟨kernelStack, rest⟩ := Prod.mk.inj same
  unfold Kernel.blocks
  rw [kernelStack, (Prod.mk.inj rest).1]

/-- The heap is the same, and so are the pointers of every task. -/
structure SameMemory (k k' : Kernel H) : Prop where
  state : k'.toState = k.toState
  pointers : ∀ p, (k'.tasks p).pointers = (k.tasks p).pointers

section SameMemory

variable {k k' k'' : Kernel H} {q : TaskQueue} {p task : Nat} {registers : CpuContext}

theorem SameMemory.trans (first : SameMemory k k') (second : SameMemory k' k'') :
    SameMemory k k'' where
  state := second.state.trans first.state
  pointers p := (second.pointers p).trans (first.pointers p)

theorem Untouched.sameMemory (untouched : Untouched k k') : SameMemory k k' :=
  ⟨untouched.state, untouched.field Task.pointers fun _ => rfl⟩

theorem sameMemory_modify (k : Kernel H) (task : Nat) (f : Task → Task)
    (same : ∀ t, (f t).pointers = t.pointers) : SameMemory k (k.modify task f) where
  state := rfl
  pointers p := by
    unfold Kernel.modify
    dsimp only
    by_cases here : p = task
    · rw [here, Function.update_self, same]
    · rw [Function.update_of_ne here]

theorem forkInit_sameMemory {parent child : Nat} {frame : TrapFrame} {currSp forkEnd : Word}
    {frames : TrapFrame × TrapFrame}
    (made : forkInit k parent child frame currSp forkEnd = some (k', frames)) : SameMemory k k' := by
  unfold forkInit at made
  dsimp only at made
  obtain ⟨k₂, added, same⟩ := Option.bind_eq_some_iff.mp made
  cases same
  refine .trans ?_ (addThreadTask_untouched added).sameMemory
  refine .trans ?_ (sameMemory_modify _ child _ fun _ => rfl)
  exact sameMemory_modify k child _ fun _ => rfl

end SameMemory

/-! ## Operations that use memory -/

variable [Allocator H]

section Memory

variable {k k' : Kernel H} {live : List Nat} {task : Nat}

/-- The stacks and the task of a zombie are released. -/
theorem released_holds {zombie : Nat} (holds : Holds k.heap (k.blocks zombie ++ live)) :
    Holds (((k.freePtr (k.tasks zombie).kernelStack).freePtr (k.tasks zombie).userStack).freeTask
      zombie).heap live := by
  have moved : (k.blocks zombie ++ live).Perm
      ((k.tasks zombie).kernelStack.toList ++ ((k.tasks zombie).userStack.toList ++ zombie :: live)) := by
    refine List.perm_iff_count.mpr fun p => ?_
    simp only [Kernel.blocks, List.cons_append, List.count_cons, List.count_append]
    omega
  have whole : Holds k.toState.heap _ := Allocator.perm holds moved
  exact Fs.free_head (Fs.freePtr_holds (Fs.freePtr_holds whole))

/-- The loop releases the memory of the zombies, and touches no task. -/
theorem killZombiesLoop_holds {zombies : List Nat} {fuel : Nat}
    (chain : Chain k.next (k.head .zombie) zombies.tail)
    (reaped : killZombiesLoop fuel k zombies.head? = some k')
    (holds : Holds k.heap (zombies.flatMap k.blocks ++ live)) :
    Holds k'.heap live ∧ k'.tasks = k.tasks := by
  induction zombies generalizing fuel k with
  | nil =>
      have same : k = k' := by
        cases fuel with
        | zero | succ => exact Option.some.inj reaped
      exact same ▸ ⟨holds, rfl⟩
  | cons z zombies ih =>
      cases fuel with
      | zero => cases reaped
      | succ fuel =>
          rw [List.flatMap_cons, List.append_assoc] at holds
          rw [List.head?_cons] at reaped
          unfold killZombiesLoop at reaped
          dsimp only at reaped
          have noted : Holds (k.noteReleased z).heap
            ((k.noteReleased z).blocks z ++ (zombies.flatMap k.blocks ++ live)) := holds
          have freed := released_holds noted
          have sameTasks : ((((k.noteReleased z).freePtr
            ((k.noteReleased z).tasks z).kernelStack).freePtr
              ((k.noteReleased z).tasks z).userStack).freeTask z).tasks = k.tasks := rfl
          have sameHead : ((((k.noteReleased z).freePtr
            ((k.noteReleased z).tasks z).kernelStack).freePtr
              ((k.noteReleased z).tasks z).userStack).freeTask z).head .zombie = k.head .zombie := rfl
          change killZombiesLoop fuel
            (popThreadTask ((((k.noteReleased z).freePtr
              ((k.noteReleased z).tasks z).kernelStack).freePtr
                ((k.noteReleased z).tasks z).userStack).freeTask z) .zombie).1
            (popThreadTask ((((k.noteReleased z).freePtr
              ((k.noteReleased z).tasks z).kernelStack).freePtr
                ((k.noteReleased z).tasks z).userStack).freeTask z) .zombie).2 = some k' at reaped
          generalize (((k.noteReleased z).freePtr ((k.noteReleased z).tasks z).kernelStack).freePtr
            ((k.noteReleased z).tasks z).userStack).freeTask z = k₁ at *
          have sameNext : k₁.next = k.next := by
            unfold Kernel.next
            rw [sameTasks]
          have sameBlocks : k₁.blocks = k.blocks := by
            unfold Kernel.blocks
            rw [sameTasks]
          rw [List.tail_cons, ← sameNext, ← sameHead] at chain
          rw [← sameBlocks] at freed
          rw [← sameTasks]
          cases zombies with
          | nil =>
              have empty : k₁.head .zombie = none := chain.head_eq
              have popped : popThreadTask k₁ .zombie = (k₁, none) := by
                unfold popThreadTask
                rw [empty]
              rw [popped] at reaped
              exact @ih k₁ fuel (empty ▸ .nil) reaped freed
          | cons x rest =>
              have first : k₁.head .zombie = some x := chain.head_eq
              have popped : popThreadTask k₁ .zombie =
                  (k₁.setHead .zombie (k₁.tasks x).next, some x) := by
                unfold popThreadTask
                rw [first]
              rw [popped] at reaped
              rw [first] at chain
              obtain ⟨_, shape, tail⟩ := chain.tail
              cases shape
              exact @ih (k₁.setHead .zombie (k₁.tasks x).next) fuel tail reaped freed

theorem killZombies_holds {zombies : List Nat} (chain : Chain k.next (k.head .zombie) zombies)
    (reaped : killZombies k = some k') (holds : Holds k.heap (zombies.flatMap k.blocks ++ live)) :
    Holds k'.heap live ∧ k'.tasks = k.tasks := by
  unfold killZombies at reaped
  cases zombies with
  | nil =>
      have empty : k.head .zombie = none := chain.head_eq
      have popped : popThreadTask k .zombie = (k, none) := by
        unfold popThreadTask
        rw [empty]
      rw [popped] at reaped
      exact @killZombiesLoop_holds _ _ _ _ _ [] _ (empty ▸ .nil) reaped holds
  | cons z rest =>
      have first : k.head .zombie = some z := chain.head_eq
      have popped : popThreadTask k .zombie = (k.setHead .zombie (k.tasks z).next, some z) := by
        unfold popThreadTask
        rw [first]
      rw [popped] at reaped
      rw [first] at chain
      obtain ⟨_, shape, tail⟩ := chain.tail
      cases shape
      exact @killZombiesLoop_holds _ _ (k.setHead .zombie (k.tasks z).next) _ _ (z :: rest) _ tail
        reaped holds

/-- A new thread has a task and two stacks. -/
theorem allocThread_holds {counter priority preemptCount : Int} (holds : Holds k.heap live)
    (made : allocThread k counter priority preemptCount = (k', some task)) :
    Holds k'.heap (k'.blocks task ++ live) ∧ task ∉ live ∧
      (∀ p, p ≠ task → k'.tasks p = k.tasks p) := by
  unfold allocThread Kernel.allocTask Kernel.alloc at made
  cases first : (k.toState.alloc taskSize).2 with
  | none =>
      rw [first] at made
      cases congrArg Prod.snd made
  | some p =>
      rw [first] at made
      obtain ⟨fresh, held₁⟩ := Fs.alloc_some holds first
      dsimp only [enrol, Kernel.modify] at made
      cases second : ((k.toState.alloc taskSize).1.alloc threadStackSize).2 with
      | none =>
          rw [second] at made
          cases congrArg Prod.snd made
      | some kernelStack =>
          rw [second] at made
          have held₂ := (Fs.alloc_some held₁ second).2
          dsimp only at made
          cases third : (((k.toState.alloc taskSize).1.alloc threadStackSize).1.alloc
              threadStackSize).2 with
          | none =>
              rw [third] at made
              cases congrArg Prod.snd made
          | some userStack =>
              rw [third] at made
              have held₃ := (Fs.alloc_some held₂ third).2
              obtain ⟨same, here⟩ := Prod.mk.inj made
              cases here
              refine ⟨?_, fresh, ?_⟩
              · have blocks : k'.blocks task = [task, kernelStack, userStack] := by
                  rw [← same]
                  simp [Kernel.blocks]
                rw [blocks, ← same]
                refine Allocator.perm held₃ (List.perm_iff_count.mpr fun q => ?_)
                simp only [List.cons_append, List.nil_append, List.count_cons]
                omega
              · intro q other
                rw [← same]
                simp [Function.update_of_ne other]

/-- A thread that could not be allocated leaves nothing. -/
theorem allocThread_none {counter priority preemptCount : Int} (holds : Holds k.heap live)
    (failed : allocThread k counter priority preemptCount = (k', none)) : Holds k'.heap live := by
  unfold allocThread Kernel.allocTask Kernel.alloc at failed
  cases first : (k.toState.alloc taskSize).2 with
  | none =>
      rw [first] at failed
      cases congrArg Prod.fst failed
      exact Allocator.alloc_none holds first
  | some p =>
      rw [first] at failed
      have held₁ := (Fs.alloc_some holds first).2
      dsimp only [enrol, Kernel.modify] at failed
      cases second : ((k.toState.alloc taskSize).1.alloc threadStackSize).2 with
      | none =>
          rw [second] at failed
          cases congrArg Prod.fst failed
          exact Fs.free_head (Allocator.alloc_none held₁ second)
      | some kernelStack =>
          rw [second] at failed
          have held₂ := (Fs.alloc_some held₁ second).2
          dsimp only at failed
          cases third : (((k.toState.alloc taskSize).1.alloc threadStackSize).1.alloc
              threadStackSize).2 with
          | none =>
              rw [third] at failed
              cases congrArg Prod.fst failed
              have held₃ := Allocator.alloc_none held₂ third
              exact Fs.free_head (Fs.free_head held₃)
          | some userStack =>
              rw [third] at failed
              cases congrArg Prod.snd failed

theorem openUart_holds {fd : Fin threadMaxFd} (holds : Holds k.heap live)
    (opened : openUart k task fd = some k') :
    (∃ more, Holds k'.heap (more ++ live)) ∧ ∀ p, (k'.tasks p).pointers = (k.tasks p).pointers := by
  unfold openUart at opened
  obtain ⟨⟨s, result, file⟩, opens, same⟩ := Option.bind_eq_some_iff.mp opened
  cases same
  have kept := sameMemory_modify { k with toState := s } task
    (fun t => { t with fdTable := Function.update t.fdTable fd file }) fun _ => rfl
  exact ⟨Fs.vfsOpen_keeps holds opens, kept.pointers⟩

/-- Everything that is allocated while the three files are opened stays allocated. -/
theorem openUarts_holds {k₁ k₂ : Kernel H} (holds : Holds k.heap live)
    (first : openUart k task 0 = some k₁) (second : openUart k₁ task 1 = some k₂)
    (third : openUart k₂ task 2 = some k') :
    (∃ more, Holds k'.heap (more ++ live)) ∧ ∀ p, (k'.tasks p).pointers = (k.tasks p).pointers := by
  obtain ⟨⟨more₁, held₁⟩, same₁⟩ := openUart_holds holds first
  obtain ⟨⟨more₂, held₂⟩, same₂⟩ := openUart_holds held₁ second
  obtain ⟨⟨more₃, held₃⟩, same₃⟩ := openUart_holds held₂ third
  refine ⟨⟨more₃ ++ (more₂ ++ more₁), ?_⟩, fun p => (same₃ p).trans ((same₂ p).trans (same₁ p))⟩
  rwa [List.append_assoc, List.append_assoc]

/-- The rest of `thread_create` allocates a signal frame, and structures for files. -/
theorem threadInit_holds {callback : Word} (holds : Holds k.heap live)
    (made : threadInit k task callback = some k') :
    (∃ more, Holds k'.heap (more ++ ((k'.tasks task).sigFrame.toList ++ live))) ∧
      ∀ p, k'.blocks p = k.blocks p := by
  unfold threadInit at made
  dsimp only at made
  obtain ⟨root, _, made⟩ := Option.bind_eq_some_iff.mp made
  obtain ⟨k₂, first, made⟩ := Option.bind_eq_some_iff.mp made
  obtain ⟨k₃, second, made⟩ := Option.bind_eq_some_iff.mp made
  obtain ⟨k₄, third, made⟩ := Option.bind_eq_some_iff.mp made
  have held := Fs.alloc_holds holds trapFrameSize
  obtain ⟨⟨more, held'⟩, opened⟩ := openUarts_holds held first second third
  have saved := sameMemory_modify k₄ task (fun t =>
    let sp := addr t.userStack + BitVec.ofNat 64 threadStackSize
    { t with cpuContext := { CpuContext.zero with lr := callback, sp := sp, fp := sp } }) fun _ => rfl
  have last := saved.trans (addThreadTask_untouched made).sameMemory
  have frame : (k'.tasks task).sigFrame = (k.toState.alloc trapFrameSize).2 := by
    have same := congrArg (fun pointers => pointers.2.2) ((last.pointers task).trans (opened task))
    simpa [Task.pointers, Kernel.modify, Kernel.alloc] using same
  constructor
  · rw [frame, last.state]
    exact ⟨more, held'⟩
  · intro p
    have same := (last.pointers p).trans (opened p)
    have kept : (k'.tasks p).kernelStack = (k.tasks p).kernelStack ∧
        (k'.tasks p).userStack = (k.tasks p).userStack := by
      by_cases here : p = task
      · subst here
        simpa [Task.pointers, Kernel.modify, Kernel.alloc, frame] using same
      · simpa [Task.pointers, Kernel.modify, Kernel.alloc, Function.update_of_ne here] using
          And.intro (congrArg Prod.fst same) (congrArg (fun pointers => pointers.2.1) same)
    unfold Kernel.blocks
    rw [kept.1, kept.2]

/-- What `thread_create` leaves allocated besides the memory that is released. -/
theorem threadCreate_holds {callback : Word} (holds : Holds k.heap live)
    (made : threadCreate k callback = some (k', some task)) :
    (∃ more, Holds k'.heap (k'.blocks task ++ (more ++ ((k'.tasks task).sigFrame.toList ++ live)))) ∧
      task ∉ live ∧ ∀ p, p ≠ task → k'.blocks p = k.blocks p := by
  unfold threadCreate at made
  cases allocated : allocThread k defaultPriority defaultPriority 1 with
  | mk k₁ result =>
      rw [allocated] at made
      cases result with
      | none => cases made
      | some task' =>
          obtain ⟨k₂, inited, same⟩ := Option.bind_eq_some_iff.mp made
          cases same
          obtain ⟨held, fresh, others⟩ := allocThread_holds holds allocated
          obtain ⟨⟨more, held'⟩, blocks⟩ := threadInit_holds held inited
          refine ⟨⟨more, ?_⟩, fresh, fun p other => ?_⟩
          · rw [blocks]
            refine Allocator.perm held' (List.perm_iff_count.mpr fun q => ?_)
            simp only [List.count_append]
            omega
          · rw [blocks, blocks_eq (congrArg Task.pointers (others p other))]

/-- What was allocated before stays so, whether or not there is a new thread. -/
theorem threadCreate_keeps {callback : Word} {result : Option Nat} (holds : Holds k.heap live)
    (made : threadCreate k callback = some (k', result)) :
    ∃ more, Holds k'.heap (more ++ live) := by
  cases result with
  | none =>
      unfold threadCreate at made
      cases allocated : allocThread k defaultPriority defaultPriority 1 with
      | mk k₁ task =>
          rw [allocated] at made
          cases task with
          | none =>
              cases made
              exact ⟨[], allocThread_none holds allocated⟩
          | some task =>
              obtain ⟨_, _, same⟩ := Option.bind_eq_some_iff.mp made
              cases same
  | some task =>
      obtain ⟨⟨more, held⟩, _⟩ := threadCreate_holds holds made
      refine ⟨k'.blocks task ++ (more ++ (k'.tasks task).sigFrame.toList), ?_⟩
      rwa [List.append_assoc, List.append_assoc]

theorem schedInit_keeps {idle : Word} (holds : Holds k.heap live)
    (booted : schedInit k idle = some k') : ∃ more, Holds k'.heap (more ++ live) := by
  unfold schedInit Kernel.allocTask Kernel.alloc at booted
  dsimp only at booted
  cases first : (k.toState.alloc taskSize).2 with
  | none =>
      rw [first] at booted
      cases booted
      exact ⟨[], Allocator.alloc_none holds first⟩
  | some idleTask =>
      rw [first] at booted
      have held := (Fs.alloc_some holds first).2
      obtain ⟨⟨k₂, result⟩, made, same⟩ := Option.bind_eq_some_iff.mp booted
      cases same
      obtain ⟨more, held'⟩ := threadCreate_keeps held made
      refine ⟨more ++ [idleTask], ?_⟩
      rwa [List.append_assoc]

/-- `sys_fork` leaves nothing else allocated. -/
theorem sysFork_holds {frame frame' childFrame : TrapFrame} {currSp forkEnd : Word}
    (holds : Holds k.heap live)
    (made : sysFork k frame currSp forkEnd = some (k', frame', some (task, childFrame))) :
    Holds k'.heap (k'.blocks task ++ live) ∧ task ∉ live ∧
      ∀ p, p ≠ task → k'.blocks p = k.blocks p := by
  unfold sysFork at made
  split at made
  · cases made
  · next parent _ =>
      dsimp only at made
      cases allocated : allocThread k (k.tasks parent).counter (k.tasks parent).priority
        (k.tasks parent).preemptCount with
      | mk k₁ result =>
          rw [allocated] at made
          cases result with
          | none => cases made
          | some child =>
              obtain ⟨⟨k₂, frames⟩, inited, same⟩ := Option.bind_eq_some_iff.mp made
              cases same
              obtain ⟨held, fresh, others⟩ := allocThread_holds holds allocated
              have kept := forkInit_sameMemory inited
              refine ⟨?_, fresh, fun p other => ?_⟩
              · rw [kept.state, blocks_eq (kept.pointers task)]
                exact held
              · rw [blocks_eq (kept.pointers p), blocks_eq (congrArg Task.pointers (others p other))]

end Memory

end OsdiKernel.Sched
