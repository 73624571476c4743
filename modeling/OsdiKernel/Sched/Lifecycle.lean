import OsdiKernel.Sched.Refinement

/-!
# How threads begin and end

A new thread is filled in before it is added to the ready threads, and zombies
are released one after the other.  Neither touches the links of other threads.
-/

namespace OsdiKernel.Sched

open Queue (Chain)

variable {H : Type} [Allocator H]

/-! ## Zombies -/

section Zombies

variable {c : Option Nat} {k : Kernel H} {a : Threads} {p : Nat}

theorem Listed.freePtr (listed : Listed c k a) (p : Option Nat) :
    Listed c (k.freePtr p) a :=
  ⟨listed.ready, listed.zombies, listed.wait, listed.current, listed.state,
    listed.live, listed.addedUnlinked, listed.releasedZombies⟩

theorem Listed.freeTask (listed : Listed c k a) (p : Nat) :
    Listed c (k.freeTask p) { a with live := a.live.erase p } :=
  ⟨listed.ready, listed.zombies, listed.wait, listed.current, listed.state,
    congrArg (List.erase · p) listed.live, listed.addedUnlinked, listed.releasedZombies⟩

/-- The loop releases the zombie at hand and those that are still in the queue. -/
theorem killZombiesLoop_refines {zombies : List Nat} {fuel : Nat}
    (represents : Represents k { a with zombies := zombies.tail })
    (unlike : zombies.Nodup) (isLive : zombies ⊆ a.live)
    (apart : ∀ z ∈ zombies, z ≠ a.current ∧ z ∉ a.ready) (enough : zombies.length ≤ fuel) :
    ∃ k', killZombiesLoop fuel k zombies.head? = some k' ∧
      Represents k' { a with zombies := [], live := a.live.diff zombies } := by
  induction zombies generalizing fuel k a with
  | nil =>
      refine ⟨k, by cases fuel <;> rfl, ?_⟩
      rw [List.diff_nil]
      exact represents
  | cons z zombies ih =>
      obtain ⟨fuel, rfl⟩ :=
        Nat.exists_eq_succ_of_ne_zero (Nat.ne_of_gt (Nat.lt_of_lt_of_le (Nat.succ_pos _) enough))
      rw [List.length_cons] at enough
      rw [List.nodup_cons] at unlike
      obtain ⟨notCurrent, notReady⟩ := apart z List.mem_cons_self
      have zombieLive : z ∈ a.live := isLive List.mem_cons_self
      rw [List.tail_cons] at represents
      rw [List.head?_cons]
      unfold killZombiesLoop
      dsimp only
      have noted : Represents (k.noteReleased z) { a with zombies := zombies } := by
        refine { represents with releasedZombies := ⟨represents.releasedZombies, ?_, ?_, ?_⟩ }
        · rw [represents.live]
          exact zombieLive
        · rw [represents.current]
          exact fun same => notCurrent (Option.some.inj same).symm
        · exact represents.not_inQueue notReady unlike.1
      generalize k.noteReleased z = k₁ at *
      have released := ((noted.freePtr (k₁.tasks z).kernelStack).freePtr
        ((k₁.freePtr (k₁.tasks z).kernelStack).tasks z).userStack).freeTask z
      generalize ((k₁.freePtr (k₁.tasks z).kernelStack).freePtr
        ((k₁.freePtr (k₁.tasks z).kernelStack).tasks z).userStack).freeTask z = k₂ at *
      have later : ∀ x ∈ zombies, x ≠ a.current ∧ x ∉ a.ready := fun x member =>
        apart x (List.mem_cons_of_mem z member)
      have stillLive : zombies ⊆ a.live.erase z := by
        intro x member
        refine (List.mem_erase_of_ne ?_).mpr (isLive (List.mem_cons_of_mem z member))
        rintro rfl
        exact unlike.1 member
      have popped : (popThreadTask k₂ .zombie).2 = zombies.head? ∧
          Represents (popThreadTask k₂ .zombie).1
            { a with zombies := zombies.tail, live := a.live.erase z } := by
        cases zombies with
        | nil =>
            have empty : k₂.head .zombie = none := released.zombies.head_eq
            unfold popThreadTask
            rw [empty]
            exact ⟨rfl, released⟩
        | cons x rest => exact released.popZombie rfl fun y member => (later y member).2
      generalize popThreadTask k₂ .zombie = after at *
      obtain ⟨k₃, front⟩ := after
      dsimp only at popped ⊢
      rw [popped.1]
      have rest := @ih k₃ { a with live := a.live.erase z } fuel popped.2 unlike.2 stillLive later
        (by omega)
      rw [List.diff_cons]
      exact rest

theorem killZombies_refines (ordered : a.Ordered) (represents : Represents k a) :
    ∃ k', killZombies k = some k' ∧ Represents k' a.reap := by
  have popped : (popThreadTask k .zombie).2 = a.zombies.head? ∧
      Represents (popThreadTask k .zombie).1 { a with zombies := a.zombies.tail } := by
    cases shape : a.zombies with
    | nil =>
        have empty : k.head .zombie = none := by
          rw [show k.head .zombie = a.zombies.head? from represents.zombies.head_eq, shape]
          rfl
        unfold popThreadTask
        rw [empty, List.tail_nil, ← shape]
        exact ⟨by rw [shape]; rfl, represents⟩
    | cons z rest => exact represents.popZombie shape ordered.apart
  have short : a.zombies.length ≤ (popThreadTask k .zombie).1.live.length := by
    rw [popped.2.live]
    exact ordered.zombiesShort
  unfold killZombies
  generalize popThreadTask k .zombie = after at *
  obtain ⟨k₁, front⟩ := after
  dsimp only at popped short ⊢
  rw [popped.1]
  exact killZombiesLoop_refines popped.2 ordered.zombies ordered.zombiesLive
    (fun z zombie => ⟨fun same => ordered.currentState.1 (same ▸ zombie), ordered.apart z zombie⟩) short

end Zombies

/-! ## New threads -/

/-- Only the contents of a task and the state of the file system have changed,
and the task is in the same state. -/
structure Builds (k k' : Kernel H) (task : Nat) : Prop where
  others : ∀ p, p ≠ task → k'.tasks p = k.tasks p
  state : (k'.tasks task).state = (k.tasks task).state
  heads : ∀ q, k'.head q = k.head q
  current : k'.current = k.current
  live : k'.live = k.live
  addedUnlinked : k'.addedUnlinked = k.addedUnlinked
  releasedZombies : k'.releasedZombies = k.releasedZombies

section Builds

variable {c : Option Nat} {k k' k'' : Kernel H} {a : Threads} {task p : Nat} {f : Task → Task}

omit [Allocator H] in
theorem Builds.trans (first : Builds k k' task) (second : Builds k' k'' task) : Builds k k'' task where
  others p other := (second.others p other).trans (first.others p other)
  state := second.state.trans first.state
  heads q := (second.heads q).trans (first.heads q)
  current := second.current.trans first.current
  live := second.live.trans first.live
  addedUnlinked := second.addedUnlinked.trans first.addedUnlinked
  releasedZombies := second.releasedZombies.trans first.releasedZombies

omit [Allocator H] in
theorem builds_modify (k : Kernel H) (task : Nat) (f : Task → Task)
    (state : ∀ t, (f t).state = t.state) : Builds k (k.modify task f) task where
  others _ other := Function.update_of_ne other _ _
  state := by
    unfold Kernel.modify
    dsimp only
    rw [Function.update_self]
    exact state _
  heads q := by cases q <;> rfl
  current := rfl
  live := rfl
  addedUnlinked := rfl
  releasedZombies := rfl

omit [Allocator H] in
/-- The file system and the heap are no part of the queues. -/
theorem builds_setState (k : Kernel H) (s : Fs.State H) (task : Nat) :
    Builds k { k with toState := s } task :=
  ⟨fun _ _ => rfl, rfl, fun q => by cases q <;> rfl, rfl, rfl, rfl, rfl⟩

theorem builds_alloc (k : Kernel H) (size task : Nat) : Builds k (k.alloc size).1 task :=
  builds_setState k _ task

theorem openUart_builds {fd : Fin threadMaxFd} (opened : openUart k task fd = some k') :
    Builds k k' task := by
  unfold openUart at opened
  obtain ⟨⟨s, result, file⟩, _, same⟩ := Option.bind_eq_some_iff.mp opened
  cases same
  exact (builds_setState k s task).trans (builds_modify _ task _ fun _ => rfl)

omit [Allocator H] in
theorem Builds.listed (builds : Builds k k' task) (listed : Listed c k a)
    (notReady : task ∉ a.ready) (notZombie : task ∉ a.zombies) : Listed c k' a := by
  have links : ∀ p, p ≠ task → k'.next p = k.next p := fun p other =>
    congrArg Task.next (builds.others p other)
  constructor
  · rw [show k'.readyQueue = k.readyQueue from builds.heads .ready]
    refine listed.ready.congr fun x member => links x ?_
    rintro rfl
    exact notReady member
  · rw [show k'.zombieQueue = k.zombieQueue from builds.heads .zombie]
    refine listed.zombies.congr fun x member => links x ?_
    rintro rfl
    exact notZombie member
  · exact (builds.heads .wait).trans listed.wait
  · exact builds.current.trans listed.current
  · intro p
    by_cases here : p = task
    · rw [here, builds.state]
      exact listed.state task
    · rw [builds.others p here]
      exact listed.state p
  · exact builds.live.trans listed.live
  · exact builds.addedUnlinked ▸ listed.addedUnlinked
  · exact builds.releasedZombies ▸ listed.releasedZombies

omit [Allocator H] in
/-- What is left of a thread that could not be created: nothing but the
contents of memory that is not in use. -/
theorem Listed.discard (represents : Listed c k (a.setState p .ready)) (fresh : p ∉ a.live) :
    ∃ state, (∀ x ∈ a.live, state x = a.state x) ∧ Listed c k { a with state := state } := by
  refine ⟨(a.setState p .ready).state, fun x member => Threads.setState_of_ne ?_ _, represents⟩
  rintro rfl
  exact fresh member

/-- The outcome of a creation. -/
inductive Outcome (c : Option Nat) (k' : Kernel H) (a : Threads) : Option Nat → Prop
  | failed {state : Nat → TaskState} (same : ∀ p ∈ a.live, state p = a.state p)
      (represents : Listed c k' { a with state := state }) : Outcome c k' a none
  | made {p : Nat} (fresh : p ∉ a.live) (represents : Listed c k' (a.create p)) :
      Outcome c k' a (some p)

omit [Allocator H] in
theorem Outcome.unchanged (represents : Listed c k a) : Outcome c k a none :=
  .failed (fun _ _ => rfl) represents

omit [Allocator H] in
/-- The first fields of a task in memory that was not in use. -/
theorem Listed.enrol (represents : Listed c k { a with live := task :: a.live })
    (tidy : a.Tidy) (fresh : task ∉ a.live) (counter priority preemptCount : Int) :
    Listed c (enrol k task counter priority preemptCount)
      { a.setState task .ready with live := task :: a.live } := by
  have contents : ∀ x, x ≠ task →
      (Sched.enrol k task counter priority preemptCount).tasks x = k.tasks x :=
    fun x other => Function.update_of_ne other _ _
  constructor
  · refine represents.ready.congr fun x member => congrArg Task.next (contents x ?_)
    rintro rfl
    exact fresh (tidy.readyLive member)
  · refine represents.zombies.congr fun x member => congrArg Task.next (contents x ?_)
    rintro rfl
    exact fresh (tidy.zombiesLive member)
  · exact represents.wait
  · exact represents.current
  · intro x
    change _ = (a.setState task .ready).state x
    by_cases here : x = task
    · rw [here, Threads.setState_self]
      unfold Sched.enrol Kernel.modify
      dsimp only
      rw [Function.update_self]
    · rw [contents x here, Threads.setState_of_ne here]
      exact represents.state x
  · exact represents.live
  · exact represents.addedUnlinked
  · exact represents.releasedZombies

/-- The end of a creation that has failed. -/
theorem Listed.abandon
    (represents : Listed c k { a.setState task .ready with live := task :: a.live })
    (fresh : task ∉ a.live) : Outcome c (k.freeTask task) a none := by
  have released := represents.freeTask task
  dsimp only at released
  rw [List.erase_cons_head] at released
  obtain ⟨state, same, rest⟩ := Listed.discard released fresh
  exact .failed same rest

omit [Allocator H] in
/-- The end of a creation that has succeeded. -/
theorem Listed.finish
    (represents : Listed c k { a.setState task .ready with live := task :: a.live })
    (tidy : a.Tidy) (fresh : task ∉ a.live) (added : addThreadTask k .ready task = some k') :
    Outcome c k' a (some task) := by
  have notReady : task ∉ a.ready := fun member => fresh (tidy.readyLive member)
  have notZombie : task ∉ a.zombies := fun member => fresh (tidy.zombiesLive member)
  have short : a.ready.length ≤ (task :: a.live).length :=
    Nat.le_succ_of_le tidy.readyShort
  obtain ⟨k₁, added₁, result⟩ := represents.addReady short notReady notZombie tidy.apart
  rw [added] at added₁
  cases added₁
  exact .made fresh result

omit [Allocator H] in
theorem next_modify (k : Kernel H) (task : Nat) (f : Task → Task) (same : ∀ t, (f t).next = t.next) :
    (k.modify task f).next = k.next := by
  funext x
  unfold Kernel.next Kernel.modify
  dsimp only
  by_cases here : x = task
  · rw [here, Function.update_self, same]
  · rw [Function.update_of_ne here]

omit [Allocator H] in
theorem next_cpuSwitchTo (k : Kernel H) (prev next : Nat) (registers : CpuContext) :
    (cpuSwitchTo k prev next registers).next = k.next :=
  next_modify k prev (fun t => { t with cpuContext := registers }) fun _ => rfl

theorem openUart_next {fd : Fin threadMaxFd} (opened : openUart k task fd = some k') :
    k'.next = k.next := by
  obtain ⟨⟨s, result, file⟩, _, same⟩ := Option.bind_eq_some_iff.mp opened
  cases same
  exact next_modify { k with toState := s } task _ fun _ => rfl

/-- The new thread is built with a null link, and then added to the ready queue. -/
theorem threadInit_builds {callback : Word} (made : threadInit k task callback = some k') :
    ∃ k₁, Builds k k₁ task ∧ k₁.next task = none ∧ addThreadTask k₁ .ready task = some k' := by
  unfold threadInit at made
  dsimp only at made
  obtain ⟨root, _, made⟩ := Option.bind_eq_some_iff.mp made
  obtain ⟨k₂, first, made⟩ := Option.bind_eq_some_iff.mp made
  obtain ⟨k₃, second, made⟩ := Option.bind_eq_some_iff.mp made
  obtain ⟨k₄, third, made⟩ := Option.bind_eq_some_iff.mp made
  have unlinked : k₄.next task = none := by
    rw [openUart_next third, openUart_next second, openUart_next first]
    simp [Kernel.next, Kernel.modify]
  refine ⟨_, ?_, ?_, made⟩
  rotate_left
  · refine (congrFun (next_modify k₄ task _ ?_) task).trans unlinked
    exact fun _ => rfl
  refine .trans ?_ (builds_modify k₄ task _ fun _ => rfl)
  refine .trans ?_ (openUart_builds third)
  refine .trans ?_ (openUart_builds second)
  refine .trans ?_ (openUart_builds first)
  refine .trans ?_ (builds_modify _ task _ fun _ => rfl)
  refine .trans ?_ (builds_modify _ task _ fun _ => rfl)
  refine .trans ?_ (builds_alloc _ trapFrameSize task)
  exact builds_modify k task _ fun _ => rfl

/-- The heap returns no task that is in use. -/
def FreshTask (k : Kernel H) : Prop := ∀ p, (k.alloc taskSize).2 = some p → p ∉ k.live

theorem freshTask_of {k : Kernel H}
    (apart : (k.alloc taskSize).2.all fun p => decide (p ∉ k.live)) : FreshTask k := by
  intro p found member
  rw [found] at apart
  exact of_decide_eq_true apart member

theorem Listed.alloc (represents : Listed c k a) (size : Nat) :
    Listed c (k.alloc size).1 a :=
  ⟨represents.ready, represents.zombies, represents.wait, represents.current, represents.state,
    represents.live, represents.addedUnlinked, represents.releasedZombies⟩

theorem Listed.allocTask (represents : Listed c k a) (fresh : FreshTask k) :
    (k.allocTask.2 = none ∧ Listed c k.allocTask.1 a) ∨
      ∃ task, k.allocTask.2 = some task ∧ task ∉ a.live ∧
        Listed c k.allocTask.1 { a with live := task :: a.live } := by
  have after := represents.alloc taskSize
  have notLive := fresh
  unfold FreshTask at notLive
  rw [represents.live] at notLive
  unfold Kernel.allocTask
  generalize k.alloc taskSize = pair at *
  obtain ⟨k₁, found⟩ := pair
  cases found with
  | none => exact Or.inl ⟨rfl, after⟩
  | some task =>
      exact Or.inr ⟨task, rfl, notLive task rfl,
        { after with live := congrArg (List.cons task) after.live }⟩

/-- A task with its stacks, or what is left where one of them is missing. -/
theorem allocThread_refines {counter priority preemptCount : Int} (tidy : a.Tidy)
    (represents : Listed c k a) (fresh : FreshTask k) :
    ((allocThread k counter priority preemptCount).2 = none ∧
        Outcome c (allocThread k counter priority preemptCount).1 a none) ∨
      ∃ task, (allocThread k counter priority preemptCount).2 = some task ∧ task ∉ a.live ∧
        Listed c (allocThread k counter priority preemptCount).1
          { a.setState task .ready with live := task :: a.live } := by
  have first := represents.allocTask fresh
  unfold allocThread
  generalize k.allocTask = pair at *
  obtain ⟨k₁, found⟩ := pair
  rcases first with ⟨missing, represents₁⟩ | ⟨task, isSome, notLive, represents₁⟩
  · dsimp only at missing represents₁
    subst missing
    exact Or.inl ⟨rfl, .unchanged represents₁⟩
  · dsimp only at isSome represents₁
    subst isSome
    have notReady : task ∉ a.ready := fun member => notLive (tidy.readyLive member)
    have notZombie : task ∉ a.zombies := fun member => notLive (tidy.zombiesLive member)
    have represents₂ := represents₁.enrol tidy notLive counter priority preemptCount
    have represents₃ := represents₂.alloc threadStackSize
    dsimp only
    generalize (enrol k₁ task counter priority preemptCount).alloc threadStackSize = pair at *
    obtain ⟨k₃, kernelStack⟩ := pair
    cases kernelStack with
    | none => exact Or.inl ⟨rfl, represents₃.abandon notLive⟩
    | some kernelStack =>
        have represents₄ := (builds_modify k₃ task
          (fun t => { t with kernelStack := some kernelStack }) fun _ => rfl).listed represents₃
            notReady notZombie
        have represents₅ := represents₄.alloc threadStackSize
        dsimp only
        generalize (k₃.modify task fun t =>
          { t with kernelStack := some kernelStack }).alloc threadStackSize = pair at *
        obtain ⟨k₅, userStack⟩ := pair
        cases userStack with
        | none => exact Or.inl ⟨rfl, (represents₅.freePtr (some kernelStack)).abandon notLive⟩
        | some userStack =>
            exact Or.inr ⟨task, rfl, notLive, (builds_modify k₅ task
              (fun t => { t with userStack := some userStack }) fun _ => rfl).listed represents₅
                notReady notZombie⟩

theorem threadCreate_refines {callback : Word} {result : Option Nat} (tidy : a.Tidy)
    (represents : Listed c k a) (fresh : FreshTask k)
    (made : threadCreate k callback = some (k', result)) : Outcome c k' a result := by
  have first := @allocThread_refines H _ _ k a defaultPriority defaultPriority 1 tidy represents fresh
  unfold threadCreate at made
  generalize allocThread k defaultPriority defaultPriority 1 = pair at *
  obtain ⟨k₁, found⟩ := pair
  rcases first with ⟨missing, outcome⟩ | ⟨task, isSome, notLive, represents₁⟩
  · dsimp only at missing outcome
    subst missing
    cases made
    exact outcome
  · dsimp only at isSome represents₁
    subst isSome
    obtain ⟨k₂, inited, same⟩ := Option.bind_eq_some_iff.mp made
    cases same
    obtain ⟨k₃, builds, _, added⟩ := threadInit_builds inited
    have notReady : task ∉ a.ready := fun member => notLive (tidy.readyLive member)
    have notZombie : task ∉ a.zombies := fun member => notLive (tidy.zombiesLive member)
    exact (builds.listed represents₁ notReady notZombie).finish tidy notLive added

omit [Allocator H] in
theorem forkInit_builds {parent child : Nat} {frame : TrapFrame} {currSp forkEnd : Word}
    {frames : TrapFrame × TrapFrame}
    (made : forkInit k parent child frame currSp forkEnd = some (k', frames)) :
    ∃ k₁, Builds k k₁ child ∧ k₁.next child = none ∧ addThreadTask k₁ .ready child = some k' := by
  unfold forkInit at made
  dsimp only at made
  obtain ⟨k₂, added, same⟩ := Option.bind_eq_some_iff.mp made
  cases same
  refine ⟨_, ?_, ?_, added⟩
  rotate_left
  · simp [Kernel.next, Kernel.modify]
  refine .trans ?_ (builds_modify _ child _ fun _ => rfl)
  exact builds_modify k child _ fun _ => rfl

theorem sysFork_refines {frame frame' : TrapFrame} {currSp forkEnd : Word}
    {child : Option (Nat × TrapFrame)} (tidy : a.Tidy) (represents : Represents k a)
    (fresh : FreshTask k) (made : sysFork k frame currSp forkEnd = some (k', frame', child)) :
    Outcome (some a.current) k' a (child.map Prod.fst) := by
  unfold sysFork at made
  rw [represents.current] at made
  dsimp only at made
  have first := @allocThread_refines H _ _ k a (k.tasks a.current).counter
    (k.tasks a.current).priority (k.tasks a.current).preemptCount tidy represents fresh
  generalize allocThread k (k.tasks a.current).counter (k.tasks a.current).priority
    (k.tasks a.current).preemptCount = pair at *
  obtain ⟨k₁, found⟩ := pair
  rcases first with ⟨missing, outcome⟩ | ⟨task, isSome, notLive, represents₁⟩
  · dsimp only at missing outcome
    subst missing
    cases made
    exact outcome
  · dsimp only at isSome represents₁
    subst isSome
    obtain ⟨⟨k₂, frames⟩, inited, same⟩ := Option.bind_eq_some_iff.mp made
    cases same
    obtain ⟨k₃, builds, _, added⟩ := forkInit_builds inited
    have notReady : task ∉ a.ready := fun member => notLive (tidy.readyLive member)
    have notZombie : task ∉ a.zombies := fun member => notLive (tidy.zombiesLive member)
    exact (builds.listed represents₁ notReady notZombie).finish tidy notLive added

/-- A call that does not return has made a thread, which runs. -/
theorem exec_refines {execSize : Nat} {p : Nat} (tidy : a.Tidy) (represents : Represents k a)
    (fresh : FreshTask (k.alloc execSize).1) (made : exec k execSize = some (k', some p)) :
    p ∉ a.live ∧ Represents k' (a.exec p) := by
  unfold exec at made
  split at made
  · cases made
  · have loaded := represents.alloc execSize
    generalize k.alloc execSize = pair at *
    obtain ⟨k₁, execAddr⟩ := pair
    cases execAddr with
    | none => cases made
    | some execAddr =>
        dsimp only at made loaded fresh
        obtain ⟨⟨k₂, newThread⟩, created, rest⟩ := Option.bind_eq_some_iff.mp made
        obtain ⟨q, isSome, same⟩ := Option.bind_eq_some_iff.mp rest
        dsimp only at isSome
        subst isSome
        cases same
        cases threadCreate_refines tidy loaded fresh created with
        | made notLive represents₂ => exact ⟨notLive, { represents₂ with current := rfl }⟩

end Builds

end OsdiKernel.Sched
