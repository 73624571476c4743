import OsdiKernel.Sched.Threads

/-!
# The queues follow the lists

The links of the tasks represent the lists of threads.  Each function of the
scheduler does on the links what its specification does on the lists, and its
walks come to an end.
-/

namespace OsdiKernel.Sched

open Queue (Chain)

variable {H : Type}

/-! ## One queue -/

/-- The queue held `nodes` and now holds `nodes'`, and nothing else has changed. -/
structure Edited (k k' : Kernel H) (q : TaskQueue) (nodes nodes' : List Nat) : Prop where
  chain : Chain k'.next (k'.head q) nodes'
  heads : ∀ q', q' ≠ q → k'.head q' = k.head q'
  links : ∀ p, p ∉ nodes → p ∉ nodes' → k'.next p = k.next p
  tasks : ∀ p, k'.tasks p = { k.tasks p with next := k'.next p }
  state : k'.toState = k.toState
  current : k'.current = k.current
  threadCnt : k'.threadCnt = k.threadCnt
  live : k'.live = k.live
  releasedZombies : k'.releasedZombies = k.releasedZombies

section Fields

variable {k : Kernel H} {q : TaskQueue} {p : Nat} {link : Option Nat}

@[simp] theorem next_setHead (k : Kernel H) (q : TaskQueue) (p : Option Nat) :
    (k.setHead q p).next = k.next := by cases q <;> rfl

@[simp] theorem tasks_setHead (k : Kernel H) (q : TaskQueue) (p : Option Nat) :
    (k.setHead q p).tasks = k.tasks := by cases q <;> rfl

@[simp] theorem head_setHead (k : Kernel H) (q : TaskQueue) (p : Option Nat) :
    (k.setHead q p).head q = p := by cases q <;> rfl

theorem head_setHead_of_ne {q' : TaskQueue} (other : q' ≠ q) (p : Option Nat) :
    (k.setHead q p).head q' = k.head q' := by
  cases q <;> cases q' <;> first | rfl | exact absurd rfl other

@[simp] theorem next_setNext (k : Kernel H) (p : Nat) (link : Option Nat) :
    (k.setNext p link).next = Function.update k.next p link := by
  funext x
  unfold Kernel.next Kernel.setNext Kernel.modify
  dsimp only
  by_cases here : x = p
  · rw [here, Function.update_self, Function.update_self]
  · rw [Function.update_of_ne here, Function.update_of_ne here]

@[simp] theorem head_setNext (k : Kernel H) (p : Nat) (link : Option Nat) (q : TaskQueue) :
    (k.setNext p link).head q = k.head q := by cases q <;> rfl

theorem tasks_setNext (k : Kernel H) (p : Nat) (link : Option Nat) (x : Nat) :
    (k.setNext p link).tasks x = { k.tasks x with next := (k.setNext p link).next x } := by
  rw [next_setNext]
  unfold Kernel.setNext Kernel.modify
  dsimp only
  by_cases here : x = p
  · rw [here, Function.update_self, Function.update_self]
  · rw [Function.update_of_ne here, Function.update_of_ne here]
    rfl

end Fields

section Edits

variable {k k' : Kernel H} {q : TaskQueue} {nodes nodes' : List Nat} {task : Nat}

/-- A task that is in no queue is added at the end. -/
theorem addThreadTask_spec (chain : Chain k.next (k.head q) nodes)
    (short : nodes.length ≤ k.live.length) (fresh : task ∉ nodes) :
    ∃ k', addThreadTask k q task = some k' ∧ Edited k k' q nodes (nodes ++ [task]) ∧
      (k'.addedUnlinked ↔ k.addedUnlinked ∧ ∀ q, ¬ k.InQueue q task) := by
  unfold addThreadTask
  generalize marked : k.noteAdded task = k₁
  have next_ : k₁.next = k.next := by rw [← marked]; rfl
  have head_ : ∀ q, k₁.head q = k.head q := fun q => by rw [← marked]; cases q <;> rfl
  have tasks_ : k₁.tasks = k.tasks := by rw [← marked]; rfl
  have live_ : k₁.live = k.live := by rw [← marked]; rfl
  have flag : (k₁.addedUnlinked ↔ k.addedUnlinked ∧ ∀ q, ¬ k.InQueue q task) := by rw [← marked]; rfl
  have others : k₁.toState = k.toState ∧ k₁.current = k.current ∧ k₁.threadCnt = k.threadCnt ∧
      k₁.releasedZombies = k.releasedZombies := by
    rw [← marked]
    exact ⟨rfl, rfl, rfl, rfl⟩
  clear marked
  obtain ⟨state_, current_, threadCnt_, released_⟩ := others
  rw [← next_, ← head_ q] at chain
  rw [← live_] at short
  rw [← flag]
  rcases List.eq_nil_or_concat nodes with rfl | ⟨front, back, rfl⟩
  · have empty : k₁.head q = none := chain.head_eq
    dsimp only
    rw [empty]
    refine ⟨_, rfl, ?_, by cases q <;> rfl⟩
    constructor
    · rw [next_setNext, next_setHead, head_setNext, head_setHead]
      exact .single (Function.update_self _ _ _)
    · intro q' other
      rw [head_setNext, head_setHead_of_ne other, head_]
    · intro p _ out
      rw [next_setNext, next_setHead, next_, Function.update_of_ne]
      rintro rfl
      exact out List.mem_cons_self
    · intro p
      rw [tasks_setNext, tasks_setHead, tasks_]
    · rw [← state_]; cases q <;> rfl
    · rw [← current_]; cases q <;> rfl
    · rw [← threadCnt_]; cases q <;> rfl
    · rw [← live_]; cases q <;> rfl
    · rw [← released_]; cases q <;> rfl
  · rw [List.concat_eq_append] at *
    obtain ⟨first, head⟩ : ∃ first, k₁.head q = some first := by
      cases empty : k₁.head q with
      | none =>
          rw [empty] at chain
          exact absurd chain.empty (by simp)
      | some first => exact ⟨first, rfl⟩
    rw [List.length_append, List.length_singleton] at short
    have walk := chain
    rw [head] at walk
    have found := walk.last_eq (Nat.lt_of_succ_le short)
    dsimp only
    rw [head]
    dsimp only
    rw [found]
    refine ⟨_, rfl, ?_, Iff.rfl⟩
    constructor
    · rw [next_setNext, next_setNext, head_setNext, head_setNext, List.append_assoc]
      exact chain.append fresh
    · intro q' _
      rw [head_setNext, head_setNext, head_]
    · intro p out out'
      rw [next_setNext, next_setNext, next_, Function.update_of_ne, Function.update_of_ne]
      · rintro rfl
        exact out (List.mem_append_right front List.mem_cons_self)
      · rintro rfl
        exact out' (List.mem_append_right _ List.mem_cons_self)
    · intro p
      rw [tasks_setNext, tasks_setNext, tasks_]
    · exact state_
    · exact current_
    · exact threadCnt_
    · exact live_
    · exact released_

/-- The head is moved to the second task. -/
theorem edited_unlinkHead {x : Nat} {rest : List Nat}
    (chain : Chain k.next (k.head q) (x :: rest)) :
    Edited k (k.setHead q (k.next x)) q (x :: rest) rest := by
  have head : k.head q = some x := chain.head_eq
  rw [head] at chain
  obtain ⟨_, same, tail⟩ := chain.tail
  cases same
  constructor
  · rw [next_setHead, head_setHead]
    exact tail
  · exact fun q' other => head_setHead_of_ne other _
  · intro p _ _
    rw [next_setHead]
  · intro p
    rw [next_setHead, tasks_setHead]
    rfl
  all_goals cases q <;> rfl

/-- The link of a task is moved behind the next one. -/
theorem edited_unlink {prev x : Nat} {front rest : List Nat}
    (chain : Chain k.next (k.head q) (front ++ prev :: x :: rest)) :
    Edited k (k.setNext prev (k.next x)) q (front ++ prev :: x :: rest) (front ++ prev :: rest) := by
  constructor
  · rw [next_setNext, head_setNext]
    exact chain.unlink
  · intro q' _
    rw [head_setNext]
  · intro p outside _
    rw [next_setNext, Function.update_of_ne]
    rintro rfl
    apply outside
    simp
  · exact fun p => tasks_setNext k _ _ p
  all_goals rfl

/-- The first task is taken from its queue. -/
theorem popThreadTask_spec {rest : List Nat} (chain : Chain k.next (k.head q) (task :: rest)) :
    (popThreadTask k q).2 = some task ∧ Edited k (popThreadTask k q).1 q (task :: rest) rest ∧
      (popThreadTask k q).1.addedUnlinked = k.addedUnlinked := by
  have head : k.head q = some task := chain.head_eq
  unfold popThreadTask
  rw [head]
  exact ⟨rfl, edited_unlinkHead chain, by cases q <;> rfl⟩

theorem Edited.refl (chain : Chain k.next (k.head q) nodes) : Edited k k q nodes nodes :=
  ⟨chain, fun _ _ => rfl, fun _ _ _ => rfl, fun _ => rfl, rfl, rfl, rfl, rfl, rfl⟩

/-- The walk stands behind `front`, whose last task is `prev`. -/
theorem rmThreadTaskLoop_spec {front rest : List Nat} {fuel : Nat} {current : Option Nat}
    (chain : Chain k.next (k.head q) (front ++ rest)) (tail : Chain k.next current rest)
    (passed : task ∉ front) (enough : rest.length ≤ fuel) :
    ∃ k', rmThreadTaskLoop k q task fuel front.getLast? current = some k' ∧
      Edited k k' q (front ++ rest) ((front ++ rest).erase task) ∧
        k'.addedUnlinked = k.addedUnlinked := by
  induction rest generalizing front fuel current with
  | nil =>
      cases tail
      have out : (front ++ []).erase task = front ++ [] :=
        List.erase_of_not_mem (by rwa [List.append_nil])
      refine ⟨k, by unfold rmThreadTaskLoop; cases fuel <;> rfl, ?_, rfl⟩
      rw [out]
      exact .refl chain
  | cons x rest ih =>
      have same : current = some x := tail.head_eq
      subst same
      obtain ⟨_, same, later⟩ := tail.tail
      cases same
      obtain ⟨fuel, rfl⟩ :=
        Nat.exists_eq_succ_of_ne_zero (Nat.ne_of_gt (Nat.lt_of_lt_of_le (Nat.succ_pos _) enough))
      rw [List.length_cons] at enough
      unfold rmThreadTaskLoop
      by_cases here : x = task
      · subst here
        have out : (front ++ x :: rest).erase x = front ++ rest := by
          rw [List.erase_append_right _ passed, List.erase_cons_head]
        rw [if_pos rfl, out]
        rcases List.eq_nil_or_concat front with rfl | ⟨before, prev, rfl⟩
        · exact ⟨_, rfl, edited_unlinkHead chain, by cases q <;> rfl⟩
        · rw [List.concat_eq_append] at *
          rw [List.getLast?_concat]
          refine ⟨_, rfl, ?_, rfl⟩
          rw [List.append_assoc, List.append_assoc, List.singleton_append, List.singleton_append]
          rw [List.append_assoc, List.singleton_append] at chain
          exact edited_unlink chain
      · rw [if_neg here]
        have again : Chain k.next (k.head q) ((front ++ [x]) ++ rest) := by
          rwa [List.append_assoc, List.singleton_append]
        have behind : task ∉ front ++ [x] := by
          intro member
          rcases List.mem_append.mp member with old | last
          · exact passed old
          · exact here (List.mem_singleton.mp last).symm
        have last : (front ++ [x]).getLast? = some x := List.getLast?_concat
        have after := ih again later behind (by omega : rest.length ≤ fuel)
        rw [last, List.append_assoc, List.singleton_append] at after
        exact after

/-- The task is unlinked, if it is in the queue. -/
theorem rmThreadTask_spec (chain : Chain k.next (k.head q) nodes)
    (short : nodes.length ≤ k.live.length) :
    ∃ k', rmThreadTask k q task = some k' ∧ Edited k k' q nodes (nodes.erase task) ∧
      k'.addedUnlinked = k.addedUnlinked := by
  unfold rmThreadTask
  cases head : k.head q with
  | none =>
      rw [head] at chain
      cases chain
      refine ⟨k, rfl, .refl ?_, rfl⟩
      rw [head]
      exact .nil
  | some first =>
      have walk := chain
      rw [head] at walk
      have here : ∃ k', rmThreadTaskLoop k q task k.live.length ([] : List Nat).getLast?
          (some first) = some k' ∧ Edited k k' q ([] ++ nodes) (([] ++ nodes).erase task) ∧
            k'.addedUnlinked = k.addedUnlinked :=
        rmThreadTaskLoop_spec chain walk List.not_mem_nil short
      exact here

end Edits

/-! ## The representation -/

/-- The kernel has the queues that the lists describe, and `c` is in `tpidr_el1`. -/
structure Listed (c : Option Nat) (k : Kernel H) (a : Threads) : Prop where
  ready : Chain k.next k.readyQueue a.ready
  zombies : Chain k.next k.zombieQueue a.zombies
  wait : k.waitQueue = none
  current : k.current = c
  state : ∀ p, (k.tasks p).state = a.state p
  live : k.live = a.live
  addedUnlinked : k.addedUnlinked
  releasedZombies : k.releasedZombies

/-- The task that runs is the one of the lists. -/
abbrev Represents (k : Kernel H) (a : Threads) : Prop := Listed (some a.current) k a

section Represents

variable {c : Option Nat} {k k' : Kernel H} {a : Threads} {p : Nat} {nodes : List Nat}

theorem Listed.not_inQueue (listed : Listed c k a) (notReady : p ∉ a.ready)
    (notZombie : p ∉ a.zombies) (q : TaskQueue) : ¬ k.InQueue q p := by
  rintro ⟨nodes, chain, member⟩
  cases q with
  | ready => exact notReady (chain.unique listed.ready ▸ member)
  | wait =>
      have empty : k.head .wait = none := listed.wait
      rw [empty] at chain
      rw [chain.empty] at member
      cases member
  | zombie => exact notZombie (chain.unique listed.zombies ▸ member)

theorem Edited.next_eq {q : TaskQueue} {nodes' : List Nat} (edited : Edited k k' q nodes nodes')
    {x : Nat} (out : x ∉ nodes) (out' : x ∉ nodes') : k'.next x = k.next x :=
  edited.links x out out'

theorem Listed.editReady (listed : Listed c k a)
    (edited : Edited k k' .ready a.ready nodes) (apart : ∀ z ∈ a.zombies, z ∉ a.ready ∧ z ∉ nodes)
    (unlinked : k'.addedUnlinked) : Listed c k' { a with ready := nodes } where
  ready := edited.chain
  zombies := by
    have same : k'.zombieQueue = k.zombieQueue := edited.heads .zombie (by decide)
    rw [same]
    exact listed.zombies.congr fun z member =>
      edited.next_eq (apart z member).1 (apart z member).2
  wait := (edited.heads .wait (by decide)).trans listed.wait
  current := edited.current.trans listed.current
  state x := by
    rw [edited.tasks x]
    exact listed.state x
  live := edited.live.trans listed.live
  addedUnlinked := unlinked
  releasedZombies := edited.releasedZombies ▸ listed.releasedZombies

theorem Listed.editZombies (listed : Listed c k a)
    (edited : Edited k k' .zombie a.zombies nodes)
    (apart : ∀ x ∈ a.ready, x ∉ a.zombies ∧ x ∉ nodes) (unlinked : k'.addedUnlinked) :
    Listed c k' { a with zombies := nodes } where
  ready := by
    have same : k'.readyQueue = k.readyQueue := edited.heads .ready (by decide)
    rw [same]
    exact listed.ready.congr fun x member =>
      edited.next_eq (apart x member).1 (apart x member).2
  zombies := edited.chain
  wait := (edited.heads .wait (by decide)).trans listed.wait
  current := edited.current.trans listed.current
  state x := by
    rw [edited.tasks x]
    exact listed.state x
  live := edited.live.trans listed.live
  addedUnlinked := unlinked
  releasedZombies := edited.releasedZombies ▸ listed.releasedZombies

theorem Listed.setState (listed : Listed c k a) (p : Nat) (state : TaskState) :
    Listed c (k.setState p state) (a.setState p state) := by
  have links : (k.setState p state).next = k.next := by
    funext x
    unfold Kernel.next Kernel.setState Kernel.modify
    dsimp only
    by_cases here : x = p
    · rw [here, Function.update_self]
    · rw [Function.update_of_ne here]
  constructor
  · rw [links]
    exact listed.ready
  · rw [links]
    exact listed.zombies
  · exact listed.wait
  · exact listed.current
  · intro x
    unfold Kernel.setState Kernel.modify
    dsimp only
    by_cases here : x = p
    · rw [here, Function.update_self, Threads.setState_self]
    · rw [Function.update_of_ne here, Threads.setState_of_ne here]
      exact listed.state x
  · exact listed.live
  · exact listed.addedUnlinked
  · exact listed.releasedZombies

theorem Listed.addReady (listed : Listed c k a) (short : a.ready.length ≤ a.live.length)
    (notReady : p ∉ a.ready) (notZombie : p ∉ a.zombies) (apart : ∀ z ∈ a.zombies, z ∉ a.ready) :
    ∃ k', addThreadTask k .ready p = some k' ∧
      Listed c k' { a with ready := a.ready ++ [p] } := by
  rw [← listed.live] at short
  have chain : Chain k.next (k.head .ready) a.ready := listed.ready
  obtain ⟨k', added, edited, flag⟩ := addThreadTask_spec chain short notReady
  refine ⟨k', added, listed.editReady edited (fun z member => ⟨apart z member, fun inNew => ?_⟩)
    (flag.mpr ⟨listed.addedUnlinked, listed.not_inQueue notReady notZombie⟩)⟩
  rcases List.mem_append.mp inNew with old | last
  · exact apart z member old
  · exact notZombie (List.mem_singleton.mp last ▸ member)

theorem Listed.addZombie (listed : Listed c k a)
    (short : a.zombies.length ≤ a.live.length) (notReady : p ∉ a.ready) (notZombie : p ∉ a.zombies)
    (apart : ∀ z ∈ a.zombies, z ∉ a.ready) :
    ∃ k', addThreadTask k .zombie p = some k' ∧
      Listed c k' { a with zombies := a.zombies ++ [p] } := by
  rw [← listed.live] at short
  have chain : Chain k.next (k.head .zombie) a.zombies := listed.zombies
  obtain ⟨k', added, edited, flag⟩ := addThreadTask_spec chain short notZombie
  refine ⟨k', added, listed.editZombies edited
    (fun x member => ⟨fun zombie => apart x zombie member, fun inNew => ?_⟩)
    (flag.mpr ⟨listed.addedUnlinked, listed.not_inQueue notReady notZombie⟩)⟩
  rcases List.mem_append.mp inNew with old | last
  · exact apart x old member
  · exact notReady (List.mem_singleton.mp last ▸ member)

theorem Listed.popReady (listed : Listed c k a) {rest : List Nat}
    (shape : a.ready = p :: rest) (apart : ∀ z ∈ a.zombies, z ∉ a.ready) :
    (popThreadTask k .ready).2 = some p ∧
      Listed c (popThreadTask k .ready).1 { a with ready := rest } := by
  have chain : Chain k.next (k.head .ready) (p :: rest) := shape ▸ listed.ready
  obtain ⟨popped, edited, flag⟩ := popThreadTask_spec chain
  rw [← shape] at edited
  refine ⟨popped, listed.editReady edited (fun z member => ⟨apart z member, fun inRest => ?_⟩)
    (flag ▸ listed.addedUnlinked)⟩
  exact apart z member (shape ▸ List.mem_cons_of_mem p inRest)

theorem Listed.popZombie (listed : Listed c k a) {rest : List Nat}
    (shape : a.zombies = p :: rest) (apart : ∀ z ∈ a.zombies, z ∉ a.ready) :
    (popThreadTask k .zombie).2 = some p ∧
      Listed c (popThreadTask k .zombie).1 { a with zombies := rest } := by
  have chain : Chain k.next (k.head .zombie) (p :: rest) := shape ▸ listed.zombies
  obtain ⟨popped, edited, flag⟩ := popThreadTask_spec chain
  rw [← shape] at edited
  refine ⟨popped, listed.editZombies edited
    (fun x member => ⟨fun zombie => apart x zombie member, fun inRest => ?_⟩)
    (flag ▸ listed.addedUnlinked)⟩
  exact apart x (shape ▸ List.mem_cons_of_mem p inRest) member

theorem Listed.rmReady (listed : Listed c k a) (short : a.ready.length ≤ a.live.length)
    (apart : ∀ z ∈ a.zombies, z ∉ a.ready) (p : Nat) :
    ∃ k', rmThreadTask k .ready p = some k' ∧
      Listed c k' { a with ready := a.ready.erase p } := by
  rw [← listed.live] at short
  have chain : Chain k.next (k.head .ready) a.ready := listed.ready
  obtain ⟨k', removed, edited, flag⟩ := @rmThreadTask_spec _ _ _ _ p chain short
  exact ⟨k', removed, listed.editReady edited
    (fun z member => ⟨apart z member, fun inErased =>
      apart z member (List.mem_of_mem_erase inErased)⟩) (flag ▸ listed.addedUnlinked)⟩

theorem Listed.rmWait (listed : Listed c k a) (p : Nat) :
    rmThreadTask k .wait p = some k := by
  have empty : k.head .wait = none := listed.wait
  unfold rmThreadTask
  rw [empty]

end Represents

/-! ## Switching -/

section Switching

variable {k : Kernel H} {a : Threads} {p : Nat}

theorem Listed.switchTo {c : Option Nat} (listed : Listed c k a) (prev next : Nat)
    (registers : CpuContext) :
    Represents (cpuSwitchTo k prev next registers) { a with current := next } := by
  have same : ∀ x, ((cpuSwitchTo k prev next registers).tasks x).next = (k.tasks x).next ∧
      ((cpuSwitchTo k prev next registers).tasks x).state = (k.tasks x).state := by
    intro x
    unfold cpuSwitchTo Kernel.modify
    dsimp only
    by_cases here : x = prev
    · rw [here, Function.update_self]
      exact ⟨rfl, rfl⟩
    · rw [Function.update_of_ne here]
      exact ⟨rfl, rfl⟩
  exact ⟨listed.ready.congr fun x _ => (same x).1, listed.zombies.congr fun x _ => (same x).1,
    listed.wait, rfl, fun x => (same x).2.trans (listed.state x), listed.live,
    listed.addedUnlinked, listed.releasedZombies⟩

theorem schedule_refines (ordered : a.Ordered) (represents : Represents k a)
    (registers : CpuContext) :
    ∃ k', schedule k registers = some k' ∧ Represents k' a.schedule := by
  unfold schedule Threads.schedule
  rw [represents.current]
  have head : k.readyQueue = a.ready.head? := represents.ready.head_eq
  cases shape : a.ready with
  | nil =>
      rw [shape] at head
      rw [head]
      exact ⟨k, rfl, represents⟩
  | cons next rest =>
      rw [shape] at head
      rw [head]
      dsimp only [List.head?_cons]
      by_cases same : next = a.current
      · rw [if_pos same, if_pos same]
        exact ⟨k, rfl, represents⟩
      · rw [if_neg same, if_neg same]
        obtain ⟨notZombie, states⟩ := ordered.currentState
        -- the rest of the function, once the task that stops has been dealt with
        have finish : ∀ (k₁ : Kernel H) (b : Threads) {later : List Nat},
            Listed (some a.current) k₁ b → b.ready = next :: later →
              (∀ z ∈ b.zombies, z ∉ b.ready) → ∃ k', (do
                let after := popThreadTask (k₁.setState next .running) .ready
                return cpuSwitchTo after.1 a.current (← after.2) registers) = some k' ∧
              Represents k' { b.setState next .running with ready := later, current := next } := by
          intro k₁ b later represents₁ shape₁ apart
          obtain ⟨popped, represents₂⟩ :=
            (represents₁.setState next .running).popReady shape₁ apart
          generalize popThreadTask (k₁.setState next .running) .ready = after at *
          obtain ⟨k₂, front⟩ := after
          dsimp only at popped represents₂ ⊢
          rw [popped]
          exact ⟨_, rfl, represents₂.switchTo a.current next registers⟩
        unfold requeue
        rw [represents.state]
        rcases states with running | exited | ⟨ready, waits⟩
        · have notReady : a.current ∉ a.ready := fun member => by
            rw [ordered.readyState _ member] at running
            cases running
          rw [running]
          obtain ⟨k₁, added, represents₁⟩ := (represents.setState a.current .ready).addReady
            ordered.readyShort notReady notZombie ordered.apart
          have shape₁ : a.ready ++ [a.current] = next :: (rest ++ [a.current]) := by
            rw [shape]
            rfl
          have apart₁ : ∀ z ∈ a.zombies, z ∉ a.ready ++ [a.current] := by
            intro z zombie member
            rcases List.mem_append.mp member with old | last
            · exact ordered.apart z zombie old
            · exact notZombie (List.mem_singleton.mp last ▸ zombie)
          have finished := finish k₁ { a.setState a.current .ready with
            ready := a.ready ++ [a.current] } represents₁ shape₁ apart₁
          dsimp only
          rw [added]
          exact finished
        · have notReady : a.current ∉ a.ready := fun member => by
            rw [ordered.readyState _ member] at exited
            cases exited
          rw [exited]
          obtain ⟨k₁, added, represents₁⟩ := represents.addZombie ordered.zombiesShort notReady
            notZombie ordered.apart
          have apart₁ : ∀ z ∈ a.zombies ++ [a.current], z ∉ a.ready := by
            intro z zombie member
            rcases List.mem_append.mp zombie with old | last
            · exact ordered.apart z old member
            · exact notReady (List.mem_singleton.mp last ▸ member)
          have finished := finish k₁ { a with zombies := a.zombies ++ [a.current] } represents₁
            shape apart₁
          dsimp only
          rw [added]
          exact finished
        · rw [ready]
          exact finish k a represents shape ordered.apart

/-- A task leaves the queue of the ready ones for good. -/
theorem retire_refines (ordered : a.Ordered) (represents : Represents k a) (p : Nat) :
    ∃ k', (rmThreadTask k .ready p).bind (fun k => rmThreadTask k .wait p) = some k' ∧
      Represents (k'.setState p .exited) (a.retire p) := by
  obtain ⟨k₁, removed, represents₁⟩ := represents.rmReady ordered.readyShort ordered.apart p
  refine ⟨k₁, ?_, represents₁.setState p .exited⟩
  rw [removed, Option.bind_some]
  exact represents₁.rmWait p

theorem exit_refines (ordered : a.Ordered) (represents : Represents k a) (registers : CpuContext) :
    ∃ k', exit k registers = some k' ∧ Represents k' a.exit := by
  obtain ⟨k₁, removed, retired⟩ := retire_refines ordered represents a.current
  obtain ⟨k', switched, represents'⟩ :=
    schedule_refines (ordered.retire a.current) retired registers
  refine ⟨k', ?_, represents'⟩
  unfold exit
  rw [represents.current]
  dsimp only [Option.bind_eq_bind]
  rw [← Option.bind_assoc, removed]
  exact switched

/-- The search finds the first ready task with the identifier. -/
theorem getThreadTaskById_spec (ordered : a.Ordered) (represents : Represents k a)
    (pid : BitVec 32) :
    getThreadTaskById k pid = some (a.ready.find? fun p => decide ((k.tasks p).id = pid)) := by
  have short := ordered.readyShort
  rw [← represents.live] at short
  unfold getThreadTaskById
  dsimp only
  rw [represents.ready.find_eq short]
  dsimp only [Option.bind_eq_bind, Option.bind_some]
  cases a.ready.find? fun p => decide ((k.tasks p).id = pid) with
  | some task => rfl
  | none =>
      dsimp only
      rw [represents.wait]
      cases k.live.length <;> rfl

/-- The task that a kill has hit. -/
inductive Killed (k k' : Kernel H) (a : Threads) (pid : BitVec 32) : Int → Prop
  | missed (missing : ∀ p ∈ a.ready, (k.tasks p).id ≠ pid) (same : k' = k) : Killed k k' a pid (-1)
  | hit {p : Nat} (ready : p ∈ a.ready) (found : getThreadTaskById k pid = some (some p))
      (represents : Represents k' (a.kill p)) : Killed k k' a pid 0

theorem kill_refines (ordered : a.Ordered) (represents : Represents k a) (pid : BitVec 32)
    (registers : CpuContext) :
    ∃ k' result, kill k pid registers = some (k', result) ∧ Killed k k' a pid result := by
  have search := getThreadTaskById_spec ordered represents pid
  unfold kill
  rw [search]
  dsimp only [Option.bind_eq_bind, Option.bind_some]
  cases found : a.ready.find? fun p => decide ((k.tasks p).id = pid) with
  | none =>
      refine ⟨k, -1, rfl, .missed (fun p member isPid => ?_) rfl⟩
      have missing := List.find?_eq_none.mp found p member
      exact missing (decide_eq_true isPid)
  | some p =>
      have ready : p ∈ a.ready := List.mem_of_find?_eq_some found
      have isFound : getThreadTaskById k pid = some (some p) := search.trans (congrArg some found)
      obtain ⟨k₁, removed, retired⟩ := retire_refines ordered represents p
      dsimp only
      have same : (a.retire p).current = a.current := rfl
      rw [← Option.bind_assoc, removed, Option.bind_some, retired.current, same]
      by_cases self : a.current = p
      · have whole : a.kill p = (a.retire p).schedule := by
          unfold Threads.kill
          rw [if_pos self]
        obtain ⟨k', switched, represents'⟩ :=
          schedule_refines (ordered.retire p) retired registers
        rw [if_pos (congrArg some self), switched]
        exact ⟨k', 0, rfl, .hit ready isFound (whole ▸ represents')⟩
      · have whole : a.kill p = { a.retire p with zombies := a.zombies ++ [p] } := by
          unfold Threads.kill
          rw [if_neg self]
        obtain ⟨k', added, represents'⟩ := retired.addZombie (ordered.retire p).zombiesShort
          (ordered.ready.not_mem_erase) (ordered.disjoint ready) (ordered.retire p).apart
        rw [if_neg fun same => self (Option.some.inj same), added]
        exact ⟨k', 0, rfl, .hit ready isFound (whole ▸ represents')⟩

end Switching

end OsdiKernel.Sched
