import OsdiKernel.Sched.QueueWalks
import OsdiKernel.Sched.Exec

/-!
# Walks that are interrupted

The queue goes round while a walk is interrupted.  When the caller runs again
every other task has had its turn, and the queue is the one that the walk has
left, without the tasks that have exited, unless the caller was in the queue
itself.
-/

namespace OsdiKernel.Sched

open Queue (Chain)

/-! ## Rotation -/

namespace Threads

/-- The list that the caller has left, if it is still ready or running: as it
was, or gone round with the caller in it.  A caller that has exited is gone. -/
inductive Round (caller : Nat) (ready : List Nat) (a : Threads) : Prop
  | gone (zombie : caller ∈ a.zombies)
  | here (isCurrent : a.current = caller) (same : a.ready = ready)
  | away (front back : List Nat) (other : a.current ≠ caller)
      (shape : ready = front ++ a.current :: back) (rotated : a.ready = back ++ caller :: front)

section Rotation

variable {a : Threads} {caller p : Nat} {ready : List Nat}

/-- What a task that is ready or runs does in a switch. -/
inductive Switched (a : Threads) : Threads → Prop
  | stays : Switched a a
  | running {next : Nat} {rest : List Nat} (shape : a.ready = next :: rest)
      (other : next ≠ a.current) (runs : a.state a.current = .running) :
      Switched a { (a.setState a.current .ready).setState next .running with
        ready := rest ++ [a.current], current := next }
  | exited {next : Nat} {rest : List Nat} (shape : a.ready = next :: rest)
      (other : next ≠ a.current) (exited : a.state a.current = .exited) :
      Switched a { a.setState next .running with
        ready := rest, zombies := a.zombies ++ [a.current], current := next }
  | waiting {next : Nat} {rest : List Nat} (shape : a.ready = next :: rest)
      (other : next ≠ a.current) (waits : a.state a.current = .ready) :
      Switched a { a.setState next .running with ready := rest, current := next }

theorem schedule_switched (a : Threads) : Switched a a.schedule := by
  unfold schedule
  split
  · exact .stays
  · next next rest shape =>
      split
      · exact .stays
      · next other =>
          split
          · next runs => exact .running shape other runs
          · next exited => exact .exited shape other exited
          · next waits => exact .waiting shape other waits
          · exact .stays

/-- A task that is in no queue and does not run is left alone. -/
theorem Switched.untouched {b : Threads} (switched : Switched a b) (notReady : p ∉ a.ready)
    (notZombie : p ∉ a.zombies) (other : a.current ≠ p) :
    p ∉ b.ready ∧ p ∉ b.zombies ∧ b.current ≠ p ∧ b.state p = a.state p ∧ b.live = a.live := by
  have notFirst : ∀ {next : Nat} {rest : List Nat}, a.ready = next :: rest → next ≠ p ∧ p ∉ rest := by
    intro next rest shape
    rw [shape, List.mem_cons, not_or] at notReady
    exact ⟨fun same => notReady.1 same.symm, notReady.2⟩
  have notLast : ∀ {l : List Nat}, p ∉ l → p ∉ l ++ [a.current] := by
    intro l notMember member
    rcases List.mem_append.mp member with old | last
    · exact notMember old
    · exact other (List.mem_singleton.mp last).symm
  cases switched with
  | stays => exact ⟨notReady, notZombie, other, rfl, rfl⟩
  | running shape _ _ =>
      obtain ⟨first, rest⟩ := notFirst shape
      refine ⟨notLast rest, notZombie, first, ?_, rfl⟩
      exact (setState_of_ne first.symm _).trans (setState_of_ne other.symm _)
  | exited shape _ _ =>
      obtain ⟨first, rest⟩ := notFirst shape
      exact ⟨rest, notLast notZombie, first, setState_of_ne first.symm _, rfl⟩
  | waiting shape _ _ =>
      obtain ⟨first, rest⟩ := notFirst shape
      exact ⟨rest, notZombie, first, setState_of_ne first.symm _, rfl⟩

theorem Ordered.waits (ordered : a.Ordered) (isReady : a.state a.current = .ready) :
    a.current ∈ a.ready := by
  rcases ordered.currentState.2 with runs | exited | ⟨_, member⟩
  · rw [runs] at isReady; cases isReady
  · rw [exited] at isReady; cases isReady
  · exact member

/-- The task is ready, or it runs, or it is to be released. -/
def Waits (a : Threads) (p : Nat) : Prop := p ∈ a.ready ∨ p = a.current ∨ p ∈ a.zombies

/-- A switch drops no task. -/
theorem Switched.keeps {b : Threads} (switched : Switched a b) (ordered : a.Ordered)
    (waits : a.Waits p) : b.Waits p := by
  cases switched with
  | stays => exact waits
  | running shape _ _ =>
      rcases waits with member | rfl | zombie
      · rw [shape] at member
        rcases List.mem_cons.mp member with isNext | later
        · exact Or.inr (Or.inl isNext)
        · exact Or.inl (List.mem_append_left _ later)
      · exact Or.inl (List.mem_append_right _ List.mem_cons_self)
      · exact Or.inr (Or.inr zombie)
  | exited shape _ _ =>
      rcases waits with member | rfl | zombie
      · rw [shape] at member
        rcases List.mem_cons.mp member with isNext | later
        · exact Or.inr (Or.inl isNext)
        · exact Or.inl later
      · exact Or.inr (Or.inr (List.mem_append_right _ List.mem_cons_self))
      · exact Or.inr (Or.inr (List.mem_append_left _ zombie))
  | waiting shape _ isReady =>
      have member : p ∈ a.ready ∨ p ∈ a.zombies := by
        rcases waits with member | rfl | zombie
        · exact Or.inl member
        · exact Or.inl (ordered.waits isReady)
        · exact Or.inr zombie
      rcases member with member | zombie
      · rw [shape] at member
        rcases List.mem_cons.mp member with isNext | later
        · exact Or.inr (Or.inl isNext)
        · exact Or.inl later
      · exact Or.inr (Or.inr zombie)

/-- A queue that is not empty does not become empty, unless the caller is gone,
or is all that is left when another task exits. -/
theorem Switched.nonempty {b : Threads} (switched : Switched a b) (ordered : a.Ordered)
    (there : a.Waits caller)
    (unneeded : a.current ≠ caller → a.state a.current = .exited → a.ready ≠ [caller])
    (nonempty : a.ready ≠ [] ∨ caller ∈ a.zombies) : b.ready ≠ [] ∨ caller ∈ b.zombies := by
  cases switched with
  | stays => exact nonempty
  | running => exact Or.inl (List.append_ne_nil_of_right_ne_nil _ (List.cons_ne_nil _ _))
  | @exited _ rest shape _ exited =>
      rcases there with member | rfl | zombie
      · by_cases same : a.current = caller
        · exact Or.inr (List.mem_append_right _ (List.mem_singleton.mpr same.symm))
        · refine Or.inl fun (alone : rest = []) => unneeded same exited ?_
          rw [shape, alone] at member ⊢
          rw [List.mem_singleton.mp member]
      · exact Or.inr (List.mem_append_right _ List.mem_cons_self)
      · exact Or.inr (List.mem_append_left _ zombie)
  | waiting shape other isReady =>
      have member := ordered.waits isReady
      rw [shape] at member
      rcases List.mem_cons.mp member with isNext | later
      · exact absurd isNext.symm other
      · exact Or.inl (List.ne_nil_of_mem later)

/-- The task that runs after a switch away is not in the queue. -/
theorem Switched.runs {b : Threads} (switched : Switched a b)
    (others : a.current ≠ caller → a.state a.current ≠ .ready) :
    b.current ≠ caller → b.state b.current ≠ .ready := by
  intro away
  have runs : ∀ {b : Threads}, b.state b.current = .running → b.state b.current ≠ .ready := by
    intro b runs
    rw [runs]
    decide
  cases switched with
  | stays => exact others away
  | running => exact runs (setState_self _ _ _)
  | exited => exact runs (setState_self _ _ _)
  | waiting => exact runs (setState_self _ _ _)

/-- The queue goes round. -/
theorem Round.switch {b : Threads} (round : a.Round caller ready) (switched : Switched a b)
    (ordered : a.Ordered) (others : a.current ≠ caller → a.state a.current ≠ .ready)
    (unlinked : a.current = caller → a.state caller = .ready → a.ready.head? = some caller) :
    b.Round caller ready ∨ a.current ≠ caller ∧ a.state a.current = .exited ∧
      b.Round caller (ready.filter (· ≠ a.current)) := by
  cases round with
  | gone zombie =>
      refine Or.inl (.gone ?_)
      cases switched with
      | exited => exact List.mem_append_left _ zombie
      | _ => exact zombie
  | here isCurrent same =>
      subst same
      cases switched with
      | stays => exact Or.inl (.here isCurrent rfl)
      | @running next rest shape other _ =>
          exact Or.inl (.away [] rest (isCurrent ▸ other) shape
            (congrArg (fun p => rest ++ [p]) isCurrent))
      | exited => exact Or.inl (.gone (List.mem_append_right _ (List.mem_singleton.mpr isCurrent.symm)))
      | waiting shape other waits =>
          have first := unlinked isCurrent (isCurrent ▸ waits)
          rw [shape] at first
          exact absurd ((Option.some.inj first).trans isCurrent.symm) other
  | away front back other shape rotated =>
      have notReady := ordered.not_ready (others other)
      have unlike := ordered.ready
      rw [rotated] at notReady unlike
      cases switched with
      | stays => exact Or.inl (.away front back other shape rotated)
      | waiting _ _ waits => exact absurd waits (others other)
      | @running next rest first _ _ =>
          refine Or.inl ?_
          rw [rotated] at first
          cases back with
          | nil =>
              cases first
              exact .here rfl shape.symm
          | cons x back =>
              cases first
              have notCaller : next ≠ caller := by
                rintro rfl
                exact (List.nodup_cons.mp unlike).1 (List.mem_append_right back List.mem_cons_self)
              refine .away (front ++ [a.current]) back notCaller ?_ ?_
              · rw [shape, List.append_assoc]
                rfl
              · exact List.append_assoc back (caller :: front) [a.current]
      | @exited next rest first _ exited =>
          refine Or.inr ⟨other, exited, ?_⟩
          have left : ready.filter (· ≠ a.current) = front ++ back := by
            have stays : (front ++ back).filter (· ≠ a.current) = front ++ back := by
              refine List.filter_eq_self.mpr fun x member => decide_eq_true ?_
              rintro rfl
              rcases List.mem_append.mp member with inFront | inBack
              · exact notReady (List.mem_append_right back (List.mem_cons_of_mem _ inFront))
              · exact notReady (List.mem_append_left _ inBack)
            rw [shape, List.filter_append, List.filter_cons_of_neg (by simp), ← List.filter_append]
            exact stays
          rw [left]
          rw [rotated] at first
          cases back with
          | nil =>
              cases first
              exact .here rfl (List.append_nil front).symm
          | cons x back =>
              cases first
              have notCaller : next ≠ caller := by
                rintro rfl
                exact (List.nodup_cons.mp unlike).1 (List.mem_append_right back List.mem_cons_self)
              exact .away front back notCaller rfl rfl

theorem filter_first {p q : Nat} {back : List Nat} (other : p ≠ q) :
    (q :: back).filter (· ≠ p) = q :: back.filter (· ≠ p) :=
  List.filter_cons_of_pos (decide_eq_true other.symm)

theorem filter_around {p q : Nat} {front back : List Nat} (other : p ≠ q) :
    (front ++ q :: back).filter (· ≠ p) = front.filter (· ≠ p) ++ q :: back.filter (· ≠ p) := by
  rw [List.filter_append, filter_first other]

/-- A task behind another one is left when the current task exits, unless it is
the current one and stands at the end. -/
theorem Round.stays_behind {link : Nat → Option Nat} {head : Option Nat} {front back : List Nat}
    {q next : Nat} (round : a.Round caller (front ++ q :: next :: back))
    (chain : Chain link head a.ready) (ordered : a.Ordered)
    (others : a.current ≠ caller → a.state a.current ≠ .ready) (away : a.current ≠ caller)
    (found : ¬ (head = some caller ∧ link q = none)) :
    caller ∈ a.zombies ∨
      ∃ next' back', (next :: back).filter (· ≠ a.current) = next' :: back' := by
  cases round with
  | gone zombie => exact Or.inl zombie
  | here isCurrent _ => exact absurd isCurrent away
  | away passed rest _ shape rotated =>
      refine Or.inr ?_
      by_cases isNext : next = a.current
      · have notReady := ordered.not_ready (others away)
        rw [rotated] at notReady
        have notPassed : a.current ∉ passed := fun member =>
          notReady (List.mem_append_right rest (List.mem_cons_of_mem _ member))
        have notRest : a.current ∉ rest := fun member => notReady (List.mem_append_left _ member)
        subst isNext
        have split : passed ++ a.current :: rest = (front ++ [q]) ++ a.current :: back := by
          rw [List.append_assoc]
          exact shape.symm
        obtain ⟨same, _, rfl⟩ := (List.append_cons_inj_of_notMem notPassed notRest).mp split
        cases rest with
        | nil =>
            rw [rotated, same] at chain
            have last : Chain link head ((caller :: front) ++ [q]) := chain
            exact absurd ⟨chain.head_eq, last.link_eq⟩ found
        | cons x rest =>
            have other : x ≠ a.current := ne_of_mem_of_not_mem List.mem_cons_self notRest
            refine ⟨x, rest.filter (· ≠ a.current), ?_⟩
            rw [List.filter_cons_of_neg (by simp), filter_first other.symm]
      · exact ⟨next, _, filter_first (Ne.symm isNext)⟩

/-- When the caller runs again the queue is as it has left it. -/
theorem Round.back (round : a.Round caller ready) (ordered : a.Ordered)
    (isCurrent : a.current = caller) : a.ready = ready := by
  cases round with
  | gone zombie => exact absurd (isCurrent ▸ zombie) ordered.currentState.1
  | here _ same => exact same
  | away _ _ other _ _ => exact absurd isCurrent other

end Rotation

end Threads

/-! ## Links of other tasks -/

variable {H : Type}

section Links

variable {k k' : Kernel H} {a : Threads} {p : Nat}

theorem setNext_self (ends : k.next p = none) : k.setNext p none = k := by
  have same : ({ k.tasks p with next := none } : Task) = k.tasks p := by
    rw [← ends]
    rfl
  unfold Kernel.setNext Kernel.modify
  dsimp only
  rw [same, Function.update_eq_self]

/-- A switch only writes the links of tasks that are in a queue or run. -/
theorem schedule_links (ordered : a.Ordered) (represents : Represents k a) {registers : CpuContext}
    (switched : schedule k registers = some k') (notReady : p ∉ a.ready) (notZombie : p ∉ a.zombies)
    (other : a.current ≠ p) : k'.next p = k.next p := by
  have requeued : ∀ k₁, requeue k a.current = some (some k₁) → k₁.next p = k.next p := by
    intro k₁ result
    have short : a.ready.length ≤ k.live.length := represents.live ▸ ordered.readyShort
    have zombiesShort : a.zombies.length ≤ k.live.length := represents.live ▸ ordered.zombiesShort
    unfold requeue at result
    rw [represents.state] at result
    have notLast : ∀ {l : List Nat}, p ∉ l → p ∉ l ++ [a.current] := by
      intro l notMember member
      rcases List.mem_append.mp member with old | last
      · exact notMember old
      · exact other (List.mem_singleton.mp last).symm
    split at result
    · next runs =>
        have fresh := ordered.not_ready (by rw [runs]; decide)
        have links : (k.setState a.current .ready).next = k.next := next_modify _ _ _ fun _ => rfl
        have chain : Chain (k.setState a.current .ready).next
            ((k.setState a.current .ready).head .ready) a.ready := by
          rw [links]
          exact represents.ready
        obtain ⟨k₂, added, edited, _⟩ := addThreadTask_spec chain short fresh
        rw [added] at result
        cases result
        exact (edited.links p notReady (notLast notReady)).trans (congrFun links p)
    · next blocked =>
        rcases ordered.currentState.2 with runs | exited | ⟨ready, _⟩
        · rw [runs] at blocked; cases blocked
        · rw [exited] at blocked; cases blocked
        · rw [ready] at blocked; cases blocked
    · next exited =>
        have chain : Chain k.next (k.head .zombie) a.zombies := represents.zombies
        obtain ⟨k₂, added, edited, _⟩ := addThreadTask_spec chain zombiesShort ordered.currentState.1
        rw [added] at result
        cases result
        exact edited.links p notZombie (notLast notZombie)
    · cases result
      rfl
    · cases result
  unfold schedule at switched
  rw [represents.current] at switched
  dsimp only at switched
  split at switched
  · cases switched; rfl
  · next next ready =>
      split at switched
      · cases switched; rfl
      · split at switched
        · cases switched; rfl
        · next result =>
            obtain ⟨k₁, same, switches⟩ := Option.bind_eq_some_iff.mp switched
            subst same
            rw [← requeued k₁ result]
            unfold popThreadTask at switches
            have running : (k₁.setState next .running).next = k₁.next := next_modify _ _ _ fun _ => rfl
            split at switches
            · cases switches
            · cases switches
              rw [next_cpuSwitchTo, next_setHead, running]

end Links

/-! ## One statement of a walk -/

section Edits

variable {k : Kernel H} {front : List Nat} {task current : Nat}

/-- The task becomes the only one of the queue. -/
theorem edited_store (ends : k.next task = none) :
    Edited k (k.setHead .ready (some task)) .ready [] [task] where
  chain := by
    rw [next_setHead, head_setHead]
    exact .single ends
  heads _ other := head_setHead_of_ne other _
  links _ _ _ := by rw [next_setHead]
  tasks p := by
    rw [next_setHead, tasks_setHead]
    rfl
  state := rfl
  current := rfl
  threadCnt := rfl
  live := rfl
  releasedZombies := rfl

/-- The task is linked behind the last one of the queue. -/
theorem edited_link (chain : Chain k.next (k.head .ready) (front ++ [current]))
    (fresh : task ∉ front ++ [current]) (ends : k.next task = none) :
    Edited k (k.setNext current (some task)) .ready (front ++ [current])
      (front ++ [current, task]) where
  chain := by
    have other : task ≠ current := by
      rintro rfl
      exact fresh (List.mem_append_right front List.mem_cons_self)
    have linked := chain.append fresh
    have last : Function.update k.next current (some task) task = none :=
      (Function.update_of_ne other _ _).trans ends
    have written : Function.update (Function.update k.next current (some task)) task none =
        Function.update k.next current (some task) := by
      rw [← last, Function.update_eq_self]
    rw [written] at linked
    rw [next_setNext, head_setNext]
    exact linked
  heads q' _ := head_setNext k current (some task) q'
  links p outside _ := by
    rw [next_setNext, Function.update_of_ne]
    rintro rfl
    exact outside (List.mem_append_right front List.mem_cons_self)
  tasks p := tasks_setNext k _ _ p
  state := rfl
  current := rfl
  threadCnt := rfl
  live := rfl
  releasedZombies := rfl

end Edits

/-! ## The invariant -/

/-- The task that is to be added is still as its caller has made it. -/
structure Fresh (k : Kernel H) (a : Threads) (task : Nat) : Prop where
  isLive : task ∈ a.live
  notReady : task ∉ a.ready
  notZombie : task ∉ a.zombies
  other : a.current ≠ task
  isReady : a.state task = .ready
  ends : k.next task = none

/-- Where a walk stands in the queue that it will find. -/
inductive Stage (caller task : Nat) (k : Kernel H) (a : Threads) : QueueCall → Prop
  | addTest (fresh : Fresh k a task) : Stage caller task k a .addTest
  | addStore (fresh : Fresh k a task) (round : a.Round caller []) : Stage caller task k a .addStore
  | addStart (fresh : Fresh k a task) (nonempty : a.ready ≠ [] ∨ caller ∈ a.zombies) :
      Stage caller task k a .addStart
  | addWalk {current : Nat} {front back : List Nat} (fresh : Fresh k a task)
      (round : a.Round caller (front ++ current :: back)) : Stage caller task k a (.addWalk current)
  | addAdvance {current next : Nat} {front back : List Nat} (fresh : Fresh k a task)
      (round : a.Round caller (front ++ current :: next :: back)) :
      Stage caller task k a (.addAdvance current)
  | addLink {current : Nat} {front : List Nat} (fresh : Fresh k a task)
      (round : a.Round caller (front ++ [current])) : Stage caller task k a (.addLink current)
  | addClear {front : List Nat} (round : a.Round caller (front ++ [task])) :
      Stage caller task k a .addClear
  | rmTest : Stage caller task k a .rmTest
  | rmStart : Stage caller task k a .rmStart
  | rmHead {back : List Nat} (round : a.Round caller (task :: back)) :
      Stage caller task k a (.rmHead task)
  | rmLink {prev : Nat} {front back : List Nat}
      (round : a.Round caller (front ++ prev :: task :: back)) :
      Stage caller task k a (.rmLink prev task)
  | rmAdvance {current : Nat} {front back : List Nat}
      (round : a.Round caller (front ++ current :: back)) (passed : task ∉ front ++ [current]) :
      Stage caller task k a (.rmAdvance current)

/-- The walk is under way in a kernel that is in order, or it is over. -/
inductive WalkInv (k₀ : Kernel H) (caller task : Nat) (sys : WalkSystem H) : Prop
  | walking (a : Threads) (ordered : a.Ordered) (represents : Represents sys.kernel a)
      (others : a.current ≠ caller → a.state a.current ≠ .ready) (there : a.Waits caller)
      (kept : ∀ p, k₀.InQueue .ready p → p ≠ task → a.Waits p)
      (stage : Stage caller task sys.kernel a sys.call)
  | finished (ready : List Nat) (ended : sys.call.ended = true)
      (kept : QueueKept k₀ caller task sys ready)

section Invariant

variable {k₀ k k' : Kernel H} {a : Threads} {caller task : Nat} {sys sys' : WalkSystem H}
  {call call' : QueueCall}

theorem Fresh.switch (fresh : Fresh k a task) (ordered : a.Ordered) (represents : Represents k a)
    {registers : CpuContext} (switched : schedule k registers = some k') :
    Fresh k' a.schedule task := by
  obtain ⟨notReady, notZombie, other, state, live⟩ :=
    (Threads.schedule_switched a).untouched fresh.notReady fresh.notZombie fresh.other
  refine ⟨live ▸ fresh.isLive, notReady, notZombie, other, state.trans fresh.isReady, ?_⟩
  rw [schedule_links ordered represents switched fresh.notReady fresh.notZombie fresh.other]
  exact fresh.ends

/-- The timer interrupts the walk. -/
theorem Stage.switch (stage : Stage caller task k a call) (ordered : a.Ordered)
    (represents : Represents k a) (others : a.current ≠ caller → a.state a.current ≠ .ready)
    (there : a.Waits caller)
    (unlinked : a.current = caller → a.state caller = .ready → a.ready.head? ≠ some caller →
      call.unread = true)
    (unneeded : a.current ≠ caller → a.state a.current = .exited →
      ¬ call.needs k caller task a.current)
    {registers : CpuContext} (switched : schedule k registers = some k') :
    Stage caller task k' a.schedule call := by
  have moved := Threads.schedule_switched a
  have round : ∀ {ready : List Nat}, call.unread = false → a.Round caller ready →
      a.schedule.Round caller ready ∨ a.current ≠ caller ∧ ¬ call.needs k caller task a.current ∧
        a.schedule.Round caller (ready.filter (· ≠ a.current)) := by
    intro ready hasRead round
    have result := round.switch moved ordered others fun isCurrent isReady => by
      by_contra notFirst
      rw [unlinked isCurrent isReady notFirst] at hasRead
      cases hasRead
    exact result.imp_right fun left => ⟨left.1, unneeded left.1 left.2.1, left.2.2⟩
  have freshly : ∀ fresh : Fresh k a task, Fresh k' a.schedule task :=
    fun fresh => fresh.switch ordered represents switched
  cases stage with
  | addTest fresh => exact .addTest (freshly fresh)
  | addStore fresh r =>
      rcases round rfl r with r' | ⟨_, _, r'⟩
      · exact .addStore (freshly fresh) r'
      · exact .addStore (freshly fresh) r'
  | addStart fresh nonempty =>
      refine .addStart (freshly fresh) (moved.nonempty ordered there (fun away exited alone => ?_) nonempty)
      have chain : Chain k.next k.readyQueue ([] ++ [caller]) := alone ▸ represents.ready
      exact unneeded away exited ⟨chain.head_eq, chain.link_eq⟩
  | addWalk fresh r =>
      rcases round rfl r with r' | ⟨_, needless, r'⟩
      · exact .addWalk (freshly fresh) r'
      · rw [Threads.filter_around needless] at r'
        exact .addWalk (freshly fresh) r'
  | @addAdvance current next front back fresh r =>
      rcases round rfl r with r' | ⟨away, needless, r'⟩
      · exact .addAdvance (freshly fresh) r'
      · rcases r.stays_behind represents.ready ordered others away (needless ∘ Or.inr) with
          zombie | ⟨next', back', left⟩
        · have gone : a.schedule.Round caller ([] ++ current :: next :: []) :=
            .gone (Threads.zombies_schedule a zombie)
          exact .addAdvance (freshly fresh) gone
        · rw [Threads.filter_around (needless ∘ Or.inl), left] at r'
          exact .addAdvance (freshly fresh) r'
  | addLink fresh r =>
      rcases round rfl r with r' | ⟨_, needless, r'⟩
      · exact .addLink (freshly fresh) r'
      · rw [Threads.filter_around needless] at r'
        exact .addLink (freshly fresh) r'
  | addClear r =>
      rcases round rfl r with r' | ⟨_, needless, r'⟩
      · exact .addClear r'
      · rw [Threads.filter_around needless] at r'
        exact .addClear r'
  | rmTest => exact .rmTest
  | rmStart => exact .rmStart
  | rmHead r =>
      rcases round rfl r with r' | ⟨_, needless, r'⟩
      · exact .rmHead r'
      · rw [Threads.filter_first needless] at r'
        exact .rmHead r'
  | rmLink r =>
      rcases round rfl r with r' | ⟨_, needless, r'⟩
      · exact .rmLink r'
      · rw [Threads.filter_around (needless ∘ Or.inl),
          Threads.filter_first (needless ∘ Or.inr)] at r'
        exact .rmLink r'
  | @rmAdvance current front back r passed =>
      rcases round rfl r with r' | ⟨_, needless, r'⟩
      · exact .rmAdvance r' passed
      · rw [Threads.filter_around needless] at r'
        refine .rmAdvance r' fun member => passed ?_
        rcases List.mem_append.mp member with old | last
        · exact List.mem_append_left _ (List.mem_of_mem_filter old)
        · exact List.mem_append_right _ last

theorem Listed.kept {p : Nat} (represents : Represents k a) (waits : a.Waits p) :
    p ∈ a.ready ∨ k.current = some p ∨ k.InQueue .zombie p := by
  rcases waits with member | rfl | zombie
  · exact Or.inl member
  · exact Or.inr (Or.inl represents.current)
  · exact Or.inr (Or.inr ⟨a.zombies, represents.zombies, zombie⟩)

/-- The loop of `rm_thread_task` goes on behind the tasks that it has passed. -/
theorem rmLoop_inv (ordered : a.Ordered) (represents : Represents k a)
    (kept : ∀ p, k₀.InQueue .ready p → p ≠ task → a.Waits p) (isCurrent : a.current = caller)
    {front rest : List Nat} (shape : a.ready = front ++ rest) (passed : task ∉ front) :
    WalkInv k₀ caller task ⟨k, .rmLoop task front.getLast? rest.head?⟩ := by
  have others : a.current ≠ caller → a.state a.current ≠ .ready := fun away => absurd isCurrent away
  have there : a.Waits caller := Or.inr (Or.inl isCurrent.symm)
  have round : a.Round caller (front ++ rest) := .here isCurrent shape
  cases rest with
  | nil =>
      refine .finished a.ready rfl
        { chain := represents.ready
          nodup := ordered.ready
          kept := fun p inQueue other => represents.kept (kept p inQueue other)
          continues := fun _ => Or.inl rfl
          added := nofun
          removed := fun _ => ?_ }
      rwa [shape, List.append_nil]
  | cons x rest =>
      unfold QueueCall.rmLoop
      dsimp only [List.head?_cons]
      by_cases here : x = task
      · subst here
        rw [if_pos rfl]
        rcases List.eq_nil_or_concat front with rfl | ⟨before, prev, rfl⟩
        · exact .walking a ordered represents others there kept (.rmHead round)
        · rw [List.concat_eq_append] at *
          rw [List.append_assoc, List.singleton_append] at round
          rw [List.getLast?_concat]
          exact .walking a ordered represents others there kept (.rmLink round)
      · rw [if_neg here]
        have passed' : task ∉ front ++ [x] := by
          intro member
          rcases List.mem_append.mp member with old | last
          · exact passed old
          · exact here (List.mem_singleton.mp last).symm
        exact .walking a ordered represents others there kept (.rmAdvance round passed')

/-- The task is now in the queue. -/
theorem linked_inv (ordered : a.Ordered) (represents : Represents k a)
    (kept : ∀ p, k₀.InQueue .ready p → p ≠ task → a.Waits p) (isCurrent : a.current = caller)
    (fresh : Fresh k a task) (edited : Edited k k' .ready a.ready (a.ready ++ [task]))
    (unlinked : k'.addedUnlinked = k.addedUnlinked) :
    WalkInv k₀ caller task ⟨k', .addClear⟩ := by
  have represents' : Represents k' { a with ready := a.ready ++ [task] } := by
    refine represents.editReady edited (fun z zombie => ⟨ordered.apart z zombie, fun member => ?_⟩)
      (unlinked ▸ represents.addedUnlinked)
    rcases List.mem_append.mp member with old | last
    · exact ordered.apart z zombie old
    · exact fresh.notZombie (List.mem_singleton.mp last ▸ zombie)
  exact .walking { a with ready := a.ready ++ [task] }
    (ordered.link fresh.isLive fresh.notReady fresh.isReady) represents'
    (fun away => absurd isCurrent away) (Or.inr (Or.inl isCurrent.symm))
    (fun p inQueue other => (kept p inQueue other).imp_left (List.mem_append_left _))
    (.addClear (.here isCurrent rfl))

/-- The task is no longer in the queue. -/
theorem unlinked_inv (ordered : a.Ordered) (represents : Represents k a)
    (kept : ∀ p, k₀.InQueue .ready p → p ≠ task → a.Waits p)
    {front back : List Nat} (shape : a.ready = front ++ task :: back)
    (edited : Edited k k' .ready a.ready (front ++ back))
    (unlinked : k'.addedUnlinked = k.addedUnlinked) :
    WalkInv k₀ caller task ⟨k', .removed⟩ := by
  have unlike := ordered.ready
  rw [shape] at unlike
  have fewer : (front ++ task :: back).Perm (task :: (front ++ back)) := List.perm_middle
  have split := List.nodup_cons.mp (fewer.nodup_iff.mp unlike)
  have inReady : ∀ {x : Nat}, x ∈ front ++ back → x ∈ a.ready := fun member =>
    shape ▸ fewer.mem_iff.mpr (List.mem_cons_of_mem task member)
  have represents' : Represents k' { a with ready := front ++ back } :=
    represents.editReady edited (fun z zombie => ⟨ordered.apart z zombie, fun member =>
      ordered.apart z zombie (inReady member)⟩) (unlinked ▸ represents.addedUnlinked)
  refine .finished (front ++ back) rfl
    { chain := edited.chain
      nodup := split.2
      kept := fun p inQueue other => represents'.kept ?_
      continues := fun _ => Or.inl rfl
      added := nofun
      removed := fun _ => split.1 }
  refine (kept p inQueue other).imp_left fun member => ?_
  rw [shape] at member
  rcases List.mem_cons.mp (fewer.mem_iff.mp member) with same | rest
  · exact absurd same other
  · exact rest

/-- One statement of the caller, which finds the queue as it has left it. -/
theorem Stage.statement (stage : Stage caller task k a call) (ordered : a.Ordered)
    (represents : Represents k a) (kept : ∀ p, k₀.InQueue .ready p → p ≠ task → a.Waits p)
    (isCurrent : a.current = caller) (stepped : call.step k task = some (k', call')) :
    WalkInv k₀ caller task ⟨k', call'⟩ := by
  have others : a.current ≠ caller → a.state a.current ≠ .ready := fun away => absurd isCurrent away
  have there : a.Waits caller := Or.inr (Or.inl isCurrent.symm)
  have found : ∀ {front back : List Nat} {x : Nat}, a.Round caller (front ++ x :: back) →
      k.next x = back.head? := by
    intro front back x round
    have chain := represents.ready
    rw [round.back ordered isCurrent] at chain
    exact chain.link_eq
  cases stage with
  | addTest fresh =>
      cases stepped
      split
      · next empty =>
          have shape : a.ready = [] := by
            have chain := represents.ready
            rw [empty] at chain
            exact chain.empty
          exact .walking a ordered represents others there kept (.addStore fresh (.here isCurrent shape))
      · next nonempty =>
          refine .walking a ordered represents others there kept (.addStart fresh (Or.inl fun shape => ?_))
          have chain := represents.ready
          rw [shape] at chain
          exact nonempty chain.head_eq
  | addStore fresh round =>
      cases stepped
      have shape := round.back ordered isCurrent
      refine linked_inv ordered represents kept isCurrent fresh ?_ rfl
      have same : a.ready ++ [task] = [task] := by rw [shape, List.nil_append]
      rw [same, shape]
      exact edited_store fresh.ends
  | addStart fresh nonempty =>
      obtain ⟨current, head, same⟩ := Option.bind_eq_some_iff.mp stepped
      cases same
      have first := represents.ready.head_eq
      rw [head] at first
      cases shape : a.ready with
      | nil =>
          rw [shape] at first
          cases first
      | cons x rest =>
          rw [shape] at first
          cases first
          have round : a.Round caller ([] ++ current :: rest) := .here isCurrent shape
          exact .walking a ordered represents others there kept (.addWalk fresh round)
  | @addWalk current front back fresh round =>
      cases stepped
      have link := found round
      split
      · next ends =>
          cases back with
          | nil => exact .walking a ordered represents others there kept (.addLink fresh round)
          | cons x back =>
              rw [ends] at link
              cases link
      · next goes =>
          cases back with
          | nil => exact absurd link goes
          | cons x back => exact .walking a ordered represents others there kept (.addAdvance fresh round)
  | @addAdvance current next front back fresh round =>
      obtain ⟨next', link, same⟩ := Option.bind_eq_some_iff.mp stepped
      cases same
      rw [found round] at link
      cases link
      have round' : a.Round caller ((front ++ [current]) ++ next :: back) := by
        rw [List.append_assoc]
        exact round
      exact .walking a ordered represents others there kept (.addWalk fresh round')
  | @addLink current front fresh round =>
      cases stepped
      have shape := round.back ordered isCurrent
      have chain : Chain k.next (k.head .ready) (front ++ [current]) := shape ▸ represents.ready
      have notReady := fresh.notReady
      rw [shape] at notReady
      have edited := edited_link chain notReady fresh.ends
      refine linked_inv ordered represents kept isCurrent fresh ?_ rfl
      rw [shape, List.append_assoc]
      exact edited
  | @addClear front round =>
      cases stepped
      have shape := round.back ordered isCurrent
      have ends : k.next task = none := found round
      rw [setNext_self ends]
      have member : task ∈ a.ready := by
        rw [shape]
        exact List.mem_append_right front List.mem_cons_self
      exact .finished a.ready rfl
        { chain := represents.ready
          nodup := ordered.ready
          kept := fun p inQueue other => represents.kept (kept p inQueue other)
          continues := fun _ => Or.inl rfl
          added := fun _ => List.count_eq_one_of_mem ordered.ready member
          removed := nofun }
  | rmTest =>
      cases stepped
      split
      · next empty =>
          have chain := represents.ready
          rw [empty] at chain
          have shape : a.ready = [] ++ [] := chain.empty
          exact rmLoop_inv ordered represents kept isCurrent shape List.not_mem_nil
      · exact .walking a ordered represents others there kept .rmStart
  | rmStart =>
      cases stepped
      rw [represents.ready.head_eq]
      exact rmLoop_inv ordered represents kept isCurrent (List.nil_append _).symm List.not_mem_nil
  | @rmHead back round =>
      cases stepped
      have shape : a.ready = [] ++ task :: back := round.back ordered isCurrent
      have chain : Chain k.next (k.head .ready) (task :: back) := by
        have chain := represents.ready
        rw [shape] at chain
        exact chain
      have edited := edited_unlinkHead chain
      refine unlinked_inv ordered represents kept shape ?_ rfl
      rw [shape]
      exact edited
  | @rmLink prev front back round =>
      cases stepped
      have shape := round.back ordered isCurrent
      have chain : Chain k.next (k.head .ready) (front ++ prev :: task :: back) := by
        rw [← shape]
        exact represents.ready
      have edited := edited_unlink chain
      have shape' : a.ready = (front ++ [prev]) ++ task :: back := by
        rw [shape, List.append_assoc]
        rfl
      refine unlinked_inv ordered represents kept shape' ?_ rfl
      rw [shape, List.append_assoc]
      exact edited
  | @rmAdvance current front back round passed =>
      cases stepped
      have shape : a.ready = (front ++ [current]) ++ back := by
        rw [round.back ordered isCurrent, List.append_assoc]
        rfl
      have last : (front ++ [current]).getLast? = some current := List.getLast?_concat
      rw [found round, ← last]
      exact rmLoop_inv ordered represents kept isCurrent shape passed

theorem Threads.Round.rest {state : Nat → TaskState} {ready : List Nat} (round : a.Round caller ready) :
    { a with state := state }.Round caller ready := by
  cases round with
  | gone zombie => exact .gone zombie
  | here isCurrent same => exact .here isCurrent same
  | away front back other shape rotated => exact .away front back other shape rotated

/-- The walk only depends on the queues, and on the task that is to be added. -/
theorem Stage.rest {state : Nat → TaskState} (stage : Stage caller task k a call)
    (links : k'.next = k.next) (same : a.current ≠ task → state task = a.state task) :
    Stage caller task k' { a with state := state } call := by
  have freshly : ∀ fresh : Fresh k a task, Fresh k' { a with state := state } task := fun fresh =>
    { fresh with
      isReady := (same fresh.other).trans fresh.isReady
      ends := links ▸ fresh.ends }
  cases stage with
  | addTest fresh => exact .addTest (freshly fresh)
  | addStore fresh round => exact .addStore (freshly fresh) round.rest
  | addStart fresh nonempty => exact .addStart (freshly fresh) nonempty
  | addWalk fresh round => exact .addWalk (freshly fresh) round.rest
  | addAdvance fresh round => exact .addAdvance (freshly fresh) round.rest
  | addLink fresh round => exact .addLink (freshly fresh) round.rest
  | addClear round => exact .addClear round.rest
  | rmTest => exact .rmTest
  | rmStart => exact .rmStart
  | rmHead round => exact .rmHead round.rest
  | rmLink round => exact .rmLink round.rest
  | rmAdvance round passed => exact .rmAdvance round.rest passed

/-- The walk does not run into a null pointer. -/
theorem Stage.continues (stage : Stage caller task k a call) (ordered : a.Ordered)
    (represents : Represents k a) (isCurrent : a.current = caller) :
    ∃ next, call.step k task = some next := by
  cases stage with
  | addStart _ nonempty =>
      have first := represents.ready.head_eq
      cases shape : a.ready with
      | nil =>
          rcases nonempty with nonempty | zombie
          · exact absurd shape nonempty
          · exact absurd (isCurrent ▸ zombie) ordered.currentState.1
      | cons x rest =>
          rw [shape] at first
          refine ⟨(k, .addWalk x), ?_⟩
          dsimp only [QueueCall.step]
          rw [first]
          rfl
  | @addAdvance current next _ _ _ round =>
      have chain := represents.ready
      rw [round.back ordered isCurrent] at chain
      refine ⟨(k, .addWalk next), ?_⟩
      dsimp only [QueueCall.step]
      rw [chain.link_eq]
      rfl
  | _ => exact ⟨_, rfl⟩

theorem Kernel.InQueue.congr {q : TaskQueue} {p : Nat} (inQueue : k.InQueue q p)
    (links : k'.next = k.next) (head : k'.head q = k.head q) : k'.InQueue q p := by
  obtain ⟨nodes, chain, member⟩ := inQueue
  exact ⟨nodes, head ▸ links ▸ chain, member⟩

theorem QueueCall.ended_step (ended : call.ended = true) : call.step k task = none := by
  cases call with
  | added => rfl
  | removed => rfl
  | _ => cases ended

/-- Every step keeps the invariant. -/
theorem WalkInv.step {op : WalkOp} (inv : WalkInv k₀ caller task sys)
    (ok : Undisturbed caller task sys op) (stepped : WalkStep caller task sys op sys') :
    WalkInv k₀ caller task sys' := by
  cases inv with
  | walking a ordered represents others there kept stage =>
      cases stepped with
      | statement runs stepped =>
          have isCurrent : a.current = caller := Option.some.inj (represents.current.symm.trans runs)
          exact stage.statement ordered represents kept isCurrent stepped
      | @schedule _ registers _ switched =>
          obtain ⟨k₁, switched₁, represents'⟩ := schedule_refines ordered represents registers
          rw [switched] at switched₁
          cases switched₁
          have moved := Threads.schedule_switched a
          refine .walking a.schedule ordered.schedule represents' (moved.runs others)
            (moved.keeps ordered there) (fun p inQueue other => moved.keeps ordered (kept p inQueue other))
            (stage.switch ordered represents others there ?_ ?_ switched)
          · intro isCurrent isReady notFirst
            exact ok.unlinked rfl (isCurrent ▸ represents.current)
              ((represents.state caller).trans isReady) (represents.ready.head_eq ▸ notFirst)
          · intro away exited
            exact ok.unneeded a.current rfl represents.current away
              ((represents.state a.current).trans exited)
      | exit _ runs other =>
          have isCurrent := represents.current
          rw [runs] at isCurrent
          cases isCurrent
          have notReady := ordered.not_ready (others other)
          have tidy := ordered.toTidy.setState notReady ordered.currentState.1 .exited
          have exited : (a.setState a.current .exited).Ordered :=
            { tidy with
              currentLive := ordered.currentLive
              currentState := ⟨ordered.currentState.1, Or.inr (Or.inl (Threads.setState_self a _ _))⟩ }
          have links : (sys.kernel.setState a.current .exited).next = sys.kernel.next :=
            next_modify _ a.current _ fun _ => rfl
          have hasExited : (a.setState a.current .exited).state a.current = .exited :=
            Threads.setState_self a _ _
          refine .walking _ exited (represents.setState a.current .exited) (fun _ isReady => ?_) there
            kept (stage.rest links fun notTask => Threads.setState_of_ne notTask.symm _)
          have both : TaskState.exited = .ready := hasExited.symm.trans isReady
          cases both
      | @rest s tasks same =>
          have links : ∀ p, ({ sys.kernel with toState := s, tasks := tasks } : Kernel H).next p =
              sys.kernel.next p := fun p => (same p).2
          refine .walking a ordered
            { represents with
              ready := represents.ready.congr fun p _ => links p
              zombies := represents.zombies.congr fun p _ => links p
              state := fun p => (same p).1.trans (represents.state p) }
            others there kept (stage.rest (funext links) fun _ => rfl)
  | finished ready ended kept =>
      cases stepped with
      | statement _ stepped =>
          rw [QueueCall.ended_step ended] at stepped
          cases stepped
      | schedule unfinished _ =>
          rw [ended] at unfinished
          cases unfinished
      | exit unfinished _ _ =>
          rw [ended] at unfinished
          cases unfinished
      | @rest s tasks same =>
          refine .finished ready ended
            { kept with
              chain := kept.chain.congr fun p _ => (same p).2
              kept := fun p inQueue other => (kept.kept p inQueue other).imp_right
                (Or.imp_right fun zombie => zombie.congr (funext fun p => (same p).2) rfl)
              continues := fun _ => Or.inl ended }

theorem WalkInv.queueKept (inv : WalkInv k₀ caller task sys) :
    ∃ ready, QueueKept k₀ caller task sys ready := by
  cases inv with
  | finished ready _ kept => exact ⟨ready, kept⟩
  | walking a ordered represents _ _ kept stage =>
      exact ⟨a.ready,
        { chain := represents.ready
          nodup := ordered.ready
          kept := fun p inQueue other => represents.kept (kept p inQueue other)
          continues := fun runs => Or.inr (stage.continues ordered represents
            (Option.some.inj (represents.current.symm.trans runs)))
          added := fun done => by
            rw [done] at stage
            cases stage
          removed := fun done => by
            rw [done] at stage
            cases stage }⟩

end Invariant

/-! ## Runs -/

section Runs

variable [Allocator H] {k : Kernel H} {a : Threads} {caller task : Nat} {start sys : WalkSystem H}

/-- The invariant holds at the beginning of a walk. -/
theorem CallStart.inv (begins : CallStart k caller start task) (ordered : a.Ordered)
    (represents : Represents k a) (isCurrent : a.current = caller) :
    WalkInv start.kernel caller task start := by
  cases begins with
  | @fork k' child currSp forkEnd fresh made =>
      have created := @allocThread_refines H _ _ k a (k.tasks caller).counter
        (k.tasks caller).priority (k.tasks caller).preemptCount ordered.toTidy represents fresh
      rw [made] at created
      rcases created with ⟨missing, _⟩ | ⟨_, isSome, notLive, represents₁⟩
      · cases missing
      cases isSome
      have notReady : task ∉ a.ready := fun member => notLive (ordered.readyLive member)
      have notZombie : task ∉ a.zombies := fun member => notLive (ordered.zombiesLive member)
      have notCurrent : a.current ≠ task := ne_of_mem_of_not_mem ordered.currentLive notLive
      have builds : Builds k' (forkBuilt k' caller task currSp forkEnd) task := by
        unfold forkBuilt
        dsimp only
        refine .trans ?_ (builds_modify _ task _ fun _ => rfl)
        exact builds_modify k' task _ fun _ => rfl
      have represents₂ := builds.listed represents₁ notReady notZombie
      have ends : (forkBuilt k' caller task currSp forkEnd).next task = none := by
        unfold forkBuilt Kernel.next Kernel.modify
        dsimp only
        rw [Function.update_self, Function.update_self]
      refine .walking _ (ordered.enter notLive) represents₂ (fun away => absurd isCurrent away)
        (Or.inr (Or.inl isCurrent.symm)) (fun p inQueue _ => ?_)
        (.addTest ⟨List.mem_cons_self, notReady, notZombie, notCurrent, Threads.setState_self a _ _, ends⟩)
      obtain ⟨nodes, chain, member⟩ := inQueue
      exact Or.inl (chain.unique represents₂.ready ▸ member)
  | kill _ =>
      refine .walking a ordered represents (fun away => absurd isCurrent away)
        (Or.inr (Or.inl isCurrent.symm)) (fun p inQueue _ => ?_) .rmTest
      obtain ⟨nodes, chain, member⟩ := inQueue
      exact Or.inl (chain.unique represents.ready ▸ member)

/-- A walk that is not disturbed keeps the queue, wherever it is interrupted. -/
theorem run_queueKept {allowed : Kernel H → Op → Prop} (reached : Reachable allowed k)
    (runs : k.current = some caller) (begins : CallStart k caller start task)
    (run : WalkRun (Undisturbed caller task) caller task start sys) :
    ∃ ready, QueueKept start.kernel caller task sys ready := by
  obtain ⟨a, ordered, represents⟩ := reached.represented
  have isCurrent : a.current = caller := Option.some.inj (represents.current.symm.trans runs)
  have inv : WalkInv start.kernel caller task sys := by
    induction run with
    | refl => exact begins.inv ordered represents isCurrent
    | step _ ok stepped ih => exact ih.step ok stepped
  exact inv.queueKept

end Runs

/-! ## Walks of the first threads -/

section Walks

variable {k k' k'' : Kernel H} {caller task first : Nat} {registers : CpuContext}

theorem undisturbed_statement (caller task : Nat) (sys : WalkSystem H) :
    Undisturbed caller task sys .statement := ⟨nofun, nofun⟩

theorem undisturbed_schedule {sys : WalkSystem H} {p : Nat} (runs : sys.kernel.current = some p)
    (running : (sys.kernel.tasks p).state = .running) : Undisturbed caller task sys .schedule := by
  constructor
  · intro _ isCaller ready _
    cases runs.symm.trans isCaller
    rw [running] at ready
    cases ready
  · intro q _ isCurrent _ exited
    cases runs.symm.trans isCurrent
    rw [running] at exited
    cases exited

/-- The second task is removed, and two other threads run before the walk goes on to it. -/
theorem removes_second {k₁ k₂ k₃ : Kernel H} {p₁ p₂ : Nat} (runs : k.current = some caller)
    (running : (k.tasks caller).state = .running) (head : k.readyQueue = some first)
    (other : first ≠ task) (away : schedule k registers = some k₁) (runs₁ : k₁.current = some p₁)
    (running₁ : (k₁.tasks p₁).state = .running) (on : schedule k₁ registers = some k₂)
    (runs₂ : k₂.current = some p₂) (running₂ : (k₂.tasks p₂).state = .running)
    (back : schedule k₂ registers = some k₃) (again : k₃.current = some caller)
    (link : k₃.next first = some task) :
    WalkRun (Undisturbed caller task) caller task ⟨k, .rmTest⟩
      ⟨k₃.setNext first (k₃.next task), .removed⟩ := by
  have ok := @undisturbed_statement H caller task
  have tests : QueueCall.rmTest.step k task = some (k, .rmStart) :=
    congrArg (fun call => some (k, call)) (if_neg (by rw [head]; simp))
  have starts : QueueCall.rmStart.step k task = some (k, .rmAdvance first) := by
    dsimp only [QueueCall.step]
    rw [head]
    exact congrArg (fun call => some (k, call)) (if_neg other)
  have advances : (QueueCall.rmAdvance first).step k₃ task = some (k₃, .rmLink first task) := by
    dsimp only [QueueCall.step]
    rw [link]
    exact congrArg (fun call => some (k₃, call)) (if_pos rfl)
  have started : WalkRun (Undisturbed caller task) caller task ⟨k, .rmTest⟩ ⟨k, .rmAdvance first⟩ :=
    .step (.step .refl (ok _) (.statement runs tests)) (ok _) (.statement runs starts)
  have interrupted : WalkRun (Undisturbed caller task) caller task ⟨k, .rmTest⟩
      ⟨k₃, .rmAdvance first⟩ :=
    .step (.step (.step started (undisturbed_schedule runs running) (.schedule rfl away))
      (undisturbed_schedule runs₁ running₁) (.schedule rfl on))
      (undisturbed_schedule runs₂ running₂) (.schedule rfl back)
  exact .step (.step interrupted (ok _) (.statement again advances)) (ok _) (.statement again rfl)

/-- The caller, which is in the queue, is interrupted behind itself. -/
theorem walk_behind (runs : k.current = some caller) (head : k.readyQueue = some first)
    (link : k.next first = some caller) (ends : k.next caller = none)
    (away : schedule k registers = some k') (back : schedule k' registers = some k'')
    (again : k''.current = some caller) :
    WalkRun (fun _ _ => True) caller task ⟨k, .addTest⟩
      ⟨(k''.setNext caller (some task)).setNext task none, .added⟩ := by
  have tests : QueueCall.addTest.step k task = some (k, .addStart) :=
    congrArg (fun call => some (k, call)) (if_neg (by rw [head]; nofun))
  have starts : QueueCall.addStart.step k task = some (k, .addWalk first) := by
    dsimp only [QueueCall.step]
    rw [head]
    rfl
  have goes : (QueueCall.addWalk first).step k task = some (k, .addAdvance first) :=
    congrArg (fun call => some (k, call)) (if_neg (by rw [link]; nofun))
  have advances : (QueueCall.addAdvance first).step k task = some (k, .addWalk caller) := by
    dsimp only [QueueCall.step]
    rw [link]
    rfl
  have stops : (QueueCall.addWalk caller).step k task = some (k, .addLink caller) :=
    congrArg (fun call => some (k, call)) (if_pos ends)
  have walked : WalkRun (fun _ _ => True) caller task ⟨k, .addTest⟩ ⟨k, .addLink caller⟩ :=
    .step (.step (.step (.step (.step .refl trivial (.statement runs tests)) trivial
      (.statement runs starts)) trivial (.statement runs goes)) trivial
      (.statement runs advances)) trivial (.statement runs stops)
  have interrupted : WalkRun (fun _ _ => True) caller task ⟨k, .addTest⟩ ⟨k'', .addLink caller⟩ :=
    .step (.step walked trivial (.schedule rfl away)) trivial (.schedule rfl back)
  exact .step (.step interrupted trivial (.statement again rfl)) trivial (.statement again rfl)

/-- The task is linked behind the caller, which is no longer in the queue. -/
theorem not_queueKept (head : k''.readyQueue = some first) (ends : k''.next first = none)
    (notCaller : first ≠ caller) (notTask : first ≠ task) :
    ¬ ∃ ready, QueueKept k caller task
      ⟨(k''.setNext caller (some task)).setNext task none, .added⟩ ready := by
  rintro ⟨ready, kept⟩
  have last : ((k''.setNext caller (some task)).setNext task none).next first = none := by
    rw [next_setNext, Function.update_of_ne notTask, next_setNext, Function.update_of_ne notCaller]
    exact ends
  have chain : Chain ((k''.setNext caller (some task)).setNext task none).next
      k''.readyQueue ready := kept.chain
  rw [head] at chain
  have once := kept.added rfl
  rw [chain.unique (.single last), List.count_cons_of_ne notTask] at once
  cases once

end Walks

open Fs (BootHeap)

/-- The thread that was created last is killed by the first one. -/
def lastThread : Nat := threadMade.2.get (by decide +kernel)

/-- Meanwhile the other two threads have their turns. -/
def turnAway : Kernel BootHeap := (schedule threadMade.1 .zero).get (by decide +kernel)

def turnOn : Kernel BootHeap := (schedule turnAway .zero).get (by decide +kernel)

def turnBack : Kernel BootHeap := (schedule turnOn .zero).get (by decide +kernel)

def lastKill : WalkSystem BootHeap := ⟨threadMade.1, .rmTest⟩

theorem run_queueKept_turns : ∃ ready, QueueKept lastKill.kernel idleTask lastThread
    ⟨turnBack.setNext idleThread (turnBack.next lastThread), .removed⟩ ready := by
  obtain ⟨runs, running, head, found, other⟩ : threadMade.1.current = some idleTask ∧
      (threadMade.1.tasks idleTask).state = .running ∧ threadMade.1.readyQueue = some idleThread ∧
        getThreadTaskById threadMade.1 1 = some (some lastThread) ∧ idleThread ≠ lastThread := by
    decide +kernel
  obtain ⟨runs₁, running₁, runs₂, running₂⟩ : turnAway.current = some idleThread ∧
      (turnAway.tasks idleThread).state = .running ∧ turnOn.current = some lastThread ∧
        (turnOn.tasks lastThread).state = .running := by decide +kernel
  obtain ⟨again, link⟩ : turnBack.current = some idleTask ∧
      turnBack.next idleThread = some lastThread := by decide +kernel
  have away : schedule threadMade.1 .zero = some turnAway := (Option.some_get _).symm
  have on : schedule turnAway .zero = some turnOn := (Option.some_get _).symm
  have back : schedule turnOn .zero = some turnBack := (Option.some_get _).symm
  have reached : Reachable (fun _ _ => True) threadMade.1 :=
    .step (.boot started_booted) trivial threadMade_step
  have begins : CallStart threadMade.1 idleTask lastKill lastThread := .kill found
  have walked : WalkRun (Undisturbed idleTask lastThread) idleTask lastThread lastKill
      ⟨turnBack.setNext idleThread (turnBack.next lastThread), .removed⟩ :=
    removes_second runs running head other away runs₁ running₁ on runs₂ running₂ back again link
  exact run_queueKept reached runs begins walked

theorem pair_get {α β : Type} (p : α × Option β) (isSome : p.2.isSome) :
    p = (p.1, some (p.2.get isSome)) := by
  rw [Option.some_get]

/-- The thread that the first `exec` has made. -/
def firstThread : Nat := firstExec.2.get firstExec_isSome

/-- It makes a child. -/
def execChild : Kernel BootHeap × Option Nat :=
  allocThread firstExec.1 (firstExec.1.tasks firstThread).counter
    (firstExec.1.tasks firstThread).priority (firstExec.1.tasks firstThread).preemptCount

def childTask : Nat := execChild.2.get (by decide +kernel)

def beforeAdd : Kernel BootHeap := forkBuilt execChild.1 firstThread childTask 0 0

def switchedAway : Kernel BootHeap := (schedule beforeAdd .zero).get (by decide +kernel)

def switchedBack : Kernel BootHeap := (schedule switchedAway .zero).get (by decide +kernel)

/-- The child of a thread that `exec` has started is lost. -/
theorem fork_loses_child : ∃ (k : Kernel BootHeap) (start sys : WalkSystem BootHeap) (caller task : Nat),
    Reachable (fun _ _ => True) k ∧ k.current = some caller ∧ CallStart k caller start task ∧
      WalkRun (fun _ _ => True) caller task start sys ∧
      ¬ ∃ ready, QueueKept start.kernel caller task sys ready := by
  obtain ⟨apart, isThread, notThread, notChild⟩ :
      ((firstExec.1.alloc taskSize).2.all fun p => decide (p ∉ firstExec.1.live)) ∧
        firstExec.1.current = some firstThread ∧ idleThread ≠ firstThread ∧
          idleThread ≠ childTask := by decide +kernel
  obtain ⟨runs, head, link, ends⟩ : beforeAdd.current = some firstThread ∧
      beforeAdd.readyQueue = some idleThread ∧ beforeAdd.next idleThread = some firstThread ∧
        beforeAdd.next firstThread = none := by decide +kernel
  obtain ⟨again, head', ends'⟩ : switchedBack.current = some firstThread ∧
      switchedBack.readyQueue = some idleThread ∧ switchedBack.next idleThread = none := by
    decide +kernel
  have fresh : FreshTask firstExec.1 := freshTask_of apart
  have made : execChild = (execChild.1, some childTask) := pair_get execChild _
  have away : schedule beforeAdd .zero = some switchedAway := (Option.some_get _).symm
  have back : schedule switchedAway .zero = some switchedBack := (Option.some_get _).symm
  exact ⟨firstExec.1, _, _, firstThread, childTask,
    .step (.boot started_booted) trivial firstExec_step, isThread,
    .fork fresh made, walk_behind runs head link ends away back again,
    not_queueKept head' ends' notThread notChild⟩

end OsdiKernel.Sched
