import OsdiKernel.Sched.Model

/-!
# The scheduler without its links

What the queues are for: a list of threads that wait for their turn, a list of
threads that are to be released, and the one that runs.  The invariant says
where a thread can be in each of its states.
-/

namespace OsdiKernel.Sched

/-- The queues as lists, with the thread that runs, the state of each thread and
the threads that are allocated. -/
structure Threads where
  ready : List Nat
  zombies : List Nat
  current : Nat
  state : Nat → TaskState
  live : List Nat

namespace Threads

def setState (a : Threads) (p : Nat) (state : TaskState) : Threads :=
  { a with state := Function.update a.state p state }

/-- The first thread that is ready runs instead of the current one. -/
def schedule (a : Threads) : Threads :=
  match a.ready with
  | [] => a
  | next :: rest =>
      if next = a.current then a
      else
        match a.state a.current with
        | .running =>
            { (a.setState a.current .ready).setState next .running with
              ready := rest ++ [a.current], current := next }
        | .exited =>
            { a.setState next .running with
              ready := rest, zombies := a.zombies ++ [a.current], current := next }
        | .ready => { a.setState next .running with ready := rest, current := next }
        | _ => a

def retire (a : Threads) (p : Nat) : Threads :=
  { a.setState p .exited with ready := a.ready.erase p }

def exit (a : Threads) : Threads := (a.retire a.current).schedule

def kill (a : Threads) (p : Nat) : Threads :=
  if a.current = p then (a.retire p).schedule
  else { a.retire p with zombies := a.zombies ++ [p] }

def create (a : Threads) (p : Nat) : Threads :=
  { a.setState p .ready with ready := a.ready ++ [p], live := p :: a.live }

/-- A new thread is created, and runs at once. -/
def exec (a : Threads) (p : Nat) : Threads := { a.create p with current := p }

def reap (a : Threads) : Threads := { a with zombies := [], live := a.live.diff a.zombies }

/-! ## The invariant -/

/-- Threads that are ready or are to be released are allocated and in the state
that goes with it. -/
structure Tidy (a : Threads) : Prop where
  live : a.live.Nodup
  ready : a.ready.Nodup
  zombies : a.zombies.Nodup
  readyLive : a.ready ⊆ a.live
  zombiesLive : a.zombies ⊆ a.live
  readyState : ∀ p ∈ a.ready, a.state p = .ready
  zombiesState : ∀ p ∈ a.zombies, a.state p = .exited

/-- The thread that runs is not to be released, and waits for its turn just
when its state says so. -/
structure Ordered (a : Threads) : Prop extends Tidy a where
  currentLive : a.current ∈ a.live
  currentState : a.current ∉ a.zombies ∧
    (a.state a.current = .running ∨ a.state a.current = .exited ∨
      a.state a.current = .ready ∧ a.current ∈ a.ready)

section Invariant

variable {a b : Threads} {p : Nat}

@[simp] theorem setState_self (a : Threads) (p : Nat) (state : TaskState) :
    (a.setState p state).state p = state := Function.update_self _ _ _

theorem setState_of_ne {q : Nat} (other : q ≠ p) (state : TaskState) :
    (a.setState p state).state q = a.state q := Function.update_of_ne other _ _

theorem Tidy.disjoint (tidy : a.Tidy) (member : p ∈ a.ready) : p ∉ a.zombies := by
  intro zombie
  have exited := tidy.zombiesState p zombie
  rw [tidy.readyState p member] at exited
  cases exited

theorem Tidy.apart (tidy : a.Tidy) : ∀ z ∈ a.zombies, z ∉ a.ready :=
  fun _ zombie member => tidy.disjoint member zombie

theorem Tidy.readyShort (tidy : a.Tidy) : a.ready.length ≤ a.live.length :=
  tidy.ready.length_le_of_subset tidy.readyLive

theorem Tidy.zombiesShort (tidy : a.Tidy) : a.zombies.length ≤ a.live.length :=
  tidy.zombies.length_le_of_subset tidy.zombiesLive

theorem nodup_concat {l : List Nat} (unlike : l.Nodup) (fresh : p ∉ l) : (l ++ [p]).Nodup :=
  List.nodup_append'.mpr ⟨unlike, List.nodup_singleton p, fun _ member last =>
    fresh (List.mem_singleton.mp last ▸ member)⟩

/-! ### One edit at a time -/

/-- The state of a thread that is in no queue. -/
theorem Tidy.setState (tidy : a.Tidy) (notReady : p ∉ a.ready) (notZombie : p ∉ a.zombies)
    (state : TaskState) : (a.setState p state).Tidy :=
  { tidy with
    readyState := fun q member =>
      (setState_of_ne (ne_of_mem_of_not_mem member notReady) state).trans (tidy.readyState q member)
    zombiesState := fun q member =>
      (setState_of_ne (ne_of_mem_of_not_mem member notZombie) state).trans
        (tidy.zombiesState q member) }

theorem Tidy.addReady (tidy : a.Tidy) (isLive : p ∈ a.live) (notReady : p ∉ a.ready)
    (isReady : a.state p = .ready) : { a with ready := a.ready ++ [p] }.Tidy :=
  { tidy with
    ready := nodup_concat tidy.ready notReady
    readyLive := List.append_subset.mpr ⟨tidy.readyLive, List.cons_subset.mpr ⟨isLive, List.nil_subset _⟩⟩
    readyState := by
      intro q member
      rcases List.mem_append.mp member with old | last
      · exact tidy.readyState q old
      · rw [List.mem_singleton.mp last]
        exact isReady }

theorem Tidy.addZombie (tidy : a.Tidy) (isLive : p ∈ a.live) (notZombie : p ∉ a.zombies)
    (exited : a.state p = .exited) : { a with zombies := a.zombies ++ [p] }.Tidy :=
  { tidy with
    zombies := nodup_concat tidy.zombies notZombie
    zombiesLive := List.append_subset.mpr ⟨tidy.zombiesLive, List.cons_subset.mpr ⟨isLive, List.nil_subset _⟩⟩
    zombiesState := by
      intro q member
      rcases List.mem_append.mp member with old | last
      · exact tidy.zombiesState q old
      · rw [List.mem_singleton.mp last]
        exact exited }

/-- The first thread that is ready may change its state, once it is taken. -/
theorem Tidy.pop (tidy : a.Tidy) {rest : List Nat} (shape : a.ready = p :: rest)
    (state : TaskState) : { a.setState p state with ready := rest }.Tidy := by
  have unlike := tidy.ready
  rw [shape, List.nodup_cons] at unlike
  have inReady : rest ⊆ a.ready := shape ▸ List.subset_cons_self p rest
  have notZombie : p ∉ a.zombies := tidy.disjoint (shape ▸ List.mem_cons_self)
  have popped : { a with ready := rest }.Tidy :=
    { tidy with
      ready := unlike.2
      readyLive := List.Subset.trans inReady tidy.readyLive
      readyState := fun q member => tidy.readyState q (inReady member) }
  exact popped.setState unlike.1 notZombie state

/-- A thread that has exited is not ready. -/
theorem Tidy.retire (tidy : a.Tidy) (p : Nat) : (a.retire p).Tidy :=
  { tidy with
    ready := tidy.ready.erase p
    readyLive := List.Subset.trans List.erase_subset tidy.readyLive
    readyState := by
      intro q member
      refine (setState_of_ne ?_ _).trans (tidy.readyState q (List.mem_of_mem_erase member))
      rintro rfl
      exact tidy.ready.not_mem_erase member
    zombiesState := by
      intro q member
      by_cases here : q = p
      · rw [here]
        exact setState_self a p _
      · exact (setState_of_ne here _).trans (tidy.zombiesState q member) }

/-- A thread in memory that was not in use. -/
theorem Tidy.enter (tidy : a.Tidy) (fresh : p ∉ a.live) (state : TaskState) :
    { a.setState p state with live := p :: a.live }.Tidy := by
  have larger : { a with live := p :: a.live }.Tidy :=
    { tidy with
      live := List.nodup_cons.mpr ⟨fresh, tidy.live⟩
      readyLive := fun _ member => List.mem_cons_of_mem p (tidy.readyLive member)
      zombiesLive := fun _ member => List.mem_cons_of_mem p (tidy.zombiesLive member) }
  exact larger.setState (fun member => fresh (tidy.readyLive member))
    (fun member => fresh (tidy.zombiesLive member)) state

/-! ### The operations -/

/-- The thread that runs next is not to be released, and its state says that it runs. -/
theorem Tidy.switch (tidy : a.Tidy) {rest : List Nat} (shape : a.ready = p :: rest) :
    { a.setState p .running with ready := rest, current := p }.Ordered :=
  { tidy.pop shape .running with
    currentLive := tidy.readyLive (shape ▸ List.mem_cons_self)
    currentState := ⟨tidy.disjoint (shape ▸ List.mem_cons_self), Or.inl (setState_self a p _)⟩ }

theorem Ordered.not_ready (ordered : a.Ordered) (other : a.state a.current ≠ .ready) :
    a.current ∉ a.ready :=
  fun member => other (ordered.readyState _ member)

theorem Ordered.schedule (ordered : a.Ordered) : a.schedule.Ordered := by
  unfold Threads.schedule
  split
  · exact ordered
  · next next rest shape =>
      split
      · exact ordered
      · next other =>
          split
          · next running =>
              have notReady := ordered.not_ready (by rw [running]; decide)
              have waits : { a.setState a.current .ready with
                  ready := a.ready ++ [a.current] }.Tidy :=
                (ordered.setState notReady ordered.currentState.1 .ready).addReady
                  ordered.currentLive notReady (setState_self a _ _)
              exact waits.switch (congrArg (· ++ [a.current]) shape)
          · next exited =>
              exact (ordered.addZombie ordered.currentLive ordered.currentState.1 exited).switch shape
          · exact ordered.toTidy.switch shape
          · exact ordered

theorem Ordered.retire (ordered : a.Ordered) (p : Nat) : (a.retire p).Ordered :=
  { ordered.toTidy.retire p with
    currentLive := ordered.currentLive
    currentState := by
      refine ⟨ordered.currentState.1, ?_⟩
      by_cases here : a.current = p
      · exact Or.inr (Or.inl (here ▸ setState_self a p _))
      · have same : (a.retire p).state a.current = a.state a.current := setState_of_ne here _
        change (a.retire p).state a.current = _ ∨ (a.retire p).state a.current = _ ∨
          (a.retire p).state a.current = _ ∧ _
        rw [same]
        exact ordered.currentState.2.imp_right (Or.imp_right fun waits =>
          ⟨waits.1, (List.mem_erase_of_ne here).mpr waits.2⟩) }

theorem Ordered.exit (ordered : a.Ordered) : a.exit.Ordered := (ordered.retire _).schedule

theorem Ordered.kill (ordered : a.Ordered) (ready : p ∈ a.ready) : (a.kill p).Ordered := by
  have retired := ordered.retire p
  unfold Threads.kill
  split
  · exact retired.schedule
  · next other =>
      have added := retired.addZombie (ordered.readyLive ready) (ordered.disjoint ready)
        (setState_self a p _)
      refine { added with
        currentLive := retired.currentLive
        currentState := ⟨fun member => ?_, retired.currentState.2⟩ }
      rcases List.mem_append.mp member with old | last
      · exact retired.currentState.1 old
      · exact other (List.mem_singleton.mp last)

theorem Tidy.create (tidy : a.Tidy) (fresh : p ∉ a.live) : (a.create p).Tidy :=
  (tidy.enter fresh .ready).addReady List.mem_cons_self
    (fun member => fresh (tidy.readyLive member)) (setState_self a p _)

theorem Ordered.enter (ordered : a.Ordered) (fresh : p ∉ a.live) :
    { a.setState p .ready with live := p :: a.live }.Ordered :=
  { ordered.toTidy.enter fresh .ready with
    currentLive := List.mem_cons_of_mem p ordered.currentLive
    currentState := by
      have same : (a.setState p .ready).state a.current = a.state a.current :=
        setState_of_ne (ne_of_mem_of_not_mem ordered.currentLive fresh) _
      refine ⟨ordered.currentState.1, ?_⟩
      change (a.setState p .ready).state a.current = _ ∨ (a.setState p .ready).state a.current = _ ∨
        (a.setState p .ready).state a.current = _ ∧ _
      rw [same]
      exact ordered.currentState.2 }

/-- A thread that is in no queue waits for its turn. -/
theorem Ordered.link (ordered : a.Ordered) (isLive : p ∈ a.live) (notReady : p ∉ a.ready)
    (isReady : a.state p = .ready) : { a with ready := a.ready ++ [p] }.Ordered :=
  { ordered.addReady isLive notReady isReady with
    currentLive := ordered.currentLive
    currentState := ⟨ordered.currentState.1, ordered.currentState.2.imp_right
      (Or.imp_right fun waits => ⟨waits.1, List.mem_append_left [p] waits.2⟩)⟩ }

theorem Ordered.create (ordered : a.Ordered) (fresh : p ∉ a.live) : (a.create p).Ordered :=
  (ordered.enter fresh).link List.mem_cons_self (fun member => fresh (ordered.readyLive member))
    (setState_self a p _)

theorem Ordered.exec (ordered : a.Ordered) (fresh : p ∉ a.live) : (a.exec p).Ordered :=
  { ordered.toTidy.create fresh with
    currentLive := List.mem_cons_self
    currentState := ⟨fun member => fresh (ordered.zombiesLive member),
      Or.inr (Or.inr ⟨setState_self a p _, List.mem_append_right a.ready List.mem_cons_self⟩)⟩ }

theorem Ordered.reap (ordered : a.Ordered) : a.reap.Ordered :=
  { ordered with
    live := ordered.live.diff
    zombies := List.nodup_nil
    readyLive := fun _ member =>
      ordered.live.mem_sdiff_iff.mpr ⟨ordered.readyLive member, ordered.disjoint member⟩
    zombiesLive := List.nil_subset _
    currentLive := ordered.live.mem_sdiff_iff.mpr ⟨ordered.currentLive, ordered.currentState.1⟩
    zombiesState := fun _ member => absurd member List.not_mem_nil
    currentState := ⟨List.not_mem_nil, ordered.currentState.2⟩ }

theorem Ordered.rest (ordered : a.Ordered) {state : Nat → TaskState}
    (same : ∀ p ∈ a.live, state p = a.state p) : { a with state := state }.Ordered :=
  { ordered with
    readyState := fun p member =>
      (same p (ordered.readyLive member)).trans (ordered.readyState p member)
    zombiesState := fun p member =>
      (same p (ordered.zombiesLive member)).trans (ordered.zombiesState p member)
    currentState := ⟨ordered.currentState.1, by
      dsimp only
      rw [same _ ordered.currentLive]
      exact ordered.currentState.2⟩ }

end Invariant

end Threads

end OsdiKernel.Sched
