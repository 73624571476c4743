import OsdiKernel.Timers.Invariant

/-!
# Runs of the timer list

Threads call `add_timer`, the timer interrupt runs the handler, and callbacks
add timers that expire after the handler has read the counter.  The rest of the
kernel uses the heap at any time.  A run is recorded with the state before each
of its steps.
-/

namespace OsdiKernel.Timers

open Allocator (Holds)

variable {H : Type} [Allocator H]

/-- What a step does: `added` is the second half of a call of `add_timer`, with the
timer that it puts on the list. -/
inductive Event where
  | elsewhere
  | began (new : Nat)
  | added (new : Nat) (timer : Timer) (reset : Option Reset)
  | entered (currTick : Nat)
  | called (curr : Nat) (timer : Timer)
  | returned
  | left (reset : Option Reset)
  deriving DecidableEq

omit [Allocator H] in
/-- The counter does not go back, the expiration is a 64-bit word and the message fits. -/
structure Request.Admitted (s : System H) (r : Request) : Prop where
  clock : s.clock ≤ r.now
  word : r.now + r.tick < 2 ^ 64
  fits : (r.msg.getD []).length < timerMsgSize

/-- One step of a thread, of the handler, of a callback or of the rest of the kernel. -/
inductive Step (s : System H) : Event → System H → Prop
  | elsewhere {heap : H} {others : List Nat}
      (kept : ∀ own, Holds s.heap (own ++ s.others) → Holds heap (own ++ others)) :
      Step s .elsewhere { s with heap := heap, others := others }
  | begin {s' : System H} {r : Request} {new : Nat} (idle : s.handler = none)
      (admitted : r.Admitted s) (allocated : newTimer s r = (s', some new)) :
      Step s (.began new) { s' with adding := (new, r.now) :: s.adding }
  | link {s' : System H} {fuel new currTick : Nat} {reset : Option Reset}
      (idle : s.handler = none) (began : (new, currTick) ∈ s.adding)
      (linked : linkTimer fuel s new currTick = some (s', reset)) :
      Step s (.added new (s.timers new) reset)
        { s' with adding := s.adding.erase (new, currTick) }
  | enter {now : Nat} (idle : s.handler = none) (clock : s.clock ≤ now) :
      Step s (.entered now) (enter s now)
  | call {handler : Handler} {curr : Nat} (runs : s.handler = some handler)
      (waits : handler.running = none) (first : expired s handler.currTick = some curr) :
      Step s (.called curr (s.timers curr)) (popTimer s handler curr)
  | callbackAdd {s' : System H} {handler : Handler} {fuel curr new : Nat} {r : Request}
      {reset : Option Reset} (runs : s.handler = some handler)
      (calls : handler.running = some curr) (admitted : r.Admitted s)
      (later : handler.currTick < r.now + r.tick)
      (added : addTimer fuel s r = some (s', some new, reset)) :
      Step s (.added new r.timer reset) s'
  | return {handler : Handler} {curr : Nat} (runs : s.handler = some handler)
      (calls : handler.running = some curr) : Step s .returned (freeTimer s handler curr)
  | leave {handler : Handler} (runs : s.handler = some handler) (waits : handler.running = none)
      (ends : expired s handler.currTick = none) :
      Step s (.left (handlerReset s handler)) { s with handler := none }

/-- A sequence of steps, each with the state before it. -/
inductive Run : System H → List (System H × Event) → System H → Prop
  | nil {s : System H} : Run s [] s
  | cons {s s' last : System H} {event : Event} {trace : List (System H × Event)}
      (step : Step s event s') (rest : Run s' trace last) : Run s ((s, event) :: trace) last

/-- No timer has been added. -/
structure Initial (s : System H) : Prop where
  empty : s.timerHead = none
  adding : s.adding = []
  idle : s.handler = none
  holds : Holds s.heap s.others

omit [Allocator H] in
/-- The timers that are allocated and not on the list. -/
def System.outside (s : System H) : List Nat :=
  (s.handler.bind Handler.running).toList ++ s.adding.map Prod.fst

/-- The timers of a list with their fields. -/
def System.entries (s : System H) (nodes : List Nat) : List (Nat × Timer) :=
  nodes.map fun p => (p, s.timers p)

/-- When the callback of a timer is due. -/
def Entry.expiration (entry : Nat × Timer) : Nat := entry.2.expiration

theorem Initial.inv {s : System H} (initial : Initial s) : Inv s s.outside [] := by
  have outside : s.outside = [] := by simp [System.outside, initial.adding, initial.idle]
  rw [outside]
  constructor
  · unfold System.Lists
    rw [initial.empty]
    exact .nil
  · exact List.Pairwise.nil
  · exact fun p member => nomatch member
  · exact List.nodup_nil
  · exact initial.holds

/-! ## One step -/

/-- What a step does to the timers on the list. -/
inductive Effect : List (Nat × Timer) → Event → List (Nat × Timer) → Prop
  | added {agenda : List (Nat × Timer)} {new : Nat} {timer : Timer} {reset : Option Reset} :
      Effect agenda (.added new timer reset) (Agenda.add Entry.expiration (new, timer) agenda)
  | called {agenda : List (Nat × Timer)} {curr : Nat} {timer : Timer} :
      Effect ((curr, timer) :: agenda) (.called curr timer) agenda
  | quiet {agenda : List (Nat × Timer)} {event : Event}
      (notAdded : ∀ new timer reset, event ≠ .added new timer reset)
      (notCalled : ∀ curr timer, event ≠ .called curr timer) : Effect agenda event agenda

section Steps

variable {s s' : System H} {event : Event} {nodes : List Nat} {new : Nat}

omit [Allocator H] in
theorem entries_add (s : System H) (new : Nat) (nodes : List Nat) :
    s.entries (Agenda.add s.expiration new nodes) =
      Agenda.add Entry.expiration (new, s.timers new) (s.entries nodes) := by
  unfold System.entries Agenda.add
  exact List.map_orderedInsert _ _ _ nodes new (fun _ _ => Iff.rfl) (fun _ _ => Iff.rfl)

omit [Allocator H] in
theorem entries_update (timer : Timer) (apart : new ∉ nodes) {s s' : System H}
    (same : s'.timers = Function.update s.timers new timer) :
    s'.entries nodes = s.entries nodes := by
  refine List.map_congr_left fun p member => ?_
  rw [same, Function.update_of_ne]
  rintro rfl
  exact apart member

omit [Allocator H] in
theorem expired_some {currTick curr : Nat} (first : expired s currTick = some curr) :
    s.timerHead = some curr ∧ (s.timers curr).expiration ≤ currTick := by
  obtain ⟨head, isDue⟩ := Option.filter_eq_some_iff.mp first
  exact ⟨head, of_decide_eq_true isDue⟩

theorem addTimer_some {fuel : Nat} {r : Request} {reset : Option Reset}
    (added : addTimer fuel s r = some (s', some new, reset)) :
    ∃ s₁, newTimer s r = (s₁, some new) ∧ linkTimer fuel s₁ new r.now = some (s', reset) := by
  unfold addTimer at added
  split at added
  · cases added
  · next s₁ new' allocated =>
      split at added
      · cases added
      · next s₂ reset' linked =>
          cases added
          exact ⟨s₁, allocated, linked⟩

/-- The local variables of the calls in progress and the clock are not part of the list. -/
theorem Inv.setLocals {outside : List Nat} (inv : Inv s outside nodes)
    (adding : List (Nat × Nat)) (handler : Option Handler) (clock : Nat) :
    Inv { s with adding := adding, handler := handler, clock := clock } outside nodes :=
  ⟨inv.lists, inv.sorted, inv.words, inv.distinct, inv.holds⟩

/-- Filling in a timer that is not on the list changes none of the list. -/
theorem newTimer_entries {r : Request} {outside : List Nat}
    (inv : Inv s' (new :: outside) nodes) (allocated : newTimer s r = (s', some new)) :
    s'.entries nodes = s.entries nodes := by
  obtain ⟨_, same⟩ := Inv.newTimer_eq allocated
  exact entries_update r.timer inv.apart (by rw [same])

theorem Step.preserves_begin {r : Request} (inv : Inv s s.outside nodes) (idle : s.handler = none)
    (allocated : newTimer s r = (s', some new)) :
    Inv { s' with adding := (new, r.now) :: s.adding }
        { s' with adding := (new, r.now) :: s.adding }.outside nodes ∧
      s'.entries nodes = s.entries nodes := by
  have made := inv.allocate allocated
  refine ⟨?_, newTimer_entries made allocated⟩
  obtain ⟨_, same⟩ := Inv.newTimer_eq allocated
  have outside : { s' with adding := (new, r.now) :: s.adding }.outside = new :: s.outside := by
    simp [System.outside, same, idle]
  rw [outside]
  exact made.setLocals _ _ _

/-- A timer that a call of `add_timer` has filled in is none of the list. -/
theorem Inv.began {currTick : Nat} (inv : Inv s s.outside nodes) (idle : s.handler = none)
    (began : (new, currTick) ∈ s.adding) :
    Inv s (new :: (s.adding.erase (new, currTick)).map Prod.fst) nodes := by
  have divided : s.outside.Perm (new :: (s.adding.erase (new, currTick)).map Prod.fst) := by
    simp only [System.outside, idle, Option.bind_none, Option.toList_none, List.nil_append]
    exact (List.perm_cons_erase began).map Prod.fst
  exact inv.perm divided

theorem Step.preserves_link {fuel currTick : Nat} {reset : Option Reset}
    (inv : Inv s s.outside nodes) (idle : s.handler = none) (began : (new, currTick) ∈ s.adding)
    (linked : linkTimer fuel s new currTick = some (s', reset)) :
    ∃ nodes', Inv { s' with adding := s.adding.erase (new, currTick) }
        { s' with adding := s.adding.erase (new, currTick) }.outside nodes' ∧
      s'.entries nodes' = Agenda.add Entry.expiration (new, s.timers new) (s.entries nodes) := by
  have divided := inv.began idle began
  have effect := linkTimer_linked divided.lists divided.apart linked
  refine ⟨Agenda.add s.expiration new nodes, ?_, ?_⟩
  · have outside : { s' with adding := s.adding.erase (new, currTick) }.outside =
        (s.adding.erase (new, currTick)).map Prod.fst := by
      rw [effect.rest]
      simp [System.outside, idle]
    rw [outside]
    exact (divided.link effect).setLocals _ _ _
  · have sameTimers : s'.timers = s.timers := by rw [effect.rest]
    have sameEntries : s'.entries = s.entries := by
      unfold System.entries
      rw [sameTimers]
    rw [sameEntries]
    exact entries_add s new nodes

/-- What a call of `add_timer` in a callback does. -/
theorem Inv.addTimer_linked {fuel : Nat} {r : Request} {reset : Option Reset}
    (inv : Inv s s.outside nodes) (added : addTimer fuel s r = some (s', some new, reset)) :
    ∃ s₁, newTimer s r = (s₁, some new) ∧ Inv s₁ (new :: s.outside) nodes ∧
      Linked s₁ s' nodes new r.now reset := by
  obtain ⟨s₁, allocated, linked⟩ := addTimer_some added
  have made := inv.allocate allocated
  exact ⟨s₁, allocated, made, linkTimer_linked made.lists made.apart linked⟩

theorem Step.preserves_callbackAdd {fuel : Nat} {r : Request} {reset : Option Reset}
    (inv : Inv s s.outside nodes) (added : addTimer fuel s r = some (s', some new, reset)) :
    ∃ nodes', Inv s' s'.outside nodes' ∧
      s'.entries nodes' = Agenda.add Entry.expiration (new, r.timer) (s.entries nodes) := by
  obtain ⟨s₁, allocated, made, effect⟩ := inv.addTimer_linked added
  obtain ⟨_, same⟩ := Inv.newTimer_eq allocated
  refine ⟨Agenda.add s₁.expiration new nodes, ?_, ?_⟩
  · have outside : s'.outside = s.outside := by
      rw [effect.rest, same]
      rfl
    rw [outside]
    exact made.link effect
  · have sameTimers : s'.timers = s₁.timers := by rw [effect.rest]
    have sameEntries : s'.entries = s₁.entries := by
      unfold System.entries
      rw [sameTimers]
    have filled : s₁.timers new = r.timer := by
      rw [same]
      exact Function.update_self _ _ _
    calc s'.entries (Agenda.add s₁.expiration new nodes)
        = s₁.entries (Agenda.add s₁.expiration new nodes) := by rw [sameEntries]
      _ = Agenda.add Entry.expiration (new, s₁.timers new) (s₁.entries nodes) :=
          entries_add s₁ new nodes
      _ = Agenda.add Entry.expiration (new, r.timer) (s.entries nodes) := by
          rw [filled, newTimer_entries made allocated]

/-- A step keeps the list in order and does to it what its event says. -/
theorem Step.preserves (inv : Inv s s.outside nodes) (step : Step s event s') :
    ∃ nodes', Inv s' s'.outside nodes' ∧ Effect (s.entries nodes) event (s'.entries nodes') := by
  cases step with
  | elsewhere kept =>
      refine ⟨nodes, ⟨inv.lists, inv.sorted, inv.words, inv.distinct, kept _ inv.holds⟩, ?_⟩
      exact .quiet (fun _ _ _ same => nomatch same) fun _ _ same => nomatch same
  | @begin s₁ r new idle admitted allocated =>
      obtain ⟨kept, sameEntries⟩ := preserves_begin inv idle allocated
      refine ⟨nodes, kept, ?_⟩
      have after : { s₁ with adding := (new, r.now) :: s.adding }.entries nodes =
          s.entries nodes := sameEntries
      rw [after]
      exact .quiet (fun _ _ _ same => nomatch same) fun _ _ same => nomatch same
  | @link s₁ fuel new currTick reset idle began linked =>
      obtain ⟨nodes', kept, entries⟩ := preserves_link inv idle began linked
      refine ⟨nodes', kept, ?_⟩
      have after : { s₁ with adding := s.adding.erase (new, currTick) }.entries nodes' =
          Agenda.add Entry.expiration (new, s.timers new) (s.entries nodes) := entries
      rw [after]
      exact .added
  | @enter now idle clock =>
      refine ⟨nodes, ?_, .quiet (fun _ _ _ same => nomatch same) fun _ _ same => nomatch same⟩
      have outside : (Timers.enter s now).outside = s.outside := by
        simp [System.outside, Timers.enter, idle]
      rw [outside]
      exact inv.setLocals _ _ _
  | @call handler curr runs waits first =>
      obtain ⟨head, _⟩ := expired_some first
      obtain ⟨rest, rfl, kept⟩ := inv.pop head handler
      refine ⟨rest, ?_, .called⟩
      have outside : (popTimer s handler curr).outside = curr :: s.outside := by
        simp [System.outside, popTimer, runs, waits]
      rw [outside]
      exact kept
  | @callbackAdd _ handler fuel curr new r reset runs calls admitted later added =>
      obtain ⟨nodes', kept, entries⟩ := preserves_callbackAdd inv added
      refine ⟨nodes', kept, ?_⟩
      rw [entries]
      exact .added
  | @«return» handler curr runs calls =>
      have outside : s.outside = curr :: s.adding.map Prod.fst := by
        simp [System.outside, runs, calls]
      rw [outside] at inv
      have after : (freeTimer s handler curr).outside = s.adding.map Prod.fst := by
        simp [System.outside, freeTimer]
      refine ⟨nodes, ?_, .quiet (fun _ _ _ same => nomatch same) fun _ _ same => nomatch same⟩
      rw [after]
      exact inv.free handler
  | @leave handler runs waits ends =>
      have outside : { s with handler := none }.outside = s.outside := by
        simp [System.outside, runs, waits]
      refine ⟨nodes, ?_, .quiet (fun _ _ _ same => nomatch same) fun _ _ same => nomatch same⟩
      rw [outside]
      exact inv.setLocals _ _ _

/-- The calls of `add_timer` in progress have read the counter before their timers expire. -/
def System.Started (s : System H) : Prop := ∀ call ∈ s.adding, call.2 ≤ s.expiration call.1

omit [Allocator H] in
theorem Request.Admitted.expiration {r : Request} (admitted : r.Admitted s) :
    r.timer.expiration = r.now + r.tick := Nat.mod_eq_of_lt admitted.word

theorem newTimer_started {r : Request} (inv : Inv s s.outside nodes) (started : s.Started)
    (allocated : newTimer s r = (s', some new)) : s'.Started := by
  have made := inv.allocate allocated
  obtain ⟨_, same⟩ := Inv.newTimer_eq allocated
  intro call member
  rw [same] at member ⊢
  have other : call.1 ≠ new := by
    intro isNew
    have outside : call.1 ∈ s.outside :=
      List.mem_append_right _ (List.mem_map_of_mem member)
    rw [isNew] at outside
    exact (List.nodup_cons.mp made.distinct).1 (List.mem_append_left _ outside)
  show call.2 ≤ (Function.update s.timers new r.timer call.1).expiration
  rw [Function.update_of_ne other]
  exact started call member

theorem Step.preserves_started (inv : Inv s s.outside nodes) (started : s.Started)
    (step : Step s event s') : s'.Started := by
  cases step with
  | @begin s₁ r new idle admitted allocated =>
      intro call member
      rcases List.mem_cons.mp member with rfl | earlier
      · obtain ⟨_, same⟩ := Inv.newTimer_eq allocated
        show r.now ≤ (s₁.timers new).expiration
        rw [same]
        show r.now ≤ (Function.update s.timers new r.timer new).expiration
        rw [Function.update_self, admitted.expiration]
        exact Nat.le_add_right _ _
      · have kept := newTimer_started inv started allocated
        obtain ⟨_, same⟩ := Inv.newTimer_eq allocated
        have sameAdding : s₁.adding = s.adding := by rw [same]
        exact kept call (sameAdding ▸ earlier)
  | @link s₁ fuel new currTick reset idle began linked =>
      have divided := inv.began idle began
      have effect := linkTimer_linked divided.lists divided.apart linked
      intro call member
      have sameTimers : s₁.timers = s.timers := by rw [effect.rest]
      show call.2 ≤ (s₁.timers call.1).expiration
      rw [sameTimers]
      exact started call (List.mem_of_mem_erase member)
  | @callbackAdd _ handler fuel curr new r reset runs calls admitted later added =>
      obtain ⟨s₁, allocated, _, effect⟩ := inv.addTimer_linked added
      have kept := newTimer_started inv started allocated
      rw [effect.rest]
      exact kept
  | elsewhere | enter | call | «return» | leave => exact started

/-- What holds of every state that is reached. -/
structure InOrder (s : System H) (nodes : List Nat) : Prop where
  inv : Inv s s.outside nodes
  started : s.Started

theorem Initial.inOrder {s : System H} (initial : Initial s) : InOrder s [] where
  inv := initial.inv
  started call member := by
    rw [initial.adding] at member
    cases member

/-- In every state of a run the list is in order. -/
theorem Run.inOrder {start last : System H} {trace : List (System H × Event)}
    (inOrder : InOrder start nodes) (run : Run start trace last) :
    ∀ visited ∈ trace.map Prod.fst ++ [last], ∃ nodes, InOrder visited nodes := by
  induction run generalizing nodes with
  | nil =>
      intro visited member
      obtain rfl := List.mem_singleton.mp member
      exact ⟨nodes, inOrder⟩
  | cons step rest ih =>
      intro visited member
      rcases List.mem_cons.mp member with rfl | later
      · exact ⟨nodes, inOrder⟩
      · obtain ⟨nodes', inv', _⟩ := step.preserves inOrder.inv
        exact ih ⟨inv', step.preserves_started inOrder.inv inOrder.started⟩ visited later

/-- A run is cut behind any of its steps. -/
theorem Run.split {start last : System H} {front later : List (System H × Event)}
    (run : Run start (front ++ later) last) : ∃ mid, Run start front mid ∧ Run mid later last := by
  induction front generalizing start with
  | nil => exact ⟨start, .nil, run⟩
  | cons entry front ih =>
      cases run with
      | cons step rest =>
          obtain ⟨mid, first, second⟩ := ih rest
          exact ⟨mid, .cons step first, second⟩

/-! ## A run of the handler -/

/-- The callbacks that a step calls, each with its timer. -/
def Event.calls : Event → List (Nat × Timer)
  | .called curr timer => [(curr, timer)]
  | _ => []

/-- The timers that a step puts on the list. -/
def Event.additions : Event → List (Nat × Timer)
  | .added new timer _ => [(new, timer)]
  | _ => []

/-- The interval that a step hands to `set_timer_irq`. -/
def Event.reset : Event → Option Reset
  | .added _ _ reset => reset
  | .left reset => reset
  | _ => none

omit [Allocator H] in
def calls (trace : List (System H × Event)) : List (Nat × Timer) :=
  trace.flatMap fun entry => entry.2.calls

omit [Allocator H] in
def additions (trace : List (System H × Event)) : List (Nat × Timer) :=
  trace.flatMap fun entry => entry.2.additions

omit [Allocator H] in
/-- The handler does not return during these steps. -/
def Stays (trace : List (System H × Event)) : Prop :=
  ∀ entry ∈ trace, ∀ reset, entry.2 ≠ .left reset

theorem Inv.addTimer_handler {fuel : Nat} {r : Request} {reset : Option Reset}
    (inv : Inv s s.outside nodes) (added : addTimer fuel s r = some (s', some new, reset)) :
    s'.handler = s.handler := by
  obtain ⟨s₁, allocated, _, effect⟩ := inv.addTimer_linked added
  obtain ⟨_, same⟩ := newTimer_eq allocated
  rw [effect.rest, same]

/-- Until the handler returns, only expired timers are called and only later ones are added. -/
theorem Step.inside {handler : Handler} (inv : Inv s s.outside nodes) (step : Step s event s')
    (runs : s.handler = some handler) (stays : ∀ reset, event ≠ .left reset) :
    (∃ handler', s'.handler = some handler' ∧ handler'.currTick = handler.currTick) ∧
      (∀ a ∈ event.calls, Entry.expiration a ≤ handler.currTick) ∧
      (∀ a ∈ event.additions, handler.currTick < Entry.expiration a) := by
  cases step with
  | elsewhere kept => exact ⟨⟨handler, runs, rfl⟩, by simp [Event.calls], by simp [Event.additions]⟩
  | begin idle => exact nomatch idle.symm.trans runs
  | link idle => exact nomatch idle.symm.trans runs
  | enter idle => exact nomatch idle.symm.trans runs
  | @call handler' curr runs' waits first =>
      cases runs.symm.trans runs'
      refine ⟨⟨_, rfl, rfl⟩, ?_, by simp [Event.additions]⟩
      intro a member
      obtain rfl := List.mem_singleton.mp member
      exact (expired_some first).2
  | @callbackAdd _ handler' fuel curr new r reset runs' calls admitted later added =>
      cases runs.symm.trans runs'
      refine ⟨⟨handler, ?_, rfl⟩, by simp [Event.calls], ?_⟩
      · exact (inv.addTimer_handler added).trans runs
      · intro a member
        obtain rfl := List.mem_singleton.mp member
        show handler.currTick < r.timer.expiration
        rw [admitted.expiration]
        exact later
  | @«return» handler' curr runs' calls =>
      cases runs.symm.trans runs'
      exact ⟨⟨_, rfl, rfl⟩, by simp [Event.calls], by simp [Event.additions]⟩
  | leave => exact absurd rfl (stays _)

/-- The steps of a run of the handler drain the list of what is due. -/
theorem Run.drains {handler : Handler} {trace : List (System H × Event)}
    (inv : Inv s s.outside nodes) (runs : s.handler = some handler) (run : Run s trace s')
    (stays : Stays trace) :
    (∃ handler', s'.handler = some handler' ∧ handler'.currTick = handler.currTick) ∧
      ∃ nodes', Inv s' s'.outside nodes' ∧ Agenda.Drains Entry.expiration handler.currTick
        (s.entries nodes) (calls trace) (additions trace) (s'.entries nodes') := by
  induction run generalizing nodes handler with
  | nil => exact ⟨⟨handler, runs, rfl⟩, nodes, inv, .done⟩
  | @cons s s₁ last event trace step rest ih =>
      obtain ⟨nodes₁, inv₁, effect⟩ := step.preserves inv
      obtain ⟨⟨handler₁, runs₁, sameTick⟩, isDue, isLater⟩ :=
        step.inside inv runs (stays _ List.mem_cons_self)
      obtain ⟨stillRuns, nodes', inv', drains⟩ :=
        ih inv₁ runs₁ fun entry member => stays entry (List.mem_cons_of_mem _ member)
      rw [sameTick] at drains stillRuns
      refine ⟨stillRuns, nodes', inv', ?_⟩
      generalize s.entries nodes = before at effect ⊢
      generalize s₁.entries nodes₁ = after at effect drains
      cases effect with
      | added => exact .add (isLater _ (List.mem_singleton_self _)) drains
      | called => exact .take (isDue _ (List.mem_singleton_self _)) drains
      | quiet notAdded notCalled =>
          have noCalls : event.calls = [] := by
            cases event with
            | called curr timer => exact absurd rfl (notCalled curr timer)
            | _ => rfl
          have noAdditions : event.additions = [] := by
            cases event with
            | added new timer reset => exact absurd rfl (notAdded new timer reset)
            | _ => rfl
          simpa [calls, additions, noCalls, noAdditions] using drains

end Steps

end OsdiKernel.Timers
