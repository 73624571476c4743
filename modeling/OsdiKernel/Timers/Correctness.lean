import OsdiKernel.Fs.System
import OsdiKernel.Timers.Runs

/-!
# Correctness of the timer list

The list is sorted in every state, a run of the handler calls exactly the expired
timers in order and leaves the others and the new ones, and no interval
underflows.  Only the backward pointers go wrong: a timer that is inserted behind
another one becomes its own predecessor, because `curr->next` is read after it has
been overwritten.  They are right as long as every timer becomes the first.
-/

namespace OsdiKernel.Timers

open Allocator (Holds)

variable {H : Type}

/-- `prev` and `next` are inverse along the list, and the head has no predecessor. -/
def System.Inverse (s : System H) : Prop :=
  ∀ nodes, s.Lists nodes → Links.IsList s.links s.timerHead nodes

/-- A timer that this step puts on the list becomes the first. -/
def Event.FindsFront (s : System H) : Event → Prop
  | .added _ timer _ => s.AtFront timer.expiration
  | _ => True

/-! ## Backward pointers -/

section Backward

variable {s s' : System H} {nodes : List Nat} {new curr : Nat}

theorem forward_of_chain {m : Links Nat} {back head : Option Nat}
    (chain : Links.Chain m back head nodes) : Queue.Chain m.next head nodes := by
  induction chain with
  | nil => exact .nil
  | cons backward tail ih => exact .cons ih

theorem inverse_of_isList (list : Links.IsList s.links s.timerHead nodes) : s.Inverse := by
  intro other lists
  rw [lists.unique (forward_of_chain list)]
  exact list

theorem insertFirst_inverse (inverse : s.Inverse) (lists : s.Lists nodes) (apart : new ∉ nodes) :
    (insertFirst s new).Inverse :=
  inverse_of_isList ((inverse nodes lists).pushFront apart)

theorem popTimer_inverse (inverse : s.Inverse) (lists : s.Lists nodes) (handler : Handler)
    (head : s.timerHead = some curr) : (popTimer s handler curr).Inverse := by
  have list := inverse nodes lists
  unfold System.Lists at lists
  rw [head] at lists list
  obtain ⟨rest, rfl, _⟩ := lists.tail
  exact inverse_of_isList list.popFront

/-- A timer on the list that is its own predecessor. -/
theorem not_inverse (lists : s.Lists nodes) (member : new ∈ nodes)
    (own : s.links.prev new = some new) : ¬ s.Inverse := by
  intro inverse
  rcases Links.Chain.prev_mem (inverse nodes lists) member own with ⟨nobody, _⟩ | ⟨_, forward⟩
  · cases nobody
  · obtain ⟨front, later, rfl⟩ := List.append_of_mem member
    have unlike : (front ++ new :: later).Nodup := Queue.Chain.nodup lists
    have behind : some new = later.head? := forward.symm.trans (Queue.Chain.link_eq lists)
    cases later with
    | nil => cases behind
    | cons first later =>
        cases behind
        exact absurd unlike (by simp [List.nodup_append])

end Backward

section Steps

variable [Allocator H] {s s' : System H} {event : Event} {nodes : List Nat}

theorem newTimer_atFront {r : Request} {new : Nat} (inv : Inv s' (new :: s.outside) nodes)
    (allocated : newTimer s r = (s', some new)) (expiration : Nat) :
    s'.AtFront expiration ↔ s.AtFront expiration := by
  obtain ⟨_, same⟩ := Inv.newTimer_eq allocated
  have sameHead : s'.timerHead = s.timerHead := by rw [same]
  have kept : ∀ head, s.timerHead = some head → s'.timers head = s.timers head := by
    intro head first
    have member : head ∈ nodes := by
      have chain := inv.lists
      unfold System.Lists at chain
      rw [sameHead, first] at chain
      obtain ⟨rest, rfl, _⟩ := chain.tail
      exact List.mem_cons_self
    rw [same]
    refine Function.update_of_ne ?_ _ _
    rintro rfl
    exact inv.apart member
  unfold System.AtFront
  rw [sameHead]
  constructor
  · intro front head first
    rw [← kept head first]
    exact front head first
  · intro front head first
    rw [kept head first]
    exact front head first

/-- The backward pointers stay right when a new timer becomes the first. -/
theorem Step.preserves_inverse (inv : Inv s s.outside nodes) (inverse : s.Inverse)
    (front : event.FindsFront s) (step : Step s event s') : s'.Inverse := by
  cases step with
  | elsewhere | enter | «return» | leave => exact inverse
  | @begin s₁ r new idle admitted allocated =>
      obtain ⟨_, rfl⟩ := Inv.newTimer_eq allocated
      exact inverse
  | @link s₁ fuel new currTick reset idle began linked =>
      have divided := inv.began idle began
      have effect := linkTimer_linked divided.lists divided.apart linked
      obtain rfl := effect.front front
      exact insertFirst_inverse inverse divided.lists divided.apart
  | @call handler curr runs waits first =>
      exact popTimer_inverse inverse inv.lists handler (expired_some first).1
  | @callbackAdd _ handler fuel curr new r reset runs calls admitted later added =>
      obtain ⟨s₁, allocated, made, effect⟩ := inv.addTimer_linked added
      have kept : s₁.Inverse := by
        obtain ⟨_, rfl⟩ := Inv.newTimer_eq allocated
        exact inverse
      have filled : s₁.timers new = r.timer := by
        obtain ⟨_, rfl⟩ := Inv.newTimer_eq allocated
        exact Function.update_self _ _ _
      have sameFront : s₁.AtFront (s₁.timers new).expiration := by
        rw [filled]
        exact (newTimer_atFront made allocated _).mpr front
      obtain rfl := effect.front sameFront
      exact insertFirst_inverse kept made.lists made.apart

omit [Allocator H] in
theorem Linked.not_inverse {new currTick : Nat} {reset : Option Reset}
    (effect : Linked s s' nodes new currTick reset)
    (behind : ¬ s.AtFront (s.timers new).expiration) : ¬ s'.Inverse :=
  Timers.not_inverse effect.lists ((List.mem_orderedInsert _).mpr (Or.inl rfl))
    (effect.behind behind)

/-- They go wrong when it does not. -/
theorem Step.breaks_inverse (inv : Inv s s.outside nodes) (behind : ¬ event.FindsFront s)
    (step : Step s event s') : ¬ s'.Inverse := by
  cases step with
  | elsewhere | enter | «return» | leave | call | «begin» => exact absurd trivial behind
  | @link s₁ fuel new currTick reset idle began linked =>
      have divided := inv.began idle began
      exact (linkTimer_linked divided.lists divided.apart linked).not_inverse behind
  | @callbackAdd _ handler fuel curr new r reset runs calls admitted later added =>
      obtain ⟨s₁, allocated, made, effect⟩ := inv.addTimer_linked added
      have filled : s₁.timers new = r.timer := by
        obtain ⟨_, rfl⟩ := Inv.newTimer_eq allocated
        exact Function.update_self _ _ _
      apply effect.not_inverse
      rw [filled]
      exact fun front => behind ((newTimer_atFront made allocated _).mp front)

end Steps

/-! ## Runs -/

section Runs

variable [Allocator H] {s start last : System H} {trace : List (System H × Event)} {nodes : List Nat}

omit [Allocator H] in
/-- The states before each step, and the last one. -/
def visited (trace : List (System H × Event)) (last : System H) : List (System H) :=
  trace.map Prod.fst ++ [last]

/-- The handler takes its next step by itself: it calls a callback, frees a timer or returns. -/
def Event.Advances : Event → Prop
  | .called _ _ => True
  | .returned => True
  | .left _ => True
  | _ => False

/-- Every property of the timer list, in every state of a run. -/
structure Correct (trace : List (System H × Event)) (last : System H) : Prop where
  sorted : ∀ s ∈ visited trace last, ∃ nodes, s.Lists nodes ∧ Agenda.Sorted s.expiration nodes
  inverse : ∀ s ∈ visited trace last, s.Inverse
  /-- The loop of `add_timer` ends. -/
  inserts : ∀ s ∈ visited trace last, ∀ new currTick, ∃ fuel s' reset,
    linkTimer fuel s new currTick = some (s', reset)
  /-- The handler is never stuck, and calls no more callbacks than there were expired timers. -/
  advances : ∀ s ∈ visited trace last, s.handler ≠ none → ∃ event s', event.Advances ∧ Step s event s'
  terminates : ∀ {front inner later : List (System H × Event)} {before : System H}
    {currTick : Nat} {nodes : List Nat},
    trace = front ++ (before, .entered currTick) :: (inner ++ later) → Stays inner →
    before.Lists nodes →
    (calls inner).length ≤ (Agenda.due Entry.expiration currTick (before.entries nodes)).length
  /-- When the handler returns, the expired timers have been called, each once and in order,
  and the list holds the others and those that callbacks have added. -/
  handles : ∀ {front inner later : List (System H × Event)} {before after : System H}
    {currTick : Nat} {reset : Option Reset} {nodes remaining : List Nat},
    trace = front ++ (before, .entered currTick) :: (inner ++ (after, .left reset) :: later) →
    Stays inner → before.Lists nodes → after.Lists remaining →
    calls inner = Agenda.due Entry.expiration currTick (before.entries nodes) ∧
      (calls inner).Nodup ∧ Agenda.Sorted Entry.expiration (calls inner) ∧
      (after.entries remaining).Perm
        (additions inner ++ Agenda.pending Entry.expiration currTick (before.entries nodes))
  intervals : ∀ entry ∈ trace, ∀ reset, entry.2.reset = some reset →
    reset.currTick + reset.interval = reset.expiration

theorem Initial.inverse (initial : Initial s) : s.Inverse := by
  have list : Links.IsList s.links s.timerHead [] := by
    rw [initial.empty]
    exact .nil
  exact inverse_of_isList list

theorem Run.start_visited (run : Run start trace last) : start ∈ visited trace last := by
  cases run with
  | nil => exact List.mem_singleton_self start
  | cons step rest => exact List.mem_cons_self

/-- The backward pointers are right throughout exactly when every timer becomes the first. -/
theorem Run.inverse_iff (inv : Inv start start.outside nodes) (inverse : start.Inverse)
    (run : Run start trace last) :
    (∀ s ∈ visited trace last, s.Inverse) ↔ ∀ entry ∈ trace, entry.2.FindsFront entry.1 := by
  induction run generalizing nodes with
  | nil =>
      constructor
      · exact fun _ entry member => nomatch member
      · intro _ s member
        obtain rfl := List.mem_singleton.mp member
        exact inverse
  | @cons s s' last event trace step rest ih =>
      obtain ⟨nodes', inv', _⟩ := step.preserves inv
      constructor
      · intro all entry member
        have kept : s'.Inverse := all s' (List.mem_cons_of_mem _ rest.start_visited)
        rcases List.mem_cons.mp member with rfl | later
        · by_contra behind
          exact step.breaks_inverse inv behind kept
        · exact (ih inv' kept).mp (fun t visited => all t (List.mem_cons_of_mem _ visited)) entry
            later
      · intro fronts t member
        have kept := step.preserves_inverse inv inverse (fronts _ List.mem_cons_self)
        rcases List.mem_cons.mp member with rfl | later
        · exact inverse
        · exact (ih inv' kept).mpr
            (fun entry inside => fronts entry (List.mem_cons_of_mem _ inside)) t later

/-! ## The handler -/

theorem advances_of_handler {handler : Handler} (runs : s.handler = some handler) :
    ∃ event s', event.Advances ∧ Step s event s' := by
  cases calls : handler.running with
  | some curr => exact ⟨.returned, _, trivial, .return runs calls⟩
  | none =>
      cases first : expired s handler.currTick with
      | some curr => exact ⟨.called curr (s.timers curr), _, trivial, .call runs calls first⟩
      | none => exact ⟨.left (handlerReset s handler), _, trivial, .leave runs calls first⟩

omit [Allocator H] in
theorem expired_none {currTick : Nat} (ends : expired s currTick = none) (lists : s.Lists nodes) :
    ∀ entry, (s.entries nodes).head? = some entry → currTick < Entry.expiration entry := by
  intro entry first
  cases nodes with
  | nil => cases first
  | cons head rest =>
      cases first
      have notDue := Option.filter_eq_none_iff.mp ends head lists.head_eq
      exact Nat.lt_of_not_le fun isDue => notDue (decide_eq_true isDue)

omit [Allocator H] in
theorem entries_sorted (sorted : Agenda.Sorted s.expiration nodes) :
    Agenda.Sorted Entry.expiration (s.entries nodes) :=
  List.pairwise_map.mpr sorted

omit [Allocator H] in
theorem entries_nodup (lists : s.Lists nodes) : (s.entries nodes).Nodup := by
  have keys : (s.entries nodes).map Prod.fst = nodes := by
    simp [System.entries, Function.comp_def]
  have distinct : ((s.entries nodes).map Prod.fst).Nodup := by
    rw [keys]
    exact lists.nodup
  exact distinct.of_map Prod.fst

omit [Allocator H] in
theorem mem_visited {entry : System H × Event} (member : entry ∈ trace) :
    entry.1 ∈ visited trace last :=
  List.mem_append_left _ (List.mem_map_of_mem member)

/-- What has happened since the handler was entered. -/
theorem Run.handler_drains {front inner later : List (System H × Event)} {before : System H}
    {currTick : Nat} {entered : List Nat} (inOrder : InOrder start nodes)
    (run : Run start (front ++ (before, .entered currTick) :: (inner ++ later)) last)
    (stays : Stays inner) (lists : before.Lists entered) :
    Agenda.Sorted before.expiration entered ∧ ∃ after rest, Run after later last ∧
      (∃ handler, after.handler = some handler ∧ handler.currTick = currTick) ∧
      Inv after after.outside rest ∧ Agenda.Drains Entry.expiration currTick
        (before.entries entered) (calls inner) (additions inner) (after.entries rest) := by
  have isVisited : before ∈ visited (front ++ (before, .entered currTick) :: (inner ++ later)) last :=
    mem_visited (List.mem_append_right front List.mem_cons_self)
  obtain ⟨nodes', inv, _⟩ := run.inOrder inOrder before isVisited
  obtain rfl := lists.unique inv.lists
  obtain ⟨_, _, fromEntry⟩ := run.split
  cases fromEntry with
  | cons step fromInner =>
      obtain ⟨mid, inside, rest⟩ := fromInner.split
      obtain ⟨nodes₁, inv₁, effect⟩ := step.preserves inv
      cases step with
      | enter idle clock =>
          obtain ⟨runs, remaining, invMid, drains⟩ := inside.drains inv₁ rfl stays
          refine ⟨inv.sorted, mid, remaining, rest, runs, invMid, ?_⟩
          generalize before.entries entered = agenda at effect ⊢
          cases effect with
          | quiet => exact drains

/-- The handler returns when no timer is due. -/
theorem Run.leaves {after : System H} {later : List (System H × Event)} {reset : Option Reset}
    {currTick : Nat} (run : Run s ((after, .left reset) :: later) last)
    (runs : ∃ handler, s.handler = some handler ∧ handler.currTick = currTick) :
    s = after ∧ expired s currTick = none := by
  obtain ⟨handler, isHandler, rfl⟩ := runs
  cases run with
  | cons step rest =>
      cases step with
      | leave runs' waits ends =>
          cases isHandler.symm.trans runs'
          exact ⟨rfl, ends⟩

/-! ## Intervals -/

theorem interval_eq {expiration currTick : Nat} (word : expiration < 2 ^ 64)
    (later : currTick ≤ expiration) :
    currTick + (Reset.mk expiration currTick).interval = expiration := by
  have difference : expiration + 2 ^ 64 - currTick = expiration - currTick + 2 ^ 64 := by omega
  have small : (expiration - currTick) % 2 ^ 64 = expiration - currTick :=
    Nat.mod_eq_of_lt (by omega)
  unfold Reset.interval
  rw [difference, Nat.add_mod_right, small]
  omega

theorem Step.interval {s' : System H} {event : Event} {reset : Reset} (inOrder : InOrder s nodes)
    (step : Step s event s') (sets : event.reset = some reset) :
    reset.currTick + reset.interval = reset.expiration := by
  have inv := inOrder.inv
  cases step with
  | elsewhere | enter | «return» | call | «begin» => cases sets
  | @link s₁ fuel new currTick reset' idle began linked =>
      have divided := inv.began idle began
      have effect := linkTimer_linked divided.lists divided.apart linked
      obtain rfl := effect.resets reset sets
      exact interval_eq (divided.words new List.mem_cons_self) (inOrder.started _ began)
  | @callbackAdd _ handler fuel curr new r reset' runs calls admitted later added =>
      obtain ⟨s₁, allocated, made, effect⟩ := inv.addTimer_linked added
      have filled : s₁.timers new = r.timer := by
        obtain ⟨_, rfl⟩ := Inv.newTimer_eq allocated
        exact Function.update_self _ _ _
      obtain rfl := effect.resets reset sets
      refine interval_eq (made.words new List.mem_cons_self) ?_
      rw [filled, admitted.expiration]
      exact Nat.le_add_right _ _
  | @leave handler runs waits ends =>
      have sets : handlerReset s handler = some reset := sets
      unfold handlerReset at sets
      split at sets
      · obtain ⟨head, first, rfl⟩ := Option.map_eq_some_iff.mp sets
        have chain := inv.lists
        unfold System.Lists at chain
        rw [first] at chain
        obtain ⟨rest, rfl, _⟩ := chain.tail
        have later := expired_none ends inv.lists _ rfl
        exact interval_eq (inv.words head (List.mem_append_right _ List.mem_cons_self)) (Nat.le_of_lt later)
      · cases sets

theorem Run.step_of_mem (inOrder : InOrder start nodes) (run : Run start trace last) :
    ∀ entry ∈ trace, ∃ nodes s', InOrder entry.1 nodes ∧ Step entry.1 entry.2 s' := by
  intro entry member
  obtain ⟨nodes', ordered⟩ := run.inOrder inOrder entry.1 (mem_visited member)
  obtain ⟨front, later, rfl⟩ := List.append_of_mem member
  obtain ⟨mid, _, rest⟩ := run.split
  cases rest with
  | cons step _ => exact ⟨nodes', _, ordered, step⟩

/-- A run keeps the timer list correct exactly when every timer that it adds becomes the
first. -/
theorem timers_correct (initial : Initial start) (run : Run start trace last) :
    Correct trace last ↔ ∀ entry ∈ trace, entry.2.FindsFront entry.1 := by
  have inOrder := initial.inOrder
  refine ⟨fun correct => (run.inverse_iff inOrder.inv initial.inverse).mp correct.inverse, fun fronts => ?_⟩
  constructor
  · intro s isVisited
    obtain ⟨nodes, inv, _⟩ := run.inOrder inOrder s isVisited
    exact ⟨nodes, inv.lists, inv.sorted⟩
  · exact (run.inverse_iff inOrder.inv initial.inverse).mpr fronts
  · intro s isVisited new currTick
    obtain ⟨nodes, inv, _⟩ := run.inOrder inOrder s isVisited
    exact ⟨nodes.length, linkTimer_returns inv.lists (Nat.le_refl _)⟩
  · intro s _ handles
    obtain ⟨handler, runs⟩ := Option.ne_none_iff_exists'.mp handles
    exact advances_of_handler runs
  · intro front inner later before currTick nodes split stays lists
    rw [split] at run
    obtain ⟨_, after, rest, _, _, _, drains⟩ := run.handler_drains inOrder stays lists
    rw [← drains.taken_due, List.length_append]
    exact Nat.le_add_right _ _
  · intro front inner later before after currTick reset nodes remaining split stays lists
      listsAfter
    rw [split] at run
    obtain ⟨sorted, mid, rest, fromMid, runs, inv, drains⟩ :=
      run.handler_drains inOrder stays lists
    obtain ⟨rfl, nothingDue⟩ := fromMid.leaves runs
    obtain rfl := listsAfter.unique inv.lists
    obtain ⟨all, left⟩ := drains.complete (entries_sorted sorted) (expired_none nothingDue inv.lists)
    refine ⟨all, ?_, ?_, left⟩
    · rw [all]
      exact (entries_nodup lists).filter _
    · rw [all]
      exact (entries_sorted sorted).filter _
  · intro entry member reset sets
    obtain ⟨nodes, s', ordered, step⟩ := run.step_of_mem inOrder entry member
    exact step.interval ordered sets

end Runs

/-! ## One timer, and a second one behind it -/

section Examples

variable [Allocator H] {s start : System H} {p q : Nat}

/-- A call that adds a timer without a message at tick zero. -/
def atZero (tick : Nat) : Request := ⟨0, none, tick, 0⟩

omit [Allocator H] in
theorem atZero_admitted {tick : Nat} (clock : s.clock = 0) (word : tick < 2 ^ 64) :
    (atZero tick).Admitted s :=
  ⟨Nat.le_of_eq clock, by simpa [atZero] using word, Nat.zero_lt_succ _⟩

def filled (s : System H) (p tick : Nat) : System H :=
  { s with
    heap := (Allocator.alloc s.heap timerSize).1
    timers := Function.update s.timers p (atZero tick).timer
    clock := 0
    adding := (p, 0) :: s.adding }

/-- A thread fills in a timer. -/
theorem begin_filled {tick : Nat} (idle : s.handler = none) (clock : s.clock = 0)
    (word : tick < 2 ^ 64) (pointer : (Allocator.alloc s.heap timerSize).2 = some p) :
    Step s (.began p) (filled s p tick) := by
  have allocated : newTimer s (atZero tick) =
      ({ s with
          heap := (Allocator.alloc s.heap timerSize).1
          timers := Function.update s.timers p (atZero tick).timer
          clock := 0 }, some p) := by
    unfold newTimer
    split
    · next result => simp [result] at pointer
    · next result =>
        rw [result] at pointer ⊢
        cases pointer
        rfl
  exact .begin idle (atZero_admitted clock word) allocated

/-- The first timer of an empty list. -/
def oneTimer (start : System H) (p : Nat) : System H :=
  { insertFirst (filled start p 1) p with adding := [] }

theorem oneTimer_run {last : System H} {trace : List (System H × Event)} (initial : Initial start)
    (clock : start.clock = 0) (pointer : (Allocator.alloc start.heap timerSize).2 = some p)
    (rest : Run (oneTimer start p) trace last) :
    Run start ((start, .began p) :: (filled start p 1, .added p ((filled start p 1).timers p)
      (some ⟨((filled start p 1).timers p).expiration, 0⟩)) :: trace) last := by
  have adding : (filled start p 1).adding = [(p, 0)] := by simp [filled, initial.adding]
  have linked : linkTimer 0 (filled start p 1) p 0 = some (insertFirst (filled start p 1) p,
      some ⟨((filled start p 1).timers p).expiration, 0⟩) := by
    have empty : (filled start p 1).timerHead = none := initial.empty
    simp only [linkTimer, empty]
  have step := Step.link (s := filled start p 1) initial.idle (by rw [adding]; exact List.mem_cons_self)
    linked
  have erased : (filled start p 1).adding.erase (p, 0) = [] := by
    rw [adding]
    exact List.erase_cons_head ..
  rw [erased] at step
  exact .cons (begin_filled initial.idle clock (by decide) pointer) (.cons step rest)

theorem oneTimer_timer : (oneTimer start p).timers p = ⟨0, [], 1⟩ := Function.update_self _ _ _

/-- A second timer that expires later is inserted behind the first. -/
theorem second_behind (initial : Initial start) (clock : start.clock = 0)
    (first : (Allocator.alloc start.heap timerSize).2 = some p)
    (second : (Allocator.alloc (Allocator.alloc start.heap timerSize).1 timerSize).2 = some q) :
    ∃ trace last, Run start trace last ∧ ∃ entry ∈ trace, ¬ entry.2.FindsFront entry.1 := by
  have fresh : p ≠ q := by
    have holds := (Allocator.alloc_some initial.holds first).2
    have unused := (Allocator.alloc_some holds second).1
    rintro rfl
    exact unused List.mem_cons_self
  have begins : Step (oneTimer start p) (.began q) (filled (oneTimer start p) q 2) :=
    begin_filled initial.idle rfl (by decide) second
  have adding : (filled (oneTimer start p) q 2).adding = [(q, 0)] := rfl
  have head : (filled (oneTimer start p) q 2).timerHead = some p := rfl
  have old : ((filled (oneTimer start p) q 2).timers p).expiration = 1 := by
    show (Function.update (oneTimer start p).timers q _ p).expiration = 1
    rw [Function.update_of_ne fresh, oneTimer_timer]
  have new : ((filled (oneTimer start p) q 2).timers q).expiration = 2 := by
    show (Function.update (oneTimer start p).timers q _ q).expiration = 2
    rw [Function.update_self]
    rfl
  have ends : (filled (oneTimer start p) q 2).links.next p = none := by
    show (insertFirst (filled start p 1) p).links.next p = none
    exact Links.pushFront_next_self.trans initial.empty
  have linked : linkTimer 1 (filled (oneTimer start p) q 2) q 0 =
      some (insertBehind (filled (oneTimer start p) q 2) p q, none) := by
    simp [linkTimer, head, old, new, Queue.seek, ends]
  have links := Step.link (s := filled (oneTimer start p) q 2) initial.idle
    (by rw [adding]; exact List.mem_cons_self) linked
  refine ⟨_, _, oneTimer_run initial clock first (.cons begins (.cons links .nil)), _,
    List.mem_cons_of_mem _ (List.mem_cons_of_mem _ (List.mem_cons_of_mem _ List.mem_cons_self)), ?_⟩
  intro front
  have earlier := front p head
  rw [old, new] at earlier
  exact absurd earlier (by decide)

/-- The handler calls the callback of the only timer and returns. -/
theorem oneTimer_handled (initial : Initial start) : ∃ trace last, Run (oneTimer start p) trace last ∧
    (∀ entry ∈ trace, entry.2.FindsFront entry.1) ∧ calls trace = [(p, ⟨0, [], 1⟩)] := by
  have expiration : ((oneTimer start p).timers p).expiration = 1 := by rw [oneTimer_timer]
  have enters := @Step.enter _ _ (oneTimer start p) 1 initial.idle (Nat.zero_le 1)
  have isDue : expired (enter (oneTimer start p) 1) 1 = some p := by
    show Option.filter (fun head => decide (((oneTimer start p).timers head).expiration ≤ 1))
      (some p) = some p
    simp [expiration]
  have pops := Step.call (s := enter (oneTimer start p) 1) rfl rfl isDue
  have returns := Step.return (s := popTimer (enter (oneTimer start p) 1) ⟨1, false, none⟩ p) rfl rfl
  have behind : (popTimer (enter (oneTimer start p) 1) ⟨1, false, none⟩ p).timerHead = none := by
    show (insertFirst (filled start p 1) p).links.next p = none
    exact Links.pushFront_next_self.trans initial.empty
  have leaves := Step.leave
    (s := freeTimer (popTimer (enter (oneTimer start p) 1) ⟨1, false, none⟩ p) ⟨1, true, some p⟩ p)
    rfl rfl (by
      show Option.filter _ (popTimer (enter (oneTimer start p) 1) ⟨1, false, none⟩ p).timerHead = none
      rw [behind]
      rfl)
  refine ⟨_, _, .cons enters (.cons pops (.cons returns (.cons leaves .nil))), ?_, ?_⟩
  · simp [Event.FindsFront]
  · show [(p, (oneTimer start p).timers p)] = _
    rw [oneTimer_timer]

/-- No timer and nothing else in use. -/
def emptySystem (h : H) : System H where
  heap := h
  timers _ := ⟨0, [], 0⟩
  links := ⟨fun _ => none, fun _ => none⟩
  timerHead := none
  clock := 0
  adding := []
  handler := none
  others := []

theorem emptySystem_initial {h : H} (holds : Holds h []) : Initial (emptySystem h) :=
  ⟨rfl, rfl, rfl, holds⟩

/-- A run in which the handler calls the callback of one timer. -/
theorem oneTimer_called {h : H} (holds : Holds h [])
    (hasMemory : (Allocator.alloc h timerSize).2.isSome) :
    ∃ (trace : List (System H × Event)) (last : System H) (p : Nat),
      Run (emptySystem h) trace last ∧ (∀ entry ∈ trace, entry.2.FindsFront entry.1) ∧
        calls trace = [(p, ⟨0, [], 1⟩)] := by
  have initial := emptySystem_initial holds
  obtain ⟨p, pointer⟩ := Option.isSome_iff_exists.mp hasMemory
  obtain ⟨trace, last, handled, fronts, called⟩ := oneTimer_handled (p := p) initial
  refine ⟨_, last, p, oneTimer_run initial rfl pointer handled, ?_, called⟩
  intro entry member
  rcases List.mem_cons.mp member with rfl | later
  · trivial
  · rcases List.mem_cons.mp later with rfl | inRest
    · exact fun head first => nomatch first
    · exact fronts entry inRest

/-- A run that adds a timer behind another one. -/
theorem second_incorrect {h : H} (holds : Holds h [])
    (hasFirst : (Allocator.alloc h timerSize).2.isSome)
    (hasSecond : (Allocator.alloc (Allocator.alloc h timerSize).1 timerSize).2.isSome) :
    ∃ (trace : List (System H × Event)) (last : System H),
      Run (emptySystem h) trace last ∧ ¬ Correct trace last := by
  have initial := emptySystem_initial holds
  obtain ⟨p, first⟩ := Option.isSome_iff_exists.mp hasFirst
  obtain ⟨q, second⟩ := Option.isSome_iff_exists.mp hasSecond
  obtain ⟨trace, last, run, entry, member, behind⟩ := second_behind initial rfl first second
  refine ⟨trace, last, run, fun correct => behind ?_⟩
  exact (run.inverse_iff initial.inv initial.inverse).mp correct.inverse entry member

end Examples

open Fs (BootHeap bootHeap bootHeap_holds)

/-- The only timer is called, and the list has stayed correct. -/
theorem timers_correct_one : ∃ (trace : List (System BootHeap × Event)) (last : System BootHeap)
    (p : Nat), Correct trace last ∧ calls trace = [(p, ⟨0, [], 1⟩)] := by
  obtain ⟨trace, last, p, run, fronts, called⟩ :=
    oneTimer_called bootHeap_holds (by decide +kernel)
  exact ⟨trace, last, p, (timers_correct (emptySystem_initial bootHeap_holds) run).mpr fronts, called⟩

/-- The second of two timers, which expires later, becomes its own predecessor. -/
theorem second_timer_incorrect : ∃ (start last : System BootHeap)
    (trace : List (System BootHeap × Event)), Initial start ∧ Run start trace last ∧
      ¬ Correct trace last := by
  obtain ⟨trace, last, run, incorrect⟩ :=
    second_incorrect bootHeap_holds (by decide +kernel) (by decide +kernel)
  exact ⟨emptySystem bootHeap, last, trace, emptySystem_initial bootHeap_holds, run, incorrect⟩

end OsdiKernel.Timers
