import OsdiKernel.Timers.Correctness

/-!
# The heartbeat of the scheduler

`timer_init` adds a timer whose callback `keep_schedule` adds itself again and asks
for a call of `schedule` when the handler leaves.  Nothing else adds that timer, so
threads are preempted for as long as there is memory for the next one.  The call of
`add_timer` in the callback enables the timer interrupt; runs in which it is taken
before the handler has called `schedule` are left out.
-/

namespace OsdiKernel.Timers

open Allocator (Holds)

/-- The callbacks of the kernel that add themselves again. -/
structure Callbacks where
  keepSchedule : TimerCallback
  printUptime : TimerCallback

/-- The timer that a callback adds, if it adds one. -/
def Callbacks.request (c : Callbacks) (freq now : Nat) (callback : TimerCallback) :
    Option Request :=
  if callback = c.keepSchedule then some (Timers.keepSchedule callback freq now)
  else if callback = c.printUptime then some (Timers.printUptime callback freq now)
  else none

/-- The callback that the handler has called, and whether it has still to add its timer. -/
structure Activity where
  callback : TimerCallback
  owes : Bool
  deriving DecidableEq

/-- The timers, the callback that runs, and the variable `need_schedule`. -/
structure Beat (H : Type) where
  system : System H
  activity : Option Activity
  needSchedule : Bool

namespace Beat

variable {H : Type} [Allocator H]

/-- What a step does: `refused` is a call of `add_timer` in a callback for which there is
no memory, and `left` says whether `schedule` is called. -/
inductive Event where
  | timer (event : Timers.Event)
  | refused (callback : TimerCallback)
  | left (reset : Option Reset) (scheduled : Bool)

/-- One step.  Threads add any timers but the heartbeat, the callbacks are the kernel's own, and
the handler does not run inside itself. -/
inductive Step (c : Callbacks) (freq : Nat) (b : Beat H) : Event → Beat H → Prop
  | elsewhere {heap : H} {others : List Nat}
      (kept : ∀ own, Holds b.system.heap (own ++ b.system.others) → Holds heap (own ++ others)) :
      Step c freq b (.timer .elsewhere)
        { b with system := { b.system with heap := heap, others := others } }
  | begin {s' : System H} {r : Request} {new : Nat} (idle : b.system.handler = none)
      (admitted : r.Admitted b.system) (allocated : newTimer b.system r = (s', some new))
      (other : r.callback ≠ c.keepSchedule) :
      Step c freq b (.timer (.began new))
        { b with system := { s' with adding := (new, r.now) :: b.system.adding } }
  | link {s' : System H} {fuel new currTick : Nat} {reset : Option Reset}
      (idle : b.system.handler = none) (began : (new, currTick) ∈ b.system.adding)
      (linked : linkTimer fuel b.system new currTick = some (s', reset)) :
      Step c freq b (.timer (.added new (b.system.timers new) reset))
        { b with system := { s' with adding := b.system.adding.erase (new, currTick) } }
  | enter {now : Nat} (idle : b.system.handler = none) (clock : b.system.clock ≤ now) :
      Step c freq b (.timer (.entered now)) { b with system := enter b.system now }
  | call {handler : Handler} {curr : Nat} (runs : b.system.handler = some handler)
      (waits : handler.running = none) (first : expired b.system handler.currTick = some curr) :
      Step c freq b (.timer (.called curr (b.system.timers curr)))
        { b with
          system := popTimer b.system handler curr
          activity := some ⟨(b.system.timers curr).callback,
            (c.request freq 0 (b.system.timers curr).callback).isSome⟩ }
  | add {s' : System H} {fuel new now : Nat} {callback : TimerCallback} {r : Request}
      {reset : Option Reset} (owes : b.activity = some ⟨callback, true⟩)
      (asked : c.request freq now callback = some r) (admitted : r.Admitted b.system)
      (added : addTimer fuel b.system r = some (s', some new, reset)) :
      Step c freq b (.timer (.added new r.timer reset))
        { b with system := s', activity := some ⟨callback, false⟩ }
  | refuse {s' : System H} {fuel now : Nat} {callback : TimerCallback} {r : Request}
      {reset : Option Reset} (owes : b.activity = some ⟨callback, true⟩)
      (asked : c.request freq now callback = some r)
      (refused : addTimer fuel b.system r = some (s', none, reset)) :
      Step c freq b (.refused callback) { b with system := s', activity := some ⟨callback, false⟩ }
  | return {handler : Handler} {curr : Nat} {callback : TimerCallback}
      (runs : b.system.handler = some handler) (calls : handler.running = some curr)
      (done : b.activity = some ⟨callback, false⟩) :
      Step c freq b (.timer .returned)
        { system := freeTimer b.system handler curr
          activity := none
          needSchedule := b.needSchedule || decide (callback = c.keepSchedule) }
  | leave {handler : Handler} (runs : b.system.handler = some handler)
      (waits : handler.running = none) (ends : expired b.system handler.currTick = none) :
      Step c freq b (.left (handlerReset b.system handler) b.needSchedule)
        { b with system := { b.system with handler := none }, needSchedule := false }

/-- A sequence of steps, each with the state before it. -/
inductive Run (c : Callbacks) (freq : Nat) : Beat H → List (Beat H × Event) → Beat H → Prop
  | nil {b : Beat H} : Run c freq b [] b
  | cons {b mid last : Beat H} {event : Event} {trace : List (Beat H × Event)}
      (step : Step c freq b event mid) (rest : Run c freq mid trace last) :
      Run c freq b ((b, event) :: trace) last

/-- `timer_init` has added the first heartbeat. -/
structure Started (c : Callbacks) (freq : Nat) (b : Beat H) : Prop where
  added : ∃ (empty : System H) (fuel now new : Nat) (reset : Option Reset), Timers.Initial empty ∧
    (timerInit c.keepSchedule freq now).Admitted empty ∧
    addTimer fuel empty (timerInit c.keepSchedule freq now) = some (b.system, some new, reset)
  idle : b.activity = none
  quiet : b.needSchedule = false

/-! ## Counting the heartbeats -/

/-- The heartbeats on a list of timers. -/
def beatsIn (c : Callbacks) (entries : List (Nat × Timer)) : Nat :=
  entries.countP fun entry => decide (entry.2.callback = c.keepSchedule)

omit [Allocator H] in
/-- The heartbeat that the running callback has still to add. -/
def owed (c : Callbacks) (b : Beat H) : Nat :=
  if b.activity = some ⟨c.keepSchedule, true⟩ then 1 else 0

omit [Allocator H] in
/-- `keep_schedule` runs. -/
def IsBeat (c : Callbacks) (b : Beat H) : Prop :=
  ∃ owes, b.activity = some ⟨c.keepSchedule, owes⟩

/-- A heartbeat for which there was no memory. -/
def Event.refusals (c : Callbacks) : Event → Nat
  | .refused callback => if callback = c.keepSchedule then 1 else 0
  | _ => 0

/-- The step of the timers alone. -/
def Event.timers : Event → Timers.Event
  | .timer event => event
  | .refused _ => .elsewhere
  | .left reset _ => .left reset

/-- The tick at which the timer fires whose register is written at the tick `set`.  The register
takes 32 bits, as a signed number. -/
def firesAt (r : Reset) (set : Nat) : Int := set + (BitVec.ofNat 32 r.interval).toInt

/-- What holds at every step; `alive` is 1 until a heartbeat is refused. -/
structure Beating (c : Callbacks) (freq : Nat) (b : Beat H) (nodes : List Nat) (alive : Nat) :
    Prop where
  inOrder : InOrder b.system nodes
  beats : beatsIn c (b.system.entries nodes) + b.owed c = alive
  adding : ∀ call ∈ b.system.adding, (b.system.timers call.1).callback ≠ c.keepSchedule
  ticks : ∀ handler, b.system.handler = some handler → handler.currTick ≤ b.system.clock
  soon : ∀ entry ∈ b.system.entries nodes, entry.2.callback = c.keepSchedule →
    Entry.expiration entry ≤ b.system.clock + freq >>> 5
  idle : b.system.handler = none → b.needSchedule = false
  running : (b.system.handler.bind Handler.running).isSome ↔ b.activity.isSome
  removed : ∀ handler, b.system.handler = some handler →
    b.needSchedule = true ∨ b.IsBeat c → handler.removed = true

section Entries

variable {c : Callbacks} {entries : List (Nat × Timer)} {entry : Nat × Timer}

theorem beatsIn_add (c : Callbacks) (entry : Nat × Timer) (entries : List (Nat × Timer)) :
    beatsIn c (Agenda.add Entry.expiration entry entries) = beatsIn c (entry :: entries) :=
  (List.perm_orderedInsert _ entry entries).countP_eq _

theorem beatsIn_cons_self (beat : entry.2.callback = c.keepSchedule) :
    beatsIn c (entry :: entries) = beatsIn c entries + 1 :=
  List.countP_cons_of_pos (by simpa using beat)

theorem beatsIn_cons_of_ne (other : entry.2.callback ≠ c.keepSchedule) :
    beatsIn c (entry :: entries) = beatsIn c entries :=
  List.countP_cons_of_neg (by simpa using other)

theorem beatsIn_pos_iff :
    0 < beatsIn c entries ↔ ∃ entry ∈ entries, entry.2.callback = c.keepSchedule := by
  unfold beatsIn
  rw [List.countP_pos_iff]
  simp

end Entries

/-! ## The callbacks -/

section Requests

variable {c : Callbacks} {freq now currTick : Nat} {callback : TimerCallback} {r : Request}

/-- A callback adds itself. -/
theorem request_callback (asked : c.request freq now callback = some r) :
    r.callback = callback ∧ r.now = now := by
  unfold Callbacks.request at asked
  split_ifs at asked
  · cases asked
    exact ⟨rfl, rfl⟩
  · cases asked
    exact ⟨rfl, rfl⟩

theorem request_keepSchedule (asked : c.request freq now c.keepSchedule = some r) :
    r = Timers.keepSchedule c.keepSchedule freq now := by
  unfold Callbacks.request at asked
  rw [if_pos rfl] at asked
  exact (Option.some.inj asked).symm

/-- The timers that callbacks add expire after the handler has read the clock. -/
theorem request_later (asked : c.request freq now callback = some r) (clock : currTick ≤ now)
    (fast : 256 ≤ freq) (narrow : freq < 2 ^ 32) : currTick < r.now + r.tick := by
  unfold Callbacks.request at asked
  split_ifs at asked
  · cases asked
    exact keepSchedule_later clock fast
  · cases asked
    exact printUptime_later clock (by omega) (by omega)

theorem shiftRight_le (freq : Nat) : freq >>> 8 ≤ freq >>> 5 := by
  rw [Nat.shiftRight_eq_div_pow, Nat.shiftRight_eq_div_pow]
  exact Nat.div_le_div_left (by decide) (by decide)

end Requests

/-! ## One step -/

section Effects

variable {before after : List (Nat × Timer)} {event : Timers.Event} {new : Nat} {timer : Timer}
  {reset : Option Reset}

theorem added_eq (effect : Effect before (.added new timer reset) after) :
    after = Agenda.add Entry.expiration (new, timer) before := by
  cases effect with
  | added => rfl
  | quiet notAdded _ => exact absurd rfl (notAdded new timer reset)

theorem called_eq (effect : Effect before (.called new timer) after) :
    before = (new, timer) :: after := by
  cases effect with
  | called => rfl
  | quiet _ notCalled => exact absurd rfl (notCalled new timer)

theorem quiet_eq (effect : Effect before event after)
    (notAdded : ∀ new timer reset, event ≠ .added new timer reset)
    (notCalled : ∀ curr timer, event ≠ .called curr timer) : after = before := by
  cases effect with
  | added => exact absurd rfl (notAdded _ _ _)
  | called => exact absurd rfl (notCalled _ _)
  | quiet => rfl

end Effects

section Steps

variable {c : Callbacks} {freq alive : Nat} {b b' : Beat H} {nodes : List Nat} {event : Event}

/-- The timer that the callback of a timer belongs to. -/
theorem Beating.runs (beating : Beating c freq b nodes alive) {activity : Activity}
    (active : b.activity = some activity) :
    ∃ handler curr, b.system.handler = some handler ∧ handler.running = some curr := by
  have running : (b.system.handler.bind Handler.running).isSome := by
    rw [beating.running, active]
    rfl
  obtain ⟨curr, found⟩ := Option.isSome_iff_exists.mp running
  obtain ⟨handler, runs, calls⟩ := Option.bind_eq_some_iff.mp found
  exact ⟨handler, curr, runs, calls⟩

/-- No callback runs while the handler waits. -/
theorem Beating.rests (beating : Beating c freq b nodes alive)
    (waits : b.system.handler.bind Handler.running = none) : b.activity = none := by
  have running := beating.running
  rw [waits] at running
  cases activity : b.activity with
  | none => rfl
  | some _ =>
      rw [activity] at running
      exact absurd (running.mpr rfl) (by simp)

theorem addTimer_none {s s' : System H} {fuel : Nat} {r : Request} {reset : Option Reset}
    (refused : addTimer fuel s r = some (s', none, reset)) :
    (Allocator.alloc s.heap timerSize).2 = none ∧
      s' = { s with heap := (Allocator.alloc s.heap timerSize).1 } := by
  unfold addTimer newTimer at refused
  split at refused
  · next heap nothing =>
      split at nothing
      · next result =>
          cases nothing
          cases refused
          rw [result]
          exact ⟨rfl, rfl⟩
      · cases nothing
  · split at refused
    · cases refused
    · cases refused

/-- Each step is one of the timers, or leaves them alone. -/
theorem Step.timers (beating : Beating c freq b nodes alive) (fast : 256 ≤ freq)
    (narrow : freq < 2 ^ 32) (step : Step c freq b event b') :
    Timers.Step b.system event.timers b'.system := by
  cases step with
  | elsewhere kept => exact .elsewhere kept
  | «begin» idle admitted allocated other => exact .begin idle admitted allocated
  | link idle began linked => exact .link idle began linked
  | enter idle clock => exact .enter idle clock
  | call runs waits first => exact .call runs waits first
  | @add s' fuel new now callback r reset owes asked admitted added =>
      obtain ⟨handler, curr, runs, calls⟩ := beating.runs owes
      have clock : handler.currTick ≤ now := by
        have admittedClock := admitted.clock
        rw [(request_callback asked).2] at admittedClock
        exact Nat.le_trans (beating.ticks handler runs) admittedClock
      exact .callbackAdd runs calls admitted (request_later asked clock fast narrow) added
  | refuse owes asked refused =>
      obtain ⟨nothing, rfl⟩ := addTimer_none refused
      exact .elsewhere fun own holds => Allocator.alloc_none holds nothing
  | «return» runs calls done => exact .return runs calls
  | leave runs waits ends => exact .leave runs waits ends

/-- What a step does to the list. -/
theorem Step.effect (beating : Beating c freq b nodes alive) (fast : 256 ≤ freq)
    (narrow : freq < 2 ^ 32) (step : Step c freq b event b') :
    ∃ nodes', InOrder b'.system nodes' ∧
      Effect (b.system.entries nodes) event.timers (b'.system.entries nodes') := by
  have timers := step.timers beating fast narrow
  obtain ⟨nodes', inv, effect⟩ := timers.preserves beating.inOrder.inv
  exact ⟨nodes', ⟨inv, timers.preserves_started beating.inOrder.inv beating.inOrder.started⟩, effect⟩

omit [Allocator H] in
theorem owed_of_rest (rests : b.activity = none) : b.owed c = 0 := by
  unfold owed
  rw [rests]
  rfl

omit [Allocator H] in
theorem owed_of_done {callback : TimerCallback} (done : b.activity = some ⟨callback, false⟩) :
    b.owed c = 0 := by
  unfold owed
  rw [done, if_neg]
  intro same
  cases same

omit [Allocator H] in
theorem owed_of_owes {callback : TimerCallback} (owes : b.activity = some ⟨callback, true⟩) :
    b.owed c = if callback = c.keepSchedule then 1 else 0 := by
  unfold owed
  rw [owes]
  simp

theorem Beating.begin {s' : System H} {r : Request} {new : Nat}
    (beating : Beating c freq b nodes alive) (idle : b.system.handler = none)
    (admitted : r.Admitted b.system) (allocated : newTimer b.system r = (s', some new))
    (other : r.callback ≠ c.keepSchedule) {nodes' : List Nat}
    (inOrder : InOrder { s' with adding := (new, r.now) :: b.system.adding } nodes')
    (same : s'.entries nodes' = b.system.entries nodes) :
    Beating c freq { b with system := { s' with adding := (new, r.now) :: b.system.adding } }
      nodes' alive := by
  obtain ⟨_, shape⟩ := Inv.newTimer_eq allocated
  have handler : s'.handler = b.system.handler := by rw [shape]
  have clock : b.system.clock ≤ s'.clock := by
    rw [shape]
    exact admitted.clock
  have timers : s'.timers = Function.update b.system.timers new r.timer := by rw [shape]
  have fresh : new ∉ b.system.adding.map Prod.fst := by
    have distinct := inOrder.inv.distinct
    simp only [System.outside, handler, idle, Option.bind_none, Option.toList_none,
      List.nil_append, List.map_cons, List.cons_append, List.nodup_cons] at distinct
    exact fun member => distinct.1 (List.mem_append_left _ member)
  constructor
  · exact inOrder
  · show beatsIn c (s'.entries nodes') + b.owed c = alive
    rw [same]
    exact beating.beats
  · intro call member
    show (s'.timers call.1).callback ≠ c.keepSchedule
    rw [timers]
    rcases List.mem_cons.mp member with rfl | old
    · rw [Function.update_self]
      exact other
    · rw [Function.update_of_ne]
      · exact beating.adding call old
      · rintro rfl
        exact fresh (List.mem_map_of_mem old)
  · intro handler' runs
    have impossible : s'.handler = some handler' := runs
    rw [handler, idle] at impossible
    cases impossible
  · intro entry member beat
    change entry ∈ s'.entries nodes' at member
    rw [same] at member
    exact Nat.le_trans (beating.soon entry member beat) (Nat.add_le_add_right clock _)
  · exact fun _ => beating.idle idle
  · show (s'.handler.bind Handler.running).isSome ↔ _
    rw [handler]
    exact beating.running
  · intro handler' runs
    have impossible : s'.handler = some handler' := runs
    rw [handler, idle] at impossible
    cases impossible

theorem Beating.link {s' : System H} {fuel new currTick : Nat} {reset : Option Reset}
    (beating : Beating c freq b nodes alive) (idle : b.system.handler = none)
    (began : (new, currTick) ∈ b.system.adding)
    (linked : linkTimer fuel b.system new currTick = some (s', reset)) {nodes' : List Nat}
    (inOrder : InOrder { s' with adding := b.system.adding.erase (new, currTick) } nodes')
    (added : s'.entries nodes' =
      Agenda.add Entry.expiration (new, b.system.timers new) (b.system.entries nodes)) :
    Beating c freq { b with system := { s' with adding := b.system.adding.erase (new, currTick) } }
      nodes' alive := by
  have divided := beating.inOrder.inv.began idle began
  have effect := linkTimer_linked divided.lists divided.apart linked
  have handler : s'.handler = b.system.handler := by rw [effect.rest]
  have timers : s'.timers = b.system.timers := by rw [effect.rest]
  have clock : s'.clock = b.system.clock := by rw [effect.rest]
  have other : (b.system.timers new).callback ≠ c.keepSchedule := beating.adding _ began
  constructor
  · exact inOrder
  · show beatsIn c (s'.entries nodes') + b.owed c = alive
    rw [added, beatsIn_add, beatsIn_cons_of_ne other]
    exact beating.beats
  · intro call member
    show (s'.timers call.1).callback ≠ c.keepSchedule
    rw [timers]
    exact beating.adding call (List.mem_of_mem_erase member)
  · show ∀ handler', s'.handler = some handler' → handler'.currTick ≤ s'.clock
    rw [handler, clock]
    exact beating.ticks
  · intro entry member beat
    change entry ∈ s'.entries nodes' at member
    rw [added, Agenda.mem_add] at member
    show _ ≤ s'.clock + freq >>> 5
    rw [clock]
    rcases member with rfl | old
    · exact absurd beat other
    · exact beating.soon entry old beat
  · exact fun _ => beating.idle idle
  · show (s'.handler.bind Handler.running).isSome ↔ _
    rw [handler]
    exact beating.running
  · show ∀ handler', s'.handler = some handler' → _
    rw [handler]
    exact beating.removed

theorem Beating.enter {now : Nat} (beating : Beating c freq b nodes alive)
    (idle : b.system.handler = none) (clock : b.system.clock ≤ now) {nodes' : List Nat}
    (inOrder : InOrder (Timers.enter b.system now) nodes')
    (same : b.system.entries nodes' = b.system.entries nodes) :
    Beating c freq { b with system := Timers.enter b.system now } nodes' alive := by
  have rests := beating.rests (by rw [idle]; rfl)
  constructor
  · exact inOrder
  · show beatsIn c (b.system.entries nodes') + b.owed c = alive
    rw [same]
    exact beating.beats
  · exact beating.adding
  · intro handler runs
    cases runs
    exact Nat.le_refl now
  · intro entry member beat
    change entry ∈ b.system.entries nodes' at member
    rw [same] at member
    exact Nat.le_trans (beating.soon entry member beat) (Nat.add_le_add_right clock _)
  · intro none_left
    cases none_left
  · show false = true ↔ b.activity.isSome
    rw [rests]
    rfl
  · rintro handler _ (scheduled | ⟨owes, active⟩)
    · have quiet := beating.idle idle
      change b.needSchedule = true at scheduled
      rw [quiet] at scheduled
      cases scheduled
    · change b.activity = _ at active
      rw [rests] at active
      cases active

theorem Beating.call {handler : Handler} {curr : Nat} (beating : Beating c freq b nodes alive)
    (runs : b.system.handler = some handler) (waits : handler.running = none) {nodes' : List Nat}
    (inOrder : InOrder (popTimer b.system handler curr) nodes')
    (called : b.system.entries nodes =
      (curr, b.system.timers curr) :: b.system.entries nodes') :
    Beating c freq
      { b with
        system := popTimer b.system handler curr
        activity := some ⟨(b.system.timers curr).callback,
          (c.request freq 0 (b.system.timers curr).callback).isSome⟩ } nodes' alive := by
  have rests := beating.rests (by rw [runs]; exact waits)
  have count := beating.beats
  rw [owed_of_rest rests, called] at count
  constructor
  · exact inOrder
  · show beatsIn c (b.system.entries nodes') + _ = alive
    by_cases beat : (b.system.timers curr).callback = c.keepSchedule
    · rw [beatsIn_cons_self beat] at count
      unfold owed Callbacks.request
      simpa [beat] using count
    · rw [beatsIn_cons_of_ne beat] at count
      unfold owed
      simpa [beat] using count
  · exact beating.adding
  · intro handler' runs'
    cases runs'
    exact beating.ticks handler runs
  · intro entry member beat
    apply beating.soon entry _ beat
    rw [called]
    exact List.mem_cons_of_mem _ member
  · intro none_left
    cases none_left
  · exact Iff.rfl
  · intro handler' runs' _
    cases runs'
    rfl

theorem Beating.add {s' : System H} {fuel new now : Nat} {callback : TimerCallback} {r : Request}
    {reset : Option Reset} (beating : Beating c freq b nodes alive)
    (owes : b.activity = some ⟨callback, true⟩) (asked : c.request freq now callback = some r)
    (admitted : r.Admitted b.system)
    (added : addTimer fuel b.system r = some (s', some new, reset)) {nodes' : List Nat}
    (inOrder : InOrder s' nodes')
    (entries : s'.entries nodes' =
      Agenda.add Entry.expiration (new, r.timer) (b.system.entries nodes)) :
    Beating c freq { b with system := s', activity := some ⟨callback, false⟩ } nodes' alive := by
  obtain ⟨s₁, allocated, made, effect⟩ := beating.inOrder.inv.addTimer_linked added
  obtain ⟨_, shape⟩ := Inv.newTimer_eq allocated
  obtain ⟨sameCallback, sameNow⟩ := request_callback asked
  have handler : s'.handler = b.system.handler := by rw [effect.rest, shape]
  have timers : s'.timers = Function.update b.system.timers new r.timer := by
    rw [effect.rest, shape]
  have adding : s'.adding = b.system.adding := by rw [effect.rest, shape]
  have clock : s'.clock = r.now := by rw [effect.rest, shape]
  have later : b.system.clock ≤ s'.clock := by
    rw [clock]
    exact admitted.clock
  have fresh : new ∉ b.system.outside := fun member =>
    (List.nodup_cons.mp made.distinct).1 (List.mem_append_left _ member)
  have count := beating.beats
  rw [owed_of_owes owes] at count
  constructor
  · exact inOrder
  · rw [owed_of_done rfl, entries, beatsIn_add]
    by_cases beat : callback = c.keepSchedule
    · rw [if_pos beat] at count
      rw [beatsIn_cons_self (sameCallback.trans beat)]
      exact count
    · rw [if_neg beat] at count
      rw [beatsIn_cons_of_ne fun same => beat (sameCallback.symm.trans same)]
      exact count
  · intro call member
    show (s'.timers call.1).callback ≠ c.keepSchedule
    change call ∈ s'.adding at member
    rw [adding] at member
    rw [timers, Function.update_of_ne]
    · exact beating.adding call member
    · rintro rfl
      exact fresh (List.mem_append_right _ (List.mem_map_of_mem member))
  · intro handler' runs
    change s'.handler = some handler' at runs
    rw [handler] at runs
    exact Nat.le_trans (beating.ticks handler' runs) later
  · intro entry member beat
    rw [entries, Agenda.mem_add] at member
    rcases member with rfl | old
    · have isBeat : callback = c.keepSchedule := sameCallback.symm.trans beat
      rw [isBeat] at asked
      have request := request_keepSchedule asked
      show r.timer.expiration ≤ s'.clock + freq >>> 5
      rw [admitted.expiration, clock, request]
      exact Nat.add_le_add_left (shiftRight_le freq) now
    · exact Nat.le_trans (beating.soon entry old beat) (Nat.add_le_add_right later _)
  · show s'.handler = none → _
    rw [handler]
    exact beating.idle
  · show (s'.handler.bind Handler.running).isSome ↔ true = true
    rw [handler]
    exact beating.running.trans (by rw [owes]; rfl)
  · intro handler' runs scheduled
    change s'.handler = some handler' at runs
    rw [handler] at runs
    refine beating.removed handler' runs (scheduled.imp_right ?_)
    rintro ⟨_, active⟩
    have isBeat : callback = c.keepSchedule := congrArg Activity.callback (Option.some.inj active)
    exact ⟨true, by rw [owes, isBeat]⟩

/-- A refused heartbeat is not pending any more. -/
theorem Beating.refuse {heap : H} {callback : TimerCallback}
    (beating : Beating c freq b nodes alive) (owes : b.activity = some ⟨callback, true⟩)
    {nodes' : List Nat} (inOrder : InOrder { b.system with heap := heap } nodes')
    (same : b.system.entries nodes' = b.system.entries nodes) :
    ∃ alive', alive' + (Event.refused callback).refusals c = alive ∧
      Beating c freq
        { b with system := { b.system with heap := heap }, activity := some ⟨callback, false⟩ }
        nodes' alive' := by
  have count := beating.beats
  rw [owed_of_owes owes] at count
  refine ⟨beatsIn c (b.system.entries nodes), count, ?_⟩
  constructor
  · exact inOrder
  · rw [owed_of_done rfl]
    exact congrArg (beatsIn c) same
  · exact beating.adding
  · exact beating.ticks
  · intro entry member beat
    change entry ∈ b.system.entries nodes' at member
    rw [same] at member
    exact beating.soon entry member beat
  · exact beating.idle
  · exact beating.running.trans (by rw [owes]; rfl)
  · intro handler runs scheduled
    refine beating.removed handler runs (scheduled.imp_right ?_)
    rintro ⟨_, active⟩
    have isBeat : callback = c.keepSchedule := congrArg Activity.callback (Option.some.inj active)
    exact ⟨true, by rw [owes, isBeat]⟩

theorem Beating.return {handler : Handler} {curr : Nat} {callback : TimerCallback}
    (beating : Beating c freq b nodes alive) (runs : b.system.handler = some handler)
    (done : b.activity = some ⟨callback, false⟩) {nodes' : List Nat}
    (inOrder : InOrder (freeTimer b.system handler curr) nodes')
    (same : b.system.entries nodes' = b.system.entries nodes) :
    Beating c freq
      { system := freeTimer b.system handler curr
        activity := none
        needSchedule := b.needSchedule || decide (callback = c.keepSchedule) } nodes' alive := by
  have count := beating.beats
  rw [owed_of_done done] at count
  constructor
  · exact inOrder
  · rw [owed_of_rest rfl]
    exact (congrArg (beatsIn c) same).trans count
  · exact beating.adding
  · intro handler' runs'
    cases runs'
    exact beating.ticks handler runs
  · intro entry member beat
    change entry ∈ b.system.entries nodes' at member
    rw [same] at member
    exact beating.soon entry member beat
  · intro none_left
    cases none_left
  · exact Iff.rfl
  · rintro handler' runs' (scheduled | ⟨_, active⟩)
    · cases runs'
      refine beating.removed handler runs ?_
      rcases Bool.or_eq_true_iff.mp scheduled with before | beat
      · exact Or.inl before
      · exact Or.inr ⟨false, by rw [done, of_decide_eq_true beat]⟩
    · cases active

theorem Beating.leave {handler : Handler} (beating : Beating c freq b nodes alive)
    (runs : b.system.handler = some handler) (waits : handler.running = none) {nodes' : List Nat}
    (inOrder : InOrder { b.system with handler := none } nodes')
    (same : b.system.entries nodes' = b.system.entries nodes) :
    Beating c freq { b with system := { b.system with handler := none }, needSchedule := false }
      nodes' alive := by
  have rests := beating.rests (by rw [runs]; exact waits)
  constructor
  · exact inOrder
  · show beatsIn c (b.system.entries nodes') + b.owed c = alive
    rw [same]
    exact beating.beats
  · exact beating.adding
  · intro handler' runs'
    cases runs'
  · intro entry member beat
    change entry ∈ b.system.entries nodes' at member
    rw [same] at member
    exact beating.soon entry member beat
  · exact fun _ => rfl
  · show false = true ↔ b.activity.isSome
    rw [rests]
    rfl
  · intro handler' runs'
    cases runs'

theorem Step.preserves (beating : Beating c freq b nodes alive) (fast : 256 ≤ freq)
    (narrow : freq < 2 ^ 32) (step : Step c freq b event b') :
    ∃ nodes' alive', alive' + event.refusals c = alive ∧ Beating c freq b' nodes' alive' := by
  obtain ⟨nodes', inOrder, effect⟩ := step.effect beating fast narrow
  cases step with
  | elsewhere kept =>
      have same := quiet_eq effect (by simp [Event.timers]) (by simp [Event.timers])
      refine ⟨nodes', alive, rfl, inOrder, ?_, beating.adding, beating.ticks, ?_, beating.idle,
        beating.running, beating.removed⟩
      · exact (congrArg (beatsIn c · + b.owed c) same).trans beating.beats
      · intro entry member
        rw [same] at member
        exact beating.soon entry member
  | «begin» idle admitted allocated other =>
      exact ⟨nodes', alive, rfl, beating.begin idle admitted allocated other inOrder
        (quiet_eq effect (by simp [Event.timers]) (by simp [Event.timers]))⟩
  | link idle began linked =>
      exact ⟨nodes', alive, rfl, beating.link idle began linked inOrder (added_eq effect)⟩
  | enter idle clock =>
      exact ⟨nodes', alive, rfl, beating.enter idle clock inOrder
        (quiet_eq effect (by simp [Event.timers]) (by simp [Event.timers]))⟩
  | call runs waits first =>
      exact ⟨nodes', alive, rfl, beating.call runs waits inOrder (called_eq effect)⟩
  | add owes asked admitted added =>
      exact ⟨nodes', alive, rfl,
        beating.add owes asked admitted added inOrder (added_eq effect)⟩
  | refuse owes asked refused =>
      obtain ⟨_, rfl⟩ := addTimer_none refused
      obtain ⟨alive', count, kept⟩ := beating.refuse owes inOrder
        (quiet_eq effect (by simp [Event.timers]) (by simp [Event.timers]))
      exact ⟨nodes', alive', count, kept⟩
  | «return» runs calls done =>
      exact ⟨nodes', alive, rfl, beating.return runs done inOrder
        (quiet_eq effect (by simp [Event.timers]) (by simp [Event.timers]))⟩
  | leave runs waits ends =>
      exact ⟨nodes', alive, rfl, beating.leave runs waits inOrder
        (quiet_eq effect (by simp [Event.timers]) (by simp [Event.timers]))⟩

end Steps

/-! ## Runs -/

section Runs

variable {c : Callbacks} {freq alive : Nat} {b last : Beat H} {nodes : List Nat}
  {trace : List (Beat H × Event)}

omit [Allocator H] in
/-- How often a heartbeat has been refused. -/
def refusals (c : Callbacks) (trace : List (Beat H × Event)) : Nat :=
  (trace.map fun entry => entry.2.refusals c).sum

omit [Allocator H] in
/-- The steps of the timers alone. -/
def timers (trace : List (Beat H × Event)) : List (System H × Timers.Event) :=
  trace.map fun entry => (entry.1.system, entry.2.timers)

theorem Run.preserves (beating : Beating c freq b nodes alive) (fast : 256 ≤ freq)
    (narrow : freq < 2 ^ 32) (run : Run c freq b trace last) :
    Timers.Run b.system (timers trace) last.system ∧
      ∃ nodes' alive', alive' + refusals c trace = alive ∧ Beating c freq last nodes' alive' := by
  induction run generalizing nodes alive with
  | nil => exact ⟨.nil, nodes, alive, rfl, beating⟩
  | @cons b mid last event trace step rest ih =>
      obtain ⟨nodes₁, alive₁, count, kept⟩ := step.preserves beating fast narrow
      obtain ⟨later, nodes', alive', total, final⟩ := ih kept
      refine ⟨.cons (step.timers beating fast narrow) later, nodes', alive', ?_, final⟩
      show alive' + (event.refusals c + refusals c trace) = alive
      omega

omit [Allocator H] in
theorem refusals_append (front later : List (Beat H × Event)) :
    refusals c (front ++ later) = refusals c front + refusals c later := by
  simp [refusals]

theorem Run.split {front later : List (Beat H × Event)} (run : Run c freq b (front ++ later) last) :
    ∃ mid, Run c freq b front mid ∧ Run c freq mid later last := by
  induction front generalizing b with
  | nil => exact ⟨b, .nil, run⟩
  | cons entry front ih =>
      cases run with
      | cons step rest =>
          obtain ⟨mid, first, second⟩ := ih rest
          exact ⟨mid, .cons step first, second⟩

/-- The first heartbeat is pending. -/
theorem Started.beating (started : Started c freq b) :
    ∃ nodes, Beating c freq b nodes 1 := by
  obtain ⟨empty, fuel, now, new, reset, initial, admitted, added⟩ := started.added
  have inv := initial.inv
  obtain ⟨s₁, allocated, made, effect⟩ := inv.addTimer_linked added
  obtain ⟨_, shape⟩ := Inv.newTimer_eq allocated
  have handler : b.system.handler = none := by rw [effect.rest, shape]; exact initial.idle
  have adding : b.system.adding = [] := by rw [effect.rest, shape]; exact initial.adding
  have clock : b.system.clock = now := by rw [effect.rest, shape]; rfl
  obtain ⟨nodes, kept, entries⟩ := Timers.Step.preserves_callbackAdd inv added
  have single : b.system.entries nodes = [(new, (timerInit c.keepSchedule freq now).timer)] :=
    entries
  refine ⟨nodes, ⟨kept, fun call member => ?_⟩, ?_, ?_, ?_, ?_, fun _ => started.quiet, ?_, ?_⟩
  · rw [adding] at member
    cases member
  · rw [single, owed_of_rest started.idle, beatsIn_cons_self rfl]
    rfl
  · intro call member
    rw [adding] at member
    cases member
  · intro handler' runs
    rw [handler] at runs
    cases runs
  · intro entry member _
    rw [single, List.mem_singleton] at member
    subst member
    show (timerInit c.keepSchedule freq now).timer.expiration ≤ _
    rw [admitted.expiration, clock]
    exact Nat.le_refl _
  · rw [handler, started.idle]
    exact Iff.rfl
  · intro handler' runs
    rw [handler] at runs
    cases runs

/-! ## A run of the handler -/

/-- The step calls `keep_schedule`. -/
def Event.Beats (c : Callbacks) : Event → Prop
  | .timer (.called _ fired) => fired.callback = c.keepSchedule
  | _ => False

/-- The step ends a run of the handler. -/
def Event.Leaves (event : Event) : Prop := ∃ reset, event.timers = .left reset

omit [Allocator H] in
theorem isBeat_iff {activity : Activity} (active : b.activity = some activity) :
    b.IsBeat c ↔ activity.callback = c.keepSchedule := by
  unfold IsBeat
  rw [active]
  constructor
  · rintro ⟨_, same⟩
    exact congrArg Activity.callback (Option.some.inj same)
  · exact fun same => ⟨activity.owes, by rw [← same]⟩

omit [Allocator H] in
theorem isBeat_mk (system : System H) (activity : Activity) (needSchedule : Bool) :
    IsBeat c ⟨system, some activity, needSchedule⟩ ↔ activity.callback = c.keepSchedule :=
  isBeat_iff rfl

omit [Allocator H] in
theorem not_isBeat (rests : b.activity = none) : ¬ b.IsBeat c := by
  rintro ⟨_, active⟩
  rw [rests] at active
  cases active

/-- What is asked for has been asked for by a heartbeat. -/
theorem Step.scheduled {mid : Beat H} {event : Event} (beating : Beating c freq b nodes alive)
    (step : Step c freq b event mid) (stays : ¬ event.Leaves) :
    (mid.needSchedule = true ∨ mid.IsBeat c) ↔
      (b.needSchedule = true ∨ b.IsBeat c) ∨ event.Beats c := by
  cases step with
  | elsewhere | «begin» | link | enter => exact (or_iff_left id).symm
  | call runs waits first =>
      have rests := beating.rests (by rw [runs]; exact waits)
      rw [or_iff_left (not_isBeat rests)]
      exact or_congr Iff.rfl (isBeat_mk _ _ _)
  | add owes asked admitted added =>
      refine Iff.trans (or_congr Iff.rfl ?_) (or_iff_left id).symm
      exact (isBeat_mk _ _ _).trans (isBeat_iff owes).symm
  | refuse owes asked refused =>
      refine Iff.trans (or_congr Iff.rfl ?_) (or_iff_left id).symm
      exact (isBeat_mk _ _ _).trans (isBeat_iff owes).symm
  | @«return» handler curr callback runs calls done =>
      refine Iff.trans ?_ (or_iff_left id).symm
      rw [isBeat_iff done, or_iff_left (not_isBeat rfl)]
      show (b.needSchedule || decide (callback = c.keepSchedule)) = true ↔ _
      rw [Bool.or_eq_true_iff, decide_eq_true_iff]
  | leave => exact absurd ⟨_, rfl⟩ stays

theorem Run.scheduled (beating : Beating c freq b nodes alive) (fast : 256 ≤ freq)
    (narrow : freq < 2 ^ 32) (run : Run c freq b trace last)
    (stays : ∀ entry ∈ trace, ¬ entry.2.Leaves) :
    (last.needSchedule = true ∨ last.IsBeat c) ↔
      (b.needSchedule = true ∨ b.IsBeat c) ∨ ∃ entry ∈ trace, entry.2.Beats c := by
  induction run generalizing nodes alive with
  | nil => simp
  | @cons b mid last event trace step rest ih =>
      obtain ⟨nodes₁, alive₁, _, kept⟩ := step.preserves beating fast narrow
      rw [ih kept fun entry member => stays entry (List.mem_cons_of_mem _ member),
        step.scheduled beating (stays _ List.mem_cons_self), or_assoc]
      refine or_congr Iff.rfl ?_
      simp

omit [Allocator H] in
/-- The steps of the timers call `keep_schedule` in the same places. -/
theorem beats_of_calls {entry : Nat × Timer} (member : entry ∈ calls (timers trace))
    (beat : entry.2.callback = c.keepSchedule) : ∃ step ∈ trace, step.2.Beats c := by
  obtain ⟨_, inTrace, isCall⟩ := List.mem_flatMap.mp member
  obtain ⟨⟨at_, event⟩, inside, rfl⟩ := List.mem_map.mp inTrace
  refine ⟨(at_, event), inside, ?_⟩
  rcases event with event | _ | _
  · cases event with
    | called curr timer =>
        obtain rfl := List.mem_singleton.mp isCall
        exact beat
    | _ => cases isCall
  · cases isCall
  · cases isCall

omit [Allocator H] in
theorem interval_of_lt {expiration currTick : Nat} (later : currTick ≤ expiration)
    (word : expiration < 2 ^ 64) :
    (⟨expiration, currTick⟩ : Reset).interval = expiration - currTick := by
  show (expiration + 2 ^ 64 - currTick) % 2 ^ 64 = expiration - currTick
  have wrapped : expiration + 2 ^ 64 - currTick = expiration - currTick + 2 ^ 64 := by omega
  rw [wrapped, Nat.add_mod_right, Nat.mod_eq_of_lt (by omega)]

omit [Allocator H] in
theorem firesAt_of_lt {r : Reset} {set : Nat} (short : r.interval < 2 ^ 31) :
    firesAt r set = set + r.interval := by
  unfold firesAt
  rw [BitVec.toInt_eq_toNat_of_lt] <;> rw [BitVec.toNat_ofNat] <;> omega

/-- A timer that is set on the way out of the handler fires at most a heartbeat and the time
of the handler later. -/
theorem firesAt_soon {r : Reset} {now clock heartbeat set : Nat} (later : 0 < r.interval)
    (soon : now + r.interval ≤ clock + heartbeat) (read : clock ≤ set)
    (short : set - now + heartbeat < 2 ^ 31) :
    set < firesAt r set ∧ firesAt r set ≤ set + (set - now : Nat) + heartbeat := by
  rw [firesAt_of_lt (by omega)]
  omega

/-- The timer is set for the next heartbeat when the handler leaves. -/
theorem Beating.leaves {handler : Handler} (beating : Beating c freq b nodes alive)
    (runs : b.system.handler = some handler) (waits : handler.running = none)
    (ends : expired b.system handler.currTick = none) (needs : b.needSchedule = true)
    (living : 0 < alive) :
    ∃ r, handlerReset b.system handler = some r ∧ 0 < r.interval ∧
      handler.currTick + r.interval ≤ b.system.clock + freq >>> 5 := by
  have rests := beating.rests (by rw [runs]; exact waits)
  have count := beating.beats
  rw [owed_of_rest rests, Nat.add_zero] at count
  rw [← count] at living
  obtain ⟨entry, member, beat⟩ := beatsIn_pos_iff.mp living
  have soon := beating.soon entry member beat
  have lists := beating.inOrder.inv.lists
  have sorted := entries_sorted beating.inOrder.inv.sorted
  have later := expired_none ends lists
  cases nodes with
  | nil => cases member
  | cons head rest =>
      have first : b.system.timerHead = some head := lists.head_eq
      have word := beating.inOrder.inv.words head (List.mem_append_right _ List.mem_cons_self)
      have waitsFor : handler.currTick < (b.system.timers head).expiration := later _ rfl
      have bound : (b.system.timers head).expiration ≤ b.system.clock + freq >>> 5 := by
        rcases List.mem_cons.mp member with same | behind
        · rw [same] at soon
          exact soon
        · exact Nat.le_trans ((List.pairwise_cons.mp sorted).1 entry behind) soon
      have interval := interval_of_lt (Nat.le_of_lt waitsFor) word
      refine ⟨⟨(b.system.timers head).expiration, handler.currTick⟩, ?_, ?_, ?_⟩
      · unfold handlerReset
        rw [if_pos (beating.removed handler runs (Or.inl needs)), first]
        rfl
      · omega
      · omega

theorem idle_of_entered {s s' : System H} {now : Nat} (step : Timers.Step s (.entered now) s') :
    s.handler = none := by
  cases step with
  | enter idle _ => exact idle

/-- A run of the handler calls `schedule` exactly when it has called `keep_schedule`; it calls
that when the heartbeat has expired, and it leaves the timer set for the next one. -/
theorem Run.handles {front inner later : List (Beat H × Event)} {before after : Beat H} {now : Nat}
    {reset : Option Reset} {scheduled : Bool} (beating : Beating c freq b nodes alive)
    (fast : 256 ≤ freq) (narrow : freq < 2 ^ 32)
    (run : Run c freq b (front ++ (before, .timer (.entered now)) ::
      (inner ++ (after, .left reset scheduled) :: later)) last)
    (stays : ∀ entry ∈ inner, ¬ entry.2.Leaves) :
    (scheduled = true ↔ ∃ entry ∈ inner, entry.2.Beats c) ∧
      (∀ entered p, before.system.Lists entered → p ∈ entered →
        (before.system.timers p).callback = c.keepSchedule → before.system.expiration p ≤ now →
        scheduled = true) ∧
      (scheduled = true → refusals c (front ++ inner) < alive →
        ∃ r, reset = some r ∧ 0 < r.interval ∧
          now + r.interval ≤ after.system.clock + freq >>> 5) := by
  obtain ⟨mid, first, fromEntry⟩ := run.split
  obtain ⟨_, nodes₁, alive₁, count₁, beating₁⟩ := first.preserves beating fast narrow
  cases fromEntry with
  | cons step fromInner =>
      obtain ⟨nodes₂, alive₂, count₂, beating₂⟩ := step.preserves beating₁ fast narrow
      have entering := step.timers beating₁ fast narrow
      have starts := step.scheduled beating₁ fun leaves => by
        obtain ⟨_, same⟩ := leaves
        cases same
      obtain ⟨mid₂, inside, fromLeft⟩ := fromInner.split
      obtain ⟨steps, nodes₃, alive₃, count₃, beating₃⟩ := inside.preserves beating₂ fast narrow
      have asked := inside.scheduled beating₂ fast narrow stays
      have timersStay : Timers.Stays (timers inner) := by
        intro entry member r same
        obtain ⟨_, inTrace, rfl⟩ := List.mem_map.mp member
        exact stays _ inTrace ⟨r, same⟩
      have idle := idle_of_entered entering
      have nothingBefore : ¬ (before.needSchedule = true ∨ before.IsBeat c) := by
        rintro (needs | active)
        · rw [beating₁.idle idle] at needs
          cases needs
        · exact not_isBeat (beating₁.rests (by rw [idle]; rfl)) active
      cases fromLeft with
      | cons step rest =>
          cases step with
          | @leave handler runs waits ends =>
              have rests := beating₃.rests (by rw [runs]; exact waits)
              have isScheduled : after.needSchedule = true ↔ ∃ entry ∈ inner, entry.2.Beats c := by
                refine (or_iff_left (not_isBeat rests)).symm.trans (asked.trans ?_)
                rw [starts]
                exact or_iff_right (not_or.mpr ⟨nothingBefore, id⟩)
              have handled : Timers.Run before.system
                  ([] ++ (before.system, .entered now) :: (timers inner ++ [])) after.system := by
                rw [List.append_nil]
                exact .cons entering steps
              refine ⟨isScheduled, fun entered p lists member beat isDue => ?_, fun needs few => ?_⟩
              · obtain ⟨sorted, _, remaining, stop, ⟨handler', runs', tick⟩, inv, drains⟩ :=
                  handled.handler_drains beating₁.inOrder timersStay lists
                cases stop
                cases runs.symm.trans runs'
                rw [tick] at ends
                obtain ⟨all, _⟩ :=
                  drains.complete (entries_sorted sorted) (expired_none ends inv.lists)
                suffices called : (p, before.system.timers p) ∈ calls (timers inner) from
                  isScheduled.mpr (beats_of_calls called beat)
                rw [all]
                exact List.mem_filter.mpr ⟨List.mem_map_of_mem member, decide_eq_true isDue⟩
              · have living : 0 < alive₃ := by
                  have total := refusals_append (c := c) front inner
                  change alive₂ = alive₁ at count₂
                  omega
                obtain ⟨_, _, _, stop, ⟨handler', runs', tick⟩, _⟩ :=
                  handled.handler_drains beating₁.inOrder timersStay beating₁.inOrder.inv.lists
                cases stop
                cases runs.symm.trans runs'
                have leaves := beating₃.leaves runs waits ends needs living
                rw [tick] at leaves
                exact leaves

/-- In every run from `timer_init`, one heartbeat is pending until the memory for one is refused,
which happens at most once, and none from then on.  A run of the handler calls `schedule` exactly
when it has called `keep_schedule`.  It does so if the heartbeat has expired when it reads the
clock, and then it leaves the timer set to an interval that ends at most a heartbeat and its own
running time after the register is written. -/
theorem run_beats {start last : Beat H} {trace : List (Beat H × Event)} (fast : 256 ≤ freq)
    (narrow : freq < 2 ^ 32) (started : Started c freq start) (run : Run c freq start trace last) :
    (∃ nodes, last.system.Lists nodes ∧
        beatsIn c (last.system.entries nodes) + last.owed c + refusals c trace = 1) ∧
      ∀ {front inner later : List (Beat H × Event)} {before after : Beat H} {now : Nat}
        {reset : Option Reset} {scheduled : Bool},
        trace = front ++ (before, .timer (.entered now)) ::
          (inner ++ (after, .left reset scheduled) :: later) →
        (∀ entry ∈ inner, ¬ entry.2.Leaves) →
        (scheduled = true ↔ ∃ entry ∈ inner, entry.2.Beats c) ∧
          (∀ entered p, before.system.Lists entered → p ∈ entered →
            (before.system.timers p).callback = c.keepSchedule →
            before.system.expiration p ≤ now → scheduled = true) ∧
          (scheduled = true → refusals c (front ++ inner) = 0 →
            ∃ r, reset = some r ∧ ∀ set, after.system.clock ≤ set →
              set - now + freq >>> 5 < 2 ^ 31 →
              set < firesAt r set ∧ firesAt r set ≤ set + (set - now : Nat) + (freq >>> 5 : Nat)) := by
  obtain ⟨nodes, beating⟩ := started.beating
  obtain ⟨_, nodes', alive', count, final⟩ := run.preserves beating fast narrow
  refine ⟨⟨nodes', final.inOrder.inv.lists, ?_⟩, ?_⟩
  · rw [final.beats]
    exact count
  · rintro front inner later before after now reset scheduled rfl stays
    obtain ⟨asked, isDue, sets⟩ := run.handles beating fast narrow stays
    refine ⟨asked, isDue, fun needs none_refused => ?_⟩
    obtain ⟨r, same, later, soon⟩ := sets needs (by omega)
    exact ⟨r, same, fun set read short => firesAt_soon later soon read short⟩

end Runs

/-! ## The first beat -/

section FirstBeat

variable {h : H} {p q : Nat}

/-- A timer that is added to an empty list. -/
theorem addTimer_empty {s : System H} {r : Request} (empty : s.timerHead = none)
    (memory : (Allocator.alloc s.heap timerSize).2 = some p) :
    addTimer 0 s r = some (insertFirst { s with
        heap := (Allocator.alloc s.heap timerSize).1
        timers := Function.update s.timers p r.timer
        clock := r.now } p, some p, some ⟨r.timer.expiration, r.now⟩) := by
  have filled : newTimer s r = ({ s with
      heap := (Allocator.alloc s.heap timerSize).1
      timers := Function.update s.timers p r.timer
      clock := r.now }, some p) := by
    unfold newTimer
    split
    · next heap result =>
        rw [result] at memory
        cases memory
    · next heap new result =>
        rw [result] at memory ⊢
        cases memory
        rfl
  simp only [addTimer, filled, linkTimer, empty, Function.update_self]

/-- The callbacks have the addresses 1 and 2. -/
def twoCallbacks : Callbacks := ⟨1, 2⟩

/-- After `timer_init`, with a counter that runs at 256 Hz. -/
def firstBeat (h : H) (p : Nat) : Beat H where
  system := insertFirst { emptySystem h with
    heap := (Allocator.alloc h timerSize).1
    timers := Function.update (emptySystem h).timers p (timerInit 1 256 0).timer } p
  activity := none
  needSchedule := false

theorem firstBeat_started (holds : Holds h []) (first : (Allocator.alloc h timerSize).2 = some p) :
    Started twoCallbacks 256 (firstBeat h p) where
  added := ⟨emptySystem h, 0, 0, p, _, emptySystem_initial holds,
    ⟨Nat.le_refl 0, by decide, by decide⟩, addTimer_empty rfl first⟩
  idle := rfl
  quiet := rfl

/-- The callback of the heartbeat runs and has still to add the next one. -/
def calledBeat (h : H) (p : Nat) : Beat H where
  system := popTimer (enter (firstBeat h p).system 8) ⟨8, false, none⟩ p
  activity := some ⟨1, true⟩
  needSchedule := false

/-- It has added the next one. -/
def addedBeat (h : H) (p q : Nat) : Beat H where
  system := insertFirst { (calledBeat h p).system with
    heap := (Allocator.alloc (Allocator.alloc h timerSize).1 timerSize).1
    timers := Function.update (calledBeat h p).system.timers q (Timers.keepSchedule 1 256 8).timer
    clock := 8 } q
  activity := some ⟨1, false⟩
  needSchedule := false

theorem firstBeat_called : Step twoCallbacks 256
    { firstBeat h p with system := enter (firstBeat h p).system 8 }
    (.timer (.called p (timerInit 1 256 0).timer)) (calledBeat h p) := by
  have timer : (firstBeat h p).system.timers p = (timerInit 1 256 0).timer :=
    Function.update_self _ _ _
  have isDue : expired (enter (firstBeat h p).system 8) 8 = some p := by
    show Option.filter (fun head => decide (((firstBeat h p).system.timers head).expiration ≤ 8))
      (some p) = some p
    rw [Option.filter_some, timer]
    rfl
  have calls := @Step.call H _ twoCallbacks 256
    { firstBeat h p with system := enter (firstBeat h p).system 8 } _ _ rfl rfl isDue
  change Step twoCallbacks 256 _ (.timer (.called p ((firstBeat h p).system.timers p)))
    ⟨_, some ⟨((firstBeat h p).system.timers p).callback,
      (twoCallbacks.request 256 0 ((firstBeat h p).system.timers p).callback).isSome⟩, _⟩ at calls
  rw [timer] at calls
  exact calls

theorem calledBeat_added
    (second : (Allocator.alloc (Allocator.alloc h timerSize).1 timerSize).2 = some q) :
    Step twoCallbacks 256 (calledBeat h p)
      (.timer (.added q (Timers.keepSchedule 1 256 8).timer (some ⟨9, 8⟩))) (addedBeat h p q) := by
  have empty : (calledBeat h p).system.timerHead = none := by
    show (firstBeat h p).system.links.next p = none
    exact Links.pushFront_next_self
  exact .add rfl rfl ⟨Nat.le_refl 8, by decide, by decide⟩ (addTimer_empty empty second)

/-- The heartbeat expires and is added again. -/
theorem firstBeat_run
    (second : (Allocator.alloc (Allocator.alloc h timerSize).1 timerSize).2 = some q) :
    ∃ (inner : List (Beat H × Event)) (after last : Beat H) (reset : Option Reset),
      Run twoCallbacks 256 (firstBeat h p) ([] ++ (firstBeat h p, .timer (.entered 8)) ::
        (inner ++ (after, .left reset true) :: [])) last ∧ after.system.clock = 8 ∧
      (∀ entry ∈ inner, ¬ entry.2.Leaves) ∧ refusals twoCallbacks ([] ++ inner) = 0 := by
  have enters : Step twoCallbacks 256 (firstBeat h p) (.timer (.entered 8))
      { firstBeat h p with system := enter (firstBeat h p).system 8 } := .enter rfl (Nat.zero_le 8)
  have returns : Step twoCallbacks 256 (addedBeat h p q) (.timer .returned)
      ⟨freeTimer (addedBeat h p q).system ⟨8, true, some p⟩ p, none, true⟩ :=
    @Step.return H _ twoCallbacks 256 (addedBeat h p q) ⟨8, true, some p⟩ p 1 rfl rfl rfl
  have ends : expired (freeTimer (addedBeat h p q).system ⟨8, true, some p⟩ p) 8 = none := by
    have timer : (addedBeat h p q).system.timers q = (Timers.keepSchedule 1 256 8).timer :=
      Function.update_self _ _ _
    show Option.filter (fun head => decide (((addedBeat h p q).system.timers head).expiration ≤ 8))
      (some q) = none
    rw [Option.filter_some, timer]
    rfl
  have leaves := @Step.leave H _ twoCallbacks 256
    ⟨freeTimer (addedBeat h p q).system ⟨8, true, some p⟩ p, none, true⟩ _ rfl rfl ends
  refine ⟨[(_, _), (_, _), (_, _)], _, _, _, .cons enters (.cons firstBeat_called
    (.cons (calledBeat_added second) (.cons returns (.cons leaves .nil)))), rfl, ?_, rfl⟩
  intro entry member
  simp only [List.mem_cons, List.not_mem_nil, or_false] at member
  rcases member with rfl | rfl | rfl
  all_goals
    rintro ⟨_, same⟩
    cases same

open Fs (BootHeap bootHeap bootHeap_holds)

/-- The heartbeat of a kernel that has just started leads to a call of `schedule`, and the timer
fires again at most eight ticks later. -/
theorem run_beats_first : ∃ (start after last : Beat BootHeap)
    (trace : List (Beat BootHeap × Event)) (r : Reset), Started twoCallbacks 256 start ∧
      Run twoCallbacks 256 start trace last ∧ (after, .left (some r) true) ∈ trace ∧
      8 < firesAt r 8 ∧ firesAt r 8 ≤ 16 := by
  have hasFirst : (Allocator.alloc bootHeap timerSize).2.isSome := by decide +kernel
  have hasSecond : (Allocator.alloc (Allocator.alloc bootHeap timerSize).1 timerSize).2.isSome := by
    decide +kernel
  obtain ⟨p, first⟩ := Option.isSome_iff_exists.mp hasFirst
  obtain ⟨q, second⟩ := Option.isSome_iff_exists.mp hasSecond
  have started := firstBeat_started bootHeap_holds first
  obtain ⟨inner, after, last, reset, run, read, stays, none_refused⟩ := firstBeat_run (p := p) second
  obtain ⟨_, handled⟩ := run_beats (by decide) (by decide) started run
  obtain ⟨_, _, sets⟩ := handled rfl stays
  obtain ⟨r, rfl, fires⟩ := sets rfl none_refused
  obtain ⟨later, soon⟩ := fires 8 (Nat.le_of_eq read) (by decide)
  refine ⟨_, after, last, _, r, started, run, ?_, later, soon⟩
  exact List.mem_cons_of_mem _ (List.mem_append_right inner List.mem_cons_self)

end FirstBeat

end Beat

end OsdiKernel.Timers
