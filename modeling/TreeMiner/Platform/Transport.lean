import Mathlib.Data.List.Nodup
import Mathlib.Logic.Function.Basic
import TreeMiner.Lib.Run

/-! The broker connection: the pump thread that keeps it up, beside any number of threads that
publish, subscribe and shut it down. A step is one look at what they share, so that the pump
may find any of them anywhere in a call. -/

namespace TreeMiner

open Lib

/-! ## Reconnect backoff -/

/-- The longest `Duration`, in nanoseconds. -/
def DURATION_MAX : Nat := (2 ^ 64 - 1) * 1000000000 + 999999999

/-- `Duration::from_millis` -/
def fromMillis (ms : Nat) : Nat := ms * 1000000

def INITIAL_RECONNECT_DELAY_MS : Nat := 1000
def MAX_RECONNECT_DELAY_MS : Nat := 30000

theorem clamped_initial (initial max : Nat) :
    Nat.max initial (fromMillis 1) ≤ Nat.max max (Nat.max initial (fromMillis 1)) :=
  Nat.le_max_right _ _

structure ReconnectBackoff where
  initial : Nat
  max : Nat
  current : Nat
  initial_pos : fromMillis 1 ≤ initial
  initial_le : initial ≤ current
  le_max : current ≤ max

namespace ReconnectBackoff

def new (initial max : Nat) : ReconnectBackoff where
  initial := Nat.max initial (fromMillis 1)
  max := Nat.max max (Nat.max initial (fromMillis 1))
  current := Nat.max initial (fromMillis 1)
  initial_pos := Nat.le_max_right _ _
  initial_le := Nat.le_refl _
  le_max := clamped_initial initial max

theorem next_initial_le (b : ReconnectBackoff) : b.initial ≤ Nat.min (b.current * 2) b.max :=
  Nat.le_min.2 ⟨by have := b.initial_le; omega, Nat.le_trans b.initial_le b.le_max⟩

/-- The delay to wait; `none` where the doubling overflows a `Duration`, which panics. -/
def nextDelay (b : ReconnectBackoff) : Option (Nat × ReconnectBackoff) :=
  if b.current * 2 > DURATION_MAX then none
  else some (b.current, ⟨b.initial, b.max, Nat.min (b.current * 2) b.max, b.initial_pos,
    b.next_initial_le, Nat.min_le_right _ _⟩)

def reset (b : ReconnectBackoff) : ReconnectBackoff :=
  ⟨b.initial, b.max, b.initial, b.initial_pos, Nat.le_refl _, Nat.le_trans b.initial_le b.le_max⟩

end ReconnectBackoff

/-! ## The threads -/

inductive TransportError
  | notConnected
  | queueFull
deriving DecidableEq, Repr

/-- What `connection.iter()` yields. -/
inductive LinkEvent
  | connAck (success : Bool)
  | publish (topic : String) (payload : List UInt8)
  | other
  | error
deriving DecidableEq, Repr

/-- Where the pump thread is. -/
inductive Pump
  | polling
  /-- `stop` is not looked at yet -/
  | received (event : LinkEvent)
  | handling (event : LinkEvent)
  /-- `connected` is set, the subscriptions are not locked yet -/
  | replayDue
  /-- the subscriptions are locked -/
  | replaying (rest : List String)
  /-- `connected` is cleared, `stop` is not looked at again yet -/
  | lost
  | sleeping (deadline : Nat)
  /-- out of the loop -/
  | leaving
  | returned
  | panicked
deriving DecidableEq, Repr

inductive TransportCall
  | publish (topic : String) (payload : List UInt8)
  | subscribe (topic : String)
  | shutdown
deriving DecidableEq, Repr

/-- Where a thread that uses the transport is. -/
inductive Caller
  | idle
  | publishing (topic : String) (payload : List UInt8)
  /-- the link was up -/
  | sending (topic : String) (payload : List UInt8)
  /-- the subscriptions are not locked yet -/
  | subscribing (topic : String)
  | remembered (topic : String)
  /-- the link was up -/
  | requesting (topic : String)
  | shuttingDown
  /-- `stop` was not set before -/
  | disconnecting
  | joining
  | joined
  | answered (result : Except TransportError Unit)

/-- What is asked of the client with `try_publish`, `try_subscribe` and `try_disconnect`. -/
inductive ClientRequest
  | publish (topic : String) (payload : List UInt8)
  | subscribe (topic : String)
  | disconnect
deriving DecidableEq, Repr

/-- `ι` are the threads that use the transport. -/
structure MqttTransport (ι : Type) where
  connected : Bool
  subscriptions : List String
  stop : Bool
  backoff : ReconnectBackoff
  pump : Pump
  callers : ι → Caller

inductive TransportEvent (ι : Type)
  | call (i : ι) (call : TransportCall)
  /-- the thread's next step; `accepted` is whether the client's queue has room for what the step
  asks of it -/
  | caller (i : ι) (accepted : Bool)
  /-- the connection yields an event -/
  | arrived (event : LinkEvent)
  /-- the connection yields no more -/
  | closed
  /-- the pump's next step, with the clock it reads -/
  | pump (accepted : Bool) (now : Nat)

def TransportCall.begin : TransportCall → Caller
  | .publish topic payload => .publishing topic payload
  | .subscribe topic => .subscribing topic
  | .shutdown => .shuttingDown

def Caller.free : Caller → Bool
  | .idle | .answered _ => true
  | _ => false

/-- What the pump is still to ask for. -/
def Pump.owes : Pump → String → Prop
  | .replayDue, _ => True
  | .replaying rest, topic => topic ∈ rest
  | _, _ => False

/-- Where the pump is in the subscriptions it has locked. -/
def Pump.rest : Pump → List String
  | .replaying rest => rest
  | _ => []

/-- The pump asks for nothing again. -/
def Pump.quiet : Pump → Prop
  | .replayDue | .replaying _ => False
  | _ => True

/-- What a thread that has added a topic is still to ask for, if the link is up. -/
def Caller.owes : Caller → String → Prop
  | .remembered topic, topic' | .requesting topic, topic' => topic = topic'
  | _, _ => False

def Pump.finished : Pump → Bool
  | .returned | .panicked => true
  | _ => false

def Pump.holdsLock : Pump → Bool
  | .replaying _ => true
  | _ => false

namespace MqttTransport

variable {ι : Type} [DecidableEq ι]

/-- `start`; without a thread to spawn there is no pump. -/
def start (backoff : ReconnectBackoff) (spawned : Bool) : MqttTransport ι where
  connected := false
  subscriptions := []
  stop := false
  backoff := backoff
  pump := if spawned then .polling else .returned
  callers := fun _ => .idle

def setCaller (s : MqttTransport ι) (i : ι) (c : Caller) : MqttTransport ι :=
  { s with callers := Function.update s.callers i c }

def remember (s : MqttTransport ι) (topic : String) : MqttTransport ι :=
  if s.subscriptions.any (· == topic) then s
  else { s with subscriptions := s.subscriptions ++ [topic] }

/-- What the client makes of a request, as its caller sees it. -/
def answer (accepted : Bool) : Except TransportError Unit :=
  if accepted then .ok () else .error .queueFull

/-- A step of `publish`, `subscribe` or `shutdown`. -/
def stepCaller (s : MqttTransport ι) (i : ι) (accepted : Bool) : Option (MqttTransport ι) :=
  match s.callers i with
  | .idle | .answered _ => none
  | .publishing topic payload =>
    some (s.setCaller i
      (if s.connected then .sending topic payload else .answered (.error .notConnected)))
  | .sending _ _ => some (s.setCaller i (.answered (answer accepted)))
  | .subscribing topic =>
    if s.pump.holdsLock then none else some ((s.remember topic).setCaller i (.remembered topic))
  | .remembered topic =>
    some (s.setCaller i
      (if s.connected then .requesting topic else .answered (.error .notConnected)))
  | .requesting _ => some (s.setCaller i (.answered (answer accepted)))
  | .shuttingDown =>
    some (if s.stop then s.setCaller i .idle
      else { s with stop := true }.setCaller i .disconnecting)
  | .disconnecting => some (s.setCaller i .joining)
  | .joining => if s.pump.finished then some (s.setCaller i .joined) else none
  | .joined => some ({ s with connected := false }.setCaller i .idle)

/-- The arm for a broken connection, behind the second look at `stop`. -/
def backOff (s : MqttTransport ι) (now : Nat) : MqttTransport ι :=
  match s.backoff.nextDelay with
  | none => { s with pump := .panicked }
  | some (delay, backoff) => { s with backoff := backoff, pump := .sleeping (now + delay) }

/-- A step of `pump_loop`. -/
def stepPump (s : MqttTransport ι) (now : Nat) : Option (MqttTransport ι) :=
  match s.pump with
  | .polling | .returned | .panicked => none
  | .received event => some { s with pump := if s.stop then .leaving else .handling event }
  | .handling (.connAck true) =>
    some { s with connected := true, backoff := s.backoff.reset, pump := .replayDue }
  | .handling (.connAck false) => some { s with connected := false, pump := .polling }
  -- the payload is handed to `on_message`
  | .handling (.publish _ _) => some { s with pump := .polling }
  | .handling .other => some { s with pump := .polling }
  | .handling .error => some { s with connected := false, pump := .lost }
  | .replayDue => some { s with pump := .replaying s.subscriptions }
  | .replaying [] => some { s with pump := .polling }
  | .replaying (_ :: rest) => some { s with pump := .replaying rest }
  | .lost => some (if s.stop then { s with pump := .leaving } else s.backOff now)
  | .sleeping deadline =>
    some { s with pump := if now < deadline then
      if s.stop then .returned else .sleeping deadline else .polling }
  | .leaving => some { s with connected := false, pump := .returned }

def step (s : MqttTransport ι) : TransportEvent ι → Option (MqttTransport ι)
  | .call i call => if (s.callers i).free then some (s.setCaller i call.begin) else none
  | .caller i accepted => s.stepCaller i accepted
  | .arrived event => if s.pump = .polling then some { s with pump := .received event } else none
  | .closed => if s.pump = .polling then some { s with pump := .leaving } else none
  | .pump _ now => s.stepPump now

/-! ## What a transition does -/

/-- The pump takes note of a successful CONNACK. -/
def comesUp (t : Trans (MqttTransport ι) (TransportEvent ι)) : Bool :=
  match t.ev, t.pre.pump with
  | .pump _ _, .handling (.connAck true) => true
  | _, _ => false

/-- The flag is cleared: the broker refuses, the connection breaks, the pump ends or a shutdown
does. -/
def goesDown (t : Trans (MqttTransport ι) (TransportEvent ι)) : Bool :=
  match t.ev with
  | .pump _ _ =>
    match t.pre.pump with
    | .handling (.connAck false) | .handling .error | .leaving => true
    | _ => false
  | .caller i _ =>
    match t.pre.callers i with
    | .joined => true
    | _ => false
  | _ => false

/-- The topic a thread adds to the subscriptions, or finds there. -/
def remembers (t : Trans (MqttTransport ι) (TransportEvent ι)) : Option String :=
  match t.ev with
  | .caller i _ =>
    match t.pre.callers i with
    | .subscribing topic => some topic
    | _ => none
  | _ => none

/-- The topic the pump asks for again. -/
def replays (t : Trans (MqttTransport ι) (TransportEvent ι)) : Option String :=
  match t.ev, t.pre.pump with
  | .pump _ _, .replaying (topic :: _) => some topic
  | _, _ => none

/-- What is asked of the client. -/
def asks (t : Trans (MqttTransport ι) (TransportEvent ι)) : Option ClientRequest :=
  match t.ev with
  | .pump _ _ => (replays t).map .subscribe
  | .caller i _ =>
    match t.pre.callers i with
    | .sending topic payload => some (.publish topic payload)
    | .requesting topic => some (.subscribe topic)
    | .disconnecting => some .disconnect
    | _ => none
  | _ => none

/-! ## What a step leaves alone -/

/-- What each event asks for, and where it leads. -/
inductive Moves (s : MqttTransport ι) : TransportEvent ι → MqttTransport ι → Prop
  | call (i : ι) (call : TransportCall) :
      (s.callers i).free = true → Moves s (.call i call) (s.setCaller i call.begin)
  | caller (i : ι) (accepted : Bool) {s' : MqttTransport ι} :
      s.stepCaller i accepted = some s' → Moves s (.caller i accepted) s'
  | arrived (event : LinkEvent) :
      s.pump = .polling → Moves s (.arrived event) { s with pump := .received event }
  | closed : s.pump = .polling → Moves s .closed { s with pump := .leaving }
  | pump (accepted : Bool) (now : Nat) {s' : MqttTransport ι} :
      s.stepPump now = some s' → Moves s (.pump accepted now) s'

theorem moves_of_step {s s' : MqttTransport ι} {e : TransportEvent ι} (h : s.step e = some s') :
    Moves s e s' := by
  cases e with
  | call i call =>
    dsimp only [step] at h
    split_ifs at h with hfree
    cases h
    exact .call i call hfree
  | caller i accepted => exact .caller i accepted h
  | arrived event =>
    dsimp only [step] at h
    split_ifs at h with hp
    cases h
    exact .arrived event hp
  | closed =>
    dsimp only [step] at h
    split_ifs at h with hp
    cases h
    exact .closed hp
  | pump accepted now => exact .pump accepted now h

/-- The fields a step of the pump leaves alone. -/
structure SameCallers (s s' : MqttTransport ι) : Prop where
  callers : s'.callers = s.callers
  subscriptions : s'.subscriptions = s.subscriptions
  stop : s'.stop = s.stop

omit [DecidableEq ι] in
theorem SameCallers.backOff (s : MqttTransport ι) (now : Nat) : SameCallers s (s.backOff now) := by
  unfold MqttTransport.backOff
  split
  · exact ⟨rfl, rfl, rfl⟩
  · exact ⟨rfl, rfl, rfl⟩

omit [DecidableEq ι] in
theorem SameCallers.of_pump {s s' : MqttTransport ι} {now : Nat} (h : s.stepPump now = some s') :
    SameCallers s s' := by
  unfold stepPump at h
  split at h <;> cases h
  case h_13.refl =>
    split_ifs
    · exact ⟨rfl, rfl, rfl⟩
    · exact .backOff s now
  all_goals exact ⟨rfl, rfl, rfl⟩

/-- The fields a step of a caller leaves alone. -/
structure SamePump (i : ι) (s s' : MqttTransport ι) : Prop where
  pump : s'.pump = s.pump
  backoff : s'.backoff = s.backoff
  others : ∀ j, j ≠ i → s'.callers j = s.callers j

theorem SamePump.setCaller (s : MqttTransport ι) (i : ι) (c : Caller) :
    SamePump i s (s.setCaller i c) :=
  ⟨rfl, rfl, fun _ hj => Function.update_of_ne hj _ _⟩

theorem SamePump.remember (s : MqttTransport ι) (i : ι) (topic : String) (c : Caller) :
    SamePump i s ((s.remember topic).setCaller i c) := by
  unfold MqttTransport.remember
  split_ifs
  · exact .setCaller s i c
  · exact ⟨rfl, rfl, fun _ hj => Function.update_of_ne hj _ _⟩

theorem SamePump.of_caller {s s' : MqttTransport ι} {i : ι} {accepted : Bool}
    (h : s.stepCaller i accepted = some s') : SamePump i s s' := by
  unfold stepCaller at h
  split at h
  case h_5 topic hc =>
    split_ifs at h
    cases h
    exact .remember s i topic _
  case h_8 =>
    cases h
    split_ifs
    · exact .setCaller s i _
    · exact ⟨rfl, rfl, fun _ hj => Function.update_of_ne hj _ _⟩
  case h_10 =>
    split_ifs at h
    cases h
    exact .setCaller s i _
  case h_11 =>
    cases h
    exact ⟨rfl, rfl, fun _ hj => Function.update_of_ne hj _ _⟩
  all_goals first | contradiction | (cases h; exact .setCaller s i _)

/-! ## The flag -/

variable {t : Trans (MqttTransport ι) (TransportEvent ι)}

omit [DecidableEq ι] in
theorem connected_remember (s : MqttTransport ι) (topic : String) :
    (s.remember topic).connected = s.connected := by
  unfold remember
  split_ifs
  · rfl
  · rfl

omit [DecidableEq ι] in
theorem connected_backOff (s : MqttTransport ι) (now : Nat) :
    (s.backOff now).connected = s.connected := by
  unfold backOff
  split
  · rfl
  · rfl

theorem connected_caller {s s' : MqttTransport ι} {i : ι} {accepted : Bool}
    (h : s.stepCaller i accepted = some s') :
    s'.connected = true ↔ s.connected = true ∧ goesDown ⟨s, .caller i accepted, s'⟩ = false := by
  unfold stepCaller at h
  unfold goesDown
  dsimp only
  cases hc : s.callers i with
  | idle => rw [hc] at h; cases h
  | answered r => rw [hc] at h; cases h
  | subscribing topic =>
    rw [hc] at h
    dsimp only at h
    split_ifs at h
    cases h
    rw [show ((s.remember topic).setCaller i _).connected = s.connected from
      connected_remember s topic]
    exact (and_iff_left rfl).symm
  | joining =>
    rw [hc] at h
    dsimp only at h
    split_ifs at h
    cases h
    exact (and_iff_left rfl).symm
  | shuttingDown =>
    rw [hc] at h
    cases h
    split_ifs
    · exact (and_iff_left rfl).symm
    · exact (and_iff_left rfl).symm
  | joined =>
    rw [hc] at h
    cases h
    exact iff_of_false Bool.false_ne_true fun h => Bool.false_ne_true h.2.symm
  | _ =>
    rw [hc] at h
    cases h
    exact (and_iff_left rfl).symm

omit [DecidableEq ι] in
theorem connected_pump {s s' : MqttTransport ι} {accepted : Bool} {now : Nat}
    (h : s.stepPump now = some s') :
    s'.connected = true ↔ comesUp ⟨s, .pump accepted now, s'⟩ = true ∨
      s.connected = true ∧ goesDown ⟨s, .pump accepted now, s'⟩ = false := by
  unfold comesUp goesDown
  dsimp only
  unfold stepPump at h
  split at h <;> cases h <;> rename_i hp
  case h_13.refl =>
    rw [hp]
    split_ifs
    · simp
    · simp [connected_backOff]
  all_goals simp [hp]

theorem connected_step (h : t.pre.step t.ev = some t.post) :
    t.post.connected = true ↔
      comesUp t = true ∨ t.pre.connected = true ∧ goesDown t = false := by
  obtain ⟨s, e, s'⟩ := t
  dsimp only at h ⊢
  cases moves_of_step h with
  | call i call _ =>
    simp [comesUp, goesDown, setCaller]
  | caller i accepted _ =>
    refine (connected_caller h).trans ?_
    simp [comesUp]
  | arrived event _ =>
    simp [comesUp, goesDown]
  | closed _ =>
    simp [comesUp, goesDown]
  | pump accepted now _ => exact connected_pump h

/-! ## The subscriptions -/

omit [DecidableEq ι] in
theorem mem_remember (s : MqttTransport ι) (topic topic' : String) :
    topic' ∈ (s.remember topic).subscriptions ↔ topic' ∈ s.subscriptions ∨ topic' = topic := by
  unfold remember
  split_ifs with hany
  · obtain ⟨x, hx, hxt⟩ := List.any_eq_true.1 hany
    have hmem : topic ∈ s.subscriptions := eq_of_beq hxt ▸ hx
    exact ⟨Or.inl, fun h => h.elim id fun heq => heq ▸ hmem⟩
  · rw [List.mem_append, List.mem_singleton]

omit [DecidableEq ι] in
theorem nodup_remember (s : MqttTransport ι) (topic : String) (h : s.subscriptions.Nodup) :
    (s.remember topic).subscriptions.Nodup := by
  unfold remember
  split_ifs with hany
  · exact h
  · refine List.Nodup.append h (List.nodup_singleton topic) ?_
    rw [List.disjoint_singleton]
    exact fun hmem => hany (List.any_eq_true.2 ⟨topic, hmem, beq_self_eq_true topic⟩)

omit [DecidableEq ι] in
theorem prefix_remember (s : MqttTransport ι) (topic : String) :
    s.subscriptions <+: (s.remember topic).subscriptions := by
  unfold remember
  split_ifs
  · exact List.prefix_rfl
  · exact List.prefix_append _ _

/-- A thread adds its topic while nobody holds the lock, or the subscriptions stay. -/
theorem subscriptions_caller {s s' : MqttTransport ι} {i : ι} {accepted : Bool}
    (h : s.stepCaller i accepted = some s') :
    (∃ topic, s.callers i = .subscribing topic ∧
      s' = (s.remember topic).setCaller i (.remembered topic)) ∨
    remembers ⟨s, .caller i accepted, s'⟩ = none ∧ s'.subscriptions = s.subscriptions := by
  unfold stepCaller at h
  unfold remembers
  dsimp only
  cases hc : s.callers i with
  | idle => rw [hc] at h; cases h
  | answered r => rw [hc] at h; cases h
  | subscribing topic =>
    rw [hc] at h
    dsimp only at h
    split_ifs at h
    cases h
    exact Or.inl ⟨topic, rfl, rfl⟩
  | joining =>
    rw [hc] at h
    dsimp only at h
    split_ifs at h
    cases h
    exact Or.inr ⟨rfl, rfl⟩
  | shuttingDown =>
    rw [hc] at h
    cases h
    refine Or.inr ⟨rfl, ?_⟩
    split_ifs
    · rfl
    · rfl
  | _ =>
    rw [hc] at h
    cases h
    exact Or.inr ⟨rfl, rfl⟩

/-- A step adds the topic it remembers, for which its thread has then to ask, or none. -/
theorem subscriptions_step (h : t.pre.step t.ev = some t.post) :
    (∃ topic, remembers t = some topic ∧
      t.post.subscriptions = (t.pre.remember topic).subscriptions ∧
      ∃ i, (t.post.callers i).owes topic) ∨
    remembers t = none ∧ t.post.subscriptions = t.pre.subscriptions := by
  obtain ⟨s, e, s'⟩ := t
  dsimp only at h ⊢
  cases moves_of_step h with
  | call i call _ =>
    exact Or.inr ⟨rfl, rfl⟩
  | caller i accepted _ =>
    rcases subscriptions_caller h with ⟨topic, hc, rfl⟩ | hsame
    · refine Or.inl ⟨topic, ?_, rfl, i, ?_⟩
      · unfold remembers
        dsimp only
        rw [hc]
      · unfold setCaller
        dsimp only
        rw [Function.update_self]
        exact rfl
    · exact Or.inr hsame
  | arrived event _ =>
    exact Or.inr ⟨rfl, rfl⟩
  | closed _ =>
    exact Or.inr ⟨rfl, rfl⟩
  | pump accepted now _ => exact Or.inr ⟨rfl, (SameCallers.of_pump h).subscriptions⟩

/-- Each topic ever added is remembered, once and for good. -/
theorem subscribed {b : ReconnectBackoff} {spawned : Bool} {s : MqttTransport ι}
    {ts : List (Trans (MqttTransport ι) (TransportEvent ι))}
    (h : Run (fun s e s' => s.step e = some s') (start b spawned) ts s) :
    s.subscriptions.Nodup ∧
      ∀ topic, topic ∈ s.subscriptions ↔ ∃ t ∈ ts, remembers t = some topic := by
  refine h.hist (I := fun ts s => s.subscriptions.Nodup ∧
    ∀ topic, topic ∈ s.subscriptions ↔ ∃ t ∈ ts, remembers t = some topic) ?_ ?_
  · exact ⟨List.nodup_nil, fun topic => by simp [start]⟩
  · rintro before t hst ⟨hnodup, hmem⟩
    rcases subscriptions_step hst with ⟨topic, hrem, hsubs, -⟩ | ⟨hrem, hsubs⟩
    · rw [hsubs]
      refine ⟨nodup_remember _ _ hnodup, fun topic' => ?_⟩
      rw [mem_remember, hmem]
      simp [or_and_right, exists_or, hrem, eq_comm]
    · rw [hsubs]
      refine ⟨hnodup, fun topic' => ?_⟩
      rw [hmem]
      simp [or_and_right, exists_or, hrem]

/-! ## What is asked again -/

/-- What the pump is still to ask for it asks for now or later. -/
theorem pump_owes {topic : String} (h : t.pre.step t.ev = some t.post)
    (hmem : topic ∈ t.pre.subscriptions) (howes : t.pre.pump.owes topic) :
    asks t = some (.subscribe topic) ∨ t.post.pump.owes topic := by
  obtain ⟨s, e, s'⟩ := t
  dsimp only at h hmem howes ⊢
  cases moves_of_step h with
  | call i call _ =>
    exact Or.inr howes
  | caller i accepted _ =>
    rw [(SamePump.of_caller h).pump]
    exact Or.inr howes
  | arrived event hp =>
    rw [hp] at howes
    exact howes.elim
  | closed hp =>
    rw [hp] at howes
    exact howes.elim
  | pump accepted now _ =>
    dsimp only [step] at h
    unfold stepPump at h
    cases hp : s.pump with
    | replayDue =>
      rw [hp] at h
      cases h
      exact Or.inr hmem
    | replaying rest =>
      rw [hp] at h howes
      cases rest with
      | nil => exact absurd howes List.not_mem_nil
      | cons topic' rest =>
        cases h
        rcases List.mem_cons.1 howes with rfl | howes
        · left
          unfold asks replays
          dsimp only
          rw [hp]
          rfl
        · exact Or.inr howes
    | _ =>
      rw [hp] at howes
      exact howes.elim

theorem not_owes_of_free {c : Caller} (h : c.free = true) (topic : String) : ¬ c.owes topic := by
  cases c <;> first | exact id | cases h

/-- What a thread is still to ask for while the link is up it asks for now or later. -/
theorem caller_owes {topic : String} {i : ι} (h : t.pre.step t.ev = some t.post)
    (hconnected : t.pre.connected = true) (howes : (t.pre.callers i).owes topic) :
    asks t = some (.subscribe topic) ∨ (t.post.callers i).owes topic := by
  obtain ⟨s, e, s'⟩ := t
  dsimp only at h hconnected howes ⊢
  cases moves_of_step h with
  | call j call hfree =>
    right
    have hne : i ≠ j := by
      rintro rfl
      exact not_owes_of_free hfree topic howes
    unfold setCaller
    dsimp only
    rwa [Function.update_of_ne hne]
  | caller j accepted _ =>
    by_cases hij : i = j
    · subst hij
      dsimp only [step] at h
      unfold stepCaller at h
      cases hc : s.callers i with
      | remembered topic' =>
        rw [hc] at h howes
        cases h
        right
        unfold setCaller
        dsimp only
        rw [Function.update_self, if_pos hconnected]
        exact howes
      | requesting topic' =>
        rw [hc] at howes
        cases howes
        left
        unfold asks
        dsimp only
        rw [hc]
      | _ =>
        rw [hc] at howes
        exact howes.elim
    · right
      rwa [(SamePump.of_caller h).others i hij]
  | arrived event hp =>
    exact Or.inr howes
  | closed hp =>
    exact Or.inr howes
  | pump accepted now _ =>
    rw [(SameCallers.of_pump h).callers]
    exact Or.inr howes

omit [DecidableEq ι] in
theorem comesUp_iff : comesUp t = true ↔
    (∃ accepted now, t.ev = .pump accepted now) ∧ t.pre.pump = .handling (.connAck true) := by
  unfold comesUp
  split
  case h_1 hev hp => exact iff_of_true rfl ⟨⟨_, _, hev⟩, hp⟩
  case h_2 hother =>
    exact iff_of_false Bool.false_ne_true fun ⟨⟨_, _, hev⟩, hp⟩ => hother _ _ hev hp

theorem pump_of_comesUp (h : t.pre.step t.ev = some t.post) (hup : comesUp t = true) :
    t.post.pump = .replayDue := by
  obtain ⟨⟨accepted, now, hev⟩, hp⟩ := comesUp_iff.1 hup
  rw [hev] at h
  dsimp only [step] at h
  unfold stepPump at h
  rw [hp] at h
  rw [← Option.some.inj h]

variable {b : ReconnectBackoff} {spawned : Bool} {s : MqttTransport ι}
  {ts : List (Trans (MqttTransport ι) (TransportEvent ι))}

/-- While the link is up, each topic has been asked for since it came up, or it is about to be. -/
theorem requested (h : Run (fun s e s' => s.step e = some s') (start b spawned) ts s) :
    s.connected = true → ∀ topic ∈ s.subscriptions,
      (∃ t ∈ sinceLast comesUp ts, asks t = some (.subscribe topic)) ∨
        s.pump.owes topic ∨ ∃ i, (s.callers i).owes topic := by
  refine h.hist (I := fun ts s => s.connected = true → ∀ topic ∈ s.subscriptions,
    (∃ t ∈ sinceLast comesUp ts, asks t = some (.subscribe topic)) ∨
      s.pump.owes topic ∨ ∃ i, (s.callers i).owes topic) ?_ ?_
  · exact fun hconnected => absurd hconnected Bool.false_ne_true
  · intro before t hst ih hconnected topic hmem
    cases hup : comesUp t with
    | true =>
      rw [pump_of_comesUp hst hup]
      exact Or.inr (Or.inl trivial)
    | false =>
      rw [sinceLast_snoc_of_false hup]
      have hpre : t.pre.connected = true :=
        (((connected_step hst).1 hconnected).resolve_left (by simp [hup])).1
      have hkept : topic ∈ t.pre.subscriptions →
          (∃ t' ∈ sinceLast comesUp before ++ [t], asks t' = some (.subscribe topic)) ∨
            t.post.pump.owes topic ∨ ∃ i, (t.post.callers i).owes topic := by
        intro hold
        rcases ih hpre topic hold with ⟨t', ht', hasks⟩ | howes | ⟨i, howes⟩
        · exact Or.inl ⟨t', List.mem_append_left _ ht', hasks⟩
        · rcases pump_owes hst hold howes with hasks | howes
          · exact Or.inl ⟨t, List.mem_concat_self, hasks⟩
          · exact Or.inr (Or.inl howes)
        · rcases caller_owes hst hpre howes with hasks | howes
          · exact Or.inl ⟨t, List.mem_concat_self, hasks⟩
          · exact Or.inr (Or.inr ⟨i, howes⟩)
      rcases subscriptions_step hst with ⟨new, -, hsubs, i, howes⟩ | ⟨-, hsubs⟩
      · rw [hsubs, mem_remember] at hmem
        rcases hmem with hold | rfl
        · exact hkept hold
        · exact Or.inr (Or.inr ⟨i, howes⟩)
      · exact hkept (hsubs ▸ hmem)

/-- What the pump has asked for since the link came up, and what it has locked. -/
structure InOrder (done : List String) (s : MqttTransport ι) : Prop where
  order : done ++ s.pump.rest <+: s.subscriptions
  due : s.pump = .replayDue → done = []

omit [DecidableEq ι] in
theorem InOrder.of_quiet {done : List String} {s s' : MqttTransport ι} (h : InOrder done s)
    (hquiet : s'.pump.quiet) (hsubs : s'.subscriptions = s.subscriptions) : InOrder done s' := by
  have hrest : s'.pump.rest = [] ∧ s'.pump ≠ .replayDue := by
    cases hp : s'.pump <;> rw [hp] at hquiet <;> first | exact hquiet.elim | exact ⟨rfl, nofun⟩
  refine ⟨?_, fun hp => absurd hp hrest.2⟩
  rw [hrest.1, List.append_nil, hsubs]
  exact (List.prefix_append _ _).trans h.order

omit [DecidableEq ι] in
theorem quiet_backOff (s : MqttTransport ι) (now : Nat) : (s.backOff now).pump.quiet := by
  unfold backOff
  split
  · trivial
  · trivial

omit [DecidableEq ι] in
theorem inOrder_pump {done : List String} {s' : MqttTransport ι} {accepted : Bool} {now : Nat}
    (h : s.stepPump now = some s') (hup : s.pump ≠ .handling (.connAck true))
    (hd : InOrder done s) :
    InOrder (done ++ (replays ⟨s, .pump accepted now, s'⟩).toList) s' := by
  have hsubs := (SameCallers.of_pump h).subscriptions
  unfold replays
  dsimp only
  unfold stepPump at h
  split at h <;> cases h <;> rename_i hp
  case h_5.refl => exact absurd hp hup
  case h_10.refl =>
    rw [hp, Option.toList_none, List.append_nil]
    refine ⟨?_, nofun⟩
    rw [hd.due hp]
    exact List.prefix_rfl
  case h_12.refl topic rest =>
    rw [hp, Option.toList_some]
    refine ⟨?_, nofun⟩
    have horder := hd.order
    rw [hp] at horder
    rwa [List.append_assoc]
  all_goals
    rw [hp, Option.toList_none, List.append_nil]
    refine hd.of_quiet ?_ hsubs
    try split_ifs
  all_goals first | exact quiet_backOff s now | trivial

theorem inOrder_step {done : List String} (h : t.pre.step t.ev = some t.post)
    (hup : comesUp t = false) (hd : InOrder done t.pre) :
    InOrder (done ++ (replays t).toList) t.post := by
  obtain ⟨s, e, s'⟩ := t
  dsimp only at h hd ⊢
  cases moves_of_step h with
  | call i call _ =>
    rw [show replays ⟨s, _, _⟩ = none from rfl, Option.toList_none, List.append_nil]
    exact ⟨hd.order, hd.due⟩
  | caller i accepted _ =>
    have hpump : s'.pump = s.pump := (SamePump.of_caller h).pump
    rw [show replays ⟨s, _, _⟩ = none from rfl, Option.toList_none, List.append_nil]
    refine ⟨?_, fun hp => hd.due (hpump ▸ hp)⟩
    rw [hpump]
    rcases subscriptions_caller h with ⟨topic, -, rfl⟩ | ⟨-, hsubs⟩
    · exact hd.order.trans (prefix_remember s topic)
    · exact hsubs ▸ hd.order
  | arrived event _ =>
    rw [show replays ⟨s, _, _⟩ = none from rfl, Option.toList_none, List.append_nil]
    exact hd.of_quiet trivial rfl
  | closed _ =>
    rw [show replays ⟨s, _, _⟩ = none from rfl, Option.toList_none, List.append_nil]
    exact hd.of_quiet trivial rfl
  | pump accepted now _ =>
    refine inOrder_pump h ?_ hd
    intro hp
    exact Bool.false_ne_true (hup.symm.trans (comesUp_iff.2 ⟨⟨accepted, now, rfl⟩, hp⟩))

/-- Since the link came up the pump has asked for topics in the order they were added. -/
theorem replayed (h : Run (fun s e s' => s.step e = some s') (start b spawned) ts s) :
    InOrder ((sinceLast comesUp ts).filterMap replays) s := by
  refine h.hist (I := fun ts s => InOrder ((sinceLast comesUp ts).filterMap replays) s) ?_ ?_
  · refine ⟨?_, fun _ => rfl⟩
    cases spawned <;> exact List.nil_prefix
  · intro before t hst ih
    cases hup : comesUp t with
    | true =>
      rw [sinceLast_snoc_of_true hup]
      refine ⟨?_, fun _ => rfl⟩
      rw [pump_of_comesUp hst hup]
      exact List.nil_prefix
    | false =>
      rw [sinceLast_snoc_of_false hup, List.filterMap_append]
      have hnext := inOrder_step hst hup ih
      cases hr : replays t <;> simpa [hr] using hnext

/-- Over any interleaving of the pump with the threads that use the transport, topics are kept
once each and for good, the link counts as up from a successful CONNACK to the next refusal,
breakdown or end, and while it is up no topic is forgotten: each has been asked for since it came
up, by the pump in the order of the subscriptions or by its own thread, or is about to be. -/
theorem resubscribed (h : Run (fun s e s' => s.step e = some s') (start b spawned) ts s) :
    (s.subscriptions.Nodup ∧
      ∀ topic, topic ∈ s.subscriptions ↔ ∃ t ∈ ts, remembers t = some topic) ∧
    (s.connected = true ↔
      (∃ t ∈ ts, comesUp t = true) ∧ ∀ t ∈ sinceLast comesUp ts, goesDown t = false) ∧
    (s.connected = true → ∀ topic ∈ s.subscriptions,
      (∃ t ∈ sinceLast comesUp ts, asks t = some (.subscribe topic)) ∨
        s.pump.owes topic ∨ ∃ i, (s.callers i).owes topic) ∧
    (sinceLast comesUp ts).filterMap replays ++ s.pump.rest <+: s.subscriptions := by
  refine ⟨subscribed h, ?_, requested h, (replayed h).order⟩
  exact h.on_iff (P := fun s => s.connected = true) Bool.false_ne_true
    fun t hst => connected_step hst

/-- A topic asked for in vain while the link is down, then a connection: the pump asks for it. -/
theorem resubscribed_after_outage :
    ∃ ts s, Run (fun s e s' => s.step e = some s')
        (start (.new (fromMillis 1000) (fromMillis 30000)) true : MqttTransport Bool) ts s ∧
      s.connected = true ∧ s.subscriptions = ["task"] ∧
      ∃ t ∈ sinceLast comesUp ts, asks t = some (.subscribe "task") := by
  obtain ⟨ts, s, hrun, hconnected, hsubs, hpump, hfree⟩ :
      ∃ ts s, Run (fun s e s' => s.step e = some s')
          (start (.new (fromMillis 1000) (fromMillis 30000)) true : MqttTransport Bool) ts s ∧
        s.connected = true ∧ s.subscriptions = ["task"] ∧ s.pump = .polling ∧
        ∀ i, (s.callers i).free = true :=
    ⟨_, _, Run.taken MqttTransport.step _ [.arrived .error, .pump true 0, .pump true 0,
      .pump true 0, .call true (.subscribe "task"), .caller true true, .caller true true,
      .pump true 1000000000, .arrived (.connAck true), .pump true 1000000001,
      .pump true 1000000002, .pump true 1000000003, .pump true 1000000004,
      .pump true 1000000005], by decide, by decide, by decide, by decide⟩
  refine ⟨ts, s, hrun, hconnected, hsubs, ?_⟩
  rcases (resubscribed hrun).2.2.1 hconnected "task" (by simp [hsubs]) with hasked | howes | howes
  · exact hasked
  · rw [hpump] at howes
    exact howes.elim
  · obtain ⟨i, howes⟩ := howes
    exact absurd howes (not_owes_of_free (hfree i) "task")

end MqttTransport

end TreeMiner
