import TreeMiner.Platform.Transport

/-! How the pump waits between attempts to reconnect, and what is left of it once a shutdown has
begun. -/

namespace TreeMiner

open Lib

namespace MqttTransport

variable {ι : Type} [DecidableEq ι] {t : Trans (MqttTransport ι) (TransportEvent ι)}
variable {s s' u : MqttTransport ι} {ts : List (Trans (MqttTransport ι) (TransportEvent ι))}

/-! ## Delays -/

/-- The pump waits before it tries again. -/
def backsOff (t : Trans (MqttTransport ι) (TransportEvent ι)) : Bool :=
  match t.ev, t.pre.pump with
  | .pump _ _, .lost => !t.pre.stop
  | _, _ => false

/-- The delay after `failures` breakdowns in a row. -/
def delayAfter (initial max failures : Nat) : Nat :=
  Nat.min (Nat.max initial (fromMillis 1) * 2 ^ failures)
    (Nat.max max (Nat.max initial (fromMillis 1)))

omit [DecidableEq ι] in
theorem backsOff_iff : backsOff t = true ↔
    (∃ accepted now, t.ev = .pump accepted now) ∧ t.pre.pump = .lost ∧ t.pre.stop = false := by
  unfold backsOff
  split
  case h_1 hev hp =>
    rw [Bool.not_eq_true']
    exact ⟨fun hstop => ⟨⟨_, _, hev⟩, hp, hstop⟩, fun h => h.2.2⟩
  case h_2 hother =>
    exact iff_of_false Bool.false_ne_true fun ⟨⟨_, _, hev⟩, hp, _⟩ => hother _ _ hev hp

theorem post_of_backsOff {accepted : Bool} {now : Nat} (h : t.pre.step t.ev = some t.post)
    (hev : t.ev = .pump accepted now) (hp : t.pre.pump = .lost) (hstop : t.pre.stop = false) :
    t.post = t.pre.backOff now := by
  rw [hev] at h
  dsimp only [step] at h
  unfold stepPump at h
  rw [hp] at h
  dsimp only at h
  rw [hstop, if_neg Bool.false_ne_true] at h
  exact (Option.some.inj h).symm

/-- Only a connection resets the delay, and only a breakdown doubles it. -/
theorem backoff_step (h : t.pre.step t.ev = some t.post) (hwait : backsOff t = false) :
    t.post.backoff = if comesUp t then t.pre.backoff.reset else t.pre.backoff := by
  obtain ⟨s, e, s'⟩ := t
  dsimp only at h ⊢
  cases moves_of_step h with
  | call i call _ =>
    rfl
  | caller i accepted _ => exact (SamePump.of_caller h).backoff
  | arrived event _ =>
    rfl
  | closed _ =>
    rfl
  | pump accepted now hpump =>
    unfold backsOff at hwait
    unfold comesUp
    dsimp only [step] at h hwait ⊢
    unfold stepPump at h
    split at h <;> cases h <;> rename_i hp <;> rw [hp] <;> rw [hp] at hwait
    case h_13.refl =>
      dsimp only at hwait
      rw [if_pos (by simpa using hwait)]
      rfl
    all_goals rfl

/-- A pump that has come to its end stays there. -/
theorem pump_of_finished (h : t.pre.step t.ev = some t.post) (hfin : t.pre.pump.finished = true) :
    t.post.pump = t.pre.pump := by
  obtain ⟨s, e, s'⟩ := t
  dsimp only at h hfin ⊢
  cases moves_of_step h with
  | call i call _ =>
    rfl
  | caller i accepted _ => exact (SamePump.of_caller h).pump
  | arrived event hp =>
    rw [hp] at hfin
    cases hfin
  | closed hp =>
    rw [hp] at hfin
    cases hfin
  | pump accepted now _ =>
    dsimp only [step] at h
    unfold stepPump at h
    cases hp : s.pump with
    | returned =>
      rw [hp] at h
      exact absurd h nofun
    | panicked =>
      rw [hp] at h
      exact absurd h nofun
    | _ =>
      rw [hp] at hfin
      exact absurd hfin nofun

theorem delayAfter_succ (initial max failures : Nat) :
    Nat.min (delayAfter initial max failures * 2) (Nat.max max (Nat.max initial (fromMillis 1))) =
      delayAfter initial max (failures + 1) := by
  unfold delayAfter
  rw [Nat.pow_succ, ← Nat.mul_assoc]
  generalize Nat.max initial (fromMillis 1) * 2 ^ failures = delay
  change min (min delay _ * 2) _ = min (delay * 2) _
  omega

theorem delayAfter_zero (initial max : Nat) :
    delayAfter initial max 0 = Nat.max initial (fromMillis 1) := by
  unfold delayAfter
  rw [Nat.pow_zero, Nat.mul_one]
  exact Nat.min_eq_left (Nat.le_max_right _ _)

/-- The delay to come, out of the breakdowns since the link last came up. -/
structure Delay (initial max failures : Nat) (b : ReconnectBackoff) : Prop where
  current : b.current = delayAfter initial max failures
  first : b.initial = Nat.max initial (fromMillis 1)
  ceiling : b.max = Nat.max max (Nat.max initial (fromMillis 1))

theorem Delay.reset {initial max failures : Nat} {b : ReconnectBackoff}
    (h : Delay initial max failures b) : Delay initial max 0 b.reset :=
  ⟨h.first.trans (delayAfter_zero initial max).symm, h.first, h.ceiling⟩

omit [DecidableEq ι] in
theorem Delay.backOff {initial max failures now : Nat} (h : Delay initial max failures s.backoff) :
    (s.backOff now).pump = .panicked ∧ delayAfter initial max failures * 2 > DURATION_MAX ∨
      (s.backOff now).pump = .sleeping (now + delayAfter initial max failures) ∧
        Delay initial max (failures + 1) (s.backOff now).backoff ∧
        ¬ delayAfter initial max failures * 2 > DURATION_MAX := by
  unfold MqttTransport.backOff ReconnectBackoff.nextDelay
  by_cases hover : s.backoff.current * 2 > DURATION_MAX
  · rw [if_pos hover]
    exact Or.inl ⟨rfl, h.current ▸ hover⟩
  · rw [if_neg hover]
    refine Or.inr ⟨congrArg (Pump.sleeping <| now + ·) h.current, ⟨?_, h.first, h.ceiling⟩,
      h.current ▸ hover⟩
    dsimp only
    rw [h.ceiling, h.current]
    exact delayAfter_succ initial max failures

variable {initial max : Nat} {spawned : Bool}

theorem delay (h : Run (fun s e s' => s.step e = some s') (start (.new initial max) spawned) ts s) :
    s.pump = .panicked ∨
      Delay initial max ((sinceLast comesUp ts).countP backsOff) s.backoff := by
  refine h.hist (I := fun ts s => s.pump = .panicked ∨
    Delay initial max ((sinceLast comesUp ts).countP backsOff) s.backoff) ?_ ?_
  · exact Or.inr ⟨(delayAfter_zero initial max).symm, rfl, rfl⟩
  · rintro before t hst (hpanic | hd)
    · left
      rw [pump_of_finished hst (by rw [hpanic]; rfl), hpanic]
    · cases hwait : backsOff t with
      | true =>
        obtain ⟨⟨accepted, now, hev⟩, hp, hstop⟩ := backsOff_iff.1 hwait
        have hup : comesUp t = false := by
          unfold comesUp
          rw [hev, hp]
        rw [post_of_backsOff hst hev hp hstop, sinceLast_snoc_of_false hup, List.countP_append,
          List.countP_singleton, if_pos hwait]
        exact hd.backOff.imp And.left fun h => h.2.1
      | false =>
        right
        rw [backoff_step hst hwait]
        cases hup : comesUp t with
        | true =>
          rw [sinceLast_snoc_of_true hup, if_pos rfl]
          exact hd.reset
        | false =>
          rw [sinceLast_snoc_of_false hup, if_neg Bool.false_ne_true, List.countP_append,
            List.countP_singleton, hwait, if_neg Bool.false_ne_true]
          exact hd

/-- The pump reads a clock. -/
def reads (t : Trans (MqttTransport ι) (TransportEvent ι)) : Option Nat :=
  match t.ev with
  | .pump _ now => some now
  | _ => none

/-- A shutdown finds `stop` not set and sets it. -/
def stops (t : Trans (MqttTransport ι) (TransportEvent ι)) : Bool :=
  match t.ev with
  | .caller i _ =>
    match t.pre.callers i with
    | .shuttingDown => !t.pre.stop
    | _ => false
  | _ => false

/-- The shutdown that has set `stop` has waited for the pump. -/
def shutsDown (t : Trans (MqttTransport ι) (TransportEvent ι)) : Bool :=
  match t.ev with
  | .caller i _ =>
    match t.pre.callers i with
    | .joined => true
    | _ => false
  | _ => false

/-- The pump acts on what the connection has yielded. -/
def handles (t : Trans (MqttTransport ι) (TransportEvent ι)) : Bool :=
  match t.ev, t.pre.pump with
  | .pump _ _, .handling _ => true
  | _, _ => false

/-- The pump goes on. -/
def pumpMoves (t : Trans (MqttTransport ι) (TransportEvent ι)) : Bool :=
  match t.ev with
  | .arrived _ | .closed | .pump _ _ => true
  | .call _ _ | .caller _ _ => false

/-- How far a pump that is to stop is from its end, with at most `n` topics to ask for. -/
def stepsLeft (n : Nat) : Pump → Nat
  | .returned | .panicked => 0
  | .leaving => 1
  | .received _ | .lost => 2
  | .polling | .handling .error => 3
  | .sleeping _ | .handling .other | .handling (.publish _ _) | .handling (.connAck false) => 4
  | .replaying rest => 4 + rest.length
  | .replayDue => 5 + n
  | .handling (.connAck true) => 6 + n

/-- Events the pump will still act on. -/
def inHand : Pump → Nat
  | .handling _ => 1
  | _ => 0

theorem stop_step (h : t.pre.step t.ev = some t.post) (hstop : t.pre.stop = true) :
    t.post.stop = true := by
  obtain ⟨s, e, s'⟩ := t
  dsimp only at h hstop ⊢
  cases moves_of_step h with
  | call i call _ =>
    exact hstop
  | caller i accepted _ =>
    dsimp only [step] at h
    unfold stepCaller at h
    split at h
    case h_5 topic hc =>
      split_ifs at h
      cases h
      unfold remember setCaller
      split_ifs
      · exact hstop
      · exact hstop
    case h_8 =>
      rw [if_pos hstop] at h
      cases h
      exact hstop
    case h_10 =>
      split_ifs at h
      cases h
      exact hstop
    all_goals first | contradiction | (cases h; exact hstop)
  | arrived event _ =>
    exact hstop
  | closed _ =>
    exact hstop
  | pump accepted now _ =>
    rw [(SameCallers.of_pump h).stop]
    exact hstop

/-- Once `stop` is set every move of the pump brings it nearer to its end, and it takes up nothing
new. -/
theorem stopping_step {n : Nat} (h : t.pre.step t.ev = some t.post) (hstop : t.pre.stop = true)
    (hn : t.pre.subscriptions.length ≤ n) :
    (pumpMoves t).toNat + stepsLeft n t.post.pump ≤ stepsLeft n t.pre.pump ∧
      (handles t).toNat + inHand t.post.pump ≤ inHand t.pre.pump := by
  obtain ⟨s, e, s'⟩ := t
  dsimp only at h hstop hn ⊢
  cases moves_of_step h with
  | call i call _ =>
    exact ⟨(Nat.zero_add _).le, (Nat.zero_add _).le⟩
  | caller i accepted _ =>
    rw [(SamePump.of_caller h).pump]
    exact ⟨(Nat.zero_add _).le, (Nat.zero_add _).le⟩
  | arrived event hp =>
    rw [hp]
    exact ⟨Nat.le_refl 3, Nat.le_refl 0⟩
  | closed hp =>
    rw [hp]
    exact ⟨Nat.le_succ 2, Nat.le_refl 0⟩
  | pump accepted now hpump =>
    dsimp only [step] at h
    unfold stepPump at h
    unfold pumpMoves handles
    dsimp only
    split at h <;> cases h <;> rename_i hp <;> rw [hp]
    case h_14.refl deadline =>
      rw [hstop]
      by_cases hnow : now < deadline
      · simp [hnow, stepsLeft, inHand]
      · simp [hnow, stepsLeft, inHand]
    all_goals simp [hstop, stepsLeft, inHand] <;> omega

variable {b : ReconnectBackoff}

theorem subscriptions_grow (h : t.pre.step t.ev = some t.post) :
    t.pre.subscriptions <+: t.post.subscriptions := by
  rcases subscriptions_step h with ⟨topic, -, hsubs, -⟩ | ⟨-, hsubs⟩
  · rw [hsubs]
    exact prefix_remember t.pre topic
  · exact hsubs ▸ List.prefix_rfl

/-- A run in which `stop` stays set. -/
theorem stopping_run (h : Run (fun s e s' => s.step e = some s') s ts u) (hstop : s.stop = true) :
    ts.countP pumpMoves ≤ stepsLeft u.subscriptions.length s.pump ∧
      ts.countP handles ≤ inHand s.pump := by
  have hsteps : ∀ t ∈ ts,
      (pumpMoves t).toNat + stepsLeft u.subscriptions.length t.post.pump ≤
        stepsLeft u.subscriptions.length t.pre.pump ∧
      (handles t).toNat + inHand t.post.pump ≤ inHand t.pre.pump := by
    intro t ht
    have hst := h.step_of_mem ht
    refine stopping_step hst ((h.inv (I := fun s => s.stop = true) ?_ hstop).2.1 t ht) ?_
    · intro s e s' hst hs
      exact stop_step (t := ⟨s, e, s'⟩) hst hs
    · have hgrown : t.post.subscriptions <+: u.subscriptions := by
        refine h.stable (Q := fun s => t.post.subscriptions <+: s.subscriptions) ?_ ht
          List.prefix_rfl
        intro s e s' hst hs
        exact hs.trans (subscriptions_grow (t := ⟨s, e, s'⟩) hst)
      exact ((subscriptions_grow hst).trans hgrown).length_le
  have hmoves := h.count_le (φ := fun s => stepsLeft u.subscriptions.length s.pump) (p := pumpMoves)
    fun t ht => (hsteps t ht).1
  have hhandled := h.count_le (φ := fun s => inHand s.pump) (p := handles)
    fun t ht => (hsteps t ht).2
  exact ⟨by omega, by omega⟩

theorem stepsLeft_le {n : Nat} {p : Pump} (h : p.rest.length ≤ n) : stepsLeft n p ≤ 6 + n := by
  unfold stepsLeft
  split <;> first | omega | (dsimp only [Pump.rest] at h; omega)

theorem inHand_le (p : Pump) : inHand p ≤ 1 := by
  unfold inHand
  split <;> omega

/-- Where a thread stands after its step, at the two places that only a shutdown comes to. -/
theorem caller_place {i : ι} {accepted : Bool} (h : s.stepCaller i accepted = some s') :
    (s'.callers i = .joined → s.pump.finished = true) ∧
      (s'.callers i = .disconnecting → s.stop = false ∧ s'.stop = true) := by
  unfold stepCaller at h
  split at h
  case h_10 hc =>
    split_ifs at h with hfin
    exact ⟨fun _ => hfin, fun hi => by cases h; simp [setCaller] at hi⟩
  case h_8 hc =>
    by_cases hstop : s.stop = true
    · rw [if_pos hstop] at h
      cases h
      constructor <;> (intro hi; simp [setCaller] at hi)
    · rw [if_neg hstop] at h
      cases h
      exact ⟨fun hi => by simp [setCaller] at hi, fun _ => ⟨eq_false_of_ne_true hstop, rfl⟩⟩
  case h_5 =>
    split_ifs at h
    cases h
    constructor <;> (intro hi; simp [setCaller] at hi)
  all_goals
    cases h <;> try split_ifs
  all_goals constructor <;> (intro hi; simp [setCaller] at hi)

/-- Nobody clears the flag for good before the pump has ended. -/
theorem joined_finished (h : Run (fun s e s' => s.step e = some s') (start b spawned) ts s) {i : ι}
    (hi : s.callers i = .joined) : s.pump.finished = true := by
  refine (h.inv (I := fun s => ∀ i, s.callers i = .joined → s.pump.finished = true) ?_
    nofun).2.2 i hi
  intro s e s' hst hs j hj
  have hpre : s.pump.finished = true := by
    cases moves_of_step hst with
    | call i call _ =>
      unfold setCaller at hj
      dsimp only at hj
      rw [Function.update_apply] at hj
      split_ifs at hj
      · cases call <;> cases hj
      · exact hs j hj
    | caller i accepted _ =>
      by_cases hij : j = i
      · subst hij
        exact (caller_place hst).1 hj
      · exact hs j ((SamePump.of_caller hst).others j hij ▸ hj)
    | arrived event _ =>
      exact hs j hj
    | closed _ =>
      exact hs j hj
    | pump accepted now _ => exact hs j ((SameCallers.of_pump hst).callers ▸ hj)
  rw [pump_of_finished (t := ⟨s, e, s'⟩) hst hpre]
  exact hpre

/-- A thread comes to disconnect only by setting `stop`. -/
theorem disconnecting_step {i : ι} (h : t.pre.step t.ev = some t.post)
    (hi : t.post.callers i = .disconnecting) :
    t.pre.callers i = .disconnecting ∨
      t.pre.stop = false ∧ t.post.stop = true ∧ ∃ accepted, t.ev = .caller i accepted := by
  obtain ⟨s, e, s'⟩ := t
  dsimp only at h hi ⊢
  cases moves_of_step h with
  | call j call _ =>
    unfold setCaller at hi
    dsimp only at hi
    rw [Function.update_apply] at hi
    split_ifs at hi
    · cases call <;> cases hi
    · exact Or.inl hi
  | caller j accepted _ =>
    by_cases hij : i = j
    · subst hij
      obtain ⟨hbefore, hafter⟩ := (caller_place h).2 hi
      exact Or.inr ⟨hbefore, hafter, accepted, rfl⟩
    · exact Or.inl ((SamePump.of_caller h).others i hij ▸ hi)
  | arrived event _ =>
    exact Or.inl hi
  | closed _ =>
    exact Or.inl hi
  | pump accepted now _ => exact Or.inl ((SameCallers.of_pump h).callers ▸ hi)

/-- The client is asked to disconnect. -/
def disconnects (t : Trans (MqttTransport ι) (TransportEvent ι)) : Bool :=
  asks t == some .disconnect

theorem disconnects_step (h : t.pre.step t.ev = some t.post) (hd : disconnects t = true) :
    ∃ i, t.pre.callers i = .disconnecting ∧ t.post.callers i ≠ .disconnecting := by
  obtain ⟨s, e, s'⟩ := t
  have hasks : asks ⟨s, e, s'⟩ = some .disconnect := eq_of_beq hd
  cases e with
  | caller i accepted =>
    dsimp only [step] at h
    unfold asks at hasks
    unfold stepCaller at h
    dsimp only at hasks
    cases hc : s.callers i with
    | disconnecting =>
      rw [hc] at h
      cases h
      refine ⟨i, hc, ?_⟩
      unfold setCaller
      dsimp only
      rw [Function.update_self]
      nofun
    | _ =>
      rw [hc] at hasks
      cases hasks
  | pump accepted now =>
    unfold asks at hasks
    dsimp only at hasks
    cases hr : replays (⟨s, .pump accepted now, s'⟩ : Trans (MqttTransport ι) _) <;>
      rw [hr] at hasks <;> cases hasks
  | _ => cases hasks

/-- At most one thread is about to ask for it, and only if none has. -/
structure OneDisconnect (asked : Nat) (s : MqttTransport ι) : Prop where
  le_one : asked ≤ 1
  before : s.stop = false → asked = 0 ∧ ∀ i, s.callers i ≠ .disconnecting
  only : ∀ i, s.callers i = .disconnecting →
    asked = 0 ∧ ∀ j, s.callers j = .disconnecting → j = i

theorem one_disconnect (h : Run (fun s e s' => s.step e = some s') (start b spawned) ts s) :
    OneDisconnect (ts.countP disconnects) s := by
  refine h.hist (I := fun ts s => OneDisconnect (ts.countP disconnects) s) ?_ ?_
  · exact ⟨Nat.zero_le 1, fun _ => ⟨rfl, nofun⟩, nofun⟩
  · intro before t hst ih
    have hstop : t.post.stop = false → t.pre.stop = false := by
      intro hpost
      by_contra hpre
      exact Bool.false_ne_true (hpost.symm.trans (stop_step hst (eq_true_of_ne_false hpre)))
    rw [List.countP_append, List.countP_singleton]
    cases hd : disconnects t with
    | true =>
      obtain ⟨i, hi, hpost⟩ := disconnects_step hst hd
      obtain ⟨hzero, honly⟩ := ih.only i hi
      have hset : t.pre.stop ≠ false := fun hpre => (ih.before hpre).2 i hi
      have hnone : ∀ j, t.post.callers j ≠ .disconnecting := by
        intro j hj
        rcases disconnecting_step hst hj with hold | ⟨hpre, -, -⟩
        · exact hpost (honly j hold ▸ hj)
        · exact hset hpre
      rw [hzero, if_pos rfl]
      exact ⟨Nat.le_refl 1, fun h => absurd (hstop h) hset, fun j hj => absurd hj (hnone j)⟩
    | false =>
      rw [if_neg Bool.false_ne_true, Nat.add_zero]
      refine ⟨ih.le_one, fun h => ⟨(ih.before (hstop h)).1, fun i hi => ?_⟩, fun i hi => ?_⟩
      · rcases disconnecting_step hst hi with hold | ⟨-, hset, -⟩
        · exact (ih.before (hstop h)).2 i hold
        · exact Bool.false_ne_true (h.symm.trans hset)
      · rcases disconnecting_step hst hi with hold | ⟨hpre, -, accepted, hev⟩
        · refine ⟨(ih.only i hold).1, fun j hj => ?_⟩
          rcases disconnecting_step hst hj with hjold | ⟨hpre, -, -⟩
          · exact (ih.only i hold).2 j hjold
          · exact absurd hold ((ih.before hpre).2 i)
        · refine ⟨(ih.before hpre).1, fun j hj => ?_⟩
          rcases disconnecting_step hst hj with hjold | ⟨-, -, accepted', hev'⟩
          · exact absurd hjold ((ih.before hpre).2 j)
          · rw [hev] at hev'
            cases hev'
            rfl

theorem down_step (h : t.pre.step t.ev = some t.post) (hdown : t.pre.connected = false)
    (hfin : t.pre.pump.finished = true) :
    t.post.connected = false ∧ t.post.pump.finished = true := by
  rw [pump_of_finished h hfin]
  refine ⟨eq_false_of_ne_true fun hup => ?_, hfin⟩
  rcases (connected_step h).1 hup with hcomes | ⟨hpre, -⟩
  · obtain ⟨-, hp⟩ := comesUp_iff.1 hcomes
    rw [hp] at hfin
    exact Bool.false_ne_true hfin
  · exact Bool.false_ne_true (hdown.symm.trans hpre)

theorem post_of_stops (h : t.pre.step t.ev = some t.post) (hstops : stops t = true) :
    t.post.stop = true ∧ t.post.pump = t.pre.pump := by
  obtain ⟨s, e, s'⟩ := t
  cases e with
  | caller i accepted =>
    unfold stops at hstops
    dsimp only at hstops
    split at hstops
    case h_1 hc =>
      refine ⟨?_, (SamePump.of_caller h).pump⟩
      dsimp only [step] at h
      unfold stepCaller at h
      rw [hc] at h
      dsimp only at h
      rw [if_neg (by simpa using hstops)] at h
      cases h
      rfl
    case h_2 => cases hstops
  | _ => cases hstops

theorem post_of_shutsDown (h : t.pre.step t.ev = some t.post) (hshut : shutsDown t = true) :
    ∃ i, t.pre.callers i = .joined ∧ t.post.connected = false ∧ t.post.pump = t.pre.pump := by
  obtain ⟨s, e, s'⟩ := t
  cases e with
  | caller i accepted =>
    unfold shutsDown at hshut
    dsimp only at hshut
    split at hshut
    case h_1 hc =>
      refine ⟨i, hc, ?_, (SamePump.of_caller h).pump⟩
      dsimp only [step] at h
      unfold stepCaller at h
      rw [hc] at h
      cases h
      rfl
    case h_2 => cases hshut
  | _ => cases hshut

/-- Whatever the threads do: the client is asked to disconnect at most once; once `stop` is set the
pump acts on one more event at most and has few steps left; and once the shutdown that set it has
waited for the pump, the pump has ended and the link is down for good. -/
theorem shutdown_ends (h : Run (fun s e s' => s.step e = some s') (start b spawned) ts s) :
    ts.countP disconnects ≤ 1 ∧
    ∀ before t after, ts = before ++ t :: after →
      (stops t = true → after.countP handles ≤ 1 ∧
        after.countP pumpMoves ≤ 6 + s.subscriptions.length) ∧
      (shutsDown t = true → ∀ x ∈ visited t.post after,
        x.connected = false ∧ x.pump.finished = true) := by
  refine ⟨(one_disconnect h).le_one, ?_⟩
  rintro before t after rfl
  obtain ⟨hbefore, hst, hafter⟩ := h.split
  constructor
  · intro hstops
    obtain ⟨hstop, hpump⟩ := post_of_stops hst hstops
    obtain ⟨hmoves, hhandled⟩ := stopping_run hafter hstop
    have hrest : t.pre.pump.rest.length ≤ s.subscriptions.length := by
      have hlocked := (replayed hbefore).order.length_le
      have hgrown : t.pre.subscriptions <+: s.subscriptions := by
        refine h.stable (Q := fun s => t.pre.subscriptions <+: s.subscriptions) ?_
          (List.mem_append_right before List.mem_cons_self) (subscriptions_grow hst)
        intro s e s' hst hs
        exact hs.trans (subscriptions_grow (t := ⟨s, e, s'⟩) hst)
      have hle := hgrown.length_le
      rw [List.length_append] at hlocked
      omega
    rw [hpump] at hmoves hhandled
    exact ⟨hhandled.trans (inHand_le _), hmoves.trans (stepsLeft_le hrest)⟩
  · intro hshut
    obtain ⟨i, hi, hdown, hpump⟩ := post_of_shutsDown hst hshut
    refine (hafter.inv (I := fun s => s.connected = false ∧ s.pump.finished = true) ?_ ?_).1
    · rintro s e s' hst ⟨hs, hfin⟩
      exact down_step (t := ⟨s, e, s'⟩) hst hs hfin
    · rw [hpump]
      exact ⟨hdown, joined_finished hbefore hi⟩

/-- Two threads shut the transport down at once. -/
theorem shutdown_ends_twice :
    ∃ ts s, Run (fun s e s' => s.step e = some s')
        (start (.new (fromMillis 1000) (fromMillis 30000)) true : MqttTransport Bool) ts s ∧
      ts.countP disconnects ≤ 1 ∧ s.connected = false ∧ s.pump.finished = true := by
  let s₀ : MqttTransport Bool := start (.new (fromMillis 1000) (fromMillis 30000)) true
  let es : List (TransportEvent Bool) :=
    [.call true .shutdown, .call false .shutdown, .caller true true, .caller false true,
      .caller true true, .closed, .pump true 0, .caller true true]
  let e : TransportEvent Bool := .caller true true
  have h := shutdown_ends (Run.taken MqttTransport.step s₀ (es ++ [e]))
  refine ⟨_, _, Run.taken MqttTransport.step s₀ (es ++ [e]), h.1, ?_⟩
  exact (h.2 (taken MqttTransport.step s₀ es)
    ⟨reached MqttTransport.step s₀ es, e, reached MqttTransport.step s₀ (es ++ [e])⟩ [] rfl).2 rfl
    _ List.mem_cons_self

end MqttTransport

end TreeMiner
