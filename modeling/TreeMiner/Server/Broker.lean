import Mathlib.Data.List.AList
import Mathlib.Logic.Function.Basic
import TreeMiner.Lib.Run

/-! The broker's session table. Every connection has a handler of its own; it enters the table
when the client is connected and clears the client's entry when it ends. -/

namespace TreeMiner.Server

open Lib

/-! ## Topics -/

/-- The loop of `mqtt_topic_matches` over the parts. -/
def partsMatch : List (List Char) → List (List Char) → Bool
  | p :: ps, t :: ts =>
    if p = ['#'] then true else if p = ['+'] then partsMatch ps ts
    else if p ≠ t then false else partsMatch ps ts
  | p :: _, [] => p = ['#']
  | [], ts => ts.isEmpty

def mqttTopicMatches (pattern topic : String) : Bool :=
  partsMatch (pattern.toList.splitOn '/') (topic.toList.splitOn '/')

/-! ## The broker -/

/-- Where the handler of a connection stands. -/
inductive HandlerPhase
  /-- reading the CONNECT packet -/
  | connecting
  /-- behind the CONNACK, on the way into the table -/
  | acked
  /-- in the packet loop -/
  | serving
  /-- out of the loop, on the way to the cleanup -/
  | ending
  | closed
deriving DecidableEq, Repr

/-- A connection with what its `ClientSession` holds. -/
structure Conn where
  clientId : String
  subscriptions : List String
  phase : HandlerPhase
  /-- the broker has not closed its writer -/
  writerOpen : Bool
  /-- the client has not closed or lost its end -/
  peerOpen : Bool
deriving DecidableEq, Repr

def Conn.accepted : Conn := ⟨"", [], .connecting, true, true⟩

def Conn.isOpen (c : Conn) : Bool := c.writerOpen && c.peerOpen

structure Broker where
  conns : List Conn
  /-- `_clients`; a session is named by its connection -/
  clients : AList fun _ : String => Nat
  /-- the connection of each client id that was registered last, which the broker does not keep -/
  latest : String → Option Nat

inductive BrokerEvent
  | accept
  /-- no CONNECT, a malformed one, or the connection fails before the CONNACK is out -/
  | refuse (i : Nat)
  /-- `autoId` is `id(writer)` -/
  | connect (i : Nat) (clientId : String) (autoId : Nat)
  /-- the first section under the lock -/
  | register (i : Nat)
  | subscribe (i : Nat) (filters : List String)
  | unsubscribe (i : Nat) (filters : List String)
  | peerCloses (i : Nat)
  /-- the loop ends: end of file, DISCONNECT or an error -/
  | leave (i : Nat)
  /-- the `finally` block -/
  | cleanup (i : Nat)

namespace Broker

def start : Broker := ⟨[], ∅, fun _ => none⟩

/-- An update of a connection whose handler stands at `p`. -/
def atPhase (s : Broker) (i : Nat) (p : HandlerPhase) (f : Conn → Conn) : Broker :=
  { s with conns := s.conns.modify i fun c => if c.phase = p then f c else c }

/-- A session of the same client id is dropped and its writer closed. -/
def registered (s : Broker) (i : Nat) (clientId : String) : Broker where
  conns := ((s.clients.lookup clientId).elim s.conns fun old =>
    s.conns.modify old fun c => { c with writerOpen := false }).modify i
      fun c => { c with phase := .serving }
  clients := (s.clients.erase clientId).insert clientId i
  latest := Function.update s.latest clientId (some i)

def cleaned (s : Broker) (i : Nat) (clientId : String) : Broker :=
  { s with
    conns := s.conns.modify i fun c => { c with phase := .closed, writerOpen := false }
    clients := s.clients.erase clientId }

/-- The connections `_publish_raw` writes a packet of the topic to. -/
def recipients (s : Broker) (topic : String) : List Nat :=
  (s.clients.entries.map fun e => e.2).filter fun i =>
    (s.conns[i]?.elim [] Conn.subscriptions).any fun pattern => mqttTopicMatches pattern topic

end Broker

def brokerStep (s : Broker) : BrokerEvent → Broker
  | .accept => { s with conns := s.conns ++ [.accepted] }
  | .refuse i => s.atPhase i .connecting fun c => { c with phase := .closed, writerOpen := false }
  | .connect i clientId autoId =>
    s.atPhase i .connecting fun c =>
      { c with phase := .acked
               clientId := if clientId = "" then s!"auto-{autoId}" else clientId }
  | .register i =>
    match s.conns[i]? with
    | some c => if c.phase = .acked then s.registered i c.clientId else s
    | none => s
  | .subscribe i filters =>
    s.atPhase i .serving fun c =>
      { c with subscriptions := filters.foldl (fun l f => l.insert f) c.subscriptions }
  | .unsubscribe i filters =>
    s.atPhase i .serving fun c =>
      { c with subscriptions := c.subscriptions.filter fun f => f ∉ filters }
  | .peerCloses i => { s with conns := s.conns.modify i fun c => { c with peerOpen := false } }
  | .leave i => s.atPhase i .serving fun c => { c with phase := .ending }
  | .cleanup i =>
    match s.conns[i]? with
    | some c => if c.phase = .ending then s.cleaned i c.clientId else s
    | none => s

/-! ## The law -/

/-- Registered, and neither end closed. -/
def Conn.Live (c : Conn) : Prop := c.phase = .serving ∧ c.isOpen = true

/-- A live connection that is the latest of its client id is in the table, and gets what is
published to a topic it subscribed to. -/
def SessionMapped (s : Broker) : Prop :=
  ∀ i c, s.conns[i]? = some c → c.Live → s.latest c.clientId = some i →
    s.clients.lookup c.clientId = some i ∧
      ∀ topic, (∃ pattern ∈ c.subscriptions, mqttTopicMatches pattern topic = true) →
        i ∈ s.recipients topic

/-- A cleanup does not take another, live connection out of the table. -/
def OwnCleanup (t : Trans Broker BrokerEvent) : Prop :=
  ∀ i c j d, t.ev = .cleanup i → t.pre.conns[i]? = some c → c.phase = .ending →
    t.pre.clients.lookup c.clientId = some j → j ≠ i → t.pre.conns[j]? = some d → ¬ d.Live

/-! ## The invariant -/

def Conn.Registered (c : Conn) : Prop := c.phase = .serving ∨ c.phase = .ending

/-- The table names registered sessions, each the latest of its client id, and all live ones. -/
structure Mapped (s : Broker) : Prop where
  entry : ∀ {clientId j}, s.clients.lookup clientId = some j → s.latest clientId = some j ∧
    ∃ c, s.conns[j]? = some c ∧ c.clientId = clientId ∧ c.Registered
  live : ∀ {i c}, s.conns[i]? = some c → c.Live → s.clients.lookup c.clientId = some i

theorem mapped_start : Mapped .start := by
  constructor
  · intro clientId j h
    cases h
  · intro i c h
    cases h

theorem Mapped.sessionMapped {s : Broker} (h : Mapped s) : SessionMapped s := by
  intro i c hc hlive _
  have hentry := h.live hc hlive
  refine ⟨hentry, fun topic hsub => ?_⟩
  obtain ⟨pattern, hmem, hmatch⟩ := hsub
  unfold Broker.recipients
  rw [List.mem_filter, hc]
  constructor
  · exact List.mem_map.2 ⟨⟨c.clientId, i⟩, AList.mem_lookup_iff.1 hentry, rfl⟩
  · exact List.any_eq_true.2 ⟨pattern, hmem, hmatch⟩

/-- A change of one connection that neither unregisters nor revives it. -/
theorem Mapped.modify {s : Broker} (h : Mapped s) {i : Nat} {f : Conn → Conn}
    (hf : ∀ c, s.conns[i]? = some c →
      (c.Registered → (f c).Registered ∧ (f c).clientId = c.clientId) ∧
      ((f c).Live → c.Live ∧ (f c).clientId = c.clientId)) :
    Mapped { s with conns := s.conns.modify i f } := by
  constructor
  · intro clientId j hj
    obtain ⟨hlatest, c, hc, hid, hreg⟩ := h.entry hj
    refine ⟨hlatest, ?_⟩
    dsimp only
    rw [List.getElem?_modify, hc]
    by_cases hij : i = j
    · subst hij
      obtain ⟨hreg', hid'⟩ := (hf c hc).1 hreg
      exact ⟨f c, by simp, hid'.trans hid, hreg'⟩
    · exact ⟨c, by simp [hij], hid, hreg⟩
  · intro j c' hc' hlive
    dsimp only at hc'
    rw [List.getElem?_modify] at hc'
    obtain ⟨c, hc, rfl⟩ := Option.map_eq_some_iff.1 hc'
    by_cases hij : i = j
    · subst hij
      rw [if_pos rfl] at hlive ⊢
      obtain ⟨hlive', hid⟩ := (hf c hc).2 hlive
      rw [hid]
      exact h.live hc hlive'
    · rw [if_neg hij] at hlive ⊢
      exact h.live hc hlive

/-- A change in a phase other than the registered ones, to one that is not serving. -/
theorem Mapped.unregistered {s : Broker} (h : Mapped s) {i : Nat} {p : HandlerPhase}
    {f : Conn → Conn} (hp : p ≠ .serving ∧ p ≠ .ending) (hf : ∀ c, (f c).phase ≠ .serving) :
    Mapped (s.atPhase i p f) := by
  refine h.modify fun c _ => ?_
  by_cases hc : c.phase = p
  · rw [if_pos hc]
    constructor
    · rintro (hreg | hreg)
      · exact absurd (hc.symm.trans hreg) hp.1
      · exact absurd (hc.symm.trans hreg) hp.2
    · intro hlive
      exact absurd hlive.1 (hf c)
  · rw [if_neg hc]
    exact ⟨fun hreg => ⟨hreg, rfl⟩, fun hlive => ⟨hlive, rfl⟩⟩

/-- A change of a serving connection that keeps its client id and stays registered. -/
theorem Mapped.serving {s : Broker} (h : Mapped s) {i : Nat} {f : Conn → Conn}
    (hid : ∀ c, (f c).clientId = c.clientId) (hopen : ∀ c, (f c).isOpen = c.isOpen)
    (hf : ∀ c, c.phase = .serving → (f c).Registered) : Mapped (s.atPhase i .serving f) := by
  refine h.modify fun c _ => ?_
  by_cases hc : c.phase = .serving
  · rw [if_pos hc]
    exact ⟨fun _ => ⟨hf c hc, hid c⟩, fun hlive => ⟨⟨hc, by rw [← hopen]; exact hlive.2⟩, hid c⟩⟩
  · rw [if_neg hc]
    exact ⟨fun hreg => ⟨hreg, rfl⟩, fun hlive => ⟨hlive, rfl⟩⟩

theorem Mapped.register {s : Broker} (h : Mapped s) {i : Nat} {c : Conn}
    (hc : s.conns[i]? = some c) (hphase : c.phase = .acked) :
    Mapped (s.registered i c.clientId) := by
  have hunreg : ∀ {clientId j}, s.clients.lookup clientId = some j → j ≠ i := by
    rintro clientId j hj rfl
    obtain ⟨-, d, hd, -, hreg⟩ := h.entry hj
    rw [hc] at hd
    cases hd
    rcases hreg with hreg | hreg <;> rw [hphase] at hreg <;> cases hreg
  have hconns : ∀ j, j ≠ i → s.clients.lookup c.clientId ≠ some j →
      (s.registered i c.clientId).conns[j]? = s.conns[j]? := by
    intro j hj hold
    unfold Broker.registered
    dsimp only
    rw [List.getElem?_modify_ne _ _ (Ne.symm hj)]
    cases hlookup : s.clients.lookup c.clientId with
    | none => rfl
    | some old =>
      have hne : old ≠ j := fun heq => hold (by rw [hlookup, heq])
      exact List.getElem?_modify_ne _ _ hne
  have hself : (s.registered i c.clientId).conns[i]? = some { c with phase := .serving } := by
    unfold Broker.registered
    dsimp only
    rw [List.getElem?_modify_eq]
    cases hlookup : s.clients.lookup c.clientId with
    | none =>
      rw [Option.elim_none, hc]
      rfl
    | some old =>
      rw [Option.elim_some, List.getElem?_modify_ne _ _ (hunreg hlookup), hc]
      rfl
  have hlookup : ∀ clientId, (s.registered i c.clientId).clients.lookup clientId =
      if clientId = c.clientId then some i else s.clients.lookup clientId := by
    intro clientId
    unfold Broker.registered
    dsimp only
    by_cases hid : clientId = c.clientId
    · rw [if_pos hid, hid, AList.lookup_insert]
    · rw [if_neg hid, AList.lookup_insert_ne hid, AList.lookup_erase_ne hid]
  constructor
  · intro clientId j hj
    rw [hlookup] at hj
    change Function.update s.latest c.clientId (some i) clientId = some j ∧ _
    by_cases hid : clientId = c.clientId
    · rw [if_pos hid] at hj
      cases hj
      rw [hid, Function.update_self]
      exact ⟨rfl, _, hself, rfl, Or.inl rfl⟩
    · rw [if_neg hid] at hj
      obtain ⟨hlatest, d, hd, hdid, hreg⟩ := h.entry hj
      rw [Function.update_of_ne hid]
      refine ⟨hlatest, d, ?_, hdid, hreg⟩
      rw [hconns j (hunreg hj)]
      · exact hd
      · intro hold
        obtain ⟨-, d', hd', hdid', -⟩ := h.entry hold
        rw [hd] at hd'
        cases hd'
        exact hid (hdid.symm.trans hdid')
  · intro j d hd hlive
    rw [hlookup]
    by_cases hj : j = i
    · subst hj
      rw [hself] at hd
      cases hd
      exact if_pos rfl
    · by_cases hold : s.clients.lookup c.clientId = some j
      · -- the session dropped: its writer is closed
        exfalso
        unfold Broker.registered at hd
        dsimp only at hd
        rw [List.getElem?_modify_ne _ _ (Ne.symm hj), hold, Option.elim_some,
          List.getElem?_modify_eq] at hd
        obtain ⟨d', -, rfl⟩ := Option.map_eq_some_iff.1 hd
        have hopen := hlive.2
        simp [Conn.isOpen] at hopen
      · rw [hconns j hj hold] at hd
        have hentry := h.live hd hlive
        rw [if_neg]
        · exact hentry
        · intro hid
          rw [hid] at hentry
          exact hold hentry

theorem Mapped.cleanup {s : Broker} (h : Mapped s) {i : Nat} {c : Conn}
    (hc : s.conns[i]? = some c) (hown : ∀ j d, s.clients.lookup c.clientId = some j → j ≠ i →
      s.conns[j]? = some d → ¬ d.Live) : Mapped (s.cleaned i c.clientId) := by
  have hconns : ∀ j, j ≠ i → (s.cleaned i c.clientId).conns[j]? = s.conns[j]? :=
    fun j hj => List.getElem?_modify_ne _ _ (Ne.symm hj)
  have hself : ∀ d, (s.cleaned i c.clientId).conns[i]? = some d → ¬ d.Live := by
    intro d hd hlive
    change (s.conns.modify i _)[i]? = some d at hd
    rw [List.getElem?_modify_eq, hc] at hd
    cases hd
    cases hlive.1
  have hlookup : ∀ clientId, (s.cleaned i c.clientId).clients.lookup clientId =
      if clientId = c.clientId then none else s.clients.lookup clientId := by
    intro clientId
    change (s.clients.erase c.clientId).lookup clientId = _
    by_cases hid : clientId = c.clientId
    · rw [if_pos hid, hid, AList.lookup_erase]
    · rw [if_neg hid, AList.lookup_erase_ne hid]
  constructor
  · intro clientId j hj
    rw [hlookup] at hj
    by_cases hid : clientId = c.clientId
    · rw [if_pos hid] at hj
      cases hj
    · rw [if_neg hid] at hj
      obtain ⟨hlatest, d, hd, hdid, hreg⟩ := h.entry hj
      refine ⟨hlatest, d, ?_, hdid, hreg⟩
      rw [hconns j]
      · exact hd
      · rintro rfl
        rw [hc] at hd
        cases hd
        exact hid hdid.symm
  · intro j d hd hlive
    by_cases hj : j = i
    · subst hj
      exact absurd hlive (hself d hd)
    · rw [hconns j hj] at hd
      have hentry := h.live hd hlive
      rw [hlookup, if_neg]
      · exact hentry
      · intro hid
        rw [hid] at hentry
        exact hown j d hentry hj hd hlive

theorem mapped_step {t : Trans Broker BrokerEvent} (hs : t.post = brokerStep t.pre t.ev)
    (h : Mapped t.pre) (hown : OwnCleanup t) : Mapped t.post := by
  rw [hs]
  unfold OwnCleanup at hown
  cases hev : t.ev with
  | accept =>
    have hold : ∀ {j : Nat} {d : Conn}, (t.pre.conns ++ [Conn.accepted])[j]? = some d → d.phase ≠ .connecting →
        t.pre.conns[j]? = some d := by
      intro j d hd hphase
      rcases Nat.lt_or_ge j t.pre.conns.length with hlt | hge
      · rwa [List.getElem?_append_left hlt] at hd
      · rw [List.getElem?_append_right hge] at hd
        have hmem := List.mem_of_getElem? hd
        rw [List.mem_singleton.1 hmem] at hphase
        exact absurd rfl hphase
    constructor
    · intro clientId j hj
      obtain ⟨hlatest, d, hd, hdid, hreg⟩ := h.entry hj
      refine ⟨hlatest, d, ?_, hdid, hreg⟩
      change (t.pre.conns ++ [Conn.accepted])[j]? = some d
      rw [List.getElem?_append_left (List.getElem?_eq_some_iff.1 hd).1]
      exact hd
    · intro j d hd hlive
      refine h.live (hold hd ?_) hlive
      rw [hlive.1]
      simp
  | refuse i => exact h.unregistered (by simp) (by simp)
  | connect i clientId autoId => exact h.unregistered (by simp) (by simp)
  | subscribe i filters =>
    exact h.serving (fun _ => rfl) (fun _ => rfl) fun c hc => Or.inl hc
  | unsubscribe i filters =>
    exact h.serving (fun _ => rfl) (fun _ => rfl) fun c hc => Or.inl hc
  | leave i => exact h.serving (fun _ => rfl) (fun _ => rfl) fun c _ => Or.inr rfl
  | peerCloses i =>
    refine h.modify fun c _ => ⟨fun hreg => ⟨hreg, rfl⟩, fun hlive => ?_⟩
    have hopen := hlive.2
    simp [Conn.isOpen] at hopen
  | register i =>
    unfold brokerStep
    dsimp only
    cases hc : t.pre.conns[i]? with
    | none => exact h
    | some c =>
      dsimp only
      split_ifs with hphase
      · exact h.register hc hphase
      · exact h
  | cleanup i =>
    unfold brokerStep
    dsimp only
    cases hc : t.pre.conns[i]? with
    | none => exact h
    | some c =>
      dsimp only
      split_ifs with hphase
      · exact h.cleanup hc fun j d => hown i c j d hev hc hphase
      · exact h

/-- A cleanup that takes a live session out of the table leaves it unmapped. -/
theorem unmapped_of_cleanup {t : Trans Broker BrokerEvent} (hs : t.post = brokerStep t.pre t.ev)
    (h : Mapped t.pre) (hown : ¬ OwnCleanup t) : ¬ SessionMapped t.post := by
  unfold OwnCleanup at hown
  push Not at hown
  obtain ⟨i, c, j, d, hev, hc, hphase, hlookup, hne, hd, hlive⟩ := hown
  obtain ⟨hlatest, d', hd', hid, -⟩ := h.entry hlookup
  rw [hd] at hd'
  cases hd'
  have hpost : t.post = t.pre.cleaned i c.clientId := by
    rw [hs, hev]
    unfold brokerStep
    dsimp only
    rw [hc]
    exact if_pos hphase
  intro hmapped
  have hentry := (hmapped j d (by rw [hpost]; exact (List.getElem?_modify_ne _ _ hne.symm).trans hd)
    hlive (by rw [hpost, hid]; exact hlatest)).1
  rw [hpost, hid] at hentry
  change (t.pre.clients.erase c.clientId).lookup c.clientId = some j at hentry
  rw [AList.lookup_erase] at hentry
  cases hentry

/-- The latest live connection of every client is in the table in all states of a run exactly
when no cleanup of the run takes another, live connection out of it. -/
theorem sessions_mapped_iff (events : List BrokerEvent) :
    (∀ s ∈ visited .start (trace brokerStep .start events), SessionMapped s) ↔
      ∀ t ∈ trace brokerStep .start events, OwnCleanup t :=
  (Run.trace brokerStep .start events).forall_iff (fun _ h => h.sessionMapped)
    (fun _ hs h hown => mapped_step hs h hown) (fun _ hs h hown => unmapped_of_cleanup hs h hown)
    mapped_start

/-- A client that connects again before its old handler has cleaned up. -/
def reconnect : List BrokerEvent :=
  [.accept, .connect 0 "rig-1" 0, .register 0, .accept, .connect 1 "rig-1" 0, .register 1, .leave 0,
    .cleanup 0]

/-- The old handler's cleanup takes the new session out of the table. -/
theorem reconnect_unmapped :
    ¬ ∀ events, ∀ s ∈ visited .start (trace brokerStep .start events), SessionMapped s := by
  intro h
  have hown := (sessions_mapped_iff _).1 (h reconnect)
    ⟨reconnect.dropLast.foldl brokerStep .start, .cleanup 0, reconnect.foldl brokerStep .start⟩
    (by simp [reconnect, trace])
  refine hown 0 ⟨"rig-1", [], .ending, false, true⟩ 1 ⟨"rig-1", [], .serving, true, true⟩ rfl ?_ rfl
    ?_ (by decide) ?_ ⟨rfl, rfl⟩ <;> decide

end TreeMiner.Server
