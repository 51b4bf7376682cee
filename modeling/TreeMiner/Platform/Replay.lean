import TreeMiner.Lib.Run
import TreeMiner.Platform.Envelope

/-! Replay protection of `verify_envelope`. A live nonce survives every presentation
that finds room in the cache, so the same envelope is refused again until its expiry
second. At that second the envelope is still valid and its nonce already purged. -/

namespace TreeMiner

open Lib

namespace NonceCache

/-- The purge drops no entry that is still live. -/
theorem purgeLoop_live {now e : Int} {nonce : String} (hlive : now < e) :
    ∀ (order : List String) (m : AList fun _ : String => Int),
      m.lookup nonce = some e → (purgeLoop now order m).2.lookup nonce = some e := by
  intro order
  induction order with
  | nil => intro m h; exact h
  | cons front rest ih =>
    intro m h
    unfold purgeLoop
    cases hf : m.lookup front with
    | none => exact ih m h
    | some e' =>
      dsimp only
      split_ifs with he
      · exact h
      · apply ih
        -- the entry dropped here has expired, so it is another one
        have hne : nonce ≠ front := by
          rintro rfl
          rw [h] at hf
          simp only [Option.some.injEq] at hf
          omega
        rw [AList.lookup_erase_ne hne]
        exact h

theorem lookup_purgeExpired {c : NonceCache} {now e : Int} {nonce : String} (hlive : now < e)
    (h : c.byNonce.lookup nonce = some e) :
    (c.purgeExpired now).byNonce.lookup nonce = some e :=
  purgeLoop_live hlive _ _ h

/-- With room left nothing is evicted. -/
theorem evictLoop_room {capacity : Nat} {m : AList fun _ : String => Int}
    (h : m.entries.length < capacity) (order : List String) :
    evictLoop capacity order m = (order, m) := by
  cases order with
  | nil => rfl
  | cons a t => unfold evictLoop; rw [if_neg (by omega)]

/-- A nonce already remembered after the purge is refused, and only the purge happens. -/
theorem checkAndInsert_seen {c : NonceCache} {nonce : String} {e now : Int}
    (h : (c.purgeExpired now).containsKey nonce = true) :
    c.checkAndInsert nonce e now = (false, c.purgeExpired now) := by
  unfold checkAndInsert
  rw [if_pos h]

/-- A nonce unknown after the purge goes in behind the evictions. -/
theorem checkAndInsert_fresh {c : NonceCache} {nonce : String} {e now : Int}
    (h : (c.purgeExpired now).containsKey nonce = false) :
    c.checkAndInsert nonce e now =
      let r := evictLoop c.capacity (c.purgeExpired now).insertionOrder
        (c.purgeExpired now).byNonce
      (true, ⟨c.capacity, r.2.insert nonce e, r.1 ++ [nonce]⟩) := by
  unfold checkAndInsert
  rw [if_neg (by simp [h])]
  rfl

/-- A fresh nonce is remembered with its expiry. -/
theorem lookup_of_fresh {c : NonceCache} {nonce : String} {e now : Int}
    (h : (c.checkAndInsert nonce e now).1 = true) :
    (c.checkAndInsert nonce e now).2.byNonce.lookup nonce = some e := by
  cases hs : (c.purgeExpired now).containsKey nonce with
  | true => simp [checkAndInsert_seen hs] at h
  | false => rw [checkAndInsert_fresh hs]; exact AList.lookup_insert _

/-- What a presentation needs of the cache: a nonce it does not know finds room. -/
def HasRoom (c : NonceCache) (nonce : String) (now : Int) : Prop :=
  (c.purgeExpired now).containsKey nonce = false → (c.purgeExpired now).len < c.capacity

/-- A live entry survives an insertion that finds room. -/
theorem lookup_checkAndInsert {c : NonceCache} {nonce nonce' : String} {e e' now : Int}
    (hroom : c.HasRoom nonce' now) (hlive : now < e)
    (h : c.byNonce.lookup nonce = some e) :
    (c.checkAndInsert nonce' e' now).2.byNonce.lookup nonce = some e := by
  have hp := lookup_purgeExpired hlive h
  cases hseen : (c.purgeExpired now).containsKey nonce' with
  | true => rw [checkAndInsert_seen hseen]; exact hp
  | false =>
    have hne : nonce ≠ nonce' := by
      rintro rfl
      simp [containsKey, hp] at hseen
    rw [checkAndInsert_fresh hseen, evictLoop_room (hroom hseen), AList.lookup_insert_ne hne]
    exact hp

end NonceCache

section

variable (hmacSha256 : String → String → Vector UInt8 32) (render : Value → String)
variable (secret workerId : String)

/-- One payload presented to `verify_envelope` at a clock reading. -/
structure Presentation where
  now : Int
  msg : Value

/-- Presentations share one nonce cache. -/
def Presented (c : NonceCache) (p : Presentation) (c' : NonceCache) : Prop :=
  c' = (verifyEnvelope hmacSha256 render p.msg secret workerId p.now c).2

def Accepted (t : Trans NonceCache Presentation) : Prop :=
  (verifyEnvelope hmacSha256 render t.ev.msg secret workerId t.ev.now t.pre).1 = .ok

/-- The nonce and expiry an envelope carries. -/
def envelopeId (msg : Value) : Option (String × Int) := do
  let auth ← msg.get "auth"
  let nonce ← stringField auth "nonce"
  let expiresAt ← int64Field auth "expires_at"
  some (nonce, expiresAt)

/-- Where the presentation gets as far as the cache, it comes before the envelope's
expiry second and finds room. -/
def Timely (t : Trans NonceCache Presentation) : Prop :=
  ∀ nonce e, checkEnvelope hmacSha256 render t.ev.msg secret workerId t.ev.now = .ok (nonce, e) →
    t.ev.now ≠ e ∧ t.pre.HasRoom nonce t.ev.now

variable {hmacSha256 render secret workerId}

/-- What the stages before the cache established. -/
theorem checkEnvelope_ok {msg : Value} {now e : Int} {nonce : String}
    (h : checkEnvelope hmacSha256 render msg secret workerId now = .ok (nonce, e)) :
    envelopeId msg = some (nonce, e) ∧ now ≤ e := by
  unfold checkEnvelope at h
  split at h
  · cases h
  cases ha : msg.get "auth" with
  | none => simp [ha] at h
  | some auth =>
    simp only [ha] at h
    split at h
    · cases h
    split at h
    · rename_i w cid n s i x hw hc hn hs hi hx
      split_ifs at h with h1 h2 h3 h4 h5 h6
      simp only [Except.ok.injEq, Prod.mk.injEq] at h
      obtain ⟨rfl, rfl⟩ := h
      exact ⟨by simp [envelopeId, ha, hn, hx], by omega⟩
    · cases h

/-- An accepted presentation passed the early stages and its nonce was fresh. -/
theorem verifyEnvelope_ok {msg : Value} {now : Int} {c : NonceCache}
    (h : (verifyEnvelope hmacSha256 render msg secret workerId now c).1 = .ok) :
    ∃ nonce e, checkEnvelope hmacSha256 render msg secret workerId now = .ok (nonce, e) ∧
      (c.checkAndInsert nonce e now).1 = true ∧
      (verifyEnvelope hmacSha256 render msg secret workerId now c).2 =
        (c.checkAndInsert nonce e now).2 := by
  unfold verifyEnvelope at h ⊢
  cases hc : checkEnvelope hmacSha256 render msg secret workerId now with
  | error status =>
    -- the early stages never answer `ok` as a refusal
    simp only [hc] at h
    subst h
    unfold checkEnvelope at hc
    repeat' split at hc
    all_goals simp at hc
  | ok p =>
    obtain ⟨nonce, e⟩ := p
    simp only [hc] at h
    rcases hi : c.checkAndInsert nonce e now with ⟨b, c'⟩
    cases b with
    | false => simp [hi] at h
    | true => exact ⟨nonce, e, rfl, by rw [hi], by simp [hi]⟩

/-- The cache after a presentation, whatever its verdict. -/
theorem verifyEnvelope_cache (msg : Value) (now : Int) (c : NonceCache) :
    (verifyEnvelope hmacSha256 render msg secret workerId now c).2 = c ∨
      ∃ nonce e, checkEnvelope hmacSha256 render msg secret workerId now = .ok (nonce, e) ∧
        (verifyEnvelope hmacSha256 render msg secret workerId now c).2 =
          (c.checkAndInsert nonce e now).2 := by
  unfold verifyEnvelope
  cases hc : checkEnvelope hmacSha256 render msg secret workerId now with
  | error status => exact Or.inl rfl
  | ok p =>
    obtain ⟨nonce, e⟩ := p
    refine Or.inr ⟨nonce, e, rfl, ?_⟩
    rcases hi : c.checkAndInsert nonce e now with ⟨b, c'⟩
    cases b <;> simp [hi]

/-- A live nonce is still remembered after any number of timely presentations. -/
theorem remembered_run {nonce : String} {e : Int} {c c' : NonceCache}
    {ts : List (Trans NonceCache Presentation)}
    (hrun : Run (Presented hmacSha256 render secret workerId) c ts c')
    (hc : c.byNonce.lookup nonce = some e)
    (ht : ∀ t ∈ ts, Timely hmacSha256 render secret workerId t ∧ t.ev.now < e) :
    c'.byNonce.lookup nonce = some e := by
  refine (hrun.inv_of (I := fun c => c.byNonce.lookup nonce = some e) ?_ hc ht).2.2
  intro t hstep hI ⟨htimely, hlive⟩
  rw [show t.post = _ from hstep]
  rcases verifyEnvelope_cache t.ev.msg t.ev.now t.pre with h | ⟨n, x, hck, h⟩
  · rw [h]; exact hI
  · rw [h]; exact NonceCache.lookup_checkAndInsert (htimely n x hck).2 hlive hI

/-- After one acceptance, the same envelope is refused at every timely presentation. -/
theorem refused_after {s u : NonceCache} {t v : Trans NonceCache Presentation}
    {ts us : List (Trans NonceCache Presentation)}
    (hrun : Run (Presented hmacSha256 render secret workerId) s (t :: (ts ++ v :: us)) u)
    (hmono : ∀ x ∈ ts, x.ev.now ≤ v.ev.now)
    (htimely : ∀ x ∈ t :: (ts ++ v :: us), Timely hmacSha256 render secret workerId x)
    (hsame : envelopeId t.ev.msg = envelopeId v.ev.msg)
    (hacc : Accepted hmacSha256 render secret workerId t) :
    ¬ Accepted hmacSha256 render secret workerId v := by
  intro hacc'
  obtain ⟨n, e, hck, hfresh, hcache⟩ := verifyEnvelope_ok hacc
  obtain ⟨n', e', hck', hfresh', -⟩ := verifyEnvelope_ok hacc'
  obtain ⟨hid, -⟩ := checkEnvelope_ok hck
  obtain ⟨hid', hle⟩ := checkEnvelope_ok hck'
  rw [hid, hid', Option.some.injEq, Prod.mk.injEq] at hsame
  obtain ⟨rfl, rfl⟩ := hsame
  have hlt : v.ev.now < e := lt_of_le_of_ne hle (htimely v (by simp) _ _ hck').1
  cases hrun with
  | @cons _ s' _ ev _ hst hrest =>
    have hpost : s'.byNonce.lookup n = some e := by
      rw [show s' = _ from hst, hcache]
      exact NonceCache.lookup_of_fresh hfresh
    have hpre : v.pre.byNonce.lookup n = some e := by
      refine remembered_run hrest.split.1 hpost fun x hx => ⟨htimely x (by simp [hx]), ?_⟩
      exact lt_of_le_of_lt (hmono x hx) hlt
    have hseen : (v.pre.purgeExpired v.ev.now).containsKey n = true := by
      simp [NonceCache.containsKey, NonceCache.lookup_purgeExpired hlt hpre]
    rw [NonceCache.checkAndInsert_seen hseen] at hfresh'
    exact Bool.false_ne_true hfresh'

end

/-- In every run under a non-decreasing clock whose presentations all come before
their envelope's expiry second and find room for a fresh nonce, no signed envelope is
accepted twice, whatever comes in between. -/
theorem no_replay (hmacSha256 : String → String → Vector UInt8 32) (render : Value → String)
    (secret workerId : String) (capacity : Nat) (c : NonceCache)
    (ts : List (Trans NonceCache Presentation))
    (hrun : Run (Presented hmacSha256 render secret workerId) (NonceCache.new capacity) ts c)
    (hclock : ts.Pairwise fun t v => t.ev.now ≤ v.ev.now)
    (htimely : ∀ t ∈ ts, Timely hmacSha256 render secret workerId t) :
    ts.Pairwise fun t v => envelopeId t.ev.msg = envelopeId v.ev.msg →
      Accepted hmacSha256 render secret workerId t →
      ¬ Accepted hmacSha256 render secret workerId v := by
  generalize NonceCache.new capacity = s at hrun
  induction hrun with
  | nil => exact List.Pairwise.nil
  | @cons s s' u e ts hst hrest ih =>
    rw [List.pairwise_cons] at hclock ⊢
    refine ⟨?_, ih hclock.2 fun t ht => htimely t (List.mem_cons_of_mem _ ht)⟩
    intro v hv hsame hacc
    obtain ⟨as, bs, rfl⟩ := List.append_of_mem hv
    refine refused_after (.cons hst hrest) (fun x hx => ?_) htimely hsame hacc
    exact (List.pairwise_append.1 hclock.2).2.2 x hx v (by simp)

/-- A MAC and a rendering to run the verifier with: neither decides a replay. -/
def flatMac : String → String → Vector UInt8 32 := fun _ _ => Vector.replicate 32 7

def flatRender : Value → String := fun _ => "release"

def releaseEnvelope (nonce : String) (issuedAt expiresAt : Int) : Value :=
  signCommand flatMac flatRender (.object [("command", .string "release")]) "secret" "rig-1"
    "cmd-1" nonce issuedAt expiresAt

def presentRelease (nonce : String) (issuedAt expiresAt now : Int) (c : NonceCache) :
    VerifyStatus × NonceCache :=
  verifyEnvelope flatMac flatRender (releaseEnvelope nonce issuedAt expiresAt) "secret" "rig-1"
    now c

/-- The only envelope ever presented to a cache of 4096 slots is accepted when it
arrives and again at its expiry second, when its own purge has forgotten it. -/
theorem replay_at_expiry :
    let first := presentRelease "00112233445566aa" 1000 1060 1005 (NonceCache.new 4096)
    let again := presentRelease "00112233445566aa" 1000 1060 1060 first.2
    first.1 = .ok ∧ again.1 = .ok := by
  decide

/-- Expired entries behind a live front are never swept and still count: here the cache
has two slots, one live nonce, and evicts exactly that one. -/
example :
    let s1 := presentRelease "00112233445566aa" 1000 1900 1000 (NonceCache.new 2)
    let s2 := presentRelease "00112233445566bb" 1000 1010 1000 s1.2
    let s3 := presentRelease "00112233445566cc" 1100 1200 1100 s2.2
    let s4 := presentRelease "00112233445566aa" 1000 1900 1101 s3.2
    s1.1 = .ok ∧ s2.1 = .ok ∧ s3.1 = .ok ∧ s4.1 = .ok := by
  decide

theorem timely_release {now : Int} {c c' : NonceCache} (hnow : now ≠ 1060)
    (hroom : c.HasRoom "00112233445566aa" now) :
    Timely flatMac flatRender "secret" "rig-1"
      ⟨c, ⟨now, releaseEnvelope "00112233445566aa" 1000 1060⟩, c'⟩ := by
  intro nonce e h
  have hid : envelopeId (releaseEnvelope "00112233445566aa" 1000 1060) =
      some ("00112233445566aa", 1060) := by decide
  have heq := Option.some.inj ((checkEnvelope_ok h).1.symm.trans hid)
  rw [Prod.mk.injEq] at heq
  obtain ⟨rfl, rfl⟩ := heq
  exact ⟨hnow, hroom⟩

/-- The rule at work: presented again before its expiry second, a nonce is refused. -/
theorem no_replay_release :
    ¬ Accepted flatMac flatRender "secret" "rig-1"
      ⟨(presentRelease "00112233445566aa" 1000 1060 1005 (NonceCache.new 4096)).2,
        ⟨1059, releaseEnvelope "00112233445566aa" 1000 1060⟩,
        (presentRelease "00112233445566aa" 1000 1060 1059
          (presentRelease "00112233445566aa" 1000 1060 1005 (NonceCache.new 4096)).2).2⟩ := by
  have h := no_replay flatMac flatRender "secret" "rig-1" 4096 _
    [⟨_, ⟨1005, releaseEnvelope "00112233445566aa" 1000 1060⟩, _⟩,
      ⟨_, ⟨1059, releaseEnvelope "00112233445566aa" 1000 1060⟩, _⟩]
    (.cons rfl (.cons rfl .nil)) (by simp) ?_
  · rw [List.pairwise_cons] at h
    exact h.1 _ (List.mem_singleton_self _) rfl (by unfold Accepted; decide)
  · simp only [List.mem_cons, List.not_mem_nil, or_false, forall_eq_or_imp, forall_eq]
    exact ⟨timely_release (by decide) fun _ => by decide,
      timely_release (by decide) fun _ => by decide⟩

end TreeMiner
