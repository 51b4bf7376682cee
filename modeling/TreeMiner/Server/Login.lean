import Mathlib.Algebra.Order.Field.Rat
import Mathlib.Tactic.NormNum
import TreeMiner.Lib.Run
import TreeMiner.Lib.Table

/-! Logging in with a wallet (`auth.py`): the server hands out a nonce for an address, and a
signature under it logs the address in. A nonce is good for one login, for five minutes, and only
until the next one for its address. -/

namespace TreeMiner.Server

open Lib

structure HttpException where
  statusCode : Nat
  detail : String
deriving DecidableEq, Repr

def NONCE_TTL : ℚ := 300

/-- `SIGN_MESSAGE_TEMPLATE.format(nonce=nonce)` -/
def signMessage (nonce : String) : String :=
  "Sign this message to authenticate with XenBlocks.\n\nNonce: " ++ nonce

/-- By address: the nonce and when it expires. -/
abbrev Nonces := Table String (String × ℚ)

inductive LoginEvent
  /-- `GET /api/auth/nonce`; `draw` is what `secrets.token_hex` draws, and the clock is read for
  the cleanup and for the expiry -/
  | nonce (address draw : String) (cleanedAt now : ℚ)
  /-- the check in `POST /api/auth/verify` -/
  | verify (address signature nonce : String) (now : ℚ)

def LoginEvent.readings : LoginEvent → List ℚ
  | .nonce _ _ cleanedAt now => [cleanedAt, now]
  | .verify _ _ _ now => [now]

/-- What `auth_nonce` asks of an address. -/
def isAddressLike (address : String) : Bool :=
  ['0', 'x'].isPrefixOf address.toList && decide (address.length = 42)

namespace Nonces

-- `str.lower`
variable (lower : String → String)
-- `EthAccount.recover_message` of the text in its `encode_defunct` form; `none` is an exception
variable (recoverMessage : String → String → Option String)

def cleanupExpired (t : Nonces) (now : ℚ) : Nonces := t.filter fun row => !decide (now > row.2.2)

def generateNonce (t : Nonces) (address draw : String) (cleanedAt now : ℚ) : Nonces :=
  let t := if t.rows.length > 1000 then t.cleanupExpired cleanedAt else t
  t.put (lower address) (draw, now + NONCE_TTL)

def verifySignature (t : Nonces) (address signature nonce : String) (now : ℚ) : Nonces × Bool :=
  match t.get (lower address) with
  | none => (t, false)
  | some stored =>
    if stored.1 ≠ nonce then (t, false)
    else if now > stored.2 then (t.erase (lower address), false)
    else
      match recoverMessage (signMessage nonce) signature with
      | none => (t, false)
      | some recovered =>
        if lower recovered ≠ lower address then (t, false)
        else (t.erase (lower address), true)

/-- The nonce and the text to sign. -/
def authNonce (t : Nonces) (address draw : String) (cleanedAt now : ℚ) :
    Nonces × Except HttpException (String × String) :=
  if !isAddressLike address then (t, .error ⟨400, "Invalid Ethereum address"⟩)
  else (t.generateNonce lower address draw cleanedAt now, .ok (draw, signMessage draw))

def step (t : Nonces) : LoginEvent → Nonces
  | .nonce address draw cleanedAt now => (t.authNonce lower address draw cleanedAt now).1
  | .verify address signature nonce now =>
    (t.verifySignature lower recoverMessage address signature nonce now).1

/-! ## What an event does to the nonce of an address -/

/-- The signature under the nonce is that of the address. -/
def Signed (key signature nonce : String) : Prop :=
  ∃ recovered, recoverMessage (signMessage nonce) signature = some recovered ∧
    lower recovered = key

/-- A nonce was handed out for the address. -/
def Challenged (x : Trans Nonces LoginEvent) (key nonce : String) (now : ℚ) : Prop :=
  ∃ address cleanedAt, x.ev = .nonce address nonce cleanedAt now ∧
    isAddressLike address = true ∧ lower address = key

/-- A login of the address was let through. -/
def LoggedIn (x : Trans Nonces LoginEvent) (key : String) : Prop :=
  ∃ address signature nonce now, x.ev = .verify address signature nonce now ∧
    lower address = key ∧
    (x.pre.verifySignature lower recoverMessage address signature nonce now).2 = true

/-- A nonce that expires then was found expired, by a cleanup or by a login. -/
def FoundExpired (x : Trans Nonces LoginEvent) (key nonce : String) (expiry : ℚ) : Prop :=
  match x.ev with
  | .nonce address _ cleanedAt _ =>
    isAddressLike address = true ∧ x.pre.rows.length > 1000 ∧ cleanedAt > expiry
  | .verify address _ nonce' now => lower address = key ∧ nonce' = nonce ∧ now > expiry

/-- The nonce of the address is a new one or none from here on. -/
def Ended (x : Trans Nonces LoginEvent) (key nonce : String) (expiry : ℚ) : Prop :=
  (∃ nonce' now, Challenged lower x key nonce' now) ∨ LoggedIn lower recoverMessage x key ∨
    FoundExpired lower x key nonce expiry

variable {lower : String → String} {recoverMessage : String → String → Option String}

theorem verifySignature_true {t : Nonces} {address signature nonce : String} {now : ℚ} :
    (t.verifySignature lower recoverMessage address signature nonce now).2 = true ↔
      Signed lower recoverMessage (lower address) signature nonce ∧
        ∃ expiry, t.get (lower address) = some (nonce, expiry) ∧ now ≤ expiry := by
  unfold verifySignature Signed
  cases hget : t.get (lower address) with
  | none => simp
  | some stored =>
    obtain ⟨nonce', expiry⟩ := stored
    dsimp only
    by_cases hnonce : nonce' = nonce
    · subst hnonce
      by_cases hlate : now > expiry
      · have hno : ¬ now ≤ expiry := not_le.2 hlate
        simp [hlate, hno]
      · have hin : now ≤ expiry := not_lt.1 hlate
        cases hrec : recoverMessage (signMessage nonce') signature with
        | none => simp [hlate]
        | some recovered =>
          by_cases hsame : lower recovered = lower address
          · simp [hlate, hin, hsame]
          · simp [hlate, hsame]
    · simp [hnonce]

/-- A login attempt removes the nonce it uses or finds expired, and does nothing else. -/
theorem verifySignature_fst (t : Nonces) (address signature nonce : String) (now : ℚ) :
    let attempt := t.verifySignature lower recoverMessage address signature nonce now
    let spent := attempt.2 = true ∨
      ∃ expiry, t.get (lower address) = some (nonce, expiry) ∧ now > expiry
    spent ∧ attempt.1 = t.erase (lower address) ∨ ¬ spent ∧ attempt.1 = t := by
  intro attempt spent
  unfold spent attempt verifySignature
  cases hget : t.get (lower address) with
  | none => simp
  | some stored =>
    obtain ⟨nonce', expiry⟩ := stored
    dsimp only
    by_cases hnonce : nonce' = nonce
    · subst hnonce
      by_cases hlate : now > expiry
      · simp [hlate]
      · cases hrec : recoverMessage (signMessage nonce') signature with
        | none => simp [hlate]
        | some recovered =>
          by_cases hsame : lower recovered = lower address
          · simp [hlate, hsame]
          · simp [hlate, hsame]
    · simp [hnonce]

/-- What it leaves: the nonces of the other addresses, and its own unless that was used or found
expired. -/
theorem get_verifySignature {t : Nonces} {address signature nonce key nonce' : String}
    {now expiry : ℚ} :
    (t.verifySignature lower recoverMessage address signature nonce now).1.get key =
        some (nonce', expiry) ↔
      t.get key = some (nonce', expiry) ∧
        ¬ (lower address = key ∧
          ((t.verifySignature lower recoverMessage address signature nonce now).2 = true ∨
            nonce = nonce' ∧ now > expiry)) := by
  rcases @verifySignature_fst lower recoverMessage t address signature nonce now with ⟨hspent, hfst⟩ | ⟨hkept, hfst⟩
  · rw [hfst, Table.get_erase_eq_some]
    refine and_congr_right fun hget => ?_
    constructor
    · rintro hne ⟨rfl, -⟩
      exact hne rfl
    · rintro hno rfl
      refine hno ⟨rfl, ?_⟩
      rcases hspent with hin | ⟨expiry', hget', hlate⟩
      · exact Or.inl hin
      · rw [hget] at hget'
        cases hget'
        exact Or.inr ⟨rfl, hlate⟩
  · rw [hfst]
    refine ⟨fun hget => ⟨hget, ?_⟩, And.left⟩
    rintro ⟨rfl, hin | ⟨rfl, hlate⟩⟩
    · exact hkept (Or.inl hin)
    · exact hkept (Or.inr ⟨expiry, hget, hlate⟩)

theorem get_generateNonce {t : Nonces} {address draw key nonce : String} {cleanedAt now expiry : ℚ} :
    (t.generateNonce lower address draw cleanedAt now).get key = some (nonce, expiry) ↔
      (lower address = key ∧ draw = nonce ∧ now + NONCE_TTL = expiry) ∨
        t.get key = some (nonce, expiry) ∧ lower address ≠ key ∧
          ¬ (t.rows.length > 1000 ∧ cleanedAt > expiry) := by
  unfold generateNonce
  rw [Table.get_put]
  by_cases hkey : key = lower address
  · subst hkey
    simp
  · rw [if_neg hkey]
    have hne : lower address ≠ key := Ne.symm hkey
    by_cases hlen : t.rows.length > 1000
    · simp [hlen, cleanupExpired, Table.get_filter_eq_some, hne]
    · simp [hlen, hne]

theorem challenged_nonce {pre post : Nonces} {address draw key nonce : String}
    {cleanedAt now now' : ℚ} :
    Challenged lower ⟨pre, .nonce address draw cleanedAt now, post⟩ key nonce now' ↔
      isAddressLike address = true ∧ lower address = key ∧ draw = nonce ∧ now = now' := by
  constructor
  · rintro ⟨_, _, hev, hlike, hkey⟩
    cases hev
    exact ⟨hlike, hkey, rfl, rfl⟩
  · rintro ⟨hlike, hkey, rfl, rfl⟩
    exact ⟨address, cleanedAt, rfl, hlike, hkey⟩

theorem ended_nonce {pre post : Nonces} {address draw key nonce : String}
    {cleanedAt now expiry : ℚ} :
    Ended lower recoverMessage ⟨pre, .nonce address draw cleanedAt now, post⟩ key nonce expiry ↔
      isAddressLike address = true ∧
        (lower address = key ∨ pre.rows.length > 1000 ∧ cleanedAt > expiry) := by
  unfold Ended
  simp only [challenged_nonce]
  constructor
  · rintro (⟨_, _, hlike, hkey, -, -⟩ | ⟨_, _, _, _, hev, -⟩ | ⟨hlike, hlen, hlate⟩)
    · exact ⟨hlike, Or.inl hkey⟩
    · cases hev
    · exact ⟨hlike, Or.inr ⟨hlen, hlate⟩⟩
  · rintro ⟨hlike, hkey | ⟨hlen, hlate⟩⟩
    · exact Or.inl ⟨draw, now, hlike, hkey, rfl, rfl⟩
    · exact Or.inr (Or.inr ⟨hlike, hlen, hlate⟩)

theorem ended_verify {pre post : Nonces} {address signature nonce key nonce' : String}
    {now expiry : ℚ} :
    Ended lower recoverMessage ⟨pre, .verify address signature nonce now, post⟩ key nonce' expiry ↔
      lower address = key ∧
        ((pre.verifySignature lower recoverMessage address signature nonce now).2 = true ∨
          nonce = nonce' ∧ now > expiry) := by
  constructor
  · rintro (⟨_, _, _, _, hev, -⟩ | ⟨_, _, _, _, hev, hkey, hin⟩ | ⟨hkey, hnonce, hlate⟩)
    · cases hev
    · cases hev
      exact ⟨hkey, Or.inl hin⟩
    · exact ⟨hkey, Or.inr ⟨hnonce, hlate⟩⟩
  · rintro ⟨hkey, hin | ⟨hnonce, hlate⟩⟩
    · exact Or.inr (Or.inl ⟨address, signature, nonce, now, rfl, hkey, hin⟩)
    · exact Or.inr (Or.inr ⟨hkey, hnonce, hlate⟩)

/-- One event, seen from the nonce of one address. -/
theorem get_step (x : Trans Nonces LoginEvent) (key nonce : String) (expiry : ℚ)
    (h : x.post = x.pre.step lower recoverMessage x.ev) :
    x.post.get key = some (nonce, expiry) ↔
      Challenged lower x key nonce (expiry - NONCE_TTL) ∨
        x.pre.get key = some (nonce, expiry) ∧
          ¬ Ended lower recoverMessage x key nonce expiry := by
  obtain ⟨pre, ev, post⟩ := x
  obtain rfl : post = pre.step lower recoverMessage ev := h
  cases ev with
  | nonce address draw cleanedAt now =>
    rw [challenged_nonce, ended_nonce, step, authNonce, eq_sub_iff_add_eq]
    cases hlike : isAddressLike address with
    | false => simp
    | true =>
      dsimp only
      rw [Bool.not_true, if_neg Bool.false_ne_true, get_generateNonce]
      simp only [true_and, not_or, ne_eq]
  | verify address signature nonce' now =>
    rw [ended_verify, step, get_verifySignature]
    refine (or_iff_right ?_).symm
    rintro ⟨_, _, hev, -⟩
    cases hev

/-! ## Runs -/

/-- A login is let through if and only if it is signed for its address and a nonce that was handed
out for this address and is not over: neither replaced, nor used, nor found expired. -/
theorem verifySignature_run (events : List LoginEvent) (address signature nonce : String)
    (now : ℚ) :
    ((events.foldl (step lower recoverMessage) .empty).verifySignature lower recoverMessage
        address signature nonce now).2 = true ↔
      Signed lower recoverMessage (lower address) signature nonce ∧
        ∃ before c after issued,
          trace (step lower recoverMessage) .empty events = before ++ c :: after ∧
          Challenged lower c (lower address) nonce issued ∧ now ≤ issued + NONCE_TTL ∧
          ∀ x ∈ after,
            ¬ Ended lower recoverMessage x (lower address) nonce (issued + NONCE_TTL) := by
  have hrun := Run.trace (step lower recoverMessage) .empty events
  have hheld : ∀ expiry, (events.foldl (step lower recoverMessage) .empty).get (lower address) =
      some (nonce, expiry) ↔ ∃ before c after,
        trace (step lower recoverMessage) .empty events = before ++ c :: after ∧
        Challenged lower c (lower address) nonce (expiry - NONCE_TTL) ∧
        ∀ x ∈ after, ¬ Ended lower recoverMessage x (lower address) nonce expiry := by
    intro expiry
    have hsince := hrun.since_iff (P := fun t => t.get (lower address) = some (nonce, expiry))
      fun x hx => get_step x (lower address) nonce expiry hx
    rw [hsince]
    refine or_iff_left ?_
    rintro ⟨hempty, -⟩
    cases hempty
  rw [verifySignature_true]
  refine and_congr_right fun _ => ?_
  constructor
  · rintro ⟨expiry, hget, hin⟩
    obtain ⟨before, c, after, hts, hc, hafter⟩ := (hheld expiry).1 hget
    refine ⟨before, c, after, expiry - NONCE_TTL, hts, hc, ?_, ?_⟩
    · rwa [sub_add_cancel]
    · rwa [sub_add_cancel]
  · rintro ⟨before, c, after, issued, hts, hc, hin, hafter⟩
    refine ⟨issued + NONCE_TTL, (hheld _).2 ⟨before, c, after, hts, ?_, hafter⟩, hin⟩
    rwa [add_sub_cancel_right]

/-- No clock reading comes after the time of the login. -/
theorem not_foundExpired {events : List LoginEvent} {t : Nonces} {now issued : ℚ}
    {key nonce : String} (hclock : ∀ e ∈ events, ∀ r ∈ e.readings, r ≤ now)
    (hin : now ≤ issued + NONCE_TTL) :
    ∀ x ∈ trace (step lower recoverMessage) t events,
      ¬ FoundExpired lower x key nonce (issued + NONCE_TTL) := by
  rintro ⟨pre, ev, post⟩ hx hexpired
  have hread := hclock ev (mem_of_mem_trace hx)
  cases ev with
  | nonce address draw cleanedAt now' =>
    exact absurd (hread cleanedAt (by simp [LoginEvent.readings]))
      (not_le.2 (hin.trans_lt hexpired.2.2))
  | verify address signature nonce' now' =>
    exact absurd (hread now' (by simp [LoginEvent.readings]))
      (not_le.2 (hin.trans_lt hexpired.2.2))

end Nonces

/-- Over every run of the server from its start, with a clock that is not behind its own earlier
readings: a login is let through if and only if its signature under the nonce is that of its
address, the nonce was handed out for this address at most five minutes ago, and since then no
other was and no login of the address has been let through. -/
theorem login_iff (lower : String → String) (recoverMessage : String → String → Option String)
    (events : List LoginEvent) (address signature nonce : String) (now : ℚ)
    (hclock : ∀ e ∈ events, ∀ r ∈ e.readings, r ≤ now) :
    ((events.foldl (Nonces.step lower recoverMessage) .empty).verifySignature lower recoverMessage
        address signature nonce now).2 = true ↔
      Nonces.Signed lower recoverMessage (lower address) signature nonce ∧
        ∃ before c after issued,
          trace (Nonces.step lower recoverMessage) .empty events = before ++ c :: after ∧
          Nonces.Challenged lower c (lower address) nonce issued ∧ now ≤ issued + NONCE_TTL ∧
          ∀ x ∈ after,
            (∀ nonce' issued', ¬ Nonces.Challenged lower x (lower address) nonce' issued') ∧
              ¬ Nonces.LoggedIn lower recoverMessage x (lower address) := by
  rw [Nonces.verifySignature_run]
  refine and_congr_right fun _ => ?_
  constructor
  · rintro ⟨before, c, after, issued, hts, hc, hin, hafter⟩
    refine ⟨before, c, after, issued, hts, hc, hin, fun x hx => ⟨?_, ?_⟩⟩
    · intro nonce' issued' hnew
      exact hafter x hx (Or.inl ⟨nonce', issued', hnew⟩)
    · intro hlogin
      exact hafter x hx (Or.inr (Or.inl hlogin))
  · rintro ⟨before, c, after, issued, hts, hc, hin, hafter⟩
    refine ⟨before, c, after, issued, hts, hc, hin, fun x hx => ?_⟩
    have hmem : x ∈ trace (Nonces.step lower recoverMessage) .empty events := by
      rw [hts]
      exact List.mem_append_right _ (List.mem_cons_of_mem _ hx)
    rintro (⟨nonce', issued', hnew⟩ | hlogin | hexpired)
    · exact (hafter x hx).1 nonce' issued' hnew
    · exact (hafter x hx).2 hlogin
    · exact Nonces.not_foundExpired hclock hin x hmem hexpired

/-- A wallet that signs the nonce it was given ten seconds ago is let in. -/
theorem login_iff_in_time :
    let wallet := "0x00000000000000000000000000000000000000a1"
    let recoverMessage := fun text signature : String =>
      if text = signMessage "5f" ∧ signature = "a signature" then some wallet else none
    (([LoginEvent.nonce wallet "5f" 0 0].foldl (Nonces.step id recoverMessage)
      .empty).verifySignature id recoverMessage wallet "a signature" "5f" 10).2 = true := by
  intro wallet recoverMessage
  refine (login_iff id recoverMessage _ wallet "a signature" "5f" 10 ?_).2 ⟨?_, ?_⟩
  · simp [LoginEvent.readings]
  · exact ⟨wallet, if_pos ⟨rfl, rfl⟩, rfl⟩
  · refine ⟨[], _, [], 0, rfl, ⟨wallet, 0, rfl, by decide, rfl⟩, ?_, by simp⟩
    norm_num [NONCE_TTL]

end TreeMiner.Server
