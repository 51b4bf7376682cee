import Mathlib.Algebra.Order.Field.Rat
import TreeMiner.Core.Address
import TreeMiner.Lib.Run
import TreeMiner.Lib.Table

/-! Accounts: registrations create them with an API key, wallet logins find them by address or
create them under an id cut from the address. -/

namespace TreeMiner.Server

open Lib

/-- A row of `accounts` without its id. -/
structure Account where
  role : String
  ethAddress : String
  balance : ℚ
  apiKey : String
  createdAt : ℚ
  updatedAt : ℚ
deriving DecidableEq

abbrev Accounts := Table String Account

/-- `COLLATE NOCASE`, and `str.lower` on ASCII. -/
def lower (s : String) : List Char := s.toList.map toAsciiLowercase

inductive RegisterError
  | value (text : String)
  | runtime (text : String)
deriving DecidableEq, Repr

/-- What `verify_signature` lets through: the lower case is that of a recovered address. -/
structure WalletAddress where
  text : String
  shape : ∃ body, lower text = '0' :: 'x' :: body ∧ body.length = 40 ∧
    body.all isAsciiHexdigit = true

/-- What `generate_api_key` makes. -/
abbrev ApiKey := { key : String // key ≠ "" }

namespace Accounts

/-- `INSERT OR IGNORE`, then the row under the id. -/
def create (t : Accounts) (accountId role : String) (balance : ℚ) (ethAddress : String) (now : ℚ) :
    Accounts × Option (String × Account) :=
  let t := if role = "provider" ∨ role = "consumer" then
      t.insert accountId ⟨role, ethAddress, balance, "", now, now⟩
    else t
  (t, (t.get accountId).map fun acct => (accountId, acct))

/-- The first row of the address, up to case. -/
def getByEthAddress (t : Accounts) (address : String) : Option (String × Account) :=
  if address = "" then none
  else t.rows.find? fun row => lower row.2.ethAddress = lower address

def setApiKey (t : Accounts) (accountId apiKey : String) (now : ℚ) : Accounts :=
  t.modify accountId fun acct => { acct with apiKey, updatedAt := now }

def register (t : Accounts) (accountId role ethAddress : String) (apiKey : ApiKey)
    (now keyNow : ℚ) : Accounts × Except RegisterError (String × Account) :=
  if ¬ (role = "provider" ∨ role = "consumer") then
    (t, .error (.value "Role must be 'provider' or 'consumer'"))
  else if (t.get accountId).isSome then
    (t, .error (.value s!"Account '{accountId}' already exists"))
  else
    match t.create accountId role 0 ethAddress now with
    | (t, none) => (t, .error (.runtime "Failed to create account"))
    | (t, some (accountId, acct)) =>
      (t.setApiKey accountId apiKey.1 keyNow, .ok (accountId, { acct with apiKey := apiKey.1 }))

/-- `f"wallet-{address[:10].lower()}"` -/
def walletId (address : String) : String :=
  "wallet-" ++ String.ofList ((lower address).take 10)

def getOrCreateByEthAddress (t : Accounts) (address : String) (now : ℚ) :
    Accounts × Option (String × Account) :=
  match t.getByEthAddress address with
  | some row => (t, some row)
  | none => t.create (walletId address) "provider" 0 address now

end Accounts

/-! ## Runs -/

inductive AccountEvent
  /-- an account the server creates for itself or for a worker -/
  | provision (accountId role : String) (balance : ℚ) (ethAddress : String) (now : ℚ)
  /-- `POST /api/auth/register`, which asks for no proof -/
  | register (accountId role ethAddress : String) (apiKey : ApiKey) (now keyNow : ℚ)
  /-- `POST /api/auth/verify` behind the signature check -/
  | login (address : WalletAddress) (now : ℚ)

def accountStep (t : Accounts) : AccountEvent → Accounts
  | .provision accountId role balance ethAddress now =>
    (t.create accountId role balance ethAddress now).1
  | .register accountId role ethAddress apiKey now keyNow =>
    (t.register accountId role ethAddress apiKey now keyNow).1
  | .login address now => (t.getOrCreateByEthAddress address.text now).1

/-- The transition is a login of the wallet, answered with this account. -/
def Returned (x : Trans Accounts AccountEvent) (a : WalletAddress) (accountId : String)
    (acct : Account) : Prop :=
  ∃ now, x.ev = .login a now ∧
    (x.pre.getOrCreateByEthAddress a.text now).2 = some (accountId, acct)

/-- A login gets an account of its own address that no registration holds a key of. -/
def OwnAccount (x : Trans Accounts AccountEvent) : Prop :=
  ∀ a accountId acct, Returned x a accountId acct →
    lower acct.ethAddress = lower a.text ∧ acct.apiKey = ""

/-- Wallet accounts are not shared. -/
structure WalletsApart (ts : List (Trans Accounts AccountEvent)) : Prop where
  own : ∀ x ∈ ts, OwnAccount x
  apart : ∀ x ∈ ts, ∀ y ∈ ts, ∀ a b accountId acct acct', Returned x a accountId acct →
    Returned y b accountId acct' → lower a.text = lower b.text

/-- The first account of the address has no API key; where there is none, the id cut from the
address is free. -/
def Unclaimed (x : Trans Accounts AccountEvent) : Prop :=
  ∀ a now, x.ev = .login a now →
    match x.pre.getByEthAddress a.text with
    | some row => row.2.apiKey = ""
    | none => x.pre.get (Accounts.walletId a.text) = none

/-! ## One login -/

namespace Accounts

variable {t : Accounts}

theorem getByEthAddress_some {address : String} {row : String × Account}
    (h : t.getByEthAddress address = some row) :
    t.get row.1 = some row.2 ∧ lower row.2.ethAddress = lower address := by
  unfold getByEthAddress at h
  split_ifs at h with hempty
  refine ⟨Table.mem_rows_iff.1 (List.mem_of_find?_eq_some h), ?_⟩
  simpa using List.find?_some h

theorem getByEthAddress_none {a : WalletAddress} (h : t.getByEthAddress a.text = none)
    {accountId : String} {acct : Account} (hget : t.get accountId = some acct) :
    lower acct.ethAddress ≠ lower a.text := by
  have hne : a.text ≠ "" := by
    intro hempty
    obtain ⟨body, hbody, -⟩ := a.shape
    rw [hempty] at hbody
    cases hbody
  unfold getByEthAddress at h
  rw [if_neg hne] at h
  have hrow := List.find?_eq_none.1 h _ (Table.mem_rows_iff.2 hget)
  simpa using hrow

theorem create_provider (accountId : String) (balance : ℚ) (ethAddress : String) (now : ℚ) :
    t.create accountId "provider" balance ethAddress now =
      (t.insert accountId ⟨"provider", ethAddress, balance, "", now, now⟩,
        some (accountId, (t.get accountId).getD ⟨"provider", ethAddress, balance, "", now, now⟩)) := by
  unfold create
  rw [if_pos (Or.inl rfl)]
  dsimp only
  rw [Table.get_insert]
  cases hget : t.get accountId with
  | none => simp
  | some acct => simp

end Accounts

/-- A login is answered with its own account exactly where nothing claims the address or the
id. -/
theorem ownAccount_iff (x : Trans Accounts AccountEvent) : OwnAccount x ↔ Unclaimed x := by
  unfold OwnAccount Unclaimed Returned Accounts.getOrCreateByEthAddress
  constructor
  · intro h a now hev
    cases hfind : x.pre.getByEthAddress a.text with
    | some row =>
      dsimp only
      refine (h a row.1 row.2 ⟨now, hev, ?_⟩).2
      rw [hfind]
    | none =>
      dsimp only
      by_contra htaken
      obtain ⟨acct, hacct⟩ := Option.ne_none_iff_exists'.1 htaken
      have hown := h a (Accounts.walletId a.text) acct ⟨now, hev, by
        rw [hfind]
        dsimp only
        rw [Accounts.create_provider, hacct]
        rfl⟩
      exact Accounts.getByEthAddress_none hfind hacct hown.1
  · rintro h a accountId acct ⟨now, hev, hret⟩
    have hfree := h a now hev
    cases hfind : x.pre.getByEthAddress a.text with
    | some row =>
      rw [hfind] at hret hfree
      cases hret
      exact ⟨(Accounts.getByEthAddress_some hfind).2, hfree⟩
    | none =>
      rw [hfind] at hret hfree
      dsimp only at hret hfree
      rw [Accounts.create_provider, hfree] at hret
      cases hret
      exact ⟨rfl, rfl⟩

/-! ## The address of an account -/

/-- Every account stays, with its address. -/
def KeepsAddresses (t t' : Accounts) : Prop :=
  ∀ accountId acct, t.get accountId = some acct →
    ∃ acct', t'.get accountId = some acct' ∧ acct'.ethAddress = acct.ethAddress

theorem KeepsAddresses.refl (t : Accounts) : KeepsAddresses t t := fun _ acct h => ⟨acct, h, rfl⟩

theorem KeepsAddresses.trans {a b c : Accounts} (h1 : KeepsAddresses a b)
    (h2 : KeepsAddresses b c) : KeepsAddresses a c := by
  intro accountId acct h
  obtain ⟨acct1, hget1, heth1⟩ := h1 accountId acct h
  obtain ⟨acct2, hget2, heth2⟩ := h2 accountId acct1 hget1
  exact ⟨acct2, hget2, heth2.trans heth1⟩

theorem keepsAddresses_create (t : Accounts) (accountId role : String) (balance : ℚ)
    (ethAddress : String) (now : ℚ) :
    KeepsAddresses t (t.create accountId role balance ethAddress now).1 := by
  intro id acct h
  refine ⟨acct, ?_, rfl⟩
  unfold Accounts.create
  dsimp only
  split_ifs
  · rw [Table.get_insert, if_neg]
    · exact h
    · rintro ⟨rfl, hnone⟩
      rw [hnone] at h
      cases h
  · exact h

theorem keepsAddresses_setApiKey (t : Accounts) (accountId apiKey : String) (now : ℚ) :
    KeepsAddresses t (t.setApiKey accountId apiKey now) := by
  intro id acct h
  unfold Accounts.setApiKey
  rw [Table.get_modify, h]
  split_ifs
  · exact ⟨_, rfl, rfl⟩
  · exact ⟨acct, rfl, rfl⟩

theorem keepsAddresses_step (t : Accounts) (e : AccountEvent) :
    KeepsAddresses t (accountStep t e) := by
  cases e with
  | provision accountId role balance ethAddress now =>
    exact keepsAddresses_create t accountId role balance ethAddress now
  | register accountId role ethAddress apiKey now keyNow =>
    unfold accountStep Accounts.register
    dsimp only
    split_ifs
    · exact .refl t
    · have hcreate := keepsAddresses_create t accountId role 0 ethAddress now
      rcases hres : t.create accountId role 0 ethAddress now with ⟨t', _ | ⟨id, acct⟩⟩
      · rw [hres] at hcreate
        exact hcreate
      · rw [hres] at hcreate
        exact hcreate.trans (keepsAddresses_setApiKey t' id apiKey.1 keyNow)
    · exact .refl t
  | login address now =>
    unfold accountStep Accounts.getOrCreateByEthAddress
    dsimp only
    split
    · exact .refl t
    · exact keepsAddresses_create t _ _ _ _ _

/-- The account a login returns is in the table behind it. -/
theorem Returned.stored {x : Trans Accounts AccountEvent} {a : WalletAddress} {accountId : String}
    {acct : Account} (hstep : x.post = accountStep x.pre x.ev) (h : Returned x a accountId acct) :
    x.post.get accountId = some acct := by
  obtain ⟨now, hev, hret⟩ := h
  rw [hstep, hev]
  unfold accountStep
  unfold Accounts.getOrCreateByEthAddress at hret ⊢
  dsimp only
  cases hfind : x.pre.getByEthAddress a.text with
  | some row =>
    rw [hfind] at hret
    cases hret
    exact (Accounts.getByEthAddress_some hfind).1
  | none =>
    rw [hfind] at hret
    unfold Accounts.create at hret ⊢
    obtain ⟨acct', hget, heq⟩ := Option.map_eq_some_iff.1 hret
    cases heq
    exact hget

/-! ## The law -/

theorem returned_later {ts : List (Trans Accounts AccountEvent)} {t u : Accounts}
    (hrun : Run (fun t e t' => t' = accountStep t e) t ts u) {x : Trans Accounts AccountEvent}
    (hx : x ∈ ts) {a : WalletAddress} {accountId : String} {acct : Account}
    (h : Returned x a accountId acct) :
    ∃ acct', u.get accountId = some acct' ∧ acct'.ethAddress = acct.ethAddress := by
  obtain ⟨before, after, rfl⟩ := List.append_of_mem hx
  obtain ⟨-, hstep, hafter⟩ := hrun.split
  have hkeeps : KeepsAddresses x.post u :=
    (hafter.inv (I := KeepsAddresses x.post)
      (fun s e s' hs h => by rw [hs]; exact h.trans (keepsAddresses_step s e)) (.refl _)).2.2
  exact hkeeps accountId acct (h.stored hstep)

/-- Wallet accounts are not shared exactly in the runs whose logins all find the address and the
id unclaimed. -/
theorem wallets_apart_iff (events : List AccountEvent) :
    WalletsApart (trace accountStep .empty events) ↔
      ∀ x ∈ trace accountStep .empty events, Unclaimed x := by
  have hrun := Run.trace accountStep .empty events
  constructor
  · intro h x hx
    exact (ownAccount_iff x).1 (h.own x hx)
  · intro h
    have hown : ∀ x ∈ trace accountStep .empty events, OwnAccount x :=
      fun x hx => (ownAccount_iff x).2 (h x hx)
    refine ⟨hown, fun x hx y hy a b accountId acct acct' hret hret' => ?_⟩
    obtain ⟨u, hu, heth⟩ := returned_later hrun hx hret
    obtain ⟨u', hu', heth'⟩ := returned_later hrun hy hret'
    rw [hu] at hu'
    cases hu'
    rw [← (hown x hx a accountId acct hret).1, ← (hown y hy b accountId acct' hret').1, ← heth,
      ← heth']

/-- Two wallets whose first ten characters agree. -/
def walletA : WalletAddress :=
  ⟨"0x12345678aaaaaaaaaaaaaaaaaaaaaaaaaaaaaaaa", _, rfl, by decide, by decide⟩

def walletB : WalletAddress :=
  ⟨"0x12345678bbbbbbbbbbbbbbbbbbbbbbbbbbbbbbbb", _, rfl, by decide, by decide⟩

/-- The second wallet gets the first one's account. -/
theorem wallets_shared :
    ¬ ∀ events, WalletsApart (trace accountStep .empty events) := by
  intro h
  have hfree := (wallets_apart_iff _).1 (h [.login walletA 0, .login walletB 0]) _
    (List.mem_cons_of_mem _ List.mem_cons_self) walletB 0 rfl
  have hfind : (accountStep .empty (.login walletA 0)).getByEthAddress walletB.text = none := by
    decide
  dsimp only at hfree
  rw [hfind] at hfree
  exact absurd hfree (by decide)

end TreeMiner.Server
