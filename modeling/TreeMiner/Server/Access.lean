import TreeMiner.Server.Login
import TreeMiner.Server.Wallets

/-! Who may move the money of an account (`auth.py`, `deps.py` and the routes under
`/api/accounts`): its own API key, a session of it, or the administrator's key, whatever was
registered before. -/

namespace TreeMiner.Server

open Lib

structure Claims where
  sub : String
  role : String
  accountId : String

/-- `AuthService`; a JWT is decoded at a time, and is `none` when it is invalid or has expired. -/
structure AuthService where
  adminKey : String
  decodeJwt : ℚ → String → Option Claims

/-- The headers `X-API-Key` and `Authorization`; one that is missing is empty. -/
structure Credentials where
  xApiKey : String
  authorization : String
deriving DecidableEq, Repr

/-- The account a request acts for. -/
structure CallerAccount where
  accountId : String
  role : String
  ethAddress : String
  balance : ℚ
  apiKey : String
deriving DecidableEq

def CallerAccount.ofRow (accountId : String) (acct : Account) : CallerAccount :=
  ⟨accountId, acct.role, acct.ethAddress, acct.balance, acct.apiKey⟩

/-- The text behind `Bearer `. -/
def bearerToken (authorization : String) : Option String :=
  if "Bearer ".toList.isPrefixOf authorization.toList then
    some (String.ofList (authorization.toList.drop 7))
  else none

namespace Accounts

def getByApiKey (t : Accounts) (apiKey : String) : Option (String × Account) :=
  if apiKey = "" then none
  else t.rows.find? fun row => row.2.apiKey = apiKey ∧ row.2.apiKey ≠ ""

inductive BalanceError
  | key (text : String)
  | value (text : String)
deriving DecidableEq, Repr

def updateBalance (t : Accounts) (accountId : String) (newBalance now : ℚ) : Accounts :=
  t.modify accountId fun acct => { acct with balance := newBalance, updatedAt := now }

/-- The new balance, once it is stored. -/
def deposit (t : Accounts) (accountId : String) (amount now : ℚ) :
    Accounts × Except BalanceError ℚ :=
  if amount ≤ 0 then (t, .error (.value "Deposit amount must be positive"))
  else
    match t.get accountId with
    | none => (t, .error (.key s!"Account {accountId} not found"))
    | some acct =>
      (t.updateBalance accountId (acct.balance + amount) now, .ok (acct.balance + amount))

-- `format(x, ".4f")`
variable (format4f : ℚ → String)

def withdraw (t : Accounts) (accountId : String) (amount now : ℚ) :
    Accounts × Except BalanceError ℚ :=
  if amount ≤ 0 then (t, .error (.value "Withdraw amount must be positive"))
  else
    match t.get accountId with
    | none => (t, .error (.key s!"Account {accountId} not found"))
    | some acct =>
      if acct.balance < amount then
        (t, .error (.value
          s!"Insufficient balance: have {format4f acct.balance}, need {format4f amount}"))
      else (t.updateBalance accountId (acct.balance - amount) now, .ok (acct.balance - amount))

end Accounts

/-- The account of a session. -/
def AuthService.resolveSession (auth : AuthService) (t : Accounts) (authorization : String)
    (now : ℚ) : Option CallerAccount :=
  (bearerToken authorization).bind fun token =>
    (auth.decodeJwt now token).bind fun claims =>
      (t.get claims.accountId).map (CallerAccount.ofRow claims.accountId)

/-- JWT first, then the keys. -/
def AuthService.resolveAccount (auth : AuthService) (t : Accounts) (creds : Credentials)
    (now : ℚ) : Option CallerAccount :=
  match auth.resolveSession t creds.authorization now with
  | some caller => some caller
  | none =>
    if creds.xApiKey = "" then none
    else if creds.xApiKey = auth.adminKey then some ⟨"_admin", "admin", "", 0, creds.xApiKey⟩
    else (t.getByApiKey creds.xApiKey).map fun row => .ofRow row.1 row.2

/-- `str.capitalize` of an ASCII word. -/
def capitalize (s : String) : String :=
  match s.toList with
  | [] => ""
  | c :: cs => String.ofList (toAsciiUppercase c :: cs.map toAsciiLowercase)

/-- An administrator satisfies every role. -/
def requireAuth (auth : Option AuthService) (role : Option String) (t : Accounts)
    (creds : Credentials) (now : ℚ) : Except HttpException CallerAccount :=
  match auth with
  | none => .error ⟨503, "Authentication service unavailable"⟩
  | some auth =>
    match auth.resolveAccount t creds now with
    | none => .error ⟨401, "Missing or invalid credentials. Pass Authorization: Bearer <jwt> or " ++
        "X-API-Key header."⟩
    | some caller =>
      match role with
      | none => .ok caller
      | some role =>
        if caller.role = role ∨ caller.role = "admin" then .ok caller
        else .error ⟨403, s!"{capitalize role} account required"⟩

/-! ## The routes -/

/-- What happens to the accounts: what the server does on its own and the logins, and the requests
under `/api/accounts/{account_id}`. -/
inductive AccountRequest
  | account (e : AccountEvent)
  | getBalance (creds : Credentials) (accountId : String) (now : ℚ)
  | deposit (creds : Credentials) (accountId : String) (amount now : ℚ)
  | withdraw (creds : Credentials) (accountId : String) (amount now : ℚ)

/-- A request that authenticates, and the account it is about. -/
def AccountRequest.target : AccountRequest → Option (Credentials × String × ℚ)
  | .account _ => none
  | .getBalance creds accountId now => some (creds, accountId, now)
  | .deposit creds accountId _ now => some (creds, accountId, now)
  | .withdraw creds accountId _ now => some (creds, accountId, now)

section

variable (format4f : ℚ → String) (auth : Option AuthService)

/-- The check the routes share: the caller's own account, or any for an administrator. -/
def requireOwn (t : Accounts) (creds : Credentials) (accountId denied : String) (now : ℚ) :
    Except HttpException CallerAccount :=
  match requireAuth auth none t creds now with
  | .error e => .error e
  | .ok caller =>
    if caller.role ≠ "admin" ∧ caller.accountId ≠ accountId then .error ⟨403, denied⟩
    else .ok caller

def balanceAnswer : Except Accounts.BalanceError ℚ → Except HttpException ℚ
  | .ok balance => .ok balance
  | .error (.key _) => .error ⟨404, "Account not found"⟩
  | .error (.value text) => .error ⟨400, text⟩

def answered (res : Accounts × Except Accounts.BalanceError ℚ) :
    Accounts × Except HttpException ℚ :=
  (res.1, balanceAnswer res.2)

/-- A route of the account's owner. -/
def asOwner (t : Accounts) (creds : Credentials) (accountId denied : String) (now : ℚ)
    (act : Accounts × Except HttpException ℚ) : Accounts × Except HttpException ℚ :=
  match requireOwn auth t creds accountId denied now with
  | .error e => (t, .error e)
  | .ok _ => act

def showBalance (t : Accounts) (accountId : String) : Except HttpException ℚ :=
  match t.get accountId with
  | none => .error ⟨404, "Account not found"⟩
  | some acct => .ok acct.balance

/-- The accounts and the balance in the answer. -/
def serveAccount (t : Accounts) : AccountRequest → Accounts × Except HttpException ℚ
  | .account e => (accountStep t e, .ok 0)
  | .getBalance creds accountId now =>
    asOwner auth t creds accountId "You can only view your own balance" now
      (t, showBalance t accountId)
  | .deposit creds accountId amount now =>
    asOwner auth t creds accountId "You can only deposit to your own account" now
      (answered (t.deposit accountId amount now))
  | .withdraw creds accountId amount now =>
    asOwner auth t creds accountId "You can only withdraw from your own account" now
      (answered (t.withdraw format4f accountId amount now))

def accountRequestStep (t : Accounts) (r : AccountRequest) : Accounts :=
  (serveAccount format4f auth t r).1

end

/-! ## What the credentials prove -/

/-- No stored account is an administrator's. -/
def RolesKept (t : Accounts) : Prop :=
  ∀ accountId acct, t.get accountId = some acct → acct.role = "provider" ∨ acct.role = "consumer"

namespace RolesKept

variable {t : Accounts}

theorem create {accountId role : String} {balance : ℚ} {ethAddress : String} {now : ℚ}
    (h : RolesKept t) : RolesKept (t.create accountId role balance ethAddress now).1 := by
  intro id acct hget
  unfold Accounts.create at hget
  dsimp only at hget
  split_ifs at hget with hrole
  · rw [Table.get_insert] at hget
    split_ifs at hget
    · cases hget
      exact hrole
    · exact h id acct hget
  · exact h id acct hget

/-- An update that keeps the role. -/
theorem modify {accountId : String} {f : Account → Account} (h : RolesKept t)
    (hf : ∀ acct, (f acct).role = acct.role) : RolesKept (t.modify accountId f) := by
  intro id acct hget
  rw [Table.get_modify] at hget
  split_ifs at hget
  · obtain ⟨acct', hget', rfl⟩ := Option.map_eq_some_iff.1 hget
    rw [hf]
    exact h id acct' hget'
  · exact h id acct hget

theorem accountStep (h : RolesKept t) (e : AccountEvent) : RolesKept (accountStep t e) := by
  cases e with
  | provision accountId role balance ethAddress now => exact h.create
  | register accountId role ethAddress apiKey now keyNow =>
    unfold Server.accountStep Accounts.register
    dsimp only
    split_ifs
    · exact h
    · have hcreate : RolesKept (t.create accountId role 0 ethAddress now).1 := h.create
      rcases hres : t.create accountId role 0 ethAddress now with ⟨t', _ | ⟨id, acct⟩⟩
      · rw [hres] at hcreate
        exact hcreate
      · rw [hres] at hcreate
        exact hcreate.modify fun _ => rfl
    · exact h
  | login address now =>
    unfold Server.accountStep Accounts.getOrCreateByEthAddress
    dsimp only
    split
    · exact h
    · exact h.create

end RolesKept

namespace Accounts

/-- An operation on a balance goes through and moves it by `d`, or it fails and moves nothing. -/
inductive Moves (t : Accounts) (id : String) (d : ℚ) :
    Accounts × Except BalanceError ℚ → Prop
  | ok (acct : Account) (now : ℚ) (get : t.get id = some acct) :
      Moves t id d (t.updateBalance id (acct.balance + d) now, .ok (acct.balance + d))
  | error (e : BalanceError) : Moves t id d (t, .error e)

theorem moves_deposit (t : Accounts) (id : String) (amount now : ℚ) :
    t.Moves id amount (t.deposit id amount now) := by
  unfold deposit
  split_ifs
  · exact .error _
  · cases hget : t.get id with
    | none => exact .error _
    | some acct => exact .ok acct now hget

theorem moves_withdraw (format4f : ℚ → String) (t : Accounts) (id : String) (amount now : ℚ) :
    t.Moves id (-amount) (t.withdraw format4f id amount now) := by
  unfold withdraw
  split_ifs
  · exact .error _
  · cases hget : t.get id with
    | none => exact .error _
    | some acct =>
      dsimp only
      split_ifs
      · exact .error _
      · rw [sub_eq_add_neg]
        exact .ok acct now hget

end Accounts

section

variable (format4f : ℚ → String) (auth : Option AuthService)

/-- The request was carried out. -/
def AccountRequest.done (x : Trans Accounts AccountRequest) : Bool :=
  (serveAccount format4f auth x.pre x.ev).2.isOk

/-- What an event brings to an account or takes from it: the balance it is opened with, a deposit,
a withdrawal. -/
def AccountRequest.moved (accountId : String) (x : Trans Accounts AccountRequest) : ℚ :=
  match x.ev with
  | .account (.provision id role balance _ _) =>
    if id = accountId ∧ (role = "provider" ∨ role = "consumer") ∧ x.pre.get id = none then balance
    else 0
  | .deposit _ id amount _ => if id = accountId ∧ done format4f auth x then amount else 0
  | .withdraw _ id amount _ => if id = accountId ∧ done format4f auth x then -amount else 0
  | _ => 0

end

/-! ## One request -/

section

variable {format4f : ℚ → String} {auth : Option AuthService}

/-- The owner's request is let through to the route, or it is refused. -/
theorem asOwner_cases (auth : Option AuthService) (t : Accounts) (creds : Credentials)
    (id denied : String) (now : ℚ) (act : Accounts × Except HttpException ℚ) :
    (∃ e, asOwner auth t creds id denied now act = (t, .error e)) ∨
      (∃ caller, requireOwn auth t creds id denied now = .ok caller) ∧
        asOwner auth t creds id denied now act = act := by
  unfold asOwner
  cases requireOwn auth t creds id denied now with
  | error e => exact Or.inl ⟨e, rfl⟩
  | ok caller => exact Or.inr ⟨⟨caller, rfl⟩, rfl⟩

theorem RolesKept.asOwner {t : Accounts} {creds : Credentials} {id denied : String} {now : ℚ}
    {act : Accounts × Except HttpException ℚ} (h : RolesKept t) (hact : RolesKept act.1) :
    RolesKept (asOwner auth t creds id denied now act).1 := by
  rcases asOwner_cases auth t creds id denied now act with ⟨e, hanswer⟩ | ⟨-, hanswer⟩
  · rw [hanswer]
    exact h
  · rw [hanswer]
    exact hact

theorem RolesKept.moves {t : Accounts} {id : String} {d : ℚ}
    {res : Accounts × Except Accounts.BalanceError ℚ} (h : RolesKept t) (hres : t.Moves id d res) :
    RolesKept res.1 := by
  cases hres with
  | ok acct now hget => exact h.modify fun _ => rfl
  | error e => exact h

theorem RolesKept.request {t : Accounts} (h : RolesKept t) (r : AccountRequest) :
    RolesKept (accountRequestStep format4f auth t r) := by
  cases r with
  | account e => exact h.accountStep e
  | getBalance creds id now => exact h.asOwner h
  | deposit creds id amount now => exact h.asOwner (h.moves (t.moves_deposit id amount now))
  | withdraw creds id amount now =>
    exact h.asOwner (h.moves (t.moves_withdraw format4f id amount now))

end

end TreeMiner.Server
