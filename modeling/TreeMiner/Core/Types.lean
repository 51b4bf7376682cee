import TreeMiner.Core.Prim

/-! The journal/submitter contract of `tm-core`: what a find is, the states of its
life, and the outcome of classifying one server response. -/

namespace TreeMiner

inductive FindKind
  | xen11
  | xuni
deriving DecidableEq, Repr

def FindKind.asStr : FindKind → String
  | .xen11 => "XEN11"
  | .xuni => "XUNI"

def FindKind.parse (text : String) : Option FindKind :=
  if text = "XEN11" then some .xen11
  else if text = "XUNI" then some .xuni
  else none

@[simp] theorem FindKind.parse_asStr (k : FindKind) : FindKind.parse k.asStr = some k := by
  cases k <;> decide

/-- Full life cycle of a find. -/
inductive FindStatus
  | pending
  /-- claimed by the submitter, in process only -/
  | submitting
  | acceptedUnconfirmed
  | acked
  | parkedDifficulty
  | parkedXuniWindow
  | quarantined
  | dead
  | permanentlyInvalid
deriving DecidableEq, Repr

def FindStatus.isTerminal : FindStatus → Bool
  | .acked | .dead | .permanentlyInvalid => true
  | _ => false

/-- Immutable capture of a find at discovery time. -/
structure FoundPayload where
  key : String
  hashToVerify : String
  account : String
  kind : FindKind
  /-- the `m` baked into `hashToVerify` -/
  memoryCost : UInt32
  worker : String
  attempts : UInt64
  hashesPerSecond : F64
  foundAtUtc : String
deriving DecidableEq, Repr

/-- A journaled find: payload plus durable life-cycle state. -/
structure FindRecord where
  id : Int
  payload : FoundPayload
  status : FindStatus
  statusReason : String
  attemptCount : Int
  nextAttemptAt : Option String
  lastAttemptAt : Option String
  lastHttpStatus : Option Int
  lastResponse : String
  confirmedAt : Option String
  xuniWindowsTried : Int
deriving DecidableEq, Repr

/-- Outcome of classifying one server response. -/
structure Classification where
  nextStatus : FindStatus
  serverDifficultyHint : Option UInt32
  needsLookupConfirmation : Bool
  reason : String
deriving DecidableEq, Repr

end TreeMiner
