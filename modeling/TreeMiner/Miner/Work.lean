import TreeMiner.Platform.Lease

/-! What one batch mines for: the address behind the salt and the prefix of the keys. -/

namespace TreeMiner

def DEVFEE_PREFIX : String := "FFFFFFFF"

def ECODEVFEE_PREFIX : String := "EEEEEEEE"

def DEVFEE_CYCLE : Int := 1000

/-- `address.strip_prefix("0x").unwrap_or(address)` -/
def stripHexPrefix (address : String) : String :=
  match address.toList with
  | '0' :: 'x' :: body => String.ofList body
  | _ => address

structure Work where
  saltHex : String
  keyPrefix : String
deriving DecidableEq, Repr

/-- The account a find of this work is captured under. -/
def Work.account (w : Work) : String := "0x" ++ w.saltHex

def MiningIdentity.userSalt (identity : MiningIdentity) : String :=
  stripHexPrefix identity.userAddress

/-- The fee batches are the last `permillage` of every thousand. -/
def selectWork (identity : MiningIdentity) (batchIndex : Int) : Work :=
  if !identity.selfMiningPrefix.isEmpty then ⟨identity.userSalt, identity.selfMiningPrefix⟩
  else if DEVFEE_CYCLE - batchIndex > identity.devfeePermillage then ⟨identity.userSalt, ""⟩
  else if DEVFEE_CYCLE - batchIndex ≤ identity.devfeePermillage.tdiv 2
      ∧ !identity.ecoDevfeeAddress.isEmpty then
    ⟨stripHexPrefix identity.ecoDevfeeAddress, ECODEVFEE_PREFIX ++ identity.userSalt⟩
  else ⟨stripHexPrefix identity.devfeeAddress, DEVFEE_PREFIX ++ identity.userSalt⟩

end TreeMiner
