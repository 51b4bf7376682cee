import TreeMiner.Core.Prim

/-! `serde_json::Value`, read only through the accessors the crates call. The map is
the crate's default `BTreeMap`, listed in key order. -/

namespace TreeMiner

/-- `serde_json::Number`: `PosInt` and `NegInt` are `int`, the rest is a float. -/
inductive Number
  | int (n : Int)
  | float (x : F64)
deriving DecidableEq, Repr

/-- `Number::as_i64`; a `PosInt` above `i64::MAX` is not one. -/
def Number.asI64 : Number → Option Int
  | .int n => if i64Min ≤ n ∧ n ≤ i64Max then some n else none
  | .float _ => none

inductive Value
  | null
  | bool (b : Bool)
  | number (n : Number)
  | string (s : String)
  | array (xs : List Value)
  | object (m : List (String × Value))
deriving Repr

def Value.isObject : Value → Bool
  | .object _ => true
  | _ => false

/-- `Value::get` with a string index: `none` on anything but an object. -/
def Value.get (key : String) : Value → Option Value
  | .object m => m.lookup key
  | _ => none

/-- The message without one of its top-level members. -/
def Value.remove (key : String) : Value → Value
  | .object m => .object (m.filter fun p => p.1 != key)
  | v => v

/-- Insert or overwrite a top-level member of an object, in key order. -/
def Value.insert (v : Value) (key : String) (x : Value) : Value :=
  match v with
  | .object m => .object (m.filter (fun p => decide (p.1 < key)) ++
      (key, x) :: m.filter fun p => decide (key < p.1))
  | v => v

end TreeMiner
