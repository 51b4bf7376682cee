import Mathlib.Data.List.Basic

/-! JSON texts, after RFC 8259, as a relation between a text, what it denotes and what is
left behind it. Strings keep their escapes: an escaped code unit stays a number. -/

namespace TreeMiner.Lib

/-- One character of a string as the text writes it: itself, or an escaped code unit. -/
inductive Piece
  | plain (c : Char)
  | unit (n : Nat)
deriving DecidableEq

def Piece.code : Piece → Nat
  | .plain c => c.toNat
  | .unit n => n

inductive Json
  | null
  | bool (b : Bool)
  | number (text : List Char)
  | string (text : List Piece)
  | array (items : List Json)
  | object (members : List (List Piece × Json))

namespace Json

def isWs (c : Char) : Bool := c = ' ' || c = '\t' || c = '\n' || c = '\r'

/-- Insignificant whitespace in front of `rest`. -/
def Ws (s rest : List Char) : Prop := ∃ w, s = w ++ rest ∧ ∀ c ∈ w, isWs c = true

def isDigit (c : Char) : Bool := '0' ≤ c && c ≤ '9'

def hexValue (c : Char) : Option Nat :=
  if isDigit c then some (c.toNat - '0'.toNat)
  else if 'a' ≤ c && c ≤ 'f' then some (c.toNat - 'a'.toNat + 10)
  else if 'A' ≤ c && c ≤ 'F' then some (c.toNat - 'A'.toNat + 10)
  else none

/-- The escapes of one character behind the backslash. -/
def escapeUnit (c : Char) : Option Nat :=
  if c = '"' then some 0x22
  else if c = '\\' then some 0x5c
  else if c = '/' then some 0x2f
  else if c = 'b' then some 0x08
  else if c = 'f' then some 0x0c
  else if c = 'n' then some 0x0a
  else if c = 'r' then some 0x0d
  else if c = 't' then some 0x09
  else none

/-- A string behind its opening quote. -/
inductive StrBody : List Char → List Piece → List Char → Prop
  | close (rest : List Char) : StrBody ('"' :: rest) [] rest
  | plain {c : Char} {s rest : List Char} {p : List Piece} (hc : 0x20 ≤ c.toNat)
      (hq : c ≠ '"') (hb : c ≠ '\\') : StrBody s p rest → StrBody (c :: s) (.plain c :: p) rest
  | escape {c : Char} {n : Nat} {s rest : List Char} {p : List Piece} (hn : escapeUnit c = some n) :
      StrBody s p rest → StrBody ('\\' :: c :: s) (.unit n :: p) rest
  | unicode {a b c d : Char} {i j k l : Nat} {s rest : List Char} {p : List Piece}
      (ha : hexValue a = some i) (hb : hexValue b = some j) (hc : hexValue c = some k)
      (hd : hexValue d = some l) : StrBody s p rest →
      StrBody ('\\' :: 'u' :: a :: b :: c :: d :: s)
        (.unit (((i * 16 + j) * 16 + k) * 16 + l) :: p) rest

def Digits (s : List Char) : Prop := s ≠ [] ∧ ∀ c ∈ s, isDigit c = true

/-- The text of a number. -/
def Number (s : List Char) : Prop :=
  ∃ sign int frac exp, s = sign ++ int ++ frac ++ exp ∧ (sign = [] ∨ sign = ['-']) ∧
    (int = ['0'] ∨ (Digits int ∧ int.head? ≠ some '0')) ∧
    (frac = [] ∨ ∃ ds, frac = '.' :: ds ∧ Digits ds) ∧
    (exp = [] ∨ ∃ e sign ds, exp = e :: (sign ++ ds) ∧ (e = 'e' ∨ e = 'E') ∧
      (sign = [] ∨ sign = ['+'] ∨ sign = ['-']) ∧ Digits ds)

def trueText : List Char := ['t', 'r', 'u', 'e']

def falseText : List Char := ['f', 'a', 'l', 's', 'e']

def nullText : List Char := ['n', 'u', 'l', 'l']

mutual

/-- A value without the whitespace around it. -/
inductive Value : List Char → Json → List Char → Prop
  | null (rest : List Char) : Value (nullText ++ rest) .null rest
  | true (rest : List Char) : Value (trueText ++ rest) (.bool true) rest
  | false (rest : List Char) : Value (falseText ++ rest) (.bool false) rest
  | number {t : List Char} (h : Number t) (rest : List Char) : Value (t ++ rest) (.number t) rest
  | string {s rest : List Char} {p : List Piece} (h : StrBody s p rest) :
      Value ('"' :: s) (.string p) rest
  | emptyArray {s rest : List Char} (h : Ws s (']' :: rest)) : Value ('[' :: s) (.array []) rest
  | array {s rest : List Char} {vs : List Json} (h : Items s vs rest) :
      Value ('[' :: s) (.array vs) rest
  | emptyObject {s rest : List Char} (h : Ws s ('}' :: rest)) : Value ('{' :: s) (.object []) rest
  | object {s rest : List Char} {ms : List (List Piece × Json)} (h : Members s ms rest) :
      Value ('{' :: s) (.object ms) rest

/-- The items of an array and its closing bracket. -/
inductive Items : List Char → List Json → List Char → Prop
  | last {s s1 s2 rest : List Char} {v : Json} (h1 : Ws s s1) (h2 : Value s1 v s2)
      (h3 : Ws s2 (']' :: rest)) : Items s [v] rest
  | cons {s s1 s2 s3 rest : List Char} {v : Json} {vs : List Json} (h1 : Ws s s1)
      (h2 : Value s1 v s2) (h3 : Ws s2 (',' :: s3)) (h4 : Items s3 vs rest) :
      Items s (v :: vs) rest

/-- The members of an object and its closing brace. -/
inductive Members : List Char → List (List Piece × Json) → List Char → Prop
  | last {s s1 s2 s3 s4 s5 rest : List Char} {k : List Piece} {v : Json} (h1 : Ws s ('"' :: s1))
      (h2 : StrBody s1 k s2) (h3 : Ws s2 (':' :: s3)) (h4 : Ws s3 s4) (h5 : Value s4 v s5)
      (h6 : Ws s5 ('}' :: rest)) : Members s [(k, v)] rest
  | cons {s s1 s2 s3 s4 s5 s6 rest : List Char} {k : List Piece} {v : Json}
      {ms : List (List Piece × Json)} (h1 : Ws s ('"' :: s1)) (h2 : StrBody s1 k s2)
      (h3 : Ws s2 (':' :: s3)) (h4 : Ws s3 s4) (h5 : Value s4 v s5) (h6 : Ws s5 (',' :: s6))
      (h7 : Members s6 ms rest) : Members s ((k, v) :: ms) rest

end

/-- A whole JSON text. -/
def Text (s : List Char) (v : Json) : Prop := ∃ s1 s2, Ws s s1 ∧ Value s1 v s2 ∧ Ws s2 []

/-- A string, number or literal as the pieces of its text; none for an array or an object. -/
def scalar : Json → Option (List Piece)
  | .null => some (nullText.map .plain)
  | .bool true => some (trueText.map .plain)
  | .bool false => some (falseText.map .plain)
  | .number t => some (t.map .plain)
  | .string p => some p
  | .array _ => none
  | .object _ => none

/-- The UTF-16 code units of a character. -/
def utf16 (c : Char) : List Nat :=
  if c.toNat < 0x10000 then [c.toNat]
  else [0xd800 + (c.toNat - 0x10000) / 0x400, 0xdc00 + (c.toNat - 0x10000) % 0x400]

/-- The UTF-16 code units a string literal stands for. -/
def units (p : List Piece) : List Nat :=
  p.flatMap fun x => match x with
    | .plain c => utf16 c
    | .unit n => [n]

/-- The string literal denotes the text. -/
def Denotes (p : List Piece) (s : String) : Prop := units p = s.toList.flatMap utf16

instance (p : List Piece) (s : String) : Decidable (Denotes p s) :=
  inferInstanceAs (Decidable (units p = s.toList.flatMap utf16))

end Json

end TreeMiner.Lib
