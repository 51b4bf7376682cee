import TreeMiner.Journal.Line

/-! The fallback sink of the C++ miner: its writer, its scanner of one flat object and its
importer, on bytes. A `std::string` is a list of bytes here. -/

namespace TreeMiner.Cpp

open Lib Lib.Json

structure FoundPayload where
  key : List UInt8
  hashToVerify : List UInt8
  account : List UInt8
  kind : FindKind
  memoryCost : UInt32
  worker : List UInt8
  attempts : UInt64
  hashesPerSecond : F64
  foundAtUtc : List UInt8
deriving DecidableEq, Repr

/-- A text as the bytes of a `const char*`. -/
def lit (s : String) : List UInt8 := utf8 s.toList

/-- The same find with its texts as bytes. -/
def FoundPayload.of (p : TreeMiner.FoundPayload) : FoundPayload where
  key := lit p.key
  hashToVerify := lit p.hashToVerify
  account := lit p.account
  kind := p.kind
  memoryCost := p.memoryCost
  worker := lit p.worker
  attempts := p.attempts
  hashesPerSecond := p.hashesPerSecond
  foundAtUtc := lit p.foundAtUtc

/-- What the sink calls of the C library for floats. -/
structure CLib where
  /-- `"%.17g"` -/
  formatG17 : F64 → String
  /-- `strtod`: the value and what is left of the text -/
  strtod : List UInt8 → F64 × List UInt8

/-! ## Writing -/

/-- `kHex` -/
def hexByte (n : UInt8) : UInt8 := if n < 10 then 48 + n else 87 + n

/-- One byte of a string as it is written. -/
def escapeByte (c : UInt8) : List UInt8 :=
  if c = 34 then lit "\\\""
  else if c = 92 then lit "\\\\"
  else if c = 8 then lit "\\b"
  else if c = 12 then lit "\\f"
  else if c = 10 then lit "\\n"
  else if c = 13 then lit "\\r"
  else if c = 9 then lit "\\t"
  else if c < 0x20 then lit "\\u00" ++ [hexByte ((c >>> 4) &&& 0xf), hexByte (c &&& 0xf)]
  else [c]

def appendJsonString (out value : List UInt8) : List UInt8 :=
  out ++ 34 :: (value.flatMap escapeByte ++ [34])

def appendRawField (out : List UInt8) (key : String) (literal : List UInt8) (first : Bool) :
    List UInt8 :=
  appendJsonString (if first then out else out ++ [44]) (lit key) ++ 58 :: literal

def appendField (out : List UInt8) (key : String) (value : List UInt8) (first : Bool) :
    List UInt8 :=
  appendJsonString (appendJsonString (if first then out else out ++ [44]) (lit key) ++ [58]) value

namespace CLib

variable (L : CLib)

/-- The rate's literal; `0` where `snprintf` fails, overruns its buffer or has no number. -/
def rateLiteral (x : F64) : List UInt8 :=
  let rate := lit (L.formatG17 x)
  if rate.length = 0 ∨ 64 ≤ rate.length then lit "0"
  else if rate.all fun c => c != 110 && c != 105 && c != 78 && c != 73 then rate
  else lit "0"

def serialize (payload : FoundPayload) : List UInt8 :=
  let out := lit "\x7b"
  let out := appendField out "key" payload.key true
  let out := appendField out "hash_to_verify" payload.hashToVerify false
  let out := appendField out "account" payload.account false
  let out := appendField out "kind" (lit payload.kind.asStr) false
  let out := appendRawField out "memory_cost" (lit (Nat.repr payload.memoryCost.toNat)) false
  let out := appendField out "worker" payload.worker false
  let out := appendRawField out "attempts" (lit (Nat.repr payload.attempts.toNat)) false
  let out := appendRawField out "hashes_per_second" (L.rateLiteral payload.hashesPerSecond) false
  let out := appendField out "found_at_utc" payload.foundAtUtc false
  out ++ lit "\x7d" ++ [10]

end CLib

/-! ## Scanning -/

def isWs (c : UInt8) : Bool := c = 32 || c = 9 || c = 13 || c = 10

def skipWs (s : List UInt8) : List UInt8 := s.dropWhile isWs

/-- A code unit of four digits; a surrogate is encoded like any other. -/
def appendUtf8 (cp : Nat) : List UInt8 :=
  if cp < 0x80 then [UInt8.ofNat cp]
  else if cp < 0x800 then [UInt8.ofNat (0xc0 + cp / 64), UInt8.ofNat (0x80 + cp % 64)]
  else [UInt8.ofNat (0xe0 + cp / 4096), UInt8.ofNat (0x80 + cp / 64 % 64),
    UInt8.ofNat (0x80 + cp % 64)]

def hexNibble (c : UInt8) : Option Nat :=
  if 48 ≤ c ∧ c ≤ 57 then some (c.toNat - 48)
  else if 97 ≤ c ∧ c ≤ 102 then some (c.toNat - 97 + 10)
  else if 65 ≤ c ∧ c ≤ 70 then some (c.toNat - 65 + 10)
  else none

/-- The escapes of one byte behind the backslash. -/
def unescape (c : UInt8) : Option UInt8 :=
  if c = 34 then some 34
  else if c = 92 then some 92
  else if c = 47 then some 47
  else if c = 98 then some 8
  else if c = 102 then some 12
  else if c = 110 then some 10
  else if c = 114 then some 13
  else if c = 116 then some 9
  else none

/-- A string behind its opening quote, and what is left. -/
def parseJsonBody : List UInt8 → Option (List UInt8 × List UInt8)
  | [] => none
  | c :: s =>
    if c = 34 then some ([], s)
    else if c = 92 then
      match s with
      | [] => none
      | esc :: s =>
        if esc = 117 then
          match s with
          | h1 :: h2 :: h3 :: h4 :: s =>
            match hexNibble h1, hexNibble h2, hexNibble h3, hexNibble h4 with
            | some n1, some n2, some n3, some n4 =>
              (parseJsonBody s).map fun r =>
                (appendUtf8 (((n1 * 16 + n2) * 16 + n3) * 16 + n4) ++ r.1, r.2)
            | _, _, _, _ => none
          | _ => none
        else
          match unescape esc with
          | some b => (parseJsonBody s).map fun r => (b :: r.1, r.2)
          | none => none
    else (parseJsonBody s).map fun r => (c :: r.1, r.2)

def parseJsonString : List UInt8 → Option (List UInt8 × List UInt8)
  | [] => none
  | c :: s => if c = 34 then parseJsonBody s else none

/-- What ends a bare token. -/
def isDelimiter (c : UInt8) : Bool := c = 44 || c = 125 || isWs c

def parseValue (s : List UInt8) : Option (List UInt8 × List UInt8) :=
  match s with
  | [] => none
  | c :: _ =>
    if c = 34 then parseJsonString s
    else if c = 123 ∨ c = 91 then none
    else if isDelimiter c then none
    else some (s.takeWhile (!isDelimiter ·), s.dropWhile (!isDelimiter ·))

/-- `std::map`, the newest value of a key in front. -/
abbrev Fields := List (List UInt8 × List UInt8)

/-- A key, its colon and its value. -/
def parseField (s : List UInt8) : Option ((List UInt8 × List UInt8) × List UInt8) := do
  let (key, s) ← parseJsonString (skipWs s)
  match skipWs s with
  | [] => none
  | c :: s =>
    if c = 58 then (parseValue (skipWs s)).map fun r => ((key, r.1), r.2) else none

theorem length_skipWs_le (s : List UInt8) : (skipWs s).length ≤ s.length :=
  (List.dropWhile_sublist _).length_le

/-- What a nested reading leaves is what the outer one leaves. -/
theorem snd_of_map {f : List UInt8 × List UInt8 → List UInt8}
    {x : Option (List UInt8 × List UInt8)} {out rest : List UInt8}
    (h : x.map (fun r => (f r, r.2)) = some (out, rest)) : ∃ out', x = some (out', rest) := by
  obtain ⟨r, hr, heq⟩ := Option.map_eq_some_iff.1 h
  cases heq
  exact ⟨r.1, hr⟩

theorem parseJsonBody_length {s out rest : List UInt8}
    (h : parseJsonBody s = some (out, rest)) : rest.length < s.length := by
  fun_induction parseJsonBody s generalizing out with
  | case1 => cases h
  | case2 =>
    cases h
    simp
  | case3 => cases h
  | case4 _ _ _ _ _ _ _ _ _ _ _ _ _ _ ih =>
    obtain ⟨out', h⟩ := snd_of_map h
    have := ih h
    simp only [List.length_cons]
    omega
  | case5 => cases h
  | case6 => cases h
  | case7 _ _ _ _ _ _ ih =>
    obtain ⟨out', h⟩ := snd_of_map h
    have := ih h
    simp only [List.length_cons]
    omega
  | case8 => cases h
  | case9 _ _ _ _ ih =>
    obtain ⟨out', h⟩ := snd_of_map h
    have := ih h
    simp only [List.length_cons]
    omega

theorem parseJsonString_length {s out rest : List UInt8}
    (h : parseJsonString s = some (out, rest)) : rest.length < s.length := by
  unfold parseJsonString at h
  split at h
  · cases h
  · split_ifs at h
    have := parseJsonBody_length h
    rw [List.length_cons]
    omega

theorem parseValue_length {s out rest : List UInt8} (h : parseValue s = some (out, rest)) :
    rest.length ≤ s.length := by
  unfold parseValue at h
  split at h
  · cases h
  · split_ifs at h
    · exact le_of_lt (parseJsonString_length h)
    · cases h
      exact (List.dropWhile_sublist _).length_le

theorem parseField_length {s rest : List UInt8} {field : List UInt8 × List UInt8}
    (h : parseField s = some (field, rest)) : rest.length < s.length := by
  unfold parseField at h
  rw [Option.bind_eq_bind, Option.bind_eq_some_iff] at h
  obtain ⟨⟨key, s'⟩, hkey, h⟩ := h
  have hkey := parseJsonString_length hkey
  have hs := length_skipWs_le s
  have hs' := length_skipWs_le s'
  dsimp only at h
  split at h
  · cases h
  next c t ht =>
    rw [ht, List.length_cons] at hs'
    split_ifs at h
    obtain ⟨r, hvalue, heq⟩ := Option.map_eq_some_iff.1 h
    cases heq
    have := parseValue_length hvalue
    have := length_skipWs_le t
    omega

/-- The fields up to the first that no comma follows. -/
def parseFields (fields : Fields) (s : List UInt8) : Option (Fields × List UInt8) :=
  match _h : parseField s with
  | none => none
  | some (field, rest) =>
    match _hs : skipWs rest with
    | [] => some (field :: fields, [])
    | c :: s => if c = 44 then parseFields (field :: fields) s else some (field :: fields, c :: s)
termination_by s.length
decreasing_by
  have := parseField_length _h
  have := length_skipWs_le rest
  rw [_hs, List.length_cons] at this
  omega

/-- The closing brace, and nothing but blanks behind it. -/
def parseEnd (fields : Fields) (s : List UInt8) : Option Fields :=
  match s with
  | [] => none
  | c :: s => if c = 125 ∧ skipWs s = [] then some fields else none

def parseFlatObject (line : List UInt8) : Option Fields :=
  match skipWs line with
  | [] => none
  | c :: s =>
    if c = 123 then
      let s := skipWs s
      if s.head? = some 125 then parseEnd [] s
      else (parseFields [] s).bind fun r => parseEnd r.1 r.2
    else none

/-! ## Reading the fields -/

def lookup (fields : Fields) (key : String) : Option (List UInt8) := fields.lookup (lit key)

/-- `c_str` -/
def cStr (text : List UInt8) : List UInt8 := text.takeWhile (· ≠ 0)

def isDigit (c : UInt8) : Bool := 48 ≤ c && c ≤ 57

/-- `isspace` -/
def isSpace (c : UInt8) : Bool := c = 32 || (9 ≤ c && c ≤ 13)

/-- `strtoull` in base ten: the value, `none` out of range, and what is left of the text. -/
def strtoull (text : List UInt8) : Option Nat × List UInt8 :=
  let s := text.dropWhile isSpace
  let (negative, s) := match s with
    | 45 :: s => (true, s)
    | 43 :: s => (false, s)
    | s => (false, s)
  let digits := s.takeWhile isDigit
  if digits = [] then (some 0, text)
  else
    let value := digits.foldl (fun n c => n * 10 + (c.toNat - 48)) 0
    let rest := s.dropWhile isDigit
    if value > u64Max then (none, rest)
    else (some (if negative && value ≠ 0 then u64Max + 1 - value else value), rest)

def parseU64 (text : List UInt8) : Option Nat :=
  if text.isEmpty then none
  else
    match strtoull (cStr text) with
    | (some value, []) => if text.head? = some 45 then none else some value
    | _ => none

def parseKind (text : List UInt8) : Option FindKind :=
  if text = lit "XEN11" then some .xen11
  else if text = lit "XUNI" then some .xuni
  else none

@[simp] theorem parseKind_asStr (k : FindKind) : parseKind (lit k.asStr) = some k := by
  cases k <;> decide

namespace CLib

variable (L : CLib)

def parseDouble (text : List UInt8) : Option F64 :=
  if text.isEmpty then none
  else
    match L.strtod (cStr text) with
    | (value, []) => some value
    | _ => none

def payloadFromFields (fields : Fields) : Option FoundPayload := do
  let key ← lookup fields "key"
  let hashToVerify ← lookup fields "hash_to_verify"
  let account ← lookup fields "account"
  let kindText ← lookup fields "kind"
  let memoryCostText ← lookup fields "memory_cost"
  let worker ← lookup fields "worker"
  let attemptsText ← lookup fields "attempts"
  let rateText ← lookup fields "hashes_per_second"
  let foundAtUtc ← lookup fields "found_at_utc"
  let kind ← parseKind kindText
  let memoryCost ← (parseU64 memoryCostText).filter fun n => n ≤ u32Max
  let attempts ← parseU64 attemptsText
  let hashesPerSecond ← L.parseDouble rateText
  some { key, hashToVerify, account, kind, memoryCost := UInt32.ofNat memoryCost, worker
         attempts := UInt64.ofNat attempts, hashesPerSecond, foundAtUtc }

end CLib

/-! ## Importing -/

/-- `std::getline` until it fails: no line is read behind the last line feed. -/
def getLines (bytes : List UInt8) : List (List UInt8) :=
  let lines := splitLines bytes
  if lines.getLast? = some [] then lines.dropLast else lines

/-- What the file system makes of one import; a read error leaves the first `n` bytes. -/
structure ImportIo extends TreeMiner.ImportIo where
  readError : Option Nat

/-- The lines `getline` delivers; a line that a read error cuts off is not among them. -/
def ImportIo.linesOf (io : ImportIo) (bytes : List UInt8) : List (List UInt8) :=
  match io.readError with
  | none => getLines bytes
  | some n => (splitLines (bytes.take n)).dropLast

def trimLine (line : List UInt8) : List UInt8 :=
  (line.reverse.dropWhile fun b => b = 13 || b = 10).reverse

section Import

variable {σ : Type*} (L : CLib) (append : σ → FoundPayload → Except JournalError σ)

/-- The line loop; the flag is a clean pass. -/
def importLines : List (List UInt8) → σ → ImportStats → σ × ImportStats × Bool
  | [], journal, stats => (journal, stats, true)
  | raw :: rest, journal, stats =>
    let line := trimLine raw
    if line.all fun b => b = 32 || b = 9 then importLines rest journal stats
    else match (parseFlatObject line).bind L.payloadFromFields with
      | none => importLines rest journal { stats with malformed := stats.malformed + 1 }
      | some payload => match append journal payload with
        | .error _ => (journal, stats, false)
        | .ok journal => importLines rest journal { stats with imported := stats.imported + 1 }

def importInto (io : ImportIo) (s : Sink) (journal : σ) : σ × Sink × ImportStats :=
  match s.file with
  | none => (journal, s, ⟨0, 0, false⟩)
  | some bytes =>
    if !io.readable then (journal, s, ⟨0, 0, true⟩)
    else match importLines L append (io.linesOf bytes) journal ⟨0, 0, true⟩ with
      | (journal, stats, false) => (journal, s, stats)
      | (journal, stats, true) =>
        if io.readError.isSome then (journal, s, stats)
        else if io.renamed then (journal, ⟨none, some bytes⟩, stats)
        else (journal, { s with archived := if io.removed then none else s.archived }, stats)

end Import

end TreeMiner.Cpp
