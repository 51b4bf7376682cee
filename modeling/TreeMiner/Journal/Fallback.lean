import TreeMiner.Core.SerdeJson
import TreeMiner.Journal.Finds

/-! The fallback sink: one JSON line a find, appended to a file of bytes, and the
importer that hands the lines it can read to a journal. -/

namespace TreeMiner

open Lib Lib.Json

/-! ## Lines -/

/-- `str::as_bytes` -/
def utf8 (cs : List Char) : List UInt8 := cs.flatMap String.utf8EncodeChar

/-- `str::from_utf8` -/
def fromUtf8 (bytes : List UInt8) : Option String := String.fromUTF8? bytes.toByteArray

/-- `{:04x}` -/
def hexPad4 (n : Nat) : List Char :=
  [hexDigit (n / 4096 % 16), hexDigit (n / 256 % 16), hexDigit (n / 16 % 16), hexDigit (n % 16)]

def escape (c : Char) : List Char :=
  if c = '"' then ['\\', '"']
  else if c = '\\' then ['\\', '\\']
  else if c = '\x08' then ['\\', 'b']
  else if c = '\x0c' then ['\\', 'f']
  else if c = '\n' then ['\\', 'n']
  else if c = '\r' then ['\\', 'r']
  else if c = '\t' then ['\\', 't']
  else if c.toNat < 0x20 then '\\' :: 'u' :: hexPad4 c.toNat
  else [c]

def jsonString (value : String) : List Char := '"' :: (value.toList.flatMap escape ++ ['"'])

def pushJsonString (out : List Char) (value : String) : List Char := out ++ jsonString value

def pushRawField (out : List Char) (key : String) (literal : List Char) (first : Bool) :
    List Char :=
  pushJsonString (if first then out else out ++ [',']) key ++ ':' :: literal

def pushField (out : List Char) (key value : String) (first : Bool) : List Char :=
  pushRawField out key (jsonString value) first

/-- Strips trailing CR, LF and blanks, then leading blanks. -/
def trimLine (raw : List UInt8) : List UInt8 :=
  (raw.reverse.dropWhile fun b => b = 13 || b = 10 || b = 32 || b = 9).reverse.dropWhile
    fun b => b = 32 || b = 9

/-- `bytes.split(|b| *b == b'\n')` -/
def splitLines (bytes : List UInt8) : List (List UInt8) := bytes.splitOnP fun b => b = 10

namespace Codec

variable (C : Codec)

def rateText (x : F64) : List Char := if x.isFinite then (C.debugF64 x).toList else ['0']

/-- The line of a find without its line feed. -/
def serializeBody (payload : FoundPayload) : List Char :=
  let out := ['{']
  let out := pushField out "key" payload.key true
  let out := pushField out "hash_to_verify" payload.hashToVerify false
  let out := pushField out "account" payload.account false
  let out := pushField out "kind" payload.kind.asStr false
  let out := pushRawField out "memory_cost" (Nat.repr payload.memoryCost.toNat).toList false
  let out := pushField out "worker" payload.worker false
  let out := pushRawField out "attempts" (Nat.repr payload.attempts.toNat).toList false
  let out := pushRawField out "hashes_per_second" (C.rateText payload.hashesPerSecond) false
  let out := pushField out "found_at_utc" payload.foundAtUtc false
  out ++ ['}']

def serialize (payload : FoundPayload) : String :=
  String.ofList (C.serializeBody payload ++ ['\n'])

/-- A string or a number as text; none for anything else. -/
def memberText (object : List (String × Value)) (key : String) : Option String :=
  match object.lookup key with
  | some (.string s) => some s
  | some (.number n) => some (C.numberText n)
  | _ => none

def parsePayload (line : String) : Option FoundPayload := do
  let value ← C.fromStr line
  let object ← value.asObject
  if object.any fun m => m.2.isObject || m.2.isArray then none
  else do
    let memoryCost ← (C.memberText object "memory_cost").bind (parseUnsigned u32Max)
    let attempts ← (C.memberText object "attempts").bind (parseUnsigned u64Max)
    let hashesPerSecond ← (C.memberText object "hashes_per_second").bind C.parseF64
    some {
      key := ← C.memberText object "key"
      hashToVerify := ← C.memberText object "hash_to_verify"
      account := ← C.memberText object "account"
      kind := ← (C.memberText object "kind").bind FindKind.parse
      memoryCost := UInt32.ofNat memoryCost
      worker := ← C.memberText object "worker"
      attempts := UInt64.ofNat attempts
      hashesPerSecond
      foundAtUtc := ← C.memberText object "found_at_utc" }

end Codec

/-! ## The sink -/

/-- The sink file and the archive an import leaves; `none` while there is no such file. -/
structure Sink where
  file : Option (List UInt8)
  archived : Option (List UInt8)
deriving DecidableEq, Repr

/-- What the file system makes of one append. -/
inductive WriteOutcome
  | notOpened
  /-- `write_all` fails, or the process stops, behind the first `n` bytes -/
  | torn (n : Nat)
  | notSynced
  | synced
deriving DecidableEq, Repr

def Sink.write (s : Sink) (bytes : List UInt8) : Sink :=
  { s with file := some (s.file.getD [] ++ bytes) }

/-- `O_APPEND` writes the line behind what is there; opening alone creates the file. -/
def Codec.append (C : Codec) (s : Sink) (payload : FoundPayload) (io : WriteOutcome) :
    Sink × Bool :=
  let line := utf8 (C.serialize payload).toList
  match io with
  | .notOpened => (s, false)
  | .torn n => (s.write (line.take n), false)
  | .notSynced => (s.write line, false)
  | .synced => (s.write line, true)

structure ImportStats where
  imported : Nat
  malformed : Nat
  filePresent : Bool
deriving DecidableEq, Repr

/-- What the file system makes of one import. -/
structure ImportIo where
  readable : Bool
  /-- `remove_file` of the old archive -/
  removed : Bool
  renamed : Bool

section Import

variable {σ : Type*} (C : Codec) (append : σ → FoundPayload → Except JournalError σ)

/-- The line loop; the flag is a clean pass. -/
def importLines : List (List UInt8) → σ → ImportStats → σ × ImportStats × Bool
  | [], journal, stats => (journal, stats, true)
  | raw :: rest, journal, stats =>
    let line := trimLine raw
    if line.isEmpty then importLines rest journal stats
    else match (fromUtf8 line).bind C.parsePayload with
      | none => importLines rest journal { stats with malformed := stats.malformed + 1 }
      | some payload => match append journal payload with
        | .error _ => (journal, stats, false)
        | .ok journal => importLines rest journal { stats with imported := stats.imported + 1 }

def importInto (io : ImportIo) (s : Sink) (journal : σ) : σ × Sink × ImportStats :=
  match s.file with
  | none => (journal, s, ⟨0, 0, false⟩)
  | some bytes =>
    if !io.readable then (journal, s, ⟨0, 0, true⟩)
    else match importLines C append (splitLines bytes) journal ⟨0, 0, true⟩ with
      | (journal, stats, false) => (journal, s, stats)
      | (journal, stats, true) =>
        if io.renamed then (journal, ⟨none, some bytes⟩, stats)
        else (journal, { s with archived := if io.removed then none else s.archived }, stats)

end Import

end TreeMiner
