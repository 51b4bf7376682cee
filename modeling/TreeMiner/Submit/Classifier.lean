import TreeMiner.Core.Types

/-! Classification of `/verify` responses. The byte index of the source is the rest of
the text here: its scanners compare with ASCII bytes only, so they never stop inside a
character. -/

namespace TreeMiner

/-- Sentinel `http_status` for transport-level failures. -/
def TRANSPORT_ERROR : Int := 0

def isBlank (s : List Char) : Bool := s.all isAsciiWhitespace

def skipWs (s : List Char) : List Char := s.dropWhile isAsciiWhitespace

/-! ## The JSON scanner -/

/-- The one-character escapes of a JSON string. -/
def unescape (c : Char) : Option Char :=
  if c = '"' then some '"'
  else if c = '\\' then some '\\'
  else if c = '/' then some '/'
  else if c = 'b' then some '\x08'
  else if c = 'f' then some '\x0c'
  else if c = 'n' then some '\n'
  else if c = 'r' then some '\r'
  else if c = 't' then some '\t'
  else none

def hex4 (a b c d : Char) : Option Nat := do
  let a ← toDigit16 a
  let b ← toDigit16 b
  let c ← toDigit16 c
  let d ← toDigit16 d
  some (((a * 16 + b) * 16 + c) * 16 + d)

/-- What a `\u` escape decodes to: `?` beyond ASCII. -/
def decodeUnit (code : Nat) : Char := if code < 0x80 then Char.ofNat code else '?'

/-- The rest of a string literal behind its opening quote: the decoded text and what
follows the closing quote. -/
def stringBody : List Char → Option (List Char × List Char)
  | [] => none
  | c :: rest =>
    if c = '"' then some ([], rest)
    else if c = '\\' then
      match rest with
      | [] => none
      | e :: rest =>
        if e = 'u' then
          match rest with
          | h1 :: h2 :: h3 :: h4 :: rest => do
            let code ← hex4 h1 h2 h3 h4
            let (out, rest) ← stringBody rest
            some (decodeUnit code :: out, rest)
          | _ => none
        else do
          let x ← unescape e
          let (out, rest) ← stringBody rest
          some (x :: out, rest)
    else do
      let (out, rest) ← stringBody rest
      some (c :: out, rest)

/-- Parse a JSON string literal at a `"`. -/
def parseJsonString : List Char → Option (List Char × List Char)
  | [] => none
  | c :: rest => if c = '"' then stringBody rest else none

/-- What ends a bare value: a comma, a closing bracket, whitespace. -/
def endsBare (c : Char) : Bool := c = ',' || c = '}' || c = ']' || isAsciiWhitespace c

/-- The bracket counting of `skip_json_value`, with fuel for its loop. -/
def skipBrackets (openc closec : Char) : Nat → Int → List Char → Option (List Char)
  | 0, _, _ => none
  | _ + 1, _, [] => none
  | fuel + 1, depth, d :: rest =>
    if d = '"' then
      match stringBody rest with
      | none => none
      | some (_, rest) => skipBrackets openc closec fuel depth rest
    else
      let depth := if d = openc then depth + 1 else depth
      if d = closec then
        if depth - 1 = 0 then some rest else skipBrackets openc closec fuel (depth - 1) rest
      else skipBrackets openc closec fuel depth rest

/-- Skip one JSON value; every round of the loop takes a character. -/
def skipJsonValue (s : List Char) : Option (List Char) :=
  match skipWs s with
  | [] => none
  | c :: rest =>
    if c = '"' then (stringBody rest).map (·.2)
    else if c = '{' then skipBrackets '{' '}' (rest.length + 2) 0 (c :: rest)
    else if c = '[' then skipBrackets '[' ']' (rest.length + 2) 0 (c :: rest)
    else some ((c :: rest).dropWhile fun c => !endsBare c)

/-- A scalar value as text; `none` for an object or an array. -/
def captureScalar (s : List Char) : Option (List Char) :=
  match skipWs s with
  | [] => none
  | c :: rest =>
    if c = '"' then (stringBody rest).map (·.1)
    else if c = '{' ∨ c = '[' then none
    else some ((c :: rest).takeWhile fun c => !endsBare c)

/-- The member loop of `extract_json_field`, with fuel. -/
def extractMember (key : List Char) : Nat → List Char → Option (List Char)
  | 0, _ => none
  | fuel + 1, s =>
    match s with
    | [] => none
    | s@(_ :: _) =>
      match parseJsonString (skipWs s) with
      | none => none
      | some (k, s) =>
        match skipWs s with
        | [] => none
        | c :: s =>
          if c ≠ ':' then none
          else if k = key then captureScalar s
          else
            match skipJsonValue s with
            | none => none
            | some s =>
              match skipWs s with
              | ',' :: s => extractMember key fuel s
              | _ => none

/-- A top-level scalar field of a JSON object body. -/
def extractJsonField (body key : String) : Option String :=
  match skipWs body.toList with
  | [] => none
  | c :: rest =>
    if c ≠ '{' then none
    else
      let rest := skipWs rest
      if rest.head? = some '}' then none
      else (extractMember key.toList (rest.length + 1) rest).map String.ofList

def extractJsonMessage (body : String) : Option String :=
  (extractJsonField body "message").or (extractJsonField body "error")

/-! ## Hints and headers -/

/-- The digits of a hint; `none` once the value passes `u32::MAX`. -/
def hintDigits (value : Nat) : List Char → Option Nat
  | [] => some value
  | c :: rest =>
    if isAsciiDigit c then
      let value := value * 10 + digitVal c
      if value > u32Max then none else hintDigits value rest
    else some value

/-- The first `m=` with a digit behind it. -/
def findHint : List Char → Option Nat
  | [] => none
  | c :: rest =>
    if c = 'm' then
      match rest with
      | '=' :: d :: ds => if isAsciiDigit d then hintDigits 0 (d :: ds) else findHint rest
      | _ => findHint rest
    else findHint rest

/-- The current-difficulty hint embedded in the 401 difficulty message. -/
def parseDifficultyHint (message : String) : Option UInt32 :=
  (findHint message.toList).map UInt32.ofNat

/-- The digits of a delay; `none` when a digit follows a value above a hundred million. -/
def retryDigits (value : Int) : List Char → Option (Int × List Char)
  | [] => some (value, [])
  | c :: rest =>
    if isAsciiDigit c then
      if value > 100000000 then none else retryDigits (value * 10 + digitVal c) rest
    else some (value, c :: rest)

/-- A `Retry-After` header in delay-seconds form. -/
def parseRetryAfterSeconds (headerValue : String) : Option Int :=
  match skipWs headerValue.toList with
  | [] => none
  | c :: rest =>
    if isAsciiDigit c then
      match retryDigits 0 (c :: rest) with
      | none => none
      | some (value, rest) => if skipWs rest = [] then some value else none
    else none

/-! ## Classification -/

/-- Responses that can never succeed on retry. -/
def TERMINAL_MARKERS : List String :=
  ["Invalid key format", "Invalid salt format", "Missing hash_to_verify, key, or account",
    "Hash does not contain any of the valid targets",
    "should not be greater than 150 characters", "Hash verification failed"]

def terminalMarker (message : String) : Option String :=
  TERMINAL_MARKERS.find? fun marker => containsText message marker

def isXuniWindowRejection (message : String) : Bool :=
  containsText message "outside of proper time frame" ||
  containsText message "outside of time window" ||
  containsText message "time frame" || containsText message "time window"

def isDifficultyMismatch (message : String) : Bool :=
  containsText message "Hash does not contain 'm=" ||
  (containsText message "does not contain" && containsText message "m=")

def pendingWith (reason : String) : Classification := ⟨.pending, none, false, reason⟩

def quarantinedWith (reason : String) : Classification := ⟨.quarantined, none, false, reason⟩

/-- Classify one `/verify` response. -/
def classify (httpStatus : Int) (body : String) (kind : FindKind) (retryAfter : Option String) :
    Classification :=
  if httpStatus ≤ 0 then pendingWith "transport failure; will retry with backoff"
  else if isBlank body.toList then
    pendingWith s!"empty response body (http {httpStatus}); will retry with backoff"
  else
    let message := (extractJsonMessage body).getD body
    if httpStatus = 200 then
      ⟨.acceptedUnconfirmed, none, true, "http 200; awaiting /get_block confirmation"⟩
    else if httpStatus = 429 then
      match retryAfter.bind parseRetryAfterSeconds with
      | some secs => pendingWith s!"rate limited (429); retry_after_s={secs}"
      | none => pendingWith "rate limited (429)"
    else if httpStatus = 408 ∨ httpStatus = 425 ∨ httpStatus ≥ 500 then
      pendingWith s!"server unhealthy (http {httpStatus}); will retry with backoff"
    else if (httpStatus = 400 ∨ httpStatus = 409) ∧ containsText message "already exists" then
      ⟨.acceptedUnconfirmed, none, true,
        "duplicate key (already exists); confirming via /get_block"⟩
    else
      match terminalMarker message with
      | some marker =>
        ⟨.permanentlyInvalid, none, false,
          s!"server rejected permanently (http {httpStatus}, matched \"{marker}\"); " ++
          s!"retrying cannot change this answer: {message}"⟩
      | none =>
        if isXuniWindowRejection message then
          if kind = .xuni then
            ⟨.parkedXuniWindow, none, false,
              "XUNI outside server time window; parked for a later window"⟩
          else
            quarantinedWith ("IMPOSSIBLE: XUNI-window rejection for a XEN11 record — server " ++
              s!"semantics changed, investigate: {message}")
        else
          match if isDifficultyMismatch message ∨ httpStatus = 401 then
              parseDifficultyHint message else none with
          | some hint =>
            ⟨.parkedDifficulty, some hint, false,
              s!"difficulty too low (server currently at m={hint}); parked until difficulty falls"⟩
          | none => quarantinedWith s!"unrecognized response (http {httpStatus}): {message}"

/-- The six shapes of a classification, with what each promises. -/
inductive Classified (kind : FindKind) : Classification → Prop
  | pending (reason : String) : Classified kind ⟨.pending, none, false, reason⟩
  | accepted (reason : String) : Classified kind ⟨.acceptedUnconfirmed, none, true, reason⟩
  | invalid (reason : String) : Classified kind ⟨.permanentlyInvalid, none, false, reason⟩
  | parkedXuni (h : kind = .xuni) (reason : String) :
      Classified kind ⟨.parkedXuniWindow, none, false, reason⟩
  | parkedDifficulty (hint : UInt32) (reason : String) :
      Classified kind ⟨.parkedDifficulty, some hint, false, reason⟩
  | quarantined (reason : String) : Classified kind ⟨.quarantined, none, false, reason⟩

theorem classify_spec (httpStatus : Int) (body : String) (kind : FindKind)
    (retryAfter : Option String) : Classified kind (classify httpStatus body kind retryAfter) := by
  unfold classify
  dsimp only
  by_cases h0 : httpStatus ≤ 0
  · rw [if_pos h0]; exact .pending _
  rw [if_neg h0]
  by_cases hblank : isBlank body.toList = true
  · rw [if_pos hblank]; exact .pending _
  rw [if_neg hblank]
  by_cases h200 : httpStatus = 200
  · rw [if_pos h200]; exact .accepted _
  rw [if_neg h200]
  by_cases h429 : httpStatus = 429
  · rw [if_pos h429]
    cases retryAfter.bind parseRetryAfterSeconds <;> exact .pending _
  rw [if_neg h429]
  generalize (extractJsonMessage body).getD body = message
  by_cases hbad : httpStatus = 408 ∨ httpStatus = 425 ∨ httpStatus ≥ 500
  · rw [if_pos hbad]; exact .pending _
  rw [if_neg hbad]
  by_cases hdup : (httpStatus = 400 ∨ httpStatus = 409) ∧ containsText message "already exists" = true
  · rw [if_pos hdup]; exact .accepted _
  rw [if_neg hdup]
  cases terminalMarker message with
  | some marker => exact .invalid _
  | none =>
    by_cases hx : isXuniWindowRejection message = true
    · by_cases hk : kind = .xuni
      · simp only [if_pos hx, if_pos hk]; exact .parkedXuni hk _
      · simp only [if_pos hx, if_neg hk]; exact .quarantined _
    · simp only [if_neg hx]
      split
      · exact .parkedDifficulty _ _
      · exact .quarantined _

theorem Classified.ne_submitting {kind : FindKind} {c : Classification} (h : Classified kind c) :
    c.nextStatus ≠ .submitting := by
  cases h <;> simp

/-- No answer of `/verify` alone acks a find. -/
theorem Classified.ne_acked {kind : FindKind} {c : Classification} (h : Classified kind c) :
    c.nextStatus ≠ .acked := by
  cases h <;> simp

example : parseDifficultyHint "Hash does not contain 'm=1100'. Your memory_cost" = some 1100 := by
  decide

end TreeMiner
