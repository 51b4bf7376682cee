import TreeMiner.Core.Address
import TreeMiner.Miner.Capture

/-! The finds of a GPU batch and of a CPU batch of the same keys. The GPU matches digests. The
CPU matches whole PHC texts, and afterwards the digest in them by the name of the pattern. -/

namespace TreeMiner

/-! ## What is handed to the sink -/

section Handed

variable (argon2id : Argon2id)

namespace MatchLoop

/-- The finds that `submit_matches` hands over, with what the disks will make of them. -/
def gpuFinds (b : GpuBatch) : MatchLoop → List HashMatch → List (Find × Disk)
  | _, [] => []
  | l, hit :: hits =>
    (b.find hit (l.advance hit.attemptIndex).attempts, hit.disk) ::
      gpuFinds b (l.submitGpu argon2id b hit) hits

/-- The finds that the loop of `run_worker` hands over. -/
def cpuFinds (b : CpuBatch) : MatchLoop → List HashMatch → List (Find × Disk)
  | _, [] => []
  | l, hit :: hits =>
    (match phcDigest hit.hash with
      | none => []
      | some digest =>
        if digestMatches b.targetPattern b.allowXuni hit.matchedPattern digest then
          [(b.find hit.key digest (l.advance hit.attemptIndex).attempts, hit.disk)]
        else []) ++ cpuFinds b (l.submitCpu argon2id b hit) hits

end MatchLoop

namespace Producers

/-- What a batch hands to `FindSink::record`, in order; a batch that fails hands over nothing. -/
def handed (s : Producers) : MineEvent → List (Find × Disk)
  | .gpu b =>
    MatchLoop.gpuFinds argon2id b ⟨s.sink, if b.rebuilt then 0 else s.unitAttempts b.unit, 0⟩
      (b.runBatch.getD [])
  | .cpu b =>
    MatchLoop.cpuFinds argon2id b ⟨s.sink, s.workerAttempts b.worker, 0⟩
      ((b.runBatch argon2id).getD [])

end Producers

/-- The sink behind the finds handed to it. -/
def FindSink.recordAll (s : FindSink) (finds : List (Find × Disk)) : FindSink :=
  finds.foldl (fun s f => (s.record argon2id f.1 f.2).1) s

variable {argon2id}

theorem MatchLoop.sink_submitGpu (b : GpuBatch) (hits : List HashMatch) (l : MatchLoop) :
    (hits.foldl (submitGpu argon2id b) l).sink =
      l.sink.recordAll argon2id (gpuFinds argon2id b l hits) := by
  induction hits generalizing l with
  | nil => rfl
  | cons hit hits ih =>
    rw [List.foldl_cons, ih, gpuFinds]
    unfold FindSink.recordAll
    rw [List.foldl_cons]
    refine congrArg (fun s => List.foldl _ s _) ?_
    exact congrArg (fun s => (FindSink.record argon2id s _ _).1) (advance_sink l hit.attemptIndex)

theorem MatchLoop.sink_submitCpu (b : CpuBatch) (hits : List HashMatch) (l : MatchLoop) :
    (hits.foldl (submitCpu argon2id b) l).sink =
      l.sink.recordAll argon2id (cpuFinds argon2id b l hits) := by
  induction hits generalizing l with
  | nil => rfl
  | cons hit hits ih =>
    rw [List.foldl_cons, ih, cpuFinds]
    unfold FindSink.recordAll
    rw [List.foldl_append]
    refine congrArg (fun s => List.foldl _ s _) ?_
    have hsink := advance_sink l hit.attemptIndex
    unfold submitCpu
    cases phcDigest hit.hash with
    | none => exact hsink
    | some digest =>
      dsimp only
      split_ifs
      · exact congrArg (fun s => (FindSink.record argon2id s _ _).1) hsink
      · exact hsink

/-- The sink goes through the finds that are handed to it and no others. -/
theorem Producers.sink_step (s : Producers) (ev : MineEvent) :
    (s.step argon2id ev).sink = s.sink.recordAll argon2id (s.handed argon2id ev) := by
  cases ev with
  | gpu b =>
    unfold step handed GpuBatch.runBatch
    by_cases hvalid : b.valid = true
    · simp only [if_pos hvalid]
      rw [MatchLoop.finish_sink]
      exact MatchLoop.sink_submitGpu b _ _
    · simp only [if_neg hvalid]
      rfl
  | cpu b =>
    unfold step handed CpuBatch.runBatch
    by_cases hvalid : b.valid = true
    · cases hloop : (b.hashLoop argon2id 0 b.attempts).toOption with
      | none =>
        simp only [if_pos hvalid, hloop]
        rfl
      | some hits =>
        simp only [if_pos hvalid, hloop]
        rw [MatchLoop.finish_sink]
        exact MatchLoop.sink_submitCpu b hits _
    · simp only [if_neg hvalid]
      rfl

end Handed

/-! ## What two finds are compared by -/

def Find.identity (f : Find) : String × String × UInt32 × String :=
  (f.key, f.digest, f.memoryCost, f.hexsalt)

/-- What passes of a match of the CPU backend. -/
def CpuBatch.passed (b : CpuBatch) (hit : HashMatch) : List (String × String × UInt32 × String) :=
  match phcDigest hit.hash with
  | none => []
  | some digest =>
    if digestMatches b.targetPattern b.allowXuni hit.matchedPattern digest then
      [(hit.key, digest, b.difficulty, b.saltHex)]
    else []

theorem MatchLoop.gpuFinds_identity (argon2id : Argon2id) (b : GpuBatch) (hits : List HashMatch)
    (l : MatchLoop) : (gpuFinds argon2id b l hits).map (fun f => f.1.identity) =
      hits.map fun hit => (hit.key, hit.hash, b.difficulty, b.saltHex) := by
  induction hits generalizing l with
  | nil => rfl
  | cons hit hits ih =>
    rw [gpuFinds, List.map_cons, List.map_cons, ih]
    rfl

theorem MatchLoop.cpuFinds_identity (argon2id : Argon2id) (b : CpuBatch) (hits : List HashMatch)
    (l : MatchLoop) : (cpuFinds argon2id b l hits).map (fun f => f.1.identity) =
      hits.flatMap b.passed := by
  induction hits generalizing l with
  | nil => rfl
  | cons hit hits ih =>
    rw [cpuFinds, List.map_append, ih, List.flatMap_cons]
    congr 1
    unfold CpuBatch.passed
    cases phcDigest hit.hash with
    | none => rfl
    | some digest =>
      dsimp only
      split_ifs <;> rfl

/-! ## Matching a digest inside of a PHC text -/

theorem contains_suffix {needle cs : List Char} (front : List Char)
    (h : containsText.go needle cs = true) : containsText.go needle (front ++ cs) = true := by
  induction front with
  | nil => exact h
  | cons c front ih => rw [List.cons_append, containsText.go, ih, Bool.or_true]

/-- No match reaches over a dollar sign. -/
theorem xuni_over_dollar (front back : List Char) :
    hasXuniMatch.go (front ++ '$' :: back) =
      (hasXuniMatch.go front || hasXuniMatch.go back) := by
  induction front with
  | nil => rfl
  | cons c front ih =>
    rw [List.cons_append, hasXuniMatch.go, ih, hasXuniMatch.go, ← Bool.or_assoc]
    congr 2
    have hdollar : isAsciiDigit '$' = false := rfl
    rcases front with _ | ⟨c1, _ | ⟨c2, _ | ⟨c3, _ | ⟨d, front⟩⟩⟩⟩
    · simp
    · simp
    · simp
    · simp only [List.cons_append, List.nil_append]
      split <;> grind
    · simp only [List.cons_append]
      split <;> split <;> simp_all

theorem not_xuni_of_not_mem {cs : List Char} (h : 'X' ∉ cs) : hasXuniMatch.go cs = false := by
  induction cs with
  | nil => rfl
  | cons c cs ih =>
    rw [List.mem_cons, not_or] at h
    rw [hasXuniMatch.go, ih h.2, Bool.or_false]
    split <;> simp_all

/-- A PHC text has what its salt and its digest have of XUNI. -/
theorem hasXuniMatch_phc (memoryCost : UInt32) (salt : List UInt8) (digest : String) :
    hasXuniMatch ("$argon2id$v=19$m=" ++ Nat.repr memoryCost.toNat ++ ",t=1,p=1$" ++
      base64Encode salt ++ "$" ++ digest) =
      (hasXuniMatch (base64Encode salt) || hasXuniMatch digest) := by
  have hfront : 'X' ∉ "$argon2id$v=19$m=".toList ++ (Nat.repr memoryCost.toNat).toList ++
      ",t=1,p=1".toList := by
    rw [List.mem_append, List.mem_append, not_or, not_or]
    exact ⟨⟨by decide, not_mem_repr_of_not_digit (by decide) _⟩, by decide⟩
  have htext : ("$argon2id$v=19$m=" ++ Nat.repr memoryCost.toNat ++ ",t=1,p=1$" ++
      base64Encode salt ++ "$" ++ digest).toList =
      ("$argon2id$v=19$m=".toList ++ (Nat.repr memoryCost.toNat).toList ++ ",t=1,p=1".toList) ++
        '$' :: ((base64Encode salt).toList ++ '$' :: digest.toList) := by
    simp [String.toList_append]
  unfold hasXuniMatch
  rw [htext, xuni_over_dollar, xuni_over_dollar, not_xuni_of_not_mem hfront, Bool.false_or]

/-- `XUNI` and a digit is more than `XUNI`. -/
theorem contains_of_xuni {cs : List Char} (h : hasXuniMatch.go cs = true) :
    containsText.go "XUNI".toList cs = true := by
  induction cs with
  | nil => cases h
  | cons c cs ih =>
    rw [hasXuniMatch.go, Bool.or_eq_true] at h
    rw [containsText.go, Bool.or_eq_true]
    rcases h with h | h
    · left
      split at h
      next heq =>
        rw [heq]
        rfl
      next => cases h
    · exact Or.inr (ih h)

/-! ## One batch on both paths -/

/-- What a GPU unit and a CPU worker can both be given: the limits are the CPU's. -/
structure SharedBatch where
  saltHex : String
  keyPrefix : String
  difficulty : UInt32
  targetPattern : String
  allowXuni : Bool
  attempts : List Attempt
  salt_hex : ∀ c ∈ saltHex.toList, isAsciiHexdigit c = true
  salt_even : saltHex.toList.length % 2 = 0
  salt_long : 16 ≤ saltHex.toList.length
  prefix_hex : (normalizeHex keyPrefix).isEmpty = true ∨
    (normalizeHex keyPrefix).utf8ByteSize ≤ HASH_API_KEY_LENGTH ∧
      CpuBatch.isHexString (normalizeHex keyPrefix) = true
  difficulty_floor : MIN_ARGON2_CPU_DIFFICULTY ≤ difficulty
  pattern_nonempty : targetPattern.isEmpty = false
  pattern_short : targetPattern.utf8ByteSize ≤ MAX_TARGET_PATTERN_LENGTH
  batch_size : attempts.length ≤ MAX_CPU_BATCH_SIZE

namespace SharedBatch

variable (b : SharedBatch)

/-- On a GPU unit, with the digests of the blocks that the device returns. -/
def gpu (unit : Nat) (rebuilt : Bool) (hashrate : F64) (digest : Attempt → Digest) : GpuBatch where
  unit := unit
  rebuilt := rebuilt
  saltHex := b.saltHex
  difficulty := b.difficulty
  targetPattern := b.targetPattern
  allowXuni := b.allowXuni
  hashrate := hashrate
  deviceOk := true
  attempts := b.attempts.map fun a => (a, digest a)

/-- On a CPU worker. -/
def cpu (worker : Nat) (hashrate : F64) : CpuBatch where
  worker := worker
  saltHex := b.saltHex
  keyPrefix := b.keyPrefix
  difficulty := b.difficulty
  targetPattern := b.targetPattern
  allowXuni := b.allowXuni
  hashrate := hashrate
  attempts := b.attempts

def salt : List UInt8 := (hexDecode b.saltHex.toList).getD []

/-- A digest that carries the target pattern, or XUNI while it is allowed. -/
def carries (digest : String) : Bool :=
  containsText digest b.targetPattern || (b.allowXuni && hasXuniMatch digest)

/-- The target is the text XUNI, which is in the digest, while XUNI and a digit is only in the
salt. -/
def misread (digest : String) : Bool :=
  b.targetPattern == "XUNI" && b.allowXuni && hasXuniMatch (base64Encode b.salt) &&
    containsText digest "XUNI" && !hasXuniMatch digest

/-! ## The salt -/

variable {b : SharedBatch}

theorem lower_hexdigit {c : Char} (h : isAsciiHexdigit c = true) :
    isAsciiHexdigit c.toLower = true ∧ toDigit16 c.toLower = toDigit16 c ∧
      c.toLower.toNat < 128 := by
  have hascii : ∀ n < 128, isAsciiHexdigit (Char.ofNat n) = true →
      isAsciiHexdigit (Char.ofNat n).toLower = true ∧
        toDigit16 (Char.ofNat n).toLower = toDigit16 (Char.ofNat n) ∧
        (Char.ofNat n).toLower.toNat < 128 := by
    decide
  have hlt := toNat_of_isAsciiAlphanumeric (isAsciiAlphanumeric_of_hexdigit h)
  rw [← Char.ofNat_toNat c] at h ⊢
  exact hascii c.toNat hlt h

theorem hexDecode_lower {cs : List Char} (h : ∀ c ∈ cs, isAsciiHexdigit c = true) :
    hexDecode (cs.map Char.toLower) = hexDecode cs := by
  induction cs using hexDecode.induct with
  | case1 => rfl
  | case2 c => rfl
  | case3 hi lo rest ih =>
    simp only [List.forall_mem_cons] at h
    rw [List.map_cons, List.map_cons, hexDecode, hexDecode, ih h.2.2, (lower_hexdigit h.1).2.1,
      (lower_hexdigit h.2.1).2.1]

theorem toList_normalize : (normalizeHex b.saltHex).toList = b.saltHex.toList.map Char.toLower := by
  have hx : isAsciiHexdigit 'x' = false ∧ isAsciiHexdigit 'X' = false := by decide
  have hhex := b.salt_hex
  unfold normalizeHex
  rw [String.toList_ofList]
  split
  next heq =>
    rw [heq] at hhex
    exact absurd (hhex 'x' (by simp)) (by simp [hx.1])
  next heq =>
    rw [heq] at hhex
    exact absurd (hhex 'X' (by simp)) (by simp [hx.2])
  next => rfl

theorem hexDecode_salt : hexDecode b.saltHex.toList = some b.salt := by
  obtain ⟨bytes, hbytes⟩ := hexDecode_isSome b.salt_even b.salt_hex
  unfold salt
  rw [hbytes]
  rfl

theorem hexToBytes_salt : hexToBytes b.saltHex = .ok b.salt := by
  unfold hexToBytes
  rw [if_neg (by rw [utf8ByteSize_of_hexdigits b.salt_hex, b.salt_even]; simp), hexDecode_salt]

theorem utf8ByteSize_normalize :
    (normalizeHex b.saltHex).utf8ByteSize = b.saltHex.toList.length := by
  rw [utf8ByteSize_of_ascii, toList_normalize, List.length_map]
  intro c hc
  rw [toList_normalize] at hc
  obtain ⟨c', hc', rfl⟩ := List.mem_map.1 hc
  exact (lower_hexdigit (b.salt_hex c' hc')).2.2

theorem hexToBytes_normalize : hexToBytes (normalizeHex b.saltHex) = .ok b.salt := by
  unfold hexToBytes
  rw [if_neg (by rw [utf8ByteSize_normalize, b.salt_even]; simp), toList_normalize,
    hexDecode_lower b.salt_hex, hexDecode_salt]

theorem salt_nonempty : b.salt.isEmpty = false := by
  have hlong := b.salt_long
  have hdecode := @hexDecode_salt b
  cases hsalt : b.salt with
  | cons x xs => rfl
  | nil =>
    rw [hsalt] at hdecode
    have hlower := hexEncode_of_hexDecode hdecode
    rw [← List.length_map toAsciiLowercase, ← hlower] at hlong
    simp [hexEncode] at hlong

/-! ## Both paths take the batch -/

theorem gpu_runBatch (unit : Nat) (rebuilt : Bool) (hashrate : F64) (digest : Attempt → Digest) :
    (b.gpu unit rebuilt hashrate digest).runBatch.getD [] =
      (b.gpu unit rebuilt hashrate digest).finalizeRange 0
        (b.attempts.map fun a => (a, digest a)) := by
  have hfloor := b.difficulty_floor
  have hdifficulty : (b.difficulty != 0) = true := by
    rw [bne_iff_ne]
    rintro h
    rw [h] at hfloor
    exact absurd hfloor (by decide)
  have hvalid : (b.gpu unit rebuilt hashrate digest).valid = !b.attempts.isEmpty := by
    unfold GpuBatch.valid gpu
    simp [hexToBytes_salt, salt_nonempty, hdifficulty]
  unfold GpuBatch.runBatch
  rw [hvalid]
  cases hattempts : b.attempts with
  | nil => rfl
  | cons a as => simp [gpu, hattempts]

theorem cpu_valid (worker : Nat) (hashrate : F64) :
    (b.cpu worker hashrate).valid = !b.attempts.isEmpty := by
  have hsize := @utf8ByteSize_normalize b
  have hlong := b.salt_long
  have hempty : (normalizeHex b.saltHex).isEmpty = false := by
    rw [Bool.eq_false_iff]
    intro h
    rw [String.isEmpty_iff.1 h] at hsize
    change 0 = _ at hsize
    omega
  have hhex : CpuBatch.isHexString (normalizeHex b.saltHex) = true := by
    unfold CpuBatch.isHexString
    rw [toList_normalize, List.all_eq_true]
    intro c hc
    obtain ⟨c', hc', rfl⟩ := List.mem_map.1 hc
    exact (lower_hexdigit (b.salt_hex c' hc')).1
  have hprefix : ((normalizeHex b.keyPrefix).isEmpty ||
      decide ((normalizeHex b.keyPrefix).utf8ByteSize ≤ HASH_API_KEY_LENGTH) &&
        CpuBatch.isHexString (normalizeHex b.keyPrefix)) = true := by
    simpa using b.prefix_hex
  unfold CpuBatch.valid cpu
  dsimp only
  rw [hempty, hsize, hhex, hprefix, b.salt_even, b.pattern_nonempty, decide_eq_true hlong,
    decide_eq_true b.pattern_short, decide_eq_true b.batch_size, decide_eq_true b.difficulty_floor]
  simp

/-! ## One attempt -/

variable (b)

/-- What the GPU hands over of an attempt with this digest. -/
def gpuOf (key digest : String) : List (String × String × UInt32 × String) :=
  (if containsText digest b.targetPattern then [(key, digest, b.difficulty, b.saltHex)] else []) ++
    if b.allowXuni && hasXuniMatch digest then [(key, digest, b.difficulty, b.saltHex)] else []

/-- The CPU hands it over once more where it misreads the salt. -/
def cpuOf (key digest : String) : List (String × String × UInt32 × String) :=
  b.gpuOf key digest ++
    if b.misread digest then [(key, digest, b.difficulty, b.saltHex)] else []

variable {b}

theorem finalizeRange_identity (unit : Nat) (rebuilt : Bool) (hashrate : F64)
    (digest : Attempt → Digest) (index : Nat) (attempts : List Attempt) :
    ((b.gpu unit rebuilt hashrate digest).finalizeRange index
      (attempts.map fun a => (a, digest a))).map
        (fun hit => (hit.key, hit.hash, b.difficulty, b.saltHex)) =
      attempts.flatMap fun a => b.gpuOf a.key (digest a).text := by
  induction attempts generalizing index with
  | nil => rfl
  | cons a attempts ih =>
    rw [List.map_cons, GpuBatch.finalizeRange, List.map_append, ih, List.flatMap_cons]
    congr 1
    have hpattern : (!b.targetPattern.isEmpty) = true := by rw [b.pattern_nonempty]; rfl
    unfold GpuBatch.appendMatches GpuBatch.hitsTarget GpuBatch.hitsXuni gpuOf gpu
    dsimp only
    rw [hpattern, Bool.true_and, List.map_append]
    congr 1
    · split_ifs <;> rfl
    · split_ifs <;> rfl

/-- The PHC text of a digest. -/
def phc (b : SharedBatch) (digest : String) : String :=
  "$argon2id$v=19$m=" ++ Nat.repr b.difficulty.toNat ++ ",t=1,p=1$" ++ base64Encode b.salt ++
    "$" ++ digest

theorem assemblePhc_eq (digest : String) :
    assemblePhc b.difficulty (normalizeHex b.saltHex) digest = .ok (b.phc digest) := by
  unfold assemblePhc
  rw [hexToBytes_normalize]
  rfl

theorem phcDigest_eq (digest : Digest) : phcDigest (b.phc digest.text) = some digest.text :=
  phcDigest_of_assemblePhc digest.toList_ne_nil (b.assemblePhc_eq digest.text)

/-- A match of the target passes if the digest has it. -/
theorem passed_target (worker : Nat) (hashrate : F64) (a : Attempt) (index : Nat)
    (digest : Digest) :
    (if (b.cpu worker hashrate).hitsTarget (b.phc digest.text) then
      [(⟨a.key, b.phc digest.text, b.targetPattern, index,
        isSuperblockHash (b.phc digest.text), a.onTarget⟩ : HashMatch)] else []).flatMap
          (b.cpu worker hashrate).passed =
      if containsText digest.text b.targetPattern then
        [(a.key, digest.text, b.difficulty, b.saltHex)] else [] := by
  have hpassed : (b.cpu worker hashrate).passed ⟨a.key, b.phc digest.text, b.targetPattern, index,
      isSuperblockHash (b.phc digest.text), a.onTarget⟩ =
        if containsText digest.text b.targetPattern then
          [(a.key, digest.text, b.difficulty, b.saltHex)] else [] := by
    unfold CpuBatch.passed digestMatches cpu
    dsimp only
    rw [phcDigest_eq]
    dsimp only
    rw [if_pos rfl]
  by_cases hphc : (b.cpu worker hashrate).hitsTarget (b.phc digest.text) = true
  · rw [if_pos hphc, List.flatMap_singleton, hpassed]
  · rw [if_neg hphc, List.flatMap_nil, if_neg fun hdigest => hphc ?_]
    change containsText.go b.targetPattern.toList (b.phc digest.text).toList = true
    unfold phc
    rw [String.toList_append]
    exact contains_suffix _ hdigest

/-- A match of XUNI passes if the digest has it, or has the target instead of it. -/
theorem passed_xuni (worker : Nat) (hashrate : F64) (a : Attempt) (index : Nat)
    (digest : Digest) :
    (if (b.cpu worker hashrate).hitsXuni (b.phc digest.text) then
      [(⟨a.key, b.phc digest.text, "XUNI", index, false, a.onXuni⟩ : HashMatch)] else []).flatMap
          (b.cpu worker hashrate).passed =
      (if b.allowXuni && hasXuniMatch digest.text then
        [(a.key, digest.text, b.difficulty, b.saltHex)] else []) ++
        if b.misread digest.text then [(a.key, digest.text, b.difficulty, b.saltHex)] else [] := by
  have hpassed : (b.cpu worker hashrate).passed ⟨a.key, b.phc digest.text, "XUNI", index, false,
      a.onXuni⟩ = if digestMatches b.targetPattern b.allowXuni "XUNI" digest.text then
          [(a.key, digest.text, b.difficulty, b.saltHex)] else [] := by
    unfold CpuBatch.passed cpu
    dsimp only
    rw [phcDigest_eq]
  have hphc : (b.cpu worker hashrate).hitsXuni (b.phc digest.text) =
      (b.allowXuni && (hasXuniMatch (base64Encode b.salt) || hasXuniMatch digest.text)) :=
    congrArg (b.allowXuni && ·) (hasXuniMatch_phc b.difficulty b.salt digest.text)
  have hcontains : hasXuniMatch digest.text = true → containsText digest.text "XUNI" = true :=
    contains_of_xuni
  rw [hphc]
  unfold misread
  unfold digestMatches at hpassed
  by_cases hname : b.targetPattern = "XUNI"
  · rw [if_pos hname.symm] at hpassed
    cases hdigest : hasXuniMatch digest.text with
    | true =>
      -- the digest has both, and the match passes as it should
      cases b.allowXuni <;> simp [hpassed, hname, hcontains hdigest]
    | false =>
      cases b.allowXuni <;> cases hasXuniMatch (base64Encode b.salt) <;> simp [hpassed, hname]
  · rw [if_neg (Ne.symm hname), if_pos rfl] at hpassed
    cases hdigest : hasXuniMatch digest.text with
    | true => cases hallow : b.allowXuni <;> simp [hpassed, hallow, hdigest]
    | false =>
      cases b.allowXuni <;> cases hasXuniMatch (base64Encode b.salt) <;>
        simp [hpassed, hname, hdigest]

theorem appendMatches_passed (worker : Nat) (hashrate : F64) (a : Attempt) (index : Nat)
    (digest : Digest) :
    ((b.cpu worker hashrate).appendMatches a (b.phc digest.text) index).flatMap
      (b.cpu worker hashrate).passed = b.cpuOf a.key digest.text := by
  unfold CpuBatch.appendMatches cpuOf gpuOf
  rw [List.flatMap_append, List.append_assoc, ← passed_xuni worker hashrate a index digest,
    ← passed_target worker hashrate a index digest]
  rfl

theorem hashLoop_passed {argon2id : Argon2id} (worker : Nat) (hashrate : F64)
    {digest : Attempt → Digest} (index : Nat) {attempts : List Attempt}
    (hdigest : ∀ a ∈ attempts,
      argon2id b.salt a.key.toUTF8.toList b.difficulty = .ok (digest a)) :
    ∃ hits, (b.cpu worker hashrate).hashLoop argon2id index attempts = .ok hits ∧
      hits.flatMap (b.cpu worker hashrate).passed =
        attempts.flatMap fun a => b.cpuOf a.key (digest a).text := by
  induction attempts generalizing index with
  | nil => exact ⟨[], rfl, rfl⟩
  | cons a attempts ih =>
    rw [List.forall_mem_cons] at hdigest
    obtain ⟨hits, hloop, hpassed⟩ := ih (index + 1) hdigest.2
    have ha : (b.cpu worker hashrate).digest argon2id a = .ok (digest a) := by
      unfold CpuBatch.digest cpu
      dsimp only
      rw [hexToBytes_normalize]
      exact hdigest.1
    have hphc : assemblePhc (b.cpu worker hashrate).difficulty
        (normalizeHex (b.cpu worker hashrate).saltHex) (digest a).text =
          .ok (b.phc (digest a).text) := b.assemblePhc_eq _
    refine ⟨(b.cpu worker hashrate).appendMatches a (b.phc (digest a).text) index ++ hits, ?_, ?_⟩
    · rw [CpuBatch.hashLoop, ha]
      dsimp only
      rw [hphc]
      dsimp only
      rw [hloop]
    · rw [List.flatMap_append, List.flatMap_cons, hpassed, appendMatches_passed]

/-! ## Both sequences -/

/-- The finds of a batch, as they are compared. -/
theorem handed_gpu {argon2id : Argon2id} (s : Producers) (unit : Nat) (rebuilt : Bool)
    (hashrate : F64) (digest : Attempt → Digest) :
    (s.handed argon2id (.gpu (b.gpu unit rebuilt hashrate digest))).map (fun f => f.1.identity) =
      b.attempts.flatMap fun a => b.gpuOf a.key (digest a).text := by
  rw [← finalizeRange_identity unit rebuilt hashrate digest 0, ← gpu_runBatch]
  exact MatchLoop.gpuFinds_identity argon2id _ _ _

theorem handed_cpu {argon2id : Argon2id} (s : Producers) (worker : Nat) (hashrate : F64)
    {digest : Attempt → Digest} (hdigest : ∀ a ∈ b.attempts,
      argon2id b.salt a.key.toUTF8.toList b.difficulty = .ok (digest a)) :
    (s.handed argon2id (.cpu (b.cpu worker hashrate))).map (fun f => f.1.identity) =
      b.attempts.flatMap fun a => b.cpuOf a.key (digest a).text := by
  obtain ⟨hits, hloop, hpassed⟩ := hashLoop_passed worker hashrate 0 hdigest
  have hrun : ((b.cpu worker hashrate).runBatch argon2id).getD [] = hits := by
    unfold CpuBatch.runBatch
    rw [cpu_valid, show (b.cpu worker hashrate).attempts = b.attempts from rfl, hloop]
    cases hattempts : b.attempts with
    | cons a attempts => rfl
    | nil =>
      rw [hattempts] at hloop
      cases hloop
      rfl
  rw [← hpassed, ← hrun]
  exact MatchLoop.cpuFinds_identity argon2id _ _ _

theorem flatMap_append_eq_iff {α β : Type*} (f g : α → List β) (l : List α) :
    (l.flatMap f = l.flatMap fun a => f a ++ g a) ↔ ∀ a ∈ l, g a = [] := by
  have hlength : (l.flatMap fun a => f a ++ g a).length =
      (l.flatMap f).length + (l.flatMap g).length := by
    induction l with
    | nil => rfl
    | cons a l ih =>
      rw [List.flatMap_cons, List.flatMap_cons, List.flatMap_cons, List.length_append,
        List.length_append, List.length_append, List.length_append, ih]
      omega
  constructor
  · intro heq
    rw [← heq] at hlength
    exact List.flatMap_eq_nil_iff.1 (List.length_eq_zero_iff.1 (by omega))
  · intro hnil
    rw [List.flatMap_def, List.flatMap_def, List.map_congr_left fun a ha => ?_]
    rw [hnil a ha, List.append_nil]

theorem carries_of_mem_gpuOf {key digest : String} {x : String × String × UInt32 × String}
    (h : x ∈ b.gpuOf key digest) : b.carries x.2.1 = true := by
  unfold carries
  rcases List.mem_append.1 h with h | h
  · split_ifs at h with htarget
    · rw [List.mem_singleton.1 h, htarget, Bool.true_or]
    · cases h
  · split_ifs at h with hxuni
    · rw [List.mem_singleton.1 h, hxuni, Bool.or_true]
    · cases h

theorem carries_of_mem_cpuOf {key digest : String} {x : String × String × UInt32 × String}
    (h : x ∈ b.cpuOf key digest) : b.carries x.2.1 = true := by
  rcases List.mem_append.1 h with h | h
  · exact carries_of_mem_gpuOf h
  · split_ifs at h with hmisread
    · unfold misread at hmisread
      simp only [Bool.and_eq_true, beq_iff_eq] at hmisread
      obtain ⟨⟨⟨⟨hname, -⟩, -⟩, hcontains⟩, -⟩ := hmisread
      unfold carries
      rw [List.mem_singleton.1 h, hname, hcontains, Bool.true_or]
    · cases h

end SharedBatch

/-- With the same digests, a GPU unit and a CPU worker hand over the same finds of the same keys,
each of a digest that carries what is looked for, if and only if the CPU misreads no digest. -/
theorem same_finds_iff {argon2id : Argon2id} (b : SharedBatch) {digest : Attempt → Digest}
    (hdigest : ∀ a ∈ b.attempts,
      argon2id b.salt a.key.toUTF8.toList b.difficulty = .ok (digest a))
    (s s' : Producers) (unit worker : Nat) (rebuilt : Bool) (hashrate hashrate' : F64) :
    let gpu := s.handed argon2id (.gpu (b.gpu unit rebuilt hashrate digest))
    let cpu := s'.handed argon2id (.cpu (b.cpu worker hashrate'))
    (gpu.map (fun f => f.1.identity) = cpu.map (fun f => f.1.identity) ∧
      ∀ f ∈ gpu ++ cpu, b.carries f.1.digest = true) ↔
        ∀ a ∈ b.attempts, b.misread (digest a).text = false := by
  intro gpu cpu
  have hgpu : gpu.map (fun f => f.1.identity) = _ := SharedBatch.handed_gpu s unit rebuilt hashrate
    digest
  have hcpu : cpu.map (fun f => f.1.identity) = _ := SharedBatch.handed_cpu s' worker hashrate'
    hdigest
  have hcarries : ∀ f ∈ gpu ++ cpu, b.carries f.1.digest = true := by
    intro f hf
    have hmem : f.1.identity ∈ (gpu ++ cpu).map fun f => f.1.identity := List.mem_map_of_mem hf
    rw [List.map_append, hgpu, hcpu] at hmem
    rcases List.mem_append.1 hmem with hmem | hmem
    · obtain ⟨a, -, ha⟩ := List.mem_flatMap.1 hmem
      exact SharedBatch.carries_of_mem_gpuOf ha
    · obtain ⟨a, -, ha⟩ := List.mem_flatMap.1 hmem
      exact SharedBatch.carries_of_mem_cpuOf ha
  rw [and_iff_left hcarries, hgpu, hcpu]
  refine (SharedBatch.flatMap_append_eq_iff _ _ b.attempts).trans (forall₂_congr fun a _ => ?_)
  cases b.misread (digest a).text <;> simp

/-! ## A salt with XUNI in it -/

def xuniSalt : String := "5d4348d000000000000000000000000000000000"

def xuniKey : String := "000000000000000000000000000000000000000000000000000000000000ecea"

/-- The digest of that key, with `XUNIM` in its text. -/
def xuniDigest : Digest :=
  ⟨#[75, 161, 196, 169, 49, 2, 140, 79, 143, 50, 84, 188, 151, 188, 43, 225, 90, 192, 17, 48, 244,
    26, 234, 119, 231, 40, 133, 226, 47, 196, 133, 6, 217, 177, 57, 31, 22, 110, 6, 160, 7, 150,
    80, 197, 21, 13, 173, 18, 17, 246, 98, 132, 219, 49, 20, 101, 180, 93, 67, 72, 51, 83, 13, 24],
    rfl⟩

/-- Argon2id of that salt and that key at 8 KiB. -/
def xuniArgon2id : Argon2id := fun salt password memoryCost =>
  if hexEncode salt = xuniSalt ∧ password = xuniKey.toUTF8.toList ∧ memoryCost = 8 then
    .ok xuniDigest
  else .error ""

/-- A batch of that key, with a target. -/
def xuniBatch (targetPattern : String) (h : targetPattern.isEmpty = false)
    (h' : targetPattern.utf8ByteSize ≤ MAX_TARGET_PATTERN_LENGTH) : SharedBatch where
  saltHex := xuniSalt
  keyPrefix := ""
  difficulty := 8
  targetPattern := targetPattern
  allowXuni := true
  attempts := [⟨xuniKey, workingDisk, workingDisk⟩]
  salt_hex c hc := by
    have hall : xuniSalt.toList.all isAsciiHexdigit = true := by decide
    exact List.all_eq_true.1 hall c hc
  salt_even := by decide
  salt_long := by decide
  prefix_hex := Or.inl (by decide)
  difficulty_floor := by decide
  pattern_nonempty := h
  pattern_short := h'
  batch_size := by decide

def xuniFind : String × String × UInt32 × String := (xuniKey, xuniDigest.text, 8, xuniSalt)

theorem xuniArgon2id_eq {targetPattern : String} (h : targetPattern.isEmpty = false)
    (h' : targetPattern.utf8ByteSize ≤ MAX_TARGET_PATTERN_LENGTH) :
    ∀ a ∈ (xuniBatch targetPattern h h').attempts,
      xuniArgon2id (xuniBatch targetPattern h h').salt a.key.toUTF8.toList
        (xuniBatch targetPattern h h').difficulty = .ok xuniDigest := by
  intro a ha
  rw [List.mem_singleton.1 ha]
  have hsalt : hexEncode (xuniBatch targetPattern h h').salt = xuniSalt := by
    change hexEncode ((hexDecode xuniSalt.toList).getD []) = xuniSalt
    decide
  exact if_pos ⟨hsalt, rfl, rfl⟩

/-- Another target in the same digest is found once on both paths. -/
theorem same_finds_target :
    let b := xuniBatch "W0XUNI" (by decide) (by decide)
    let s := Producers.fresh "worker-1"
    let gpu := s.handed xuniArgon2id (.gpu (b.gpu 0 true ⟨0⟩ fun _ => xuniDigest))
    let cpu := s.handed xuniArgon2id (.cpu (b.cpu 0 ⟨0⟩))
    gpu.map (fun f => f.1.identity) = cpu.map (fun f => f.1.identity) ∧
      ∀ f ∈ gpu ++ cpu, b.carries f.1.digest = true :=
  (same_finds_iff (xuniBatch "W0XUNI" (by decide) (by decide)) (xuniArgon2id_eq _ _)
    (Producers.fresh "worker-1") (Producers.fresh "worker-1") 0 0 true ⟨0⟩ ⟨0⟩).2 (by decide)

/-- The target XUNI: the GPU hands the find over once and the CPU twice. -/
theorem xuni_found_twice :
    let b := xuniBatch "XUNI" (by decide) (by decide)
    let s := Producers.fresh "worker-1"
    let gpu := s.handed xuniArgon2id (.gpu (b.gpu 0 true ⟨0⟩ fun _ => xuniDigest))
    let cpu := s.handed xuniArgon2id (.cpu (b.cpu 0 ⟨0⟩))
    gpu.map (fun f => f.1.identity) = [xuniFind] ∧
      cpu.map (fun f => f.1.identity) = [xuniFind, xuniFind] ∧
        gpu.map (fun f => f.1.identity) ≠ cpu.map (fun f => f.1.identity) := by
  intro b s gpu cpu
  have hgpu : gpu.map (fun f => f.1.identity) = _ := SharedBatch.handed_gpu s 0 true ⟨0⟩ _
  have hcpu : cpu.map (fun f => f.1.identity) = _ := SharedBatch.handed_cpu s 0 ⟨0⟩
    (xuniArgon2id_eq _ _)
  rw [hgpu, hcpu]
  decide

end TreeMiner
