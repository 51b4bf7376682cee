import Mathlib.Algebra.GroupWithZero.Nat
import Mathlib.Data.UInt
import TreeMiner.Miner.Capture

/-! The attempts a find is stamped with. The counter of a unit or a worker runs on across
its batches and starts anew behind every recorded find, so the finds share the attempts out
between them. -/

namespace TreeMiner

/-- A find handed to the sink, and the attempts of its producer up to and including its own. -/
structure Handed where
  endsAt : Nat
  find : Find
  disk : Disk

/-- A batch as the loop over its matches sees it. -/
structure HitBatch (β : Type) where
  batch : β
  attempts : Nat
  hits : List HashMatch

/-- The matches come in order, and below the number of attempts. -/
structure HitBatch.Ordered {β : Type} (r : HitBatch β) : Prop where
  order : r.hits.Pairwise fun a b => a.attemptIndex ≤ b.attemptIndex
  below : ∀ hit ∈ r.hits, hit.attemptIndex < r.attempts

/-- What the GPU loop records for a match. -/
def GpuBatch.reads (b : GpuBatch) (hit : HashMatch) (attempts : UInt64) : Option Find :=
  some (b.find hit attempts)

/-- What the CPU worker records for a match; it skips one whose digest does not carry the
pattern. -/
def CpuBatch.reads (b : CpuBatch) (hit : HashMatch) (attempts : UInt64) : Option Find :=
  match phcDigest hit.hash with
  | none => none
  | some digest =>
    if digestMatches b.targetPattern b.allowXuni hit.matchedPattern digest then
      some (b.find hit.key digest attempts)
    else none

/-- A unit or a worker across its batches, with the log of what it handed over. -/
structure Tally where
  loop : MatchLoop
  /-- the attempts of the batches before the current one -/
  hashed : Nat
  handed : List Handed

namespace Tally

def fresh (sink : FindSink) : Tally := ⟨⟨sink, 0, 0⟩, 0, []⟩

section

variable (argon2id : Argon2id) (reads : HashMatch → UInt64 → Option Find)

def submit (t : Tally) (hit : HashMatch) : Tally :=
  let l := t.loop.advance hit.attemptIndex
  match reads hit l.attempts with
  | none => { t with loop := l }
  | some find => { t with
      loop := l.record argon2id find hit.disk
      handed := t.handed ++ [⟨t.hashed + hit.attemptIndex + 1, find, hit.disk⟩] }

def begin (t : Tally) : Tally := { t with loop := { t.loop with next := 0 } }

def close (t : Tally) (attempts : Nat) : Tally :=
  { t with loop := t.loop.finish attempts, hashed := t.hashed + attempts }

def batch (t : Tally) (hits : List HashMatch) (attempts : Nat) : Tally :=
  (hits.foldl (submit argon2id reads) t.begin).close attempts

end

section

variable (argon2id : Argon2id)

def gpu (t : Tally) (r : HitBatch GpuBatch) : Tally :=
  t.batch argon2id r.batch.reads r.hits r.attempts

def cpu (t : Tally) (r : HitBatch CpuBatch) : Tally :=
  t.batch argon2id r.batch.reads r.hits r.attempts

end

/-! ## The log beside the loops -/

variable {argon2id : Argon2id}

theorem submit_loop_gpu (b : GpuBatch) (t : Tally) (hit : HashMatch) :
    (t.submit argon2id b.reads hit).loop = t.loop.submitGpu argon2id b hit := rfl

theorem submit_loop_cpu (b : CpuBatch) (t : Tally) (hit : HashMatch) :
    (t.submit argon2id b.reads hit).loop = t.loop.submitCpu argon2id b hit := by
  unfold submit MatchLoop.submitCpu CpuBatch.reads
  cases phcDigest hit.hash with
  | none => rfl
  | some digest =>
    dsimp only
    cases digestMatches b.targetPattern b.allowXuni hit.matchedPattern digest <;> rfl

theorem batch_loop {reads : HashMatch → UInt64 → Option Find}
    {submitOne : MatchLoop → HashMatch → MatchLoop}
    (h : ∀ (t : Tally) hit, (t.submit argon2id reads hit).loop = submitOne t.loop hit)
    (t : Tally) (hits : List HashMatch) (attempts : Nat) :
    (t.batch argon2id reads hits attempts).loop =
      (hits.foldl submitOne ⟨t.loop.sink, t.loop.attempts, 0⟩).finish attempts := by
  have hfold : ∀ t : Tally, (hits.foldl (submit argon2id reads) t).loop =
      hits.foldl submitOne t.loop := by
    induction hits with
    | nil => exact fun t => rfl
    | cons hit hits ih =>
      intro t
      rw [List.foldl_cons, List.foldl_cons, ih, h]
  exact congrArg (MatchLoop.finish · attempts) (hfold t.begin)

/-- The loop of a batch of a unit is that of the miner. -/
theorem gpu_loop (t : Tally) (r : HitBatch GpuBatch) : (t.gpu argon2id r).loop =
    (r.hits.foldl (MatchLoop.submitGpu argon2id r.batch)
      ⟨t.loop.sink, t.loop.attempts, 0⟩).finish r.attempts :=
  batch_loop (submit_loop_gpu r.batch) t r.hits r.attempts

theorem cpu_loop (t : Tally) (r : HitBatch CpuBatch) : (t.cpu argon2id r).loop =
    (r.hits.foldl (MatchLoop.submitCpu argon2id r.batch)
      ⟨t.loop.sink, t.loop.attempts, 0⟩).finish r.attempts :=
  batch_loop (submit_loop_cpu r.batch) t r.hits r.attempts

end Tally

/-! ## Attempts shared out -/

/-- From `last` on, each find counts the attempts behind the one before it, its own
included. -/
def Counted : Nat → List Handed → Prop
  | _, [] => True
  | last, h :: rest => last ≤ h.endsAt ∧ h.find.attempts = UInt64.ofNat (h.endsAt - last) ∧
      Counted h.endsAt rest

/-- Where the last find of a log ends. -/
def lastEnd (last : Nat) (log : List Handed) : Nat := log.foldl (fun _ h => h.endsAt) last

theorem counted_append {last : Nat} {log : List Handed} {h : Handed} :
    Counted last (log ++ [h]) ↔ Counted last log ∧ lastEnd last log ≤ h.endsAt ∧
      h.find.attempts = UInt64.ofNat (h.endsAt - lastEnd last log) := by
  induction log generalizing last with
  | nil => simp [Counted, lastEnd]
  | cons a log ih =>
    rw [List.cons_append, Counted, Counted, ih]
    simp only [lastEnd, List.foldl_cons, and_assoc]

theorem lastEnd_append (last : Nat) (log : List Handed) (h : Handed) :
    lastEnd last (log ++ [h]) = h.endsAt := by
  unfold lastEnd
  rw [List.foldl_append, List.foldl_cons, List.foldl_nil]

/-- The finds of a log hold the attempts up to the end of the last. -/
theorem counted_sum {last : Nat} {log : List Handed} (h : Counted last log) :
    last ≤ lastEnd last log ∧
      (log.map fun h => h.find.attempts).sum = UInt64.ofNat (lastEnd last log - last) := by
  induction log generalizing last with
  | nil => simp [lastEnd]
  | cons a log ih =>
    obtain ⟨hle, hattempts, hrest⟩ := h
    obtain ⟨hle', hsum⟩ := ih hrest
    have hend : lastEnd last (a :: log) = lastEnd a.endsAt log := rfl
    rw [hend]
    refine ⟨le_trans hle hle', ?_⟩
    rw [List.map_cons, List.sum_cons, hattempts, hsum, ← UInt64.ofNat_add]
    congr 1
    omega

/-- Without wrapping, while the attempts fit the counter. -/
theorem counted_sum_toNat {last : Nat} {log : List Handed} (h : Counted last log)
    (hfit : lastEnd last log < 2 ^ 64) :
    (log.map fun h => h.find.attempts.toNat).sum = lastEnd last log - last := by
  induction log generalizing last with
  | nil => simp [lastEnd]
  | cons a log ih =>
    obtain ⟨hle, hattempts, hrest⟩ := h
    have hend : lastEnd last (a :: log) = lastEnd a.endsAt log := rfl
    have hle' := (counted_sum hrest).1
    rw [hend] at hfit ⊢
    rw [List.map_cons, List.sum_cons, ih hrest hfit, hattempts, UInt64.toNat_ofNat']
    omega

/-- Up to the attempt of a match, which is not before the position, each attempt is counted
once; that of the match before is not counted again. -/
theorem MatchLoop.advance_counted {loop : MatchLoop} {n attemptIndex : Nat}
    (hn : loop.attempts = UInt64.ofNat n) (hnext : loop.next ≤ attemptIndex + 1) :
    (loop.advance attemptIndex).next = attemptIndex + 1 ∧
      (loop.advance attemptIndex).attempts =
        UInt64.ofNat (n + (attemptIndex + 1 - loop.next)) := by
  unfold MatchLoop.advance
  split_ifs with hle
  · refine ⟨rfl, ?_⟩
    change loop.attempts + _ = _
    rw [hn, ← UInt64.ofNat_add]
    congr 1
    omega
  · have heq : loop.next = attemptIndex + 1 := by omega
    refine ⟨heq, ?_⟩
    rw [heq, Nat.sub_self, Nat.add_zero]
    exact hn

namespace Tally

/-- The attempts up to a position are those of the finds and those counted since the last. -/
structure At (argon2id : Argon2id) (sink : FindSink) (t : Tally) (position : Nat) : Prop where
  counted : Counted 0 t.handed
  since : ∃ n, t.loop.attempts = UInt64.ofNat n ∧ lastEnd 0 t.handed + n = position
  recorded : t.loop.sink =
    t.handed.foldl (fun s h => (s.record argon2id h.find h.disk).1) sink

variable {argon2id : Argon2id} {sink : FindSink}

theorem fresh_at (sink : FindSink) : (fresh sink).At argon2id sink 0 :=
  ⟨trivial, ⟨0, rfl, rfl⟩, rfl⟩

/-- A match moves the position behind its attempt, recorded or not. -/
theorem submit_at {reads : HashMatch → UInt64 → Option Find}
    (hreads : ∀ hit n find, reads hit n = some find → find.attempts = n) {t : Tally}
    (h : t.At argon2id sink (t.hashed + t.loop.next)) {hit : HashMatch}
    (hnext : t.loop.next ≤ hit.attemptIndex + 1) :
    let u := t.submit argon2id reads hit
    u.At argon2id sink (u.hashed + u.loop.next) ∧ u.loop.next = hit.attemptIndex + 1 ∧
      u.hashed = t.hashed := by
  obtain ⟨hcounted, ⟨n, hn, hpos⟩, hsink⟩ := h
  have hadvance := MatchLoop.advance_counted hn hnext
  have hadvancesink := t.loop.advance_sink hit.attemptIndex
  intro u
  cases hr : reads hit (t.loop.advance hit.attemptIndex).attempts with
  | none =>
    have hu : u = { t with loop := t.loop.advance hit.attemptIndex } := by
      simp only [u, submit, hr]
    rw [hu]
    refine ⟨⟨hcounted, ⟨_, hadvance.2, ?_⟩, hadvancesink.trans hsink⟩, hadvance.1, rfl⟩
    change lastEnd 0 t.handed + _ = t.hashed + (t.loop.advance hit.attemptIndex).next
    rw [hadvance.1]
    omega
  | some find =>
    have hu : u = { t with
        loop := (t.loop.advance hit.attemptIndex).record argon2id find hit.disk
        handed := t.handed ++ [⟨t.hashed + hit.attemptIndex + 1, find, hit.disk⟩] } := by
      simp only [u, submit, hr]
    rw [hu]
    refine ⟨⟨counted_append.2 ⟨hcounted, ?_, ?_⟩, ⟨0, rfl, ?_⟩, ?_⟩, hadvance.1, rfl⟩
    · change lastEnd 0 t.handed ≤ t.hashed + hit.attemptIndex + 1
      omega
    · change find.attempts = UInt64.ofNat (t.hashed + hit.attemptIndex + 1 - lastEnd 0 t.handed)
      rw [hreads _ _ _ hr, hadvance.2]
      congr 1
      omega
    · change lastEnd 0 (t.handed ++ [_]) + 0 = t.hashed + (t.loop.advance hit.attemptIndex).next
      rw [lastEnd_append, hadvance.1, Nat.add_zero, Nat.add_assoc]
    · change ((t.loop.advance hit.attemptIndex).sink.record argon2id find hit.disk).1 = _
      rw [hadvancesink, hsink, List.foldl_append]
      rfl

/-- Matches in order leave the position behind the last of them. -/
theorem submits_at {reads : HashMatch → UInt64 → Option Find}
    (hreads : ∀ hit n find, reads hit n = some find → find.attempts = n) {hits : List HashMatch} :
    ∀ {t : Tally}, t.At argon2id sink (t.hashed + t.loop.next) →
      hits.Pairwise (fun a b => a.attemptIndex ≤ b.attemptIndex) →
      (∀ hit ∈ hits, t.loop.next ≤ hit.attemptIndex + 1) →
      ∀ {attempts : Nat}, t.loop.next ≤ attempts → (∀ hit ∈ hits, hit.attemptIndex < attempts) →
      let u := hits.foldl (submit argon2id reads) t
      u.At argon2id sink (u.hashed + u.loop.next) ∧ u.loop.next ≤ attempts ∧
        u.hashed = t.hashed := by
  induction hits with
  | nil => exact fun h _ _ _ hfits _ => ⟨h, hfits, rfl⟩
  | cons hit hits ih =>
    intro t h horder hnext attempts hfits hbelow
    rw [List.pairwise_cons] at horder
    rw [List.forall_mem_cons] at hnext hbelow
    obtain ⟨hat, hunext, huhashed⟩ := submit_at hreads h hnext.1
    have hrest := ih hat horder.2 (fun x hx => by
      rw [hunext]
      exact Nat.succ_le_succ (horder.1 x hx)) (by rw [hunext]; exact hbelow.1) hbelow.2
    rw [huhashed] at hrest
    exact hrest

/-- A batch moves the position on by its attempts. -/
theorem batch_at {reads : HashMatch → UInt64 → Option Find}
    (hreads : ∀ hit n find, reads hit n = some find → find.attempts = n) {t : Tally}
    (h : t.At argon2id sink t.hashed) {β : Type} {r : HitBatch β} (hr : r.Ordered) :
    let u := t.batch argon2id reads r.hits r.attempts
    u.At argon2id sink u.hashed ∧ u.hashed = t.hashed + r.attempts := by
  have hbegin : t.begin.At argon2id sink (t.begin.hashed + t.begin.loop.next) :=
    ⟨h.counted, h.since, h.recorded⟩
  obtain ⟨hat, hfits, hhashed⟩ := submits_at hreads hbegin hr.order (fun _ _ => Nat.zero_le _)
    (Nat.zero_le r.attempts) hr.below
  obtain ⟨hcounted, ⟨n, hn, hpos⟩, hsink⟩ := hat
  intro u
  generalize hv : r.hits.foldl (submit argon2id reads) t.begin = v at *
  have hu : u = v.close r.attempts := by rw [← hv]; rfl
  have hu' : u = { v with
      loop := { v.loop with attempts := v.loop.attempts + UInt64.ofNat (r.attempts - v.loop.next) }
      hashed := v.hashed + r.attempts } := by
    rw [hu]
    unfold close MatchLoop.finish
    rw [if_pos hfits]
  rw [hu']
  refine ⟨⟨hcounted, ⟨n + (r.attempts - v.loop.next), ?_, ?_⟩, hsink⟩, ?_⟩
  · rw [UInt64.ofNat_add, ← hn]
  · change lastEnd 0 v.handed + _ = v.hashed + r.attempts
    omega
  · change v.hashed + r.attempts = _
    rw [hhashed]
    rfl

/-- What a run of batches with `total` attempts leaves. -/
structure Conserved (argon2id : Argon2id) (sink : FindSink) (t : Tally) (total : Nat) : Prop where
  /-- each find counts the attempts behind the one before it -/
  counted : Counted 0 t.handed
  sum : (t.handed.map fun h => h.find.attempts).sum + t.loop.attempts = UInt64.ofNat total
  /-- while the total fits the counter, without wrapping -/
  exact : total < 2 ^ 64 →
    (t.handed.map fun h => h.find.attempts.toNat).sum + t.loop.attempts.toNat = total
  /-- the finds of the log are those the sink recorded -/
  recorded : t.loop.sink =
    t.handed.foldl (fun s h => (s.record argon2id h.find h.disk).1) sink

theorem At.conserved {t : Tally} {total : Nat} (h : t.At argon2id sink total) :
    t.Conserved argon2id sink total := by
  obtain ⟨hcounted, ⟨n, hn, hpos⟩, hsink⟩ := h
  refine ⟨hcounted, ?_, fun hfit => ?_, hsink⟩
  · rw [(counted_sum hcounted).2, hn, Nat.sub_zero, ← UInt64.ofNat_add, hpos]
  · rw [counted_sum_toNat hcounted (by omega), hn, UInt64.toNat_ofNat']
    omega

theorem run_at {β : Type} (step : Tally → HitBatch β → Tally)
    (hstep : ∀ {t : Tally}, t.At argon2id sink t.hashed → ∀ {r : HitBatch β}, r.Ordered →
      (step t r).At argon2id sink (step t r).hashed ∧
        (step t r).hashed = t.hashed + r.attempts) {rs : List (HitBatch β)} :
    ∀ {t : Tally}, t.At argon2id sink t.hashed → (∀ r ∈ rs, r.Ordered) →
      (rs.foldl step t).At argon2id sink (t.hashed + (rs.map (·.attempts)).sum) := by
  induction rs with
  | nil => exact fun h _ => h
  | cons r rs ih =>
    intro t h hordered
    rw [List.forall_mem_cons] at hordered
    obtain ⟨hat, hhashed⟩ := hstep h hordered.1
    have hrest := ih hat hordered.2
    rw [hhashed, Nat.add_assoc] at hrest
    exact hrest

end Tally

/-! ## The batches of the backends -/

/-- Matches of attempts from `index` on, in order. -/
structure InOrder (index attempts : Nat) (hits : List HashMatch) : Prop where
  order : hits.Pairwise fun a b => a.attemptIndex ≤ b.attemptIndex
  range : ∀ hit ∈ hits, index ≤ hit.attemptIndex ∧ hit.attemptIndex < attempts

/-- The matches of one attempt go in front of those of the attempts behind it. -/
theorem InOrder.append {index attempts : Nat} {hits rest : List HashMatch}
    (hlt : index < attempts) (h : ∀ hit ∈ hits, hit.attemptIndex = index)
    (hrest : InOrder (index + 1) attempts rest) : InOrder index attempts (hits ++ rest) := by
  constructor
  · refine List.pairwise_append.2 ⟨?_, hrest.order, fun a ha b hb => ?_⟩
    · exact List.pairwise_of_forall_mem_list fun a ha b hb => by rw [h a ha, h b hb]
    · have := (hrest.range b hb).1
      rw [h a ha]
      omega
  · intro hit hmem
    rcases List.mem_append.1 hmem with hmem | hmem
    · rw [h hit hmem]
      exact ⟨le_refl _, hlt⟩
    · have := hrest.range hit hmem
      omega

theorem InOrder.ordered {β : Type} {batch : β} {attempts : Nat} {hits : List HashMatch}
    (h : InOrder 0 attempts hits) : (⟨batch, attempts, hits⟩ : HitBatch β).Ordered :=
  ⟨h.order, fun hit hmem => (h.range hit hmem).2⟩

theorem GpuBatch.mem_appendMatches {b : GpuBatch} {a : Attempt} {hash : String} {index : Nat}
    {hit : HashMatch} (h : hit ∈ b.appendMatches a hash index) : hit.attemptIndex = index := by
  unfold appendMatches at h
  rcases List.mem_append.1 h with h | h <;> split_ifs at h <;>
    first | (rw [List.mem_singleton.1 h]) | cases h

theorem CpuBatch.mem_appendMatches {b : CpuBatch} {a : Attempt} {hash : String} {index : Nat}
    {hit : HashMatch} (h : hit ∈ b.appendMatches a hash index) : hit.attemptIndex = index := by
  unfold appendMatches at h
  rcases List.mem_append.1 h with h | h <;> split_ifs at h <;>
    first | (rw [List.mem_singleton.1 h]) | cases h

theorem GpuBatch.finalizeRange_inOrder (b : GpuBatch) (index : Nat)
    (attempts : List (Attempt × Digest)) :
    InOrder index (index + attempts.length) (b.finalizeRange index attempts) := by
  induction attempts generalizing index with
  | nil => exact ⟨List.Pairwise.nil, by simp [finalizeRange]⟩
  | cons a attempts ih =>
    refine InOrder.append (by simp) (fun hit h => mem_appendMatches h) ?_
    rw [List.length_cons, ← Nat.add_assoc, Nat.add_right_comm]
    exact ih (index + 1)

theorem CpuBatch.hashLoop_inOrder {argon2id : Argon2id} (b : CpuBatch) (index : Nat)
    (attempts : List Attempt) {hits : List HashMatch}
    (h : b.hashLoop argon2id index attempts = .ok hits) :
    InOrder index (index + attempts.length) hits := by
  induction attempts generalizing index hits with
  | nil =>
    obtain rfl := Except.ok.inj h
    exact ⟨List.Pairwise.nil, by simp⟩
  | cons a attempts ih =>
    unfold hashLoop at h
    split at h
    · cases h
    split at h
    · cases h
    split at h
    · cases h
    next rest hrest =>
      obtain rfl := Except.ok.inj h
      refine InOrder.append (by simp) (fun hit h => mem_appendMatches h) ?_
      rw [List.length_cons, ← Nat.add_assoc, Nat.add_right_comm]
      exact ih (index + 1) hrest

/-- What the device reports is in order. -/
theorem GpuBatch.runBatch_ordered {b : GpuBatch} {hits : List HashMatch}
    (h : b.runBatch = some hits) :
    (⟨b, b.attempts.length, hits⟩ : HitBatch GpuBatch).Ordered := by
  unfold runBatch at h
  split_ifs at h
  obtain rfl := Option.some.inj h
  have := b.finalizeRange_inOrder 0 b.attempts
  rw [Nat.zero_add] at this
  exact this.ordered

theorem CpuBatch.runBatch_ordered {argon2id : Argon2id} {b : CpuBatch} {hits : List HashMatch}
    (h : b.runBatch argon2id = some hits) :
    (⟨b, b.attempts.length, hits⟩ : HitBatch CpuBatch).Ordered := by
  unfold runBatch at h
  split_ifs at h
  have hok : b.hashLoop argon2id 0 b.attempts = .ok hits := by
    cases hl : b.hashLoop argon2id 0 b.attempts with
    | error e => simp [hl, Except.toOption] at h
    | ok found =>
      rw [hl] at h
      exact congrArg Except.ok (Option.some.inj h)
  have := b.hashLoop_inOrder 0 b.attempts hok
  rw [Nat.zero_add] at this
  exact this.ordered

/-! ## Whole runs -/

/-- Whatever the batches of a unit or of a worker hold, in order: the attempts of the finds
they recorded and the ones counted since the last are all the attempts they made, and each
find counts those since the one before it. -/
theorem attempts_conserved (argon2id : Argon2id) (sink : FindSink) :
    (∀ rs : List (HitBatch GpuBatch), (∀ r ∈ rs, r.Ordered) →
      (rs.foldl (Tally.gpu argon2id) (Tally.fresh sink)).Conserved argon2id sink
        (rs.map (·.attempts)).sum) ∧
    ∀ rs : List (HitBatch CpuBatch), (∀ r ∈ rs, r.Ordered) →
      (rs.foldl (Tally.cpu argon2id) (Tally.fresh sink)).Conserved argon2id sink
        (rs.map (·.attempts)).sum := by
  constructor
  · intro rs hrs
    have hat := Tally.run_at (Tally.gpu argon2id)
      (fun h _ hr => Tally.batch_at (fun _ _ _ hfind => by
        obtain rfl := Option.some.inj hfind
        rfl) h hr) (Tally.fresh_at sink) hrs
    rw [show (Tally.fresh sink).hashed = 0 from rfl, Nat.zero_add] at hat
    exact hat.conserved
  · intro rs hrs
    have hreads : ∀ (b : CpuBatch) hit n find, b.reads hit n = some find → find.attempts = n := by
      intro b hit n find h
      unfold CpuBatch.reads at h
      split at h
      · cases h
      · split_ifs at h
        obtain rfl := Option.some.inj h
        rfl
    have hat := Tally.run_at (Tally.cpu argon2id)
      (fun h r hr => Tally.batch_at (hreads r.batch) h hr) (Tally.fresh_at sink) hrs
    rw [show (Tally.fresh sink).hashed = 0 from rfl, Nat.zero_add] at hat
    exact hat.conserved

def sampleGpu : GpuBatch := ⟨0, false, "aabb", 8, "XEN11", true, ⟨0⟩, true, []⟩

def sampleCpu : CpuBatch := ⟨0, "aabb", "", 8, "XEN11", false, ⟨0⟩, []⟩

def sampleHit (hash : String) (attemptIndex : Nat) : HashMatch :=
  ⟨"key", hash, "XEN11", attemptIndex, false, ⟨none, true, "2026-01-01T00:00:00Z"⟩⟩

/-- Three batches of a unit, with an attempt that matches twice and a batch without a match,
and two of a worker whose first match is skipped: 19 and 13 attempts. -/
theorem attempts_conserved_sample :
    (let u := [⟨sampleGpu, 10, [sampleHit "XEN11" 3, sampleHit "XEN11" 3, sampleHit "XEN11" 7]⟩,
      ⟨sampleGpu, 5, []⟩, ⟨sampleGpu, 4, [sampleHit "XEN11" 0]⟩].foldl
        (Tally.gpu fun _ _ _ => .error "") (Tally.fresh (.fresh "rig-1"));
      (u.handed.map fun h => h.find.attempts.toNat).sum + u.loop.attempts.toNat = 19) ∧
    (let u := [⟨sampleCpu, 6, [sampleHit "no digest" 2]⟩, ⟨sampleCpu, 7,
      [sampleHit "$XEN11" 6]⟩].foldl (Tally.cpu fun _ _ _ => .error "")
        (Tally.fresh (.fresh "rig-1"));
      (u.handed.map fun h => h.find.attempts.toNat).sum + u.loop.attempts.toNat = 13) := by
  have h := attempts_conserved (fun _ _ _ => .error "") (.fresh "rig-1")
  constructor
  · refine (h.1 _ fun r hr => ?_).exact (by decide)
    simp only [List.mem_cons, List.not_mem_nil, or_false] at hr
    rcases hr with rfl | rfl | rfl <;> exact ⟨by simp [sampleHit], by simp [sampleHit]⟩
  · refine (h.2 _ fun r hr => ?_).exact (by decide)
    simp only [List.mem_cons, List.not_mem_nil, or_false] at hr
    rcases hr with rfl | rfl <;> exact ⟨by simp [sampleHit], by simp [sampleHit]⟩

end TreeMiner
