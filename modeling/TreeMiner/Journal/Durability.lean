import TreeMiner.Journal.Line
import TreeMiner.Lib.Run

/-! Which finds of the fallback sink an import hands to a working journal. A line that
starts behind a line feed stays one of the lines of the file; a line written behind a
torn one becomes part of it. -/

namespace TreeMiner

open Lib

/-! ## What an import hands over -/

/-- The finds an import reads from the bytes of the file, in order. -/
def Codec.payloads (C : Codec) (bytes : List UInt8) : List FoundPayload :=
  (splitLines bytes).filterMap C.payloadOf

section Working

variable {σ : Type*} (C : Codec) (record : σ → FoundPayload → σ)

/-- A journal that takes every find. -/
def working (j : σ) (p : FoundPayload) : Except JournalError σ := .ok (record j p)

theorem importLines_working (lines : List (List UInt8)) (j : σ) (stats : ImportStats) :
    ∃ stats', importLines C (working record) lines j stats =
      ((lines.filterMap C.payloadOf).foldl record j, stats', true) := by
  induction lines generalizing j stats with
  | nil => exact ⟨stats, rfl⟩
  | cons raw rest ih =>
    rw [importLines.eq_def]
    dsimp only
    by_cases hblank : (trimLine raw).isEmpty = true
    · have hnone : C.payloadOf raw = none := if_pos hblank
      rw [if_pos hblank, List.filterMap_cons_none hnone]
      exact ih j stats
    · have hread : C.payloadOf raw = (fromUtf8 (trimLine raw)).bind C.parsePayload :=
        if_neg hblank
      rw [if_neg hblank, ← hread]
      rcases hp : C.payloadOf raw with _ | p
      · rw [List.filterMap_cons_none hp]
        exact ih j _
      · rw [List.filterMap_cons_some hp]
        exact ih (record j p) _

/-- A working journal receives the finds of the file. -/
theorem importInto_working (io : ImportIo) (hread : io.readable = true) (s : Sink) (j : σ) :
    (importInto C (working record) io s j).1 = (C.payloads (s.file.getD [])).foldl record j := by
  unfold importInto
  rcases hfile : s.file with _ | bytes
  · have hline : C.payloadOf [] = none := if_pos rfl
    have hnone : C.payloads [] = [] := by
      unfold Codec.payloads splitLines
      rw [List.splitOnP_nil, List.filterMap_cons_none hline, List.filterMap_nil]
    rw [Option.getD_none, hnone, List.foldl_nil]
  · obtain ⟨stats, h⟩ := importLines_working C record (splitLines bytes) j ⟨0, 0, true⟩
    simp only [hread, Bool.not_true, Bool.false_eq_true, if_false, h, Option.getD_some]
    split_ifs <;> rfl

end Working

/-! ## Whole lines of the file -/

/-- Nothing is written yet, or the last byte is a line feed. -/
def AtLineStart (bytes : List UInt8) : Prop := bytes = [] ∨ bytes.getLast? = some 10

instance (bytes : List UInt8) : Decidable (AtLineStart bytes) :=
  inferInstanceAs (Decidable (_ ∨ _))

/-- The file has a line that is the find's own. -/
def Codec.Holds (C : Codec) (bytes : List UInt8) (p : FoundPayload) : Prop :=
  ∃ a b, bytes = a ++ (C.lineBytes p ++ 10 :: b) ∧ AtLineStart a

theorem splitLines_append (a b : List UInt8) :
    splitLines (a ++ 10 :: b) = splitLines a ++ splitLines b :=
  List.splitOnP_append_cons a b (by decide)

theorem mem_splitLines {a l b : List UInt8} (ha : AtLineStart a) (hl : ∀ x ∈ l, x ≠ 10) :
    l ∈ splitLines (a ++ (l ++ 10 :: b)) := by
  have hone : splitLines l = [l] := List.splitOnP_eq_singleton fun x hx => by simpa using hl x hx
  rcases ha with rfl | ha
  · rw [List.nil_append, splitLines_append, hone]
    exact List.mem_append_left _ (List.mem_singleton.2 rfl)
  · obtain ⟨a, rfl⟩ := List.getLast?_eq_some_iff.1 ha
    rw [List.append_assoc, List.singleton_append, splitLines_append, splitLines_append, hone]
    exact List.mem_append_right _ (List.mem_append_left _ (List.mem_singleton.2 rfl))

namespace Codec

variable {C : Codec}

theorem Holds.append {bytes : List UInt8} {p : FoundPayload} (h : C.Holds bytes p)
    (more : List UInt8) : C.Holds (bytes ++ more) p := by
  obtain ⟨a, b, rfl, ha⟩ := h
  refine ⟨a, b ++ more, ?_, ha⟩
  simp only [List.append_assoc, List.cons_append]

theorem Holds.mem_payloads (hC : C.Lawful) {bytes : List UInt8} {p : FoundPayload}
    (hrate : p.hashesPerSecond.isFinite = true) (h : C.Holds bytes p) :
    p ∈ C.payloads bytes := by
  obtain ⟨a, b, rfl, ha⟩ := h
  have hline := mem_splitLines (b := b) ha fun x hx => no_lineFeed hC hrate hx
  exact List.mem_filterMap.2 ⟨_, hline, payloadOf_lineBytes hC hrate⟩

theorem payloads_nil : C.payloads [] = [] := by
  have hblank : C.payloadOf [] = none := if_pos rfl
  unfold payloads splitLines
  rw [List.splitOnP_nil, List.filterMap_cons_none hblank, List.filterMap_nil]

/-- A find's line in front of any other bytes is read first, and the others are read alone. -/
theorem payloads_lineBytes (hC : C.Lawful) {p : FoundPayload}
    (hrate : p.hashesPerSecond.isFinite = true) (rest : List UInt8) :
    C.payloads (C.lineBytes p ++ 10 :: rest) = p :: C.payloads rest := by
  have hone : splitLines (C.lineBytes p) = [C.lineBytes p] :=
    List.splitOnP_eq_singleton fun b hb => by simpa using no_lineFeed hC hrate hb
  unfold payloads
  rw [splitLines_append, hone, List.singleton_append,
    List.filterMap_cons_some (payloadOf_lineBytes hC hrate)]

/-- The lines of the finds, one behind the other. -/
def serialized (C : Codec) (ps : List FoundPayload) : List UInt8 :=
  ps.flatMap fun p => utf8 (C.serialize p).toList

theorem payloads_serialized (hC : C.Lawful) {ps : List FoundPayload}
    (hrates : ∀ p ∈ ps, p.hashesPerSecond.isFinite = true) :
    C.payloads (C.serialized ps) = ps := by
  induction ps with
  | nil => exact payloads_nil
  | cons p ps ih =>
    unfold serialized at ih ⊢
    rw [List.flatMap_cons, utf8_serialize, List.append_assoc, List.singleton_append,
      payloads_lineBytes hC (hrates p List.mem_cons_self),
      ih fun q hq => hrates q (List.mem_cons_of_mem _ hq)]

/-- A find is written as one line and read back as itself; a file of such lines hands a
working journal the finds in their order. -/
theorem serialize_round_trips {σ : Type} (hC : C.Lawful) (record : σ → FoundPayload → σ)
    (io : ImportIo) (hread : io.readable = true) (archived : Option (List UInt8)) (j : σ) :
    (∀ p : FoundPayload, p.hashesPerSecond.isFinite = true →
      (∃ line, utf8 (C.serialize p).toList = line ++ [10] ∧ 10 ∉ line) ∧
      C.payloads (utf8 (C.serialize p).toList) = [p]) ∧
    ∀ ps : List FoundPayload, (∀ p ∈ ps, p.hashesPerSecond.isFinite = true) →
      C.payloads (C.serialized ps) = ps ∧
      (importInto C (working record) io ⟨some (C.serialized ps), archived⟩ j).1 =
        ps.foldl record j := by
  refine ⟨fun p hrate => ⟨⟨C.lineBytes p, C.utf8_serialize p, ?_⟩, ?_⟩, fun ps hrates => ⟨?_, ?_⟩⟩
  · intro hmem
    exact no_lineFeed hC hrate hmem rfl
  · have hone : C.payloads (C.serialized [p]) = [p] :=
      payloads_serialized hC (List.forall_mem_singleton.2 hrate)
    unfold serialized at hone
    rwa [List.flatMap_singleton] at hone
  · exact payloads_serialized hC hrates
  · rw [importInto_working C record io hread, Option.getD_some, payloads_serialized hC hrates]

/-- A key with a quote, a carriage return, a line feed and blanks around it. -/
theorem serialize_round_trips_hostile :
    Codec.sample.payloads (utf8 (Codec.sample.serialize
      ⟨" \"\r\n𝄞\t ", "hash", "account", .xuni, 1, "worker", 1, ⟨0⟩,
        "2026-01-01T00:00:00Z"⟩).toList) =
      [⟨" \"\r\n𝄞\t ", "hash", "account", .xuni, 1, "worker", 1, ⟨0⟩,
        "2026-01-01T00:00:00Z"⟩] :=
  ((serialize_round_trips sample_lawful (fun n (_ : FoundPayload) => n + 1) ⟨true, true, true⟩ rfl
    none 0).1 _ (by decide)).2

end Codec

/-! ## Runs of the sink -/

/-- The sink and the finds whose append returned true. -/
structure SinkState where
  sink : Sink
  acked : List FoundPayload

def SinkState.start : SinkState := ⟨⟨none, none⟩, []⟩

def SinkState.bytes (s : SinkState) : List UInt8 := s.sink.file.getD []

section Runs

variable (C : Codec)

def sinkStep (s : SinkState) (op : FoundPayload × WriteOutcome) : SinkState :=
  ⟨(C.append s.sink op.1 op.2).1,
    if (C.append s.sink op.1 op.2).2 then s.acked ++ [op.1] else s.acked⟩

/-- Every working journal that imports the file now is handed every acknowledged find. -/
def Durable (s : SinkState) : Prop :=
  ∀ (σ : Type) (record : σ → FoundPayload → σ) (j : σ) (io : ImportIo), io.readable = true →
    ∃ handed : List FoundPayload,
      (importInto C (working record) io s.sink j).1 = handed.foldl record j ∧
        ∀ p ∈ s.acked, p ∈ handed

/-- An append that returns true starts a line and has a finite hash rate to write. -/
def CleanAppend (t : Trans SinkState (FoundPayload × WriteOutcome)) : Prop :=
  t.ev.2 = .synced → AtLineStart t.pre.bytes ∧ t.ev.1.hashesPerSecond.isFinite = true

/-- Every acknowledged find has its own line. -/
def Kept (s : SinkState) : Prop :=
  ∀ p ∈ s.acked, C.Holds s.bytes p ∧ p.hashesPerSecond.isFinite = true

variable {C}

theorem Kept.durable (hC : C.Lawful) {s : SinkState} (h : Kept C s) : Durable C s := by
  intro σ record j io hread
  refine ⟨C.payloads s.bytes, importInto_working C record io hread s.sink j, fun p hp => ?_⟩
  obtain ⟨hline, hrate⟩ := h p hp
  exact hline.mem_payloads hC hrate

theorem torn_bytes (s : SinkState) (p : FoundPayload) (n : Nat) :
    (sinkStep C s (p, .torn n)).bytes = s.bytes ++ (C.lineBytes p ++ [10]).take n := by
  rw [← C.utf8_serialize]
  rfl

theorem synced_bytes (s : SinkState) (p : FoundPayload) :
    (sinkStep C s (p, .synced)).bytes = s.bytes ++ (C.lineBytes p ++ [10]) := by
  rw [← C.utf8_serialize]
  rfl

/-- An append only adds bytes, and all of its line when it returns true. -/
theorem sinkStep_cases (s : SinkState) (op : FoundPayload × WriteOutcome) :
    (op.2 ≠ .synced ∧ (sinkStep C s op).acked = s.acked ∧
      ∃ more, (sinkStep C s op).bytes = s.bytes ++ more) ∨
    (op.2 = .synced ∧ (sinkStep C s op).acked = s.acked ++ [op.1] ∧
      (sinkStep C s op).bytes = s.bytes ++ (C.lineBytes op.1 ++ [10])) := by
  obtain ⟨p, io⟩ := op
  rcases io with _ | n | _ | _
  · exact Or.inl ⟨nofun, rfl, [], (List.append_nil _).symm⟩
  · exact Or.inl ⟨nofun, rfl, _, rfl⟩
  · exact Or.inl ⟨nofun, rfl, _, rfl⟩
  · exact Or.inr ⟨rfl, rfl, synced_bytes s p⟩

theorem kept_step (t : Trans SinkState (FoundPayload × WriteOutcome))
    (hstep : t.post = sinkStep C t.pre t.ev) (h : Kept C t.pre) (hclean : CleanAppend t) :
    Kept C t.post := by
  rw [hstep]
  intro p hp
  rcases sinkStep_cases (C := C) t.pre t.ev with ⟨-, hacked, more, hbytes⟩ | ⟨hok, hacked, hbytes⟩
  · rw [hacked] at hp
    obtain ⟨hline, hrate⟩ := h p hp
    rw [hbytes]
    exact ⟨hline.append more, hrate⟩
  · rw [hacked] at hp
    rw [hbytes]
    rcases List.mem_append.1 hp with hp | hp
    · obtain ⟨hline, hrate⟩ := h p hp
      exact ⟨hline.append _, hrate⟩
    · obtain ⟨hstart, hrate⟩ := hclean hok
      rw [List.mem_singleton.1 hp]
      exact ⟨⟨t.pre.bytes, [], rfl, hstart⟩, hrate⟩

theorem start_kept : Kept C .start := by
  intro p hp
  cases hp

/-- Whatever cuts the other appends short, no acknowledged find is lost as long as
each acknowledged line started at the beginning of a line. -/
theorem acked_finds_are_imported (hC : C.Lawful) (ops : List (FoundPayload × WriteOutcome))
    (hclean : ∀ t ∈ trace (sinkStep C) .start ops, CleanAppend t) :
    ∀ s ∈ visited .start (trace (sinkStep C) .start ops), Durable C s := by
  have hrun := Run.trace (sinkStep C) .start ops
  have hinv := (hrun.inv_of kept_step start_kept hclean).1
  intro s hs
  exact (hinv s hs).durable hC

end Runs

/-- A capture with these texts fixed. -/
def FoundPayload.captured (key : String) : FoundPayload :=
  ⟨key, "hash", "account", .xen11, 1, "worker", 1, ⟨0⟩, "2026-01-01T00:00:00Z"⟩

theorem atLineStart_append (bytes : List UInt8) : AtLineStart (bytes ++ [10]) :=
  Or.inr (List.getLast?_concat)

/-- Two finds survive an append that writes nothing and one that is cut short behind them. -/
theorem acked_finds_are_imported_around_a_cut : Durable .sample
    ([(.captured "a", .synced), (.captured "b", .torn 0), (.captured "c", .synced),
      (.captured "d", .torn 5)].foldl (sinkStep .sample) .start) := by
  refine acked_finds_are_imported Codec.sample_lawful
    [(.captured "a", .synced), (.captured "b", .torn 0), (.captured "c", .synced),
      (.captured "d", .torn 5)] (fun t ht => ?_) _ (List.mem_of_getLast? rfl)
  simp only [trace, List.mem_cons, List.not_mem_nil, or_false] at ht
  rcases ht with rfl | rfl | rfl | rfl
  · exact fun _ => ⟨Or.inl rfl, by decide⟩
  · exact nofun
  · refine fun _ => ⟨?_, by decide⟩
    dsimp only
    rw [torn_bytes, List.take_zero, List.append_nil, synced_bytes, ← List.append_assoc]
    exact atLineStart_append _
  · exact nofun

/-! ## A line behind a torn one -/

section Torn

open Lib.Json

/-- No JSON text opens two objects at once. -/
theorem not_text_braces (s : List Char) (j : Json) : ¬ Text ('{' :: '{' :: s) j := by
  rintro ⟨s1, s2, hw, hv, -⟩
  have hbrace : ∀ t, Trimmed ('{' :: t) := trimmed_cons (by decide)
  cases ws_unique (⟨[], rfl, by simp⟩ : Ws _ ('{' :: '{' :: s)) hw (hbrace _) (value_trimmed hv)
  have hinner : Ws ('{' :: s) ('{' :: s) := ⟨[], rfl, by simp⟩
  rcases value_object hv with ⟨hclose, -⟩ | ⟨ms, hms, -⟩
  · exact absurd (close_unique hinner hclose (by decide) (by decide)).1 (by decide)
  · cases hms with
    | last h1 _ _ _ _ _ =>
      exact absurd (close_unique hinner h1 (by decide) (by decide)).1 (by decide)
    | cons h1 _ _ _ _ _ _ =>
      exact absurd (close_unique hinner h1 (by decide) (by decide)).1 (by decide)

variable {C : Codec}

theorem payloadOf_behind_brace (hC : C.Lawful) (p : FoundPayload) :
    C.payloadOf (123 :: C.lineBytes p) = none := by
  obtain ⟨mid, hmid⟩ := C.lineBytes_eq p
  have htrim : trimLine (123 :: C.lineBytes p) = 123 :: C.lineBytes p := by
    rw [hmid]
    exact trimLine_visible (a := 123) (b := 125) (by decide) (by decide) (123 :: mid)
  have hbrace : utf8 ['{'] = [123] := by decide
  have htext : 123 :: C.lineBytes p = utf8 ('{' :: C.serializeBody p) := by
    have happend := utf8_append ['{'] (C.serializeBody p)
    rw [hbrace, List.singleton_append, List.singleton_append] at happend
    exact happend.symm
  have hnone : C.fromStr (String.ofList ('{' :: C.serializeBody p)) = none := by
    by_contra hsome
    obtain ⟨v, hv⟩ := Option.ne_none_iff_exists'.1 hsome
    obtain ⟨j, hj⟩ := hC.sound hv
    rw [String.toList_ofList, C.serializeBody_eq p (.int 0)] at hj
    exact not_text_braces _ j hj
  unfold Codec.payloadOf
  rw [htrim, List.isEmpty_cons, htext, fromUtf8_utf8]
  unfold Codec.parsePayload
  rw [if_neg Bool.false_ne_true, Option.bind_some, hnone]
  rfl

/-- The journal that lists what it is handed. -/
theorem foldl_concat (l acc : List FoundPayload) :
    l.foldl (fun js p => js ++ [p]) acc = acc ++ l := by
  induction l generalizing acc with
  | nil => rw [List.foldl_nil, List.append_nil]
  | cons a l ih => rw [List.foldl_cons, ih, List.append_assoc, List.singleton_append]

/-- After one byte of a line, the next line is lost although its append returned true. -/
theorem lost_behind_brace (hC : C.Lawful) (p q : FoundPayload)
    (hq : q.hashesPerSecond.isFinite = true) :
    ¬ Durable C ([(p, .torn 1), (q, .synced)].foldl (sinkStep C) .start) := by
  intro h
  obtain ⟨handed, himport, hacked⟩ := h (List FoundPayload) (fun js p => js ++ [p]) []
    ⟨true, true, true⟩ rfl
  obtain ⟨mid, hmid⟩ := C.lineBytes_eq p
  have hbytes : SinkState.bytes ([(p, .torn 1), (q, .synced)].foldl (sinkStep C) .start) =
      (123 :: C.lineBytes q) ++ 10 :: [] := by
    have hstart : SinkState.start.bytes = [] := rfl
    rw [List.foldl_cons, List.foldl_cons, List.foldl_nil, synced_bytes, torn_bytes, hmid, hstart,
      List.cons_append, List.take_succ_cons, List.take_zero]
    simp only [List.nil_append, List.cons_append]
  have hno : ∀ b ∈ 123 :: C.lineBytes q, b ≠ 10 := by
    intro b hb
    rcases List.mem_cons.1 hb with rfl | hb
    · decide
    · exact Codec.no_lineFeed hC hq hb
  have hlines : C.payloads ((123 :: C.lineBytes q) ++ 10 :: []) = [] := by
    have hone : splitLines (123 :: C.lineBytes q) = [123 :: C.lineBytes q] :=
      List.splitOnP_eq_singleton fun x hx => by simpa using hno x hx
    have hempty : C.payloadOf [] = none := if_pos rfl
    unfold Codec.payloads
    rw [splitLines_append, hone, List.singleton_append,
      List.filterMap_cons_none (payloadOf_behind_brace hC q)]
    unfold splitLines
    rw [List.splitOnP_nil, List.filterMap_cons_none hempty, List.filterMap_nil]
  rw [importInto_working C _ _ rfl] at himport
  change (C.payloads (SinkState.bytes _)).foldl _ _ = _ at himport
  rw [hbytes, hlines] at himport
  rw [foldl_concat, foldl_concat, List.nil_append, List.nil_append] at himport
  have hmem := hacked q (by simp [sinkStep, Codec.append, SinkState.start])
  rw [← himport] at hmem
  cases hmem

/-- A failing append leaves one byte behind; the acknowledged find behind it is gone. -/
theorem acked_find_is_lost : ¬ Durable .sample
    ([(.captured "a", .torn 1), (.captured "b", .synced)].foldl (sinkStep .sample) .start) :=
  lost_behind_brace Codec.sample_lawful _ _ (by decide)

end Torn

end TreeMiner
