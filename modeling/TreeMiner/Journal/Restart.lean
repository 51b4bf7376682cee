import Mathlib.Data.List.Nodup
import TreeMiner.Journal.Durability

/-! An import that fails or stops at any record, and is run again: it only adds rows, each the
capture of the first line of its key, and one pass to the end adds all that were missing. -/

namespace TreeMiner

open Lib

/-! ## The import, a piece at a time -/

/-- A statement of the rest of the process. -/
inductive Statement
  | append (payload : FoundPayload)
  | recordAttempt (id : Int) (c : Classification) (httpStatus : Option Int) (responseBody : String)
      (nextAttemptAt : Option String) (nowUtc : String)
  | unparkForDifficulty (difficulty : UInt32)
  | unparkXuniForWindow (maxWindows : Int)
  | recoverOnStartup

def Statement.run (t : Finds) : Statement → Finds
  | .append payload => (t.append payload).2
  | .recordAttempt id c httpStatus responseBody nextAttemptAt nowUtc =>
    match t.recordAttempt id c httpStatus responseBody nextAttemptAt nowUtc with
    | .ok t' => t'
    | .error _ => t
  | .unparkForDifficulty difficulty => t.unparkForDifficulty difficulty
  | .unparkXuniForWindow maxWindows => t.unparkXuniForWindow maxWindows
  | .recoverOnStartup => t.recoverOnStartup

/-- Where an import stands. -/
inductive ImportPhase
  | idle
  /-- in the line loop -/
  | lines (left : List (List UInt8))
  /-- behind a clean pass -/
  | archive
  /-- behind the removal of the old archive -/
  | rename
deriving DecidableEq

structure ImportState where
  journal : Finds
  sink : Sink
  phase : ImportPhase

/-- What becomes of one `append` of the import. -/
inductive AppendFate
  | stored
  | refused
  /-- stored, but the caller sees an error or stops before it sees anything -/
  | unreported

inductive ImportEvent
  | start (readable : Bool)
  /-- one round of the line loop -/
  | line (fate : AppendFate)
  | removeArchive (removed : Bool)
  | renameFile (renamed : Bool)
  /-- the process stops -/
  | stop
  | statement (op : Statement)

variable (C : Codec)

/-- One round of the line loop. -/
def importRound (s : ImportState) (raw : List UInt8) (left : List (List UInt8))
    (fate : AppendFate) : ImportState :=
  match C.payloadOf raw with
  | none => { s with phase := .lines left }
  | some payload =>
    match fate with
    | .stored => { s with journal := (s.journal.append payload).2, phase := .lines left }
    | .refused => { s with phase := .idle }
    | .unreported => { s with journal := (s.journal.append payload).2, phase := .idle }

def importStep (s : ImportState) : ImportEvent → ImportState
  | .start readable =>
    match s.phase, s.sink.file with
    | .idle, some bytes => if readable then { s with phase := .lines (splitLines bytes) } else s
    | _, _ => s
  | .line fate =>
    match s.phase with
    | .lines [] => { s with phase := .archive }
    | .lines (raw :: left) => importRound C s raw left fate
    | _ => s
  | .removeArchive removed =>
    match s.phase with
    | .archive =>
      { s with
        sink := { s.sink with archived := if removed then none else s.sink.archived }
        phase := .rename }
    | _ => s
  | .renameFile renamed =>
    match s.phase with
    | .rename => { s with sink := if renamed then ⟨none, s.sink.file⟩ else s.sink, phase := .idle }
    | _ => s
  | .stop => { s with phase := .idle }
  | .statement op => { s with journal := op.run s.journal }

def ImportState.start (t : Finds) (bytes : List UInt8) (archived : Option (List UInt8)) :
    ImportState :=
  ⟨t, ⟨some bytes, archived⟩, .idle⟩

/-! ## The whole import is its pieces -/

/-- A journal that takes `n` more finds. -/
def takes (j : Finds × Nat) (p : FoundPayload) : Except JournalError (Finds × Nat) :=
  match j.2 with
  | 0 => .error (.contract "journal failed")
  | n + 1 => .ok ((j.1.append p).2, n)

section Loop

variable {σ : Type*} (append : σ → FoundPayload → Except JournalError σ)

theorem importLines_skip {raw : List UInt8} (h : C.payloadOf raw = none)
    (rest : List (List UInt8)) (j : σ) (stats : ImportStats) : ∃ stats',
      importLines C append (raw :: rest) j stats = importLines C append rest j stats' := by
  rw [importLines.eq_def]
  dsimp only
  by_cases hblank : (trimLine raw).isEmpty = true
  · exact ⟨stats, if_pos hblank⟩
  · have hread : C.payloadOf raw = (fromUtf8 (trimLine raw)).bind C.parsePayload := if_neg hblank
    rw [if_neg hblank, ← hread, h]
    exact ⟨_, rfl⟩

theorem importLines_take {raw : List UInt8} {p : FoundPayload} (h : C.payloadOf raw = some p)
    (rest : List (List UInt8)) (j : σ) (stats : ImportStats) :
    importLines C append (raw :: rest) j stats =
      match append j p with
      | .error _ => (j, stats, false)
      | .ok j => importLines C append rest j { stats with imported := stats.imported + 1 } := by
  have hblank : ¬ (trimLine raw).isEmpty = true := by
    intro hblank
    have hnone : C.payloadOf raw = none := if_pos hblank
    rw [hnone] at h
    cases h
  have hread : C.payloadOf raw = (fromUtf8 (trimLine raw)).bind C.parsePayload := if_neg hblank
  rw [importLines.eq_def]
  dsimp only
  rw [if_neg hblank, ← hread]
  cases htaken : append j p with
  | error e => simp only [h, htaken]
  | ok j' => simp only [h, htaken]

end Loop

/-- The rounds of a loop in which the journal takes `n` finds. -/
theorem importLines_rounds (lines : List (List UInt8)) (t : Finds) (n : Nat) (sink : Sink)
    (stats : ImportStats) : ∃ fates : List AppendFate,
      (fates.map .line).foldl (importStep C) ⟨t, sink, .lines lines⟩ =
        ⟨(importLines C takes lines (t, n) stats).1.1, sink,
          if (importLines C takes lines (t, n) stats).2.2 then .archive else .idle⟩ := by
  induction lines generalizing t n stats with
  | nil => exact ⟨[.stored], rfl⟩
  | cons raw rest ih =>
    rcases hp : C.payloadOf raw with _ | p
    · obtain ⟨stats', hskip⟩ := importLines_skip C takes hp rest (t, n) stats
      obtain ⟨fates, hrun⟩ := ih t n stats'
      refine ⟨.stored :: fates, ?_⟩
      rw [hskip, ← hrun, List.map_cons, List.foldl_cons]
      congr 1
      simp only [importStep, importRound, hp]
    · rw [importLines_take C takes hp]
      cases n with
      | zero =>
        refine ⟨[.refused], ?_⟩
        simp only [List.map_cons, List.map_nil, List.foldl_cons, List.foldl_nil, importStep,
          importRound, hp]
        rfl
      | succ n =>
        obtain ⟨fates, hrun⟩ := ih (t.append p).2 n { stats with imported := stats.imported + 1 }
        refine ⟨.stored :: fates, ?_⟩
        rw [List.map_cons, List.foldl_cons]
        have hstep : importStep C ⟨t, sink, .lines (raw :: rest)⟩ (.line .stored) =
            ⟨(t.append p).2, sink, .lines rest⟩ := by
          simp only [importStep, importRound, hp]
        rw [hstep, hrun]
        rfl

/-- An import that is not stopped is a run of its pieces. -/
theorem importInto_pieces (io : ImportIo) (s : Sink) (t : Finds) (n : Nat) :
    ∃ events : List ImportEvent, events.foldl (importStep C) ⟨t, s, .idle⟩ =
      ⟨(importInto C takes io s (t, n)).1.1, (importInto C takes io s (t, n)).2.1, .idle⟩ := by
  unfold importInto
  rcases hfile : s.file with _ | bytes
  · exact ⟨[], rfl⟩
  · dsimp only
    by_cases hread : io.readable = true
    · have hstart : importStep C ⟨t, s, .idle⟩ (.start true) = ⟨t, s, .lines (splitLines bytes)⟩ := by
        simp only [importStep, hfile, if_true]
      obtain ⟨fates, hrun⟩ := importLines_rounds C (splitLines bytes) t n s ⟨0, 0, true⟩
      rw [hread, Bool.not_true, if_neg Bool.false_ne_true]
      rcases hlines : importLines C takes (splitLines bytes) (t, n) ⟨0, 0, true⟩ with ⟨j, stats, clean⟩
      rw [hlines] at hrun
      cases clean with
      | false =>
        refine ⟨.start true :: fates.map .line, ?_⟩
        rw [List.foldl_cons, hstart, hrun]
        rfl
      | true =>
        refine ⟨.start true :: (fates.map .line ++ [.removeArchive io.removed,
          .renameFile io.renamed]), ?_⟩
        rw [List.foldl_cons, hstart, List.foldl_append, hrun]
        dsimp only
        cases hren : io.renamed with
        | false => simp [importStep, hfile]
        | true => simp [importStep, hfile]
    · exact ⟨[], by rw [Bool.not_eq_true] at hread; rw [hread]; rfl⟩

/-! ## One piece -/

/-- The columns a find is captured with, as they are read back. -/
def FoundPayload.asStored (p : FoundPayload) : FoundPayload :=
  { p with hashesPerSecond := p.hashesPerSecond.stored }

/-- The first line of the file with the key. -/
def Codec.firstLine (bytes : List UInt8) (key : String) : Option FoundPayload :=
  (C.payloads bytes).find? fun p => p.key = key

/-- No row is touched, and a new one is the capture of the first line of a new key. -/
def ImportsFirst (bytes : List UInt8) (t t' : Finds) : Prop :=
  t' = t ∨ ∃ p, C.firstLine bytes p.key = some p ∧ (∀ r ∈ t.rows, r.payload.key ≠ p.key) ∧
    t'.rows = t.rows ++ [t.newRecord p]

def ImportEvent.isStatement : ImportEvent → Bool
  | .statement _ => true
  | _ => false

namespace Finds

/-- Every row lives on, with the columns it was captured with. -/
def Captures (t t' : Finds) : Prop :=
  ∀ r ∈ t.rows, ∃ r' ∈ t'.rows, r'.id = r.id ∧ r'.payload = r.payload

def HasKey (t : Finds) (key : String) : Prop := ∃ r ∈ t.rows, r.payload.key = key

theorem Captures.refl (t : Finds) : t.Captures t := fun r hr => ⟨r, hr, rfl, rfl⟩

theorem Captures.trans {a b c : Finds} (h1 : a.Captures b) (h2 : b.Captures c) : a.Captures c := by
  intro r hr
  obtain ⟨r1, hr1, hid1, hpay1⟩ := h1 r hr
  obtain ⟨r2, hr2, hid2, hpay2⟩ := h2 r1 hr1
  exact ⟨r2, hr2, hid2.trans hid1, hpay2.trans hpay1⟩

theorem Captures.hasKey {t t' : Finds} (h : t.Captures t') {key : String} (hk : t.HasKey key) :
    t'.HasKey key := by
  obtain ⟨r, hr, hkey⟩ := hk
  obtain ⟨r', hr', -, hpay⟩ := h r hr
  exact ⟨r', hr', by rw [hpay, hkey]⟩

/-- A statement that writes neither ids nor captured columns. -/
structure Rewrites (t t' : Finds) : Prop where
  kept : t.Captures t'
  old : t'.Captures t

theorem Rewrites.of_map {t t' : Finds} {f : FindRecord → FindRecord}
    (h : t'.rows = t.rows.map f) (hid : ∀ r, (f r).id = r.id)
    (hpay : ∀ r, (f r).payload = r.payload) : t.Rewrites t' := by
  constructor
  · intro r hr
    exact ⟨f r, by rw [h]; exact List.mem_map_of_mem hr, hid r, hpay r⟩
  · intro r hr
    rw [h] at hr
    obtain ⟨r0, hr0, rfl⟩ := List.mem_map.1 hr
    exact ⟨r0, hr0, (hid r0).symm, (hpay r0).symm⟩

theorem Rewrites.trans {a b c : Finds} (h1 : a.Rewrites b) (h2 : b.Rewrites c) : a.Rewrites c :=
  ⟨h1.kept.trans h2.kept, h2.old.trans h1.old⟩

theorem append_cases (t : Finds) (p : FoundPayload) :
    (t.HasKey p.key ∧ (t.append p).2 = t) ∨
    ((∀ r ∈ t.rows, r.payload.key ≠ p.key) ∧ (t.append p).2.rows = t.rows ++ [t.newRecord p]) := by
  rcases t.append_spec p with ⟨r, hr, hkey, h⟩ | ⟨hnew, -, hrows⟩
  · exact Or.inl ⟨⟨r, hr, hkey⟩, by rw [h]⟩
  · exact Or.inr ⟨hnew, hrows⟩

theorem append_captures (t : Finds) (p : FoundPayload) : t.Captures (t.append p).2 := by
  rcases t.append_cases p with ⟨-, h⟩ | ⟨-, h⟩
  · rw [h]
    exact .refl t
  · intro r hr
    rw [h]
    exact ⟨r, List.mem_append_left _ hr, rfl, rfl⟩

theorem append_hasKey (t : Finds) (p : FoundPayload) : (t.append p).2.HasKey p.key := by
  rcases t.append_cases p with ⟨hkey, h⟩ | ⟨-, h⟩
  · rw [h]
    exact hkey
  · exact ⟨t.newRecord p, by rw [h]; simp, rfl⟩

end Finds

theorem Statement.cases_run (t : Finds) (op : Statement) :
    (∃ p, op = .append p) ∨ t.Rewrites (op.run t) := by
  cases op with
  | append p => exact Or.inl ⟨p, rfl⟩
  | recordAttempt id c httpStatus responseBody nextAttemptAt nowUtc =>
    right
    unfold run Finds.recordAttempt
    dsimp only
    split_ifs
    · exact ⟨.refl t, .refl t⟩
    · exact .of_map rfl (fun r => by split_ifs <;> rfl) fun r => by split_ifs <;> rfl
    · exact ⟨.refl t, .refl t⟩
  | unparkForDifficulty difficulty =>
    exact Or.inr (.of_map rfl (fun r => by unfold Finds.unparkedAt; split_ifs <;> rfl)
      fun r => by unfold Finds.unparkedAt; split_ifs <;> rfl)
  | unparkXuniForWindow maxWindows =>
    right
    refine Finds.Rewrites.trans (b := t.update (Finds.exhausted maxWindows) ?_ ?_)
      (.of_map rfl ?_ ?_) (.of_map rfl ?_ ?_)
    all_goals
      intro r
      first | unfold Finds.exhausted | unfold Finds.unparkedXuni
      split_ifs <;> rfl
  | recoverOnStartup =>
    exact Or.inr (.of_map rfl (fun r => by unfold Finds.recovered; split_ifs <;> rfl)
      fun r => by unfold Finds.recovered; split_ifs <;> rfl)

/-! ## The invariant -/

variable {C} {bytes : List UInt8}

/-- All keys of these lines are journaled. -/
def Covers (C : Codec) (t : Finds) (lines : List (List UInt8)) : Prop :=
  ∀ p ∈ lines.filterMap C.payloadOf, t.HasKey p.key

theorem Covers.mono {t t' : Finds} {lines : List (List UInt8)} (h : Covers C t lines)
    (ht : t.Captures t') : Covers C t' lines := fun p hp => ht.hasKey (h p hp)

/-- Where the loop stands, what is behind it is journaled; the file is gone only when all of it
is. -/
structure Importing (C : Codec) (bytes : List UInt8) (s : ImportState) : Prop where
  file : s.sink.file = some bytes ∨ s.sink.file = none
  loop : ∀ left, s.phase = .lines left →
    ∃ behind, splitLines bytes = behind ++ left ∧ Covers C s.journal behind
  passed : s.phase = .archive ∨ s.phase = .rename → Covers C s.journal (splitLines bytes)

theorem importing_start (t : Finds) (bytes : List UInt8) (archived : Option (List UInt8)) :
    Importing C bytes (.start t bytes archived) := by
  refine ⟨Or.inl rfl, ?_, ?_⟩
  · intro left h
    cases h
  · rintro (h | h) <;> cases h

/-- What a piece does to the journal. -/
theorem importStep_journal (s : ImportState) (e : ImportEvent) :
    (∃ op, e = .statement op ∧ (importStep C s e).journal = op.run s.journal) ∨
    (e.isStatement = false ∧ ((importStep C s e).journal = s.journal ∨
      ∃ raw left p, s.phase = .lines (raw :: left) ∧ C.payloadOf raw = some p ∧
        (importStep C s e).journal = (s.journal.append p).2)) := by
  unfold importStep
  cases e with
  | statement op => exact Or.inl ⟨op, rfl, rfl⟩
  | stop => exact Or.inr ⟨rfl, Or.inl rfl⟩
  | start readable =>
    refine Or.inr ⟨rfl, Or.inl ?_⟩
    dsimp only
    split
    · split_ifs <;> rfl
    · rfl
  | removeArchive removed =>
    refine Or.inr ⟨rfl, Or.inl ?_⟩
    dsimp only
    split <;> rfl
  | renameFile renamed =>
    refine Or.inr ⟨rfl, Or.inl ?_⟩
    dsimp only
    split <;> rfl
  | line fate =>
    refine Or.inr ⟨rfl, ?_⟩
    dsimp only
    split
    · exact Or.inl rfl
    · next raw left hphase =>
      unfold importRound
      rcases hp : C.payloadOf raw with _ | p
      · exact Or.inl rfl
      · cases fate with
        | stored => exact Or.inr ⟨raw, left, p, hphase, hp, rfl⟩
        | refused => exact Or.inl rfl
        | unreported => exact Or.inr ⟨raw, left, p, hphase, hp, rfl⟩
    · exact Or.inl rfl

theorem importStep_captures (s : ImportState) (e : ImportEvent) :
    s.journal.Captures (importStep C s e).journal := by
  rcases @importStep_journal C s e with ⟨op, -, h⟩ | ⟨-, h | ⟨_, _, p, -, -, h⟩⟩
  · rw [h]
    rcases op.cases_run s.journal with ⟨p, rfl⟩ | hrew
    · exact s.journal.append_captures p
    · exact hrew.kept
  · rw [h]
    exact .refl _
  · rw [h]
    exact s.journal.append_captures p

/-- Where a piece leaves the import. -/
theorem importStep_phase (s : ImportState) (e : ImportEvent) :
    (importStep C s e).phase = s.phase ∨ (importStep C s e).phase = .idle ∨
    (∃ bytes, s.sink.file = some bytes ∧ (importStep C s e).phase = .lines (splitLines bytes)) ∨
    (∃ raw left, s.phase = .lines (raw :: left) ∧ (importStep C s e).phase = .lines left ∧
      ∀ p, C.payloadOf raw = some p → (importStep C s e).journal.HasKey p.key) ∨
    (s.phase = .lines [] ∧ (importStep C s e).phase = .archive) ∨
    (s.phase = .archive ∧ (importStep C s e).phase = .rename) := by
  unfold importStep
  cases e with
  | statement op => exact Or.inl rfl
  | stop => exact Or.inr (Or.inl rfl)
  | start readable =>
    dsimp only
    split
    · next bytes _ hfile =>
      split_ifs
      · exact Or.inr (Or.inr (Or.inl ⟨bytes, hfile, rfl⟩))
      · exact Or.inl rfl
    · exact Or.inl rfl
  | removeArchive removed =>
    dsimp only
    split
    · next hphase => exact Or.inr (Or.inr (Or.inr (Or.inr (Or.inr ⟨hphase, rfl⟩))))
    · exact Or.inl rfl
  | renameFile renamed =>
    dsimp only
    split
    · exact Or.inr (Or.inl rfl)
    · exact Or.inl rfl
  | line fate =>
    dsimp only
    split
    · next hphase => exact Or.inr (Or.inr (Or.inr (Or.inr (Or.inl ⟨hphase, rfl⟩))))
    · next raw left hphase =>
      unfold importRound
      rcases hp : C.payloadOf raw with _ | p
      · refine Or.inr (Or.inr (Or.inr (Or.inl ⟨raw, left, hphase, rfl, fun p h => ?_⟩)))
        rw [hp] at h
        cases h
      · cases fate with
        | stored =>
          refine Or.inr (Or.inr (Or.inr (Or.inl ⟨raw, left, hphase, rfl, fun q h => ?_⟩)))
          rw [hp] at h
          cases h
          exact s.journal.append_hasKey p
        | refused => exact Or.inr (Or.inl rfl)
        | unreported => exact Or.inr (Or.inl rfl)
    · exact Or.inl rfl

theorem importStep_file (s : ImportState) (e : ImportEvent) :
    (importStep C s e).sink.file = s.sink.file ∨ (importStep C s e).sink.file = none := by
  unfold importStep
  cases e with
  | statement op => exact Or.inl rfl
  | stop => exact Or.inl rfl
  | start readable =>
    dsimp only
    split
    · split_ifs <;> exact Or.inl rfl
    · exact Or.inl rfl
  | removeArchive removed =>
    dsimp only
    split <;> exact Or.inl rfl
  | renameFile renamed =>
    dsimp only
    split
    · dsimp only
      split_ifs
      · exact Or.inr rfl
      · exact Or.inl rfl
    · exact Or.inl rfl
  | line fate =>
    dsimp only
    split
    · exact Or.inl rfl
    · unfold importRound
      split
      · exact Or.inl rfl
      · cases fate <;> exact Or.inl rfl
    · exact Or.inl rfl

theorem importing_step {s : ImportState} (e : ImportEvent) (h : Importing C bytes s) :
    Importing C bytes (importStep C s e) := by
  have hcap := @importStep_captures C s e
  refine ⟨?_, ?_, ?_⟩
  · rcases @importStep_file C s e with hf | hf
    · rw [hf]
      exact h.file
    · exact Or.inr hf
  · intro left hleft
    rcases @importStep_phase C s e with hp | hp | ⟨b, hb, hp⟩ | ⟨raw, rest, hs, hp, hkey⟩ |
      ⟨-, hp⟩ | ⟨-, hp⟩
    · obtain ⟨behind, heq, hcov⟩ := h.loop left (hp ▸ hleft)
      exact ⟨behind, heq, hcov.mono hcap⟩
    · rw [hp] at hleft
      cases hleft
    · rw [hp] at hleft
      cases hleft
      rcases h.file with hf | hf
      · rw [hb] at hf
        cases hf
        exact ⟨[], rfl, fun p hmem => by cases hmem⟩
      · rw [hb] at hf
        cases hf
    · rw [hp] at hleft
      cases hleft
      obtain ⟨behind, heq, hcov⟩ := h.loop _ hs
      refine ⟨behind ++ [raw], by rw [heq, List.append_assoc, List.singleton_append], ?_⟩
      intro p hmem
      rw [List.filterMap_append, List.mem_append] at hmem
      rcases hmem with hmem | hmem
      · exact hcov.mono hcap p hmem
      · obtain ⟨x, hx, hpay⟩ := List.mem_filterMap.1 hmem
        rw [List.mem_singleton.1 hx] at hpay
        exact hkey p hpay
    · rw [hp] at hleft
      cases hleft
    · rw [hp] at hleft
      cases hleft
  · intro hphase
    rcases @importStep_phase C s e with hp | hp | ⟨b, hb, hp⟩ | ⟨raw, rest, hs, hp, hkey⟩ |
      ⟨hs, hp⟩ | ⟨hs, hp⟩
    · exact (h.passed (hp ▸ hphase)).mono hcap
    · rw [hp] at hphase
      rcases hphase with h | h <;> cases h
    · rw [hp] at hphase
      rcases hphase with h | h <;> cases h
    · rw [hp] at hphase
      rcases hphase with h | h <;> cases h
    · obtain ⟨behind, heq, hcov⟩ := h.loop _ hs
      rw [List.append_nil] at heq
      rw [heq]
      exact hcov.mono hcap
    · exact (h.passed (Or.inl hs)).mono hcap

/-- A piece of the import adds at most the capture of a first line. -/
theorem importsFirst_step {s : ImportState} {e : ImportEvent} (h : Importing C bytes s)
    (he : e.isStatement = false) : ImportsFirst C bytes s.journal (importStep C s e).journal := by
  rcases @importStep_journal C s e with ⟨op, rfl, -⟩ | ⟨-, hj | ⟨raw, left, p, hs, hp, hj⟩⟩
  · cases he
  · exact Or.inl hj
  · rw [hj]
    rcases s.journal.append_cases p with ⟨-, hsame⟩ | ⟨hnew, hrows⟩
    · exact Or.inl hsame
    · refine Or.inr ⟨p, ?_, hnew, hrows⟩
      obtain ⟨behind, heq, hcov⟩ := h.loop _ hs
      unfold Codec.firstLine Codec.payloads
      rw [heq, List.filterMap_append, List.filterMap_cons_some hp, List.find?_append]
      have hbehind : (behind.filterMap C.payloadOf).find? (fun q => q.key = p.key) = none := by
        rw [List.find?_eq_none]
        intro q hq hkey
        obtain ⟨r, hr, hrkey⟩ := hcov q hq
        exact hnew r hr (hrkey.trans (of_decide_eq_true hkey))
      rw [hbehind]
      simp

/-! ## Runs -/

/-- Where a row of the journal comes from. -/
def Explained (C : Codec) (bytes : List UInt8) (t : Finds) (events : List ImportEvent)
    (r : FindRecord) : Prop :=
  (∃ r0 ∈ t.rows, r0.id = r.id ∧ r0.payload = r.payload) ∨
  (∃ p, .statement (.append p) ∈ events ∧ r.payload = p.asStored) ∨
  ∃ p, C.firstLine bytes r.payload.key = some p ∧ r.payload = p.asStored

/-- The journal behind a complete import: what was there, what the process captured meanwhile,
and one row for each key of the file. -/
structure Imported (C : Codec) (bytes : List UInt8) (t : Finds) (events : List ImportEvent)
    (t' : Finds) : Prop where
  kept : t.Captures t'
  once : ∀ p ∈ C.payloads bytes, ∃! r, r ∈ t'.rows ∧ r.payload.key = p.key
  explained : ∀ r ∈ t'.rows, Explained C bytes t events r

theorem explained_step {t : Finds} {events : List ImportEvent} {s : ImportState} {e : ImportEvent}
    (hinv : Importing C bytes s) (he : e ∈ events)
    (h : ∀ r ∈ s.journal.rows, Explained C bytes t events r) :
    ∀ r ∈ (importStep C s e).journal.rows, Explained C bytes t events r := by
  have hkeep : ∀ {t' : Finds}, t'.Captures s.journal → ∀ r ∈ t'.rows, Explained C bytes t events r := by
    intro t' hcap r hr
    obtain ⟨r0, hr0, hid, hpay⟩ := hcap r hr
    rcases h r0 hr0 with ⟨x, hx, hxid, hxpay⟩ | ⟨p, hp, hpp⟩ | ⟨p, hp, hpp⟩
    · exact Or.inl ⟨x, hx, hxid.trans hid, hxpay.trans hpay⟩
    · exact Or.inr (Or.inl ⟨p, hp, by rw [← hpay, hpp]⟩)
    · exact Or.inr (Or.inr ⟨p, by rw [← hpay, hp], by rw [← hpay, hpp]⟩)
  have hnew : ∀ {p : FoundPayload} {r : FindRecord} {t' : Finds},
      t'.rows = s.journal.rows ++ [s.journal.newRecord p] → r ∈ t'.rows →
      r ∈ s.journal.rows ∨ r.payload = p.asStored := by
    intro p r t' hrows hr
    rw [hrows] at hr
    rcases List.mem_append.1 hr with hr | hr
    · exact Or.inl hr
    · rw [List.mem_singleton.1 hr]
      exact Or.inr rfl
  intro r hr
  cases hst : e.isStatement with
  | true =>
    rcases @importStep_journal C s e with ⟨op, rfl, hj⟩ | ⟨hf, -⟩
    · rw [hj] at hr
      rcases op.cases_run s.journal with ⟨p, rfl⟩ | hrew
      · rcases s.journal.append_cases p with ⟨-, hsame⟩ | ⟨-, hrows⟩
        · change r ∈ (s.journal.append p).2.rows at hr
          rw [hsame] at hr
          exact h r hr
        · rcases hnew hrows hr with hr | hpay
          · exact h r hr
          · exact Or.inr (Or.inl ⟨p, he, hpay⟩)
      · exact hkeep hrew.old r hr
    · rw [hst] at hf
      cases hf
  | false =>
    rcases importsFirst_step hinv hst with hsame | ⟨p, hfirst, -, hrows⟩
    · rw [hsame] at hr
      exact h r hr
    · rcases hnew hrows hr with hr | hpay
      · exact h r hr
      · refine Or.inr (Or.inr ⟨p, ?_, hpay⟩)
        rw [hpay]
        exact hfirst

/-- Whatever stops an import, and whatever the process does between and meanwhile: none of its
pieces touches a row, and behind one complete pass the journal is the imported one. -/
theorem import_restartable (C : Codec) (bytes : List UInt8) (archived : Option (List UInt8))
    (t : Finds) (events : List ImportEvent) :
    (∀ x ∈ trace (importStep C) (.start t bytes archived) events, x.ev.isStatement = false →
      ImportsFirst C bytes x.pre.journal x.post.journal) ∧
    ((∃ x ∈ trace (importStep C) (.start t bytes archived) events, x.post.phase = .archive) →
      Imported C bytes t events
        (events.foldl (importStep C) (.start t bytes archived)).journal) := by
  have hrun := Run.trace (importStep C) (.start t bytes archived) events
  have hmem : ∀ x ∈ trace (importStep C) (.start t bytes archived) events, x.ev ∈ events :=
    fun x hx => mem_of_mem_trace hx
  have hstep : ∀ s e s', s' = importStep C s e → Importing C bytes s → Importing C bytes s' := by
    rintro s e _ rfl h
    exact importing_step e h
  have hcaptures : ∀ {t0 : Finds} (s : ImportState) (e s'), s' = importStep C s e →
      t0.Captures s.journal → t0.Captures s'.journal := by
    rintro t0 s e _ rfl h
    exact h.trans (importStep_captures s e)
  obtain ⟨hvisited, hpre, -⟩ := hrun.inv hstep (importing_start t bytes archived)
  constructor
  · intro x hx hst
    have hpost : x.post = importStep C x.pre x.ev := hrun.step_of_mem hx
    rw [hpost]
    exact importsFirst_step (hpre x hx) hst
  · rintro ⟨x, hx, hphase⟩
    have hcap : t.Captures (events.foldl (importStep C) (.start t bytes archived)).journal :=
      (hrun.inv (I := fun s => t.Captures s.journal) hcaptures (.refl t)).2.2
    have hexplained := (hrun.inv_of
      (I := fun s => Importing C bytes s ∧ ∀ r ∈ s.journal.rows, Explained C bytes t events r)
      (C := fun y => y.ev ∈ events)
      (fun y hy h hev => by
        have hy' : y.post = importStep C y.pre y.ev := hy
        rw [hy']
        exact ⟨importing_step _ h.1, explained_step h.1 hev h.2⟩)
      ⟨importing_start t bytes archived, fun r hr => Or.inl ⟨r, hr, rfl, rfl⟩⟩ hmem).2.2.2
    have hcovered : Covers C x.post.journal (splitLines bytes) := by
      have hpost := hvisited x.post (List.mem_cons_of_mem _ (List.mem_map_of_mem hx))
      exact hpost.passed (Or.inl hphase)
    obtain ⟨before, after, heq⟩ := List.append_of_mem hx
    rw [heq] at hrun
    have hlater := (hrun.split.2.2.inv (I := fun s => x.post.journal.Captures s.journal)
      hcaptures (.refl _)).2.2
    refine ⟨hcap, fun p hp => ?_, hexplained⟩
    obtain ⟨r, hr, hkey⟩ := hlater.hasKey (hcovered p hp)
    refine ⟨r, ⟨hr, hkey⟩, fun r' hr' => ?_⟩
    have hnodup := List.pairwise_map.2
      (events.foldl (importStep C) (.start t bytes archived)).journal.keys
    exact List.inj_on_of_nodup_map hnodup hr'.1 hr (hr'.2.trans hkey.symm)

end TreeMiner
