import Mathlib.Algebra.BigOperators.Group.List.Basic
import Mathlib.Data.List.DropRight

/-! Runs of a labelled step relation, kept with the transitions they take. An
invariant is checked on one step; the rules below carry it along every run. -/

namespace TreeMiner.Lib

variable {σ ε : Type*} {step : σ → ε → σ → Prop}

/-- One transition: the state before, the label, the state after. -/
structure Trans (σ ε : Type*) where
  pre : σ
  ev : ε
  post : σ

/-- `Run step s ts s'`: starting in `s`, the transitions `ts` lead to `s'`. -/
inductive Run (step : σ → ε → σ → Prop) : σ → List (Trans σ ε) → σ → Prop
  | nil {s : σ} : Run step s [] s
  | cons {s s' t : σ} {e : ε} {ts : List (Trans σ ε)} :
      step s e s' → Run step s' ts t → Run step s (⟨s, e, s'⟩ :: ts) t

/-- The states a run visits: where it starts and where each transition ends. -/
def visited (s : σ) (ts : List (Trans σ ε)) : List σ := s :: ts.map Trans.post

@[simp] theorem mem_visited_cons {s x : σ} {t : Trans σ ε} {ts : List (Trans σ ε)} :
    x ∈ visited s (t :: ts) ↔ x = s ∨ x ∈ visited t.post ts := by
  simp [visited]

theorem Run.mem_visited {s u : σ} {ts : List (Trans σ ε)} (h : Run step s ts u) :
    u ∈ visited s ts := by
  induction h with
  | nil => exact List.mem_cons_self
  | cons _ _ ih => exact mem_visited_cons.2 (Or.inr ih)

/-- A run passes through every transition it lists. -/
theorem Run.split {s u : σ} {ts us : List (Trans σ ε)} {t : Trans σ ε}
    (h : Run step s (ts ++ t :: us) u) :
    Run step s ts t.pre ∧ step t.pre t.ev t.post ∧ Run step t.post us u := by
  induction ts generalizing s with
  | nil => cases h with | cons hs hr => exact ⟨.nil, hs, hr⟩
  | cons a ts ih =>
    cases h with
    | cons hs hr =>
      obtain ⟨h1, h2, h3⟩ := ih hr
      exact ⟨.cons hs h1, h2, h3⟩

theorem Run.step_of_mem {s u : σ} {ts : List (Trans σ ε)} {t : Trans σ ε}
    (h : Run step s ts u) (ht : t ∈ ts) : step t.pre t.ev t.post := by
  obtain ⟨as, bs, rfl⟩ := List.append_of_mem ht
  exact h.split.2.1

/-- The last of a list with a property. -/
theorem exists_last {α : Type*} {P : α → Prop} {l : List α} (h : ∃ x ∈ l, P x) :
    ∃ before x after, l = before ++ x :: after ∧ P x ∧ ∀ y ∈ after, ¬ P y := by
  induction l with
  | nil => obtain ⟨x, hx, -⟩ := h; cases hx
  | cons a l ih =>
    by_cases hl : ∃ x ∈ l, P x
    · obtain ⟨before, x, after, rfl, hx, hafter⟩ := ih hl
      exact ⟨a :: before, x, after, rfl, hx, hafter⟩
    · obtain ⟨x, hx, hP⟩ := h
      rcases List.mem_cons.1 hx with rfl | hx
      · exact ⟨[], x, l, rfl, hP, fun y hy hPy => hl ⟨y, hy, hPy⟩⟩
      · exact absurd ⟨x, hx, hP⟩ hl

/-- What all transitions of a run meet may be read as part of its steps. -/
theorem Run.restrict {Q : Trans σ ε → Prop} {s u : σ} {ts : List (Trans σ ε)}
    (h : Run step s ts u) (hQ : ∀ t ∈ ts, Q t) :
    Run (fun s e s' => step s e s' ∧ Q ⟨s, e, s'⟩) s ts u := by
  induction h with
  | nil => exact .nil
  | cons hs _ ih =>
    exact .cons ⟨hs, hQ _ List.mem_cons_self⟩ (ih fun t ht => hQ t (List.mem_cons_of_mem _ ht))

/-- The invariant rule for runs whose transitions all meet a condition `C`. -/
theorem Run.inv_of {I : σ → Prop} {C : Trans σ ε → Prop} {s u : σ} {ts : List (Trans σ ε)}
    (hstep : ∀ t : Trans σ ε, step t.pre t.ev t.post → I t.pre → C t → I t.post)
    (h : Run step s ts u) (hs : I s) (hC : ∀ t ∈ ts, C t) :
    (∀ x ∈ visited s ts, I x) ∧ (∀ t ∈ ts, I t.pre) ∧ I u := by
  induction h with
  | nil => exact ⟨by simpa [visited] using hs, by simp, hs⟩
  | @cons s s' u e ts hst _ ih =>
    have hI : I s' := hstep ⟨s, e, s'⟩ hst hs (hC _ (by simp))
    obtain ⟨hv, hp, hu⟩ := ih hI fun t ht => hC t (by simp [ht])
    refine ⟨?_, ?_, hu⟩
    · intro x hx
      rcases mem_visited_cons.1 hx with rfl | hx
      · exact hs
      · exact hv x hx
    · intro t ht
      rcases List.mem_cons.1 ht with rfl | ht
      · exact hs
      · exact hp t ht

/-- The invariant rule: what one step preserves holds of every state of a run. -/
theorem Run.inv {I : σ → Prop} {s u : σ} {ts : List (Trans σ ε)}
    (hstep : ∀ s e s', step s e s' → I s → I s') (h : Run step s ts u) (hs : I s) :
    (∀ x ∈ visited s ts, I x) ∧ (∀ t ∈ ts, I t.pre) ∧ I u :=
  h.inv_of (C := fun _ => True) (fun _ ht hI _ => hstep _ _ _ ht hI) hs fun _ _ => trivial

/-- What a transition brings about and every step keeps holds at the end. -/
theorem Run.stable {Q : σ → Prop} {s u : σ} {ts : List (Trans σ ε)} {t : Trans σ ε}
    (hstep : ∀ s e s', step s e s' → Q s → Q s') (h : Run step s ts u) (ht : t ∈ ts)
    (hQ : Q t.post) : Q u := by
  obtain ⟨before, after, rfl⟩ := List.append_of_mem ht
  exact (h.split.2.2.inv hstep hQ).2.2

/-- The rule for something that is due (`D`): every step keeps it (`K`) but those that lose it
(`L`), and then it is gone for good (`G`). At the end of a run it is kept if and only if no
transition has lost it. -/
theorem Run.kept_iff {I D K G : σ → Prop} {L : Trans σ ε → Prop} {s u : σ}
    {ts : List (Trans σ ε)} (hstep : ∀ s e s', step s e s' → I s → I s')
    (hkeep : ∀ t : Trans σ ε, step t.pre t.ev t.post → I t.pre → ¬ L t →
      (D t.pre → K t.pre) → D t.post → K t.post)
    (hlose : ∀ t : Trans σ ε, step t.pre t.ev t.post → I t.pre → L t → G t.post)
    (hgone : ∀ s e s', step s e s' → I s → G s → G s')
    (hout : ∀ s, G s → ¬ K s) (h : Run step s ts u) (hs : I s) (hinit : D s → K s)
    (hdue : D u) : K u ↔ ∀ t ∈ ts, ¬ L t := by
  have hI := h.inv hstep hs
  constructor
  · intro hkept t ht hL
    have hpost : I t.post ∧ G t.post :=
      ⟨hstep _ _ _ (h.step_of_mem ht) (hI.2.1 t ht),
        hlose t (h.step_of_mem ht) (hI.2.1 t ht) hL⟩
    refine hout u (h.stable (Q := fun s => I s ∧ G s) ?_ ht hpost).2 hkept
    rintro s e s' hst ⟨hs, hg⟩
    exact ⟨hstep _ _ _ hst hs, hgone _ _ _ hst hs hg⟩
  · intro hC
    refine (h.inv_of (I := fun s => I s ∧ (D s → K s)) ?_ ⟨hs, hinit⟩ hC).2.2.2 hdue
    rintro t hst ⟨hIt, hk⟩ hL
    exact ⟨hstep _ _ _ hst hIt, hkeep t hst hIt hL hk⟩

/-- When `C` is exactly what keeps the invariant `I`, and a step that fails `C`
ends in a state without the property `P`, a run has `P` in every state if and
only if all its transitions meet `C`. -/
theorem Run.forall_iff {I P : σ → Prop} {C : Trans σ ε → Prop} {s u : σ}
    {ts : List (Trans σ ε)} (hP : ∀ x, I x → P x)
    (hstep : ∀ t : Trans σ ε, step t.pre t.ev t.post → I t.pre → C t → I t.post)
    (hbad : ∀ t : Trans σ ε, step t.pre t.ev t.post → I t.pre → ¬ C t → ¬ P t.post)
    (h : Run step s ts u) (hs : I s) :
    (∀ x ∈ visited s ts, P x) ↔ ∀ t ∈ ts, C t := by
  constructor
  · intro hall
    induction h with
    | nil => simp
    | @cons s s' u e ts hst _ ih =>
      have hC : C ⟨s, e, s'⟩ := by
        by_contra hn
        exact hbad _ hst hs hn (hall s' (by simp [visited]))
      have hI : I s' := hstep _ hst hs hC
      intro t ht
      rcases List.mem_cons.1 ht with rfl | ht
      · exact hC
      · exact ih hI (fun x hx => hall x (mem_visited_cons.2 (Or.inr hx))) t ht
  · intro hC x hx
    exact hP x ((h.inv_of hstep hs hC).1 x hx)

/-- What only a setting transition (`S`) brings about and only an ending one (`E`) takes away
holds after a run if and only if it was set, or held at the start, and nothing has ended it
since. -/
theorem Run.since_iff {P : σ → Prop} {S E : Trans σ ε → Prop} {s u : σ}
    {ts : List (Trans σ ε)} (h : Run step s ts u)
    (hstep : ∀ t : Trans σ ε, step t.pre t.ev t.post → (P t.post ↔ S t ∨ P t.pre ∧ ¬ E t)) :
    P u ↔ (∃ before c after, ts = before ++ c :: after ∧ S c ∧ ∀ t ∈ after, ¬ E t) ∨
      P s ∧ ∀ t ∈ ts, ¬ E t := by
  induction h with
  | nil => simp
  | @cons s s' u e ts hs _ ih =>
    rw [ih, hstep ⟨s, e, s'⟩ hs]
    constructor
    · rintro (⟨before, c, after, rfl, hc, hafter⟩ | ⟨hset | ⟨hP, hE⟩, hnone⟩)
      · exact Or.inl ⟨_ :: before, c, after, rfl, hc, hafter⟩
      · exact Or.inl ⟨[], _, ts, rfl, hset, hnone⟩
      · exact Or.inr ⟨hP, List.forall_mem_cons.2 ⟨hE, hnone⟩⟩
    · rintro (⟨before, c, after, hts, hc, hafter⟩ | ⟨hP, hnone⟩)
      · rcases List.cons_eq_append_iff.1 hts with ⟨rfl, hcons⟩ | ⟨before, rfl, rfl⟩
        · cases hcons
          exact Or.inr ⟨Or.inl hc, hafter⟩
        · exact Or.inl ⟨before, c, after, rfl, hc, hafter⟩
      · obtain ⟨hE, hnone⟩ := List.forall_mem_cons.1 hnone
        exact Or.inr ⟨Or.inr ⟨hP, hE⟩, hnone⟩

/-- What a run adds up to is the sum over its transitions. -/
theorem Run.sum {α : Type*} [AddMonoid α] {g : σ → α} {d : Trans σ ε → α} {s u : σ}
    {ts : List (Trans σ ε)} (h : Run step s ts u)
    (hstep : ∀ t : Trans σ ε, step t.pre t.ev t.post → g t.post = g t.pre + d t) :
    g u = g s + (ts.map d).sum := by
  induction h with
  | nil => simp
  | @cons s s' u e ts hs _ ih =>
    rw [ih, hstep ⟨s, e, s'⟩ hs, List.map_cons, List.sum_cons, add_assoc]

/-- The invariant rule for what depends on the transitions taken so far. -/
theorem Run.hist {I : List (Trans σ ε) → σ → Prop} {s u : σ} {ts : List (Trans σ ε)}
    (h : Run step s ts u) (hs : I [] s)
    (hstep : ∀ (before : List (Trans σ ε)) (t : Trans σ ε), step t.pre t.ev t.post →
      I before t.pre → I (before ++ [t]) t.post) : I ts u := by
  suffices hall : ∀ (before : List (Trans σ ε)), I before s → I (before ++ ts) u from hall [] hs
  clear hs
  induction h with
  | nil =>
    intro before hbefore
    rwa [List.append_nil]
  | @cons s s' u e ts hst _ ih =>
    intro before hbefore
    have hnext := ih (before ++ [⟨s, e, s'⟩]) (hstep before ⟨s, e, s'⟩ hst hbefore)
    rwa [List.append_assoc] at hnext

/-! ## Since the last of a kind -/

/-- The transitions after the last one of a kind; all of them where there is none. -/
def sinceLast (p : Trans σ ε → Bool) (ts : List (Trans σ ε)) : List (Trans σ ε) :=
  ts.rtakeWhile fun t => !p t

theorem sinceLast_snoc (p : Trans σ ε → Bool) (ts : List (Trans σ ε)) (t : Trans σ ε) :
    sinceLast p (ts ++ [t]) = if p t then [] else sinceLast p ts ++ [t] := by
  unfold sinceLast
  rw [List.rtakeWhile_concat]
  cases p t <;> rfl

theorem sinceLast_snoc_of_true {p : Trans σ ε → Bool} {t : Trans σ ε} (h : p t = true)
    (ts : List (Trans σ ε)) : sinceLast p (ts ++ [t]) = [] := by
  rw [sinceLast_snoc, if_pos h]

theorem sinceLast_snoc_of_false {p : Trans σ ε → Bool} {t : Trans σ ε} (h : p t = false)
    (ts : List (Trans σ ε)) : sinceLast p (ts ++ [t]) = sinceLast p ts ++ [t] := by
  rw [sinceLast_snoc, h, if_neg Bool.false_ne_true]

/-- What one kind of transition turns on (`S`) and another turns off (`E`) is on if and only if
it was turned on and has not been turned off since the last time. -/
theorem Run.on_iff {P : σ → Prop} {S E : Trans σ ε → Bool} {s u : σ} {ts : List (Trans σ ε)}
    (h : Run step s ts u) (hs : ¬ P s)
    (hstep : ∀ t : Trans σ ε, step t.pre t.ev t.post →
      (P t.post ↔ S t = true ∨ P t.pre ∧ E t = false)) :
    P u ↔ (∃ t ∈ ts, S t = true) ∧ ∀ t ∈ sinceLast S ts, E t = false := by
  refine h.hist (I := fun ts u =>
    P u ↔ (∃ t ∈ ts, S t = true) ∧ ∀ t ∈ sinceLast S ts, E t = false) ?_ ?_
  · exact ⟨fun hP => absurd hP hs, fun ⟨⟨t, ht, _⟩, _⟩ => absurd ht List.not_mem_nil⟩
  · intro before t hst ih
    rw [hstep t hst, ih]
    cases hS : S t with
    | true =>
      rw [sinceLast_snoc_of_true hS]
      exact ⟨fun _ => ⟨⟨t, by simp, hS⟩, by simp⟩, fun _ => Or.inl rfl⟩
    | false =>
      rw [sinceLast_snoc_of_false hS]
      simp only [Bool.false_eq_true, false_or, List.mem_append, List.mem_singleton, or_and_right,
        exists_or, exists_eq_left, hS, or_false, or_imp, forall_and, forall_eq]
      exact and_assoc

/-- A measure that every step keeps below what it was, by one at a step that counts, bounds how
often there is one. -/
theorem Run.count_le {φ : σ → Nat} {p : Trans σ ε → Bool} {s u : σ} {ts : List (Trans σ ε)}
    (h : Run step s ts u) (hstep : ∀ t ∈ ts, (p t).toNat + φ t.post ≤ φ t.pre) :
    ts.countP p + φ u ≤ φ s := by
  induction h with
  | nil => simp
  | @cons s s' u e ts hst _ ih =>
    have hfirst : (p ⟨s, e, s'⟩).toNat + φ s' ≤ φ s := hstep _ List.mem_cons_self
    have hrest := ih fun t ht => hstep t (List.mem_cons_of_mem _ ht)
    rw [List.countP_cons]
    cases hp : p ⟨s, e, s'⟩ with
    | true =>
      rw [hp, Bool.toNat_true] at hfirst
      rw [if_pos rfl]
      omega
    | false =>
      rw [if_neg Bool.false_ne_true]
      omega

/-! ## Two levels -/

/-- Steps that each keep what is seen of a state or take an abstract step there make up a run
of the abstract system. -/
theorem Run.simulate {τ η : Type*} {astep : τ → η → τ → Prop} (view : σ → τ)
    (label : Trans σ ε → Option η)
    (hquiet : ∀ t : Trans σ ε, step t.pre t.ev t.post → label t = none → view t.post = view t.pre)
    (hstep : ∀ (t : Trans σ ε) (e : η), step t.pre t.ev t.post → label t = some e →
      astep (view t.pre) e (view t.post))
    {s u : σ} {ts : List (Trans σ ε)} (h : Run step s ts u) :
    Run astep (view s)
      (ts.filterMap fun t => (label t).map fun e => ⟨view t.pre, e, view t.post⟩) (view u) := by
  induction h with
  | nil => exact .nil
  | @cons s s' u e ts hs _ ih =>
    cases hlabel : label ⟨s, e, s'⟩ with
    | none =>
      have hview := hquiet ⟨s, e, s'⟩ hs hlabel
      dsimp only at hview
      rw [hview] at ih
      simpa [hlabel] using ih
    | some a =>
      have ha := hstep ⟨s, e, s'⟩ a hs hlabel
      simpa [hlabel] using Run.cons ha ih

/-! ## Runs of a step function -/

/-- The transitions a step function takes on a list of labels. -/
def trace (f : σ → ε → σ) : σ → List ε → List (Trans σ ε)
  | _, [] => []
  | s, e :: es => ⟨s, e, f s e⟩ :: trace f (f s e) es

theorem Run.trace (f : σ → ε → σ) (s : σ) (es : List ε) :
    Run (fun s e s' => s' = f s e) s (trace f s es) (es.foldl f s) := by
  induction es generalizing s with
  | nil => exact .nil
  | cons e es ih => exact .cons rfl (ih (f s e))

theorem trace_append (f : σ → ε → σ) (s : σ) (es es' : List ε) :
    trace f s (es ++ es') = trace f s es ++ trace f (es.foldl f s) es' := by
  induction es generalizing s with
  | nil => rfl
  | cons e es ih => exact congrArg _ (ih (f s e))

theorem mem_of_mem_trace {f : σ → ε → σ} {s : σ} {es : List ε} {t : Trans σ ε}
    (h : t ∈ trace f s es) : t.ev ∈ es := by
  induction es generalizing s with
  | nil => cases h
  | cons e es ih =>
    rcases List.mem_cons.1 h with rfl | h
    · exact List.mem_cons_self
    · exact List.mem_cons_of_mem _ (ih h)

/-! ## Runs of a partial step function -/

/-- The transitions a partial step function takes on a list of labels. A label it has no step for
is passed over. -/
def taken (f : σ → ε → Option σ) : σ → List ε → List (Trans σ ε)
  | _, [] => []
  | s, e :: es => ((f s e).map fun s' => ⟨s, e, s'⟩ :: taken f s' es).getD (taken f s es)

def reached (f : σ → ε → Option σ) (s : σ) (es : List ε) : σ :=
  es.foldl (fun s e => (f s e).getD s) s

theorem Run.taken (f : σ → ε → Option σ) (s : σ) (es : List ε) :
    Run (fun s e s' => f s e = some s') s (taken f s es) (reached f s es) := by
  induction es generalizing s with
  | nil => exact .nil
  | cons e es ih =>
    unfold Lib.taken reached
    rw [List.foldl_cons]
    cases hf : f s e with
    | none => exact ih s
    | some s' => exact .cons hf (ih s')

theorem Run.snoc {s u v : σ} {e : ε} {ts : List (Trans σ ε)} (h : Run step s ts u)
    (hlast : step u e v) : Run step s (ts ++ [⟨u, e, v⟩]) v := by
  induction h with
  | nil => exact .cons hlast .nil
  | cons hs _ ih => exact .cons hs (ih hlast)

/-! ## Counted loops -/

/-- The invariant rule for a loop over `a .. a + n - 1`. -/
theorem foldl_range'_inv {α : Type*} {I : Nat → α → Prop} {f : α → Nat → α} {a n : Nat} {s : α}
    (hstep : ∀ i s, a ≤ i → i < a + n → I i s → I (i + 1) (f s i)) (h : I a s) :
    I (a + n) ((List.range' a n).foldl f s) := by
  induction n generalizing a s with
  | zero => exact h
  | succ n ih =>
    rw [List.range'_succ, List.foldl_cons, ← Nat.add_assoc, Nat.add_right_comm]
    apply ih
    · intro i s hlow hhigh
      exact hstep i s (by omega) (by omega)
    · exact hstep a s (by omega) (by omega) h

end TreeMiner.Lib
