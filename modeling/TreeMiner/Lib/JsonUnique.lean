import TreeMiner.Lib.Json

/-! A JSON text denotes one value: the grammar of `Lib.Json` is unambiguous. A number ends
where no character of a number follows, so a value is read up to a fixed rest. -/

namespace TreeMiner.Lib.Json

/-! ## Characters -/

def isNumberChar (c : Char) : Bool :=
  isDigit c || c = '-' || c = '+' || c = '.' || c = 'e' || c = 'E'

/-- No number goes on in front of `r`. -/
def EndsNumber (r : List Char) : Prop := ∀ c t, r = c :: t → isNumberChar c = false

/-- No whitespace is left in front of `r`. -/
def Trimmed (r : List Char) : Prop := ∀ c t, r = c :: t → isWs c = false

theorem endsNumber_cons {c : Char} (hc : isNumberChar c = false) (r : List Char) :
    EndsNumber (c :: r) := by
  intro d t h
  cases h
  exact hc

theorem trimmed_cons {c : Char} (hc : isWs c = false) (r : List Char) : Trimmed (c :: r) := by
  intro d t h
  cases h
  exact hc

theorem isNumberChar_of_isDigit {c : Char} (h : isDigit c = true) : isNumberChar c = true := by
  unfold isNumberChar
  simp [h]

theorem isWs_of_isNumberChar {c : Char} (h : isNumberChar c = true) : isWs c = false := by
  by_contra hw
  unfold isWs at hw
  simp only [Bool.or_eq_true, decide_eq_true_eq, Bool.not_eq_false] at hw
  rcases hw with ((rfl | rfl) | rfl) | rfl <;> exact absurd h (by decide)

theorem isNumberChar_of_number {t : List Char} (h : Number t) :
    ∀ c ∈ t, isNumberChar c = true := by
  obtain ⟨sign, int, frac, exp, rfl, hsign, hint, hfrac, hexp⟩ := h
  have hdigits : ∀ {ds : List Char}, Digits ds → ∀ c ∈ ds, isNumberChar c = true :=
    fun hd c hc => isNumberChar_of_isDigit (hd.2 c hc)
  intro c hc
  simp only [List.mem_append] at hc
  rcases hc with ((hc | hc) | hc) | hc
  · rcases hsign with rfl | rfl
    · cases hc
    · rw [List.mem_singleton.1 hc]; decide
  · rcases hint with rfl | ⟨hd, -⟩
    · rw [List.mem_singleton.1 hc]; decide
    · exact hdigits hd c hc
  · rcases hfrac with rfl | ⟨ds, rfl, hd⟩
    · cases hc
    · rcases List.mem_cons.1 hc with rfl | hc
      · decide
      · exact hdigits hd c hc
  · rcases hexp with rfl | ⟨e, sign, ds, rfl, he, hs, hd⟩
    · cases hc
    · rcases List.mem_cons.1 hc with rfl | hc
      · rcases he with rfl | rfl <;> decide
      · rcases List.mem_append.1 hc with hc | hc
        · rcases hs with rfl | rfl | rfl
          · cases hc
          · rw [List.mem_singleton.1 hc]; decide
          · rw [List.mem_singleton.1 hc]; decide
        · exact hdigits hd c hc

theorem number_cons {t : List Char} (h : Number t) :
    ∃ c u, t = c :: u ∧ isNumberChar c = true := by
  have hne : t ≠ [] := by
    obtain ⟨sign, int, frac, exp, rfl, -, hint, -, -⟩ := h
    have hint' : int ≠ [] := by
      rcases hint with rfl | ⟨hd, -⟩
      · simp
      · exact hd.1
    simp [hint']
  obtain ⟨c, u, rfl⟩ := List.exists_cons_of_ne_nil hne
  exact ⟨c, u, rfl, isNumberChar_of_number h c List.mem_cons_self⟩

/-! ## Parts of one reading -/

theorem ws_unique {s a b : List Char} (ha : Ws s a) (hb : Ws s b) (hta : Trimmed a)
    (htb : Trimmed b) : a = b := by
  obtain ⟨w, rfl, hw⟩ := ha
  obtain ⟨w', h, hw'⟩ := hb
  induction w generalizing w' with
  | nil =>
    rcases w' with _ | ⟨c, w'⟩
    · exact h
    · exact absurd (hw' c List.mem_cons_self) (by rw [hta c _ h]; decide)
  | cons c w ih =>
    rcases w' with _ | ⟨d, w'⟩
    · exact absurd (hw c List.mem_cons_self) (by rw [htb c _ h.symm]; decide)
    · injection h with _ h
      exact ih (fun x hx => hw x (List.mem_cons_of_mem _ hx)) w' h
        fun x hx => hw' x (List.mem_cons_of_mem _ hx)

theorem number_unique {t t' r r' : List Char} (h : Number t) (h' : Number t')
    (he : t ++ r = t' ++ r') (hr : EndsNumber r) (hr' : EndsNumber r') : t = t' ∧ r = r' := by
  have ht := isNumberChar_of_number h
  have ht' := isNumberChar_of_number h'
  clear h h'
  induction t generalizing t' with
  | nil =>
    rcases t' with _ | ⟨c, t'⟩
    · exact ⟨rfl, he⟩
    · exact absurd (ht' c List.mem_cons_self) (by rw [hr c _ he]; decide)
  | cons c t ih =>
    rcases t' with _ | ⟨d, t'⟩
    · exact absurd (ht c List.mem_cons_self) (by rw [hr' c _ he.symm]; decide)
    · injection he with hc he
      obtain ⟨rfl, rfl⟩ := ih he (fun x hx => ht x (List.mem_cons_of_mem _ hx))
        fun x hx => ht' x (List.mem_cons_of_mem _ hx)
      exact ⟨by rw [hc], rfl⟩

theorem escapeUnit_u (n : Nat) : escapeUnit 'u' ≠ some n := by
  rw [show escapeUnit 'u' = none from by decide]
  exact nofun

theorem strBody_unique {s r r' : List Char} {p p' : List Piece} (h : StrBody s p r)
    (h' : StrBody s p' r') : p = p' ∧ r = r' := by
  induction h generalizing p' with
  | close rest =>
    cases h' with
    | close => exact ⟨rfl, rfl⟩
    | plain _ hq _ _ => exact absurd rfl hq
  | plain hc hq hb _ ih =>
    cases h' with
    | close => exact absurd rfl hq
    | plain _ _ _ h' =>
      obtain ⟨rfl, rfl⟩ := ih h'
      exact ⟨rfl, rfl⟩
    | escape _ _ => exact absurd rfl hb
    | unicode _ _ _ _ _ => exact absurd rfl hb
  | escape hn _ ih =>
    cases h' with
    | plain _ _ hb _ => exact absurd rfl hb
    | escape hn' h' =>
      obtain ⟨rfl, rfl⟩ := ih h'
      rw [hn] at hn'
      cases hn'
      exact ⟨rfl, rfl⟩
    | unicode _ _ _ _ _ => exact absurd hn (escapeUnit_u _)
  | unicode ha hb hc hd _ ih =>
    cases h' with
    | plain _ _ hb _ => exact absurd rfl hb
    | escape hn _ => exact absurd hn (escapeUnit_u _)
    | unicode ha' hb' hc' hd' h' =>
      obtain ⟨rfl, rfl⟩ := ih h'
      rw [ha] at ha'
      rw [hb] at hb'
      rw [hc] at hc'
      rw [hd] at hd'
      cases ha'
      cases hb'
      cases hc'
      cases hd'
      exact ⟨rfl, rfl⟩

/-! ## What the first character of a value says -/

/-- A value opens with a character that is neither whitespace nor a closing bracket. -/
theorem value_cons {s r : List Char} {v : Json} (h : Value s v r) :
    ∃ c u, s = c :: u ∧ isWs c = false ∧ c ≠ ']' ∧ c ≠ '}' := by
  cases h with
  | number h =>
    obtain ⟨c, u, rfl, hc⟩ := number_cons h
    refine ⟨c, _, rfl, isWs_of_isNumberChar hc, ?_, ?_⟩ <;> rintro rfl <;>
      exact absurd hc (by decide)
  | _ => exact ⟨_, _, rfl, by decide, by decide, by decide⟩

theorem value_trimmed {s r : List Char} {v : Json} (h : Value s v r) : Trimmed s := by
  obtain ⟨c, u, rfl, hc, -⟩ := value_cons h
  exact trimmed_cons hc u

theorem not_number_cons {c : Char} {s t r : List Char} (hc : isNumberChar c = false)
    (h : Number t) : c :: s ≠ t ++ r := by
  intro he
  obtain ⟨d, u, rfl, hd⟩ := number_cons h
  injection he with he
  rw [he, hd] at hc
  cases hc

/-! ## The second reading, by the first character of the text -/

theorem value_null {rest r : List Char} {v : Json} (h : Value (nullText ++ rest) v r) :
    v = .null ∧ r = rest := by
  generalize hs : nullText ++ rest = s at h
  cases h with
  | null => exact ⟨rfl, (List.append_cancel_left hs).symm⟩
  | number h => exact absurd hs (not_number_cons (by decide) h)
  | _ => exact absurd hs (by simp [nullText, trueText, falseText])

theorem value_true {rest r : List Char} {v : Json} (h : Value (trueText ++ rest) v r) :
    v = .bool true ∧ r = rest := by
  generalize hs : trueText ++ rest = s at h
  cases h with
  | true => exact ⟨rfl, (List.append_cancel_left hs).symm⟩
  | number h => exact absurd hs (not_number_cons (by decide) h)
  | _ => exact absurd hs (by simp [nullText, trueText, falseText])

theorem value_false {rest r : List Char} {v : Json} (h : Value (falseText ++ rest) v r) :
    v = .bool false ∧ r = rest := by
  generalize hs : falseText ++ rest = s at h
  cases h with
  | false => exact ⟨rfl, (List.append_cancel_left hs).symm⟩
  | number h => exact absurd hs (not_number_cons (by decide) h)
  | _ => exact absurd hs (by simp [nullText, trueText, falseText])

theorem value_number {t rest r : List Char} {v : Json} (ht : Number t)
    (h : Value (t ++ rest) v r) (hrest : EndsNumber rest) (hr : EndsNumber r) :
    v = .number t ∧ r = rest := by
  generalize hs : t ++ rest = s at h
  cases h with
  | number h =>
    obtain ⟨rfl, rfl⟩ := number_unique ht h hs hrest hr
    exact ⟨rfl, rfl⟩
  | _ => exact absurd hs.symm (not_number_cons (by decide) ht)

theorem value_string {s r : List Char} {v : Json} (h : Value ('"' :: s) v r) :
    ∃ p, StrBody s p r ∧ v = .string p := by
  generalize hs : '"' :: s = s' at h
  cases h with
  | string h =>
    cases hs
    exact ⟨_, h, rfl⟩
  | number h => exact absurd hs (not_number_cons (by decide) h)
  | _ => exact absurd hs (by simp [nullText, trueText, falseText])

theorem value_array {s r : List Char} {v : Json} (h : Value ('[' :: s) v r) :
    (Ws s (']' :: r) ∧ v = .array []) ∨ ∃ vs, Items s vs r ∧ v = .array vs := by
  generalize hs : '[' :: s = s' at h
  cases h with
  | emptyArray h =>
    cases hs
    exact Or.inl ⟨h, rfl⟩
  | array h =>
    cases hs
    exact Or.inr ⟨_, h, rfl⟩
  | number h => exact absurd hs (not_number_cons (by decide) h)
  | _ => exact absurd hs (by simp [nullText, trueText, falseText])

theorem value_object {s r : List Char} {v : Json} (h : Value ('{' :: s) v r) :
    (Ws s ('}' :: r) ∧ v = .object []) ∨ ∃ ms, Members s ms r ∧ v = .object ms := by
  generalize hs : '{' :: s = s' at h
  cases h with
  | emptyObject h =>
    cases hs
    exact Or.inl ⟨h, rfl⟩
  | object h =>
    cases hs
    exact Or.inr ⟨_, h, rfl⟩
  | number h => exact absurd hs (not_number_cons (by decide) h)
  | _ => exact absurd hs (by simp [nullText, trueText, falseText])

theorem items_not_empty {s r q : List Char} {vs : List Json} (h : Items s vs r)
    (hw : Ws s (']' :: q)) : False := by
  have hclose : Trimmed (']' :: q) := trimmed_cons (by decide) q
  cases h with
  | last h1 h2 _ =>
    obtain ⟨c, u, rfl, hc, hne, -⟩ := value_cons h2
    cases ws_unique hw h1 hclose (value_trimmed h2)
    exact hne rfl
  | cons h1 h2 _ _ =>
    obtain ⟨c, u, rfl, hc, hne, -⟩ := value_cons h2
    cases ws_unique hw h1 hclose (value_trimmed h2)
    exact hne rfl

theorem members_not_empty {s r q : List Char} {ms : List (List Piece × Json)}
    (h : Members s ms r) (hw : Ws s ('}' :: q)) : False := by
  have hclose : Trimmed ('}' :: q) := trimmed_cons (by decide) q
  cases h with
  | last h1 _ _ _ _ _ => cases ws_unique hw h1 hclose (trimmed_cons (by decide) _)
  | cons h1 _ _ _ _ _ _ => cases ws_unique hw h1 hclose (trimmed_cons (by decide) _)

/-! ## One reading -/

theorem endsNumber_of_ws {s r : List Char} {c : Char} (h : Ws s (c :: r))
    (hc : isNumberChar c = false) : EndsNumber s := by
  obtain ⟨w, rfl, hw⟩ := h
  rcases w with _ | ⟨d, w⟩
  · exact endsNumber_cons hc r
  · refine endsNumber_cons ?_ _
    by_contra hd
    rw [Bool.not_eq_false] at hd
    have := hw d List.mem_cons_self
    rw [isWs_of_isNumberChar hd] at this
    cases this

/-- Two readings that stop in front of a character stop in front of the same one. -/
theorem close_unique {s r r' : List Char} {c d : Char} (h : Ws s (c :: r)) (h' : Ws s (d :: r'))
    (hc : isWs c = false) (hd : isWs d = false) : c = d ∧ r = r' := by
  have := ws_unique h h' (trimmed_cons hc r) (trimmed_cons hd r')
  injection this with h1 h2
  exact ⟨h1, h2⟩

theorem name_unique {s s1 s2 s3 s1' s2' s3' : List Char} {k k' : List Piece}
    (h1 : Ws s ('"' :: s1)) (h2 : StrBody s1 k s2) (h3 : Ws s2 (':' :: s3))
    (h1' : Ws s ('"' :: s1')) (h2' : StrBody s1' k' s2') (h3' : Ws s2' (':' :: s3')) :
    k = k' ∧ s3 = s3' := by
  obtain ⟨-, rfl⟩ := close_unique h1 h1' (by decide) (by decide)
  obtain ⟨rfl, rfl⟩ := strBody_unique h2 h2'
  exact ⟨rfl, (close_unique h3 h3' (by decide) (by decide)).2⟩

/-- What closes an item or a member, or leads to the next. -/
def Closer (c : Char) : Prop := isWs c = false ∧ isNumberChar c = false

instance (c : Char) : Decidable (Closer c) := inferInstanceAs (Decidable (_ ∧ _))

/-- Every reading of the value at `s` that ends in front of no number character is this one. -/
def OneValue (s : List Char) (v : Json) (r : List Char) : Prop :=
  ∀ v' r', Value s v' r' → EndsNumber r → EndsNumber r' → v = v' ∧ r = r'

theorem item_unique {s s1 s2 r s1' s2' r' : List Char} {v v' : Json} {c d : Char}
    (ih : OneValue s1 v s2) (h1 : Ws s s1) (h2 : Value s1 v s2) (h3 : Ws s2 (c :: r))
    (h1' : Ws s s1') (h2' : Value s1' v' s2') (h3' : Ws s2' (d :: r')) (hc : Closer c)
    (hd : Closer d) : v = v' ∧ c = d ∧ r = r' := by
  cases ws_unique h1 h1' (value_trimmed h2) (value_trimmed h2')
  obtain ⟨rfl, rfl⟩ := ih _ _ h2' (endsNumber_of_ws h3 hc.2) (endsNumber_of_ws h3' hd.2)
  exact ⟨rfl, close_unique h3 h3' hc.1 hd.1⟩

theorem oneValue {s r : List Char} {v : Json} (h : Value s v r) : OneValue s v r := by
  refine @Value.rec (fun s v r _ => OneValue s v r)
    (fun s vs r _ => ∀ vs' r', Items s vs' r' → vs = vs' ∧ r = r')
    (fun s ms r _ => ∀ ms' r', Members s ms' r' → ms = ms' ∧ r = r')
    ?_ ?_ ?_ ?_ ?_ ?_ ?_ ?_ ?_ ?_ ?_ ?_ ?_ s v r h
  · intro rest v' r' h' _ _
    obtain ⟨rfl, rfl⟩ := value_null h'
    exact ⟨rfl, rfl⟩
  · intro rest v' r' h' _ _
    obtain ⟨rfl, rfl⟩ := value_true h'
    exact ⟨rfl, rfl⟩
  · intro rest v' r' h' _ _
    obtain ⟨rfl, rfl⟩ := value_false h'
    exact ⟨rfl, rfl⟩
  · intro t ht rest v' r' h' hr hr'
    obtain ⟨rfl, rfl⟩ := value_number ht h' hr hr'
    exact ⟨rfl, rfl⟩
  · intro s rest p hs v' r' h' _ _
    obtain ⟨p', hs', rfl⟩ := value_string h'
    obtain ⟨rfl, rfl⟩ := strBody_unique hs hs'
    exact ⟨rfl, rfl⟩
  · intro s rest hw v' r' h' _ _
    rcases value_array h' with ⟨hw', rfl⟩ | ⟨vs, hi, -⟩
    · exact ⟨rfl, (close_unique hw hw' (by decide) (by decide)).2⟩
    · exact (items_not_empty hi hw).elim
  · intro s rest vs hi ih v' r' h' _ _
    rcases value_array h' with ⟨hw', -⟩ | ⟨vs', hi', rfl⟩
    · exact (items_not_empty hi hw').elim
    · obtain ⟨rfl, rfl⟩ := ih _ _ hi'
      exact ⟨rfl, rfl⟩
  · intro s rest hw v' r' h' _ _
    rcases value_object h' with ⟨hw', rfl⟩ | ⟨ms, hm, -⟩
    · exact ⟨rfl, (close_unique hw hw' (by decide) (by decide)).2⟩
    · exact (members_not_empty hm hw).elim
  · intro s rest ms hm ih v' r' h' _ _
    rcases value_object h' with ⟨hw', -⟩ | ⟨ms', hm', rfl⟩
    · exact (members_not_empty hm hw').elim
    · obtain ⟨rfl, rfl⟩ := ih _ _ hm'
      exact ⟨rfl, rfl⟩
  · intro s s1 s2 rest v h1 h2 h3 ih vs' r' h'
    cases h' with
    | last h1' h2' h3' =>
      obtain ⟨rfl, -, rfl⟩ := item_unique ih h1 h2 h3 h1' h2' h3' (by decide) (by decide)
      exact ⟨rfl, rfl⟩
    | cons h1' h2' h3' _ =>
      obtain ⟨-, hc, -⟩ := item_unique ih h1 h2 h3 h1' h2' h3' (by decide) (by decide)
      exact absurd hc (by decide)
  · intro s s1 s2 s3 rest v vs h1 h2 h3 _ ih ih' vs' r' h'
    cases h' with
    | last h1' h2' h3' =>
      obtain ⟨-, hc, -⟩ := item_unique ih h1 h2 h3 h1' h2' h3' (by decide) (by decide)
      exact absurd hc (by decide)
    | cons h1' h2' h3' h4' =>
      obtain ⟨rfl, -, rfl⟩ := item_unique ih h1 h2 h3 h1' h2' h3' (by decide) (by decide)
      obtain ⟨rfl, rfl⟩ := ih' _ _ h4'
      exact ⟨rfl, rfl⟩
  · intro s s1 s2 s3 s4 s5 rest k v h1 h2 h3 h4 h5 h6 ih ms' r' h'
    cases h' with
    | last h1' h2' h3' h4' h5' h6' =>
      obtain ⟨rfl, rfl⟩ := name_unique h1 h2 h3 h1' h2' h3'
      obtain ⟨rfl, -, rfl⟩ := item_unique ih h4 h5 h6 h4' h5' h6' (by decide) (by decide)
      exact ⟨rfl, rfl⟩
    | cons h1' h2' h3' h4' h5' h6' _ =>
      obtain ⟨rfl, rfl⟩ := name_unique h1 h2 h3 h1' h2' h3'
      obtain ⟨-, hc, -⟩ := item_unique ih h4 h5 h6 h4' h5' h6' (by decide) (by decide)
      exact absurd hc (by decide)
  · intro s s1 s2 s3 s4 s5 s6 rest k v ms h1 h2 h3 h4 h5 h6 _ ih ih' ms' r' h'
    cases h' with
    | last h1' h2' h3' h4' h5' h6' =>
      obtain ⟨rfl, rfl⟩ := name_unique h1 h2 h3 h1' h2' h3'
      obtain ⟨-, hc, -⟩ := item_unique ih h4 h5 h6 h4' h5' h6' (by decide) (by decide)
      exact absurd hc (by decide)
    | cons h1' h2' h3' h4' h5' h6' h7' =>
      obtain ⟨rfl, rfl⟩ := name_unique h1 h2 h3 h1' h2' h3'
      obtain ⟨rfl, -, rfl⟩ := item_unique ih h4 h5 h6 h4' h5' h6' (by decide) (by decide)
      obtain ⟨rfl, rfl⟩ := ih' _ _ h7'
      exact ⟨rfl, rfl⟩

theorem endsNumber_of_blank {s : List Char} (h : Ws s []) : EndsNumber s := by
  obtain ⟨w, rfl, hw⟩ := h
  rw [List.append_nil]
  intro c t hc
  by_contra hd
  rw [Bool.not_eq_false] at hd
  have := hw c (by rw [hc]; exact List.mem_cons_self)
  rw [isWs_of_isNumberChar hd] at this
  cases this

theorem text_unique {s : List Char} {v v' : Json} (h : Text s v) (h' : Text s v') : v = v' := by
  obtain ⟨s1, s2, hw, hv, he⟩ := h
  obtain ⟨s1', s2', hw', hv', he'⟩ := h'
  cases ws_unique hw hw' (value_trimmed hv) (value_trimmed hv')
  exact (oneValue hv _ _ hv' (endsNumber_of_blank he) (endsNumber_of_blank he')).1

end TreeMiner.Lib.Json
