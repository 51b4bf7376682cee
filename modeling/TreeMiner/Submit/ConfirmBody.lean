import Mathlib.Data.List.DropRight
import TreeMiner.Submit.Confirm

/-! What `confirmation_matches` takes for a confirmation: the two scans read the opening of a
body, and a body can open like the record's row without being it. -/

namespace TreeMiner

open Lib Lib.Json SubmissionManager

/-! ## The claim -/

/-- The first member of a name. -/
def firstNamed (name : String) (ms : List (List Piece × Json)) : Option Json :=
  (ms.find? fun m => Denotes m.1 name).map (·.2)

/-- The body is one JSON object; `key` is the record's, and so is every `hash_to_verify`. -/
def FullyChecked (rec : FindRecord) (body : String) : Prop :=
  ∃ ms, Text body.toList (.object ms) ∧
    (∃ v p, firstNamed "key" ms = some v ∧ v.scalar = some p ∧ Denotes p rec.payload.key) ∧
    ∀ m ∈ ms, Denotes m.1 "hash_to_verify" →
      ∃ p, m.2 = .string p ∧ Denotes p rec.payload.hashToVerify

/-! ## The opening of a body -/

/-- The text goes on with members, each with a value that can be skipped, up to one of the name;
`rest` is what stands behind its colon. -/
inductive Reaches (name : List Char) : List Char → List Char → Prop
  | here {s s1 rest : List Char} (hname : parseJsonString (skipWs s) = some (name, s1))
      (hcolon : skipWs s1 = ':' :: rest) : Reaches name s rest
  | next {s s1 s2 s3 s4 rest k : List Char} (hname : parseJsonString (skipWs s) = some (k, s1))
      (hk : k ≠ name) (hcolon : skipWs s1 = ':' :: s2) (hvalue : skipJsonValue s2 = some s3)
      (hcomma : skipWs s3 = ',' :: s4) (h : Reaches name s4 rest) : Reaches name s rest

/-- The body opens with a brace and members up to one of the name, a scalar of that text. -/
def Tells (body name text : String) : Prop :=
  ∃ s rest, skipWs body.toList = '{' :: s ∧ Reaches name.toList s rest ∧
    captureScalar rest = some text.toList

/-- The body opens like the row of the record. -/
structure OpensAs (rec : FindRecord) (body : String) : Prop where
  key : Tells body "key" rec.payload.key
  hash : ∀ text, Tells body "hash_to_verify" text → text = rec.payload.hashToVerify

/-- The bodies that open like the row of the record and are not it. -/
inductive Misread (rec : FindRecord) (body : String) : Prop
  /-- Cut off inside the object, or followed by something, or no JSON further on. -/
  | notJson (h : OpensAs rec body) (hbody : ∀ ms, ¬ Text body.toList (.object ms))
  /-- The key has an escape beyond ASCII, read as a question mark. -/
  | keyEscape {ms : List (List Piece × Json)} {v : Json} {p : List Piece} {n : Nat}
      (h : OpensAs rec body) (ht : Text body.toList (.object ms))
      (hkey : firstNamed "key" ms = some v) (hp : v.scalar = some p) (hn : .unit n ∈ p)
      (hwide : 0x80 ≤ n)
  /-- The first `hash_to_verify` is an array, an object, a number or a literal. -/
  | hashKind {ms : List (List Piece × Json)} {v : Json} (h : OpensAs rec body)
      (ht : Text body.toList (.object ms)) (hhash : firstNamed "hash_to_verify" ms = some v)
      (hv : ∀ p, v ≠ .string p)
  /-- The hash has an escape beyond ASCII. -/
  | hashEscape {ms : List (List Piece × Json)} {p : List Piece} {n : Nat} (h : OpensAs rec body)
      (ht : Text body.toList (.object ms))
      (hhash : firstNamed "hash_to_verify" ms = some (.string p)) (hn : .unit n ∈ p)
      (hwide : 0x80 ≤ n)
  /-- A later `hash_to_verify` is not the same string as the first. -/
  | hashAgain {ms : List (List Piece × Json)} {m : List Piece × Json} {p : List Piece}
      (h : OpensAs rec body) (ht : Text body.toList (.object ms))
      (hhash : firstNamed "hash_to_verify" ms = some (.string p)) (hm : m ∈ ms)
      (hname : Denotes m.1 "hash_to_verify") (hne : ∀ q, m.2 = .string q → units q ≠ units p)

/-! ## The scan of a member -/

theorem length_skipWs (s : List Char) : (skipWs s).length ≤ s.length :=
  (List.dropWhile_suffix _).length_le

theorem stringBody_length {s r t : List Char} (h : stringBody s = some (t, r)) :
    r.length < s.length := by
  fun_induction stringBody s generalizing t with
  | case1 => cases h
  | case2 rest =>
    cases h
    exact Nat.lt_succ_self _
  | case3 => cases h
  | case4 _ _ _ _ _ _ ih =>
    obtain ⟨code, -, h⟩ := Option.bind_eq_some_iff.1 h
    obtain ⟨⟨out, rest⟩, hrest, h⟩ := Option.bind_eq_some_iff.1 h
    cases h
    have := ih hrest
    simp only [List.length_cons]
    omega
  | case5 => cases h
  | case6 _ _ _ _ ih =>
    obtain ⟨x, -, h⟩ := Option.bind_eq_some_iff.1 h
    obtain ⟨⟨out, rest⟩, hrest, h⟩ := Option.bind_eq_some_iff.1 h
    cases h
    have := ih hrest
    simp only [List.length_cons]
    omega
  | case7 _ _ _ _ ih =>
    obtain ⟨⟨out, rest⟩, hrest, h⟩ := Option.bind_eq_some_iff.1 h
    cases h
    have := ih hrest
    simp only [List.length_cons]
    omega

theorem parseJsonString_length {s r t : List Char} (h : parseJsonString s = some (t, r)) :
    r.length < s.length := by
  cases s with
  | nil => cases h
  | cons c s =>
    unfold parseJsonString at h
    dsimp only at h
    split_ifs at h with hc
    have := stringBody_length h
    simp only [List.length_cons]
    omega

theorem skipBrackets_length {o c : Char} {fuel : Nat} {d : Int} {s r : List Char}
    (h : skipBrackets o c fuel d s = some r) : r.length ≤ s.length := by
  fun_induction skipBrackets o c fuel d s with
  | case1 => cases h
  | case2 => cases h
  | case3 => cases h
  | case4 _ _ _ _ _ hbody ih =>
    have := stringBody_length hbody
    have := ih h
    simp only [List.length_cons]
    omega
  | case5 =>
    cases h
    exact Nat.le_succ _
  | case6 _ _ _ _ _ _ ih =>
    have := ih h
    simp only [List.length_cons]
    omega
  | case7 _ _ _ _ _ _ _ ih =>
    have := ih h
    simp only [List.length_cons]
    omega

theorem skipJsonValue_length {s r : List Char} (h : skipJsonValue s = some r) :
    r.length ≤ s.length := by
  have hws := length_skipWs s
  unfold skipJsonValue at h
  cases hs : skipWs s with
  | nil =>
    rw [hs] at h
    cases h
  | cons c rest =>
    rw [hs] at h hws
    dsimp only at h
    split_ifs at h with hq ho ha
    · obtain ⟨⟨t, q⟩, hbody, rfl⟩ := Option.map_eq_some_iff.1 h
      have := stringBody_length hbody
      simp only [List.length_cons] at hws
      dsimp only
      omega
    · exact (skipBrackets_length h).trans hws
    · exact (skipBrackets_length h).trans hws
    · cases h
      exact ((List.dropWhile_suffix _).length_le).trans hws

theorem reaches_of_extractMember {name : List Char} {fuel : Nat} {s t : List Char}
    (h : extractMember name fuel s = some t) :
    ∃ rest, Reaches name s rest ∧ captureScalar rest = some t := by
  fun_induction extractMember name fuel s with
  | case6 _ _ _ _ c rest hcolon hc hname =>
    rw [not_not.1 hc] at hcolon
    exact ⟨rest, .here hname hcolon, h⟩
  | case8 _ _ _ k _ hname c _ hcolon hc hk _ hvalue _ hcomma ih =>
    rw [not_not.1 hc] at hcolon
    obtain ⟨rest, hreach, ht⟩ := ih h
    exact ⟨rest, .next hname hk hcolon hvalue hcomma hreach, ht⟩
  | _ => cases h

theorem extractMember_of_reaches {name s rest t : List Char} (hreach : Reaches name s rest)
    (ht : captureScalar rest = some t) {fuel : Nat} (hfuel : s.length < fuel) :
    extractMember name fuel s = some t := by
  induction hreach generalizing fuel with
  | @here s s1 rest hname hcolon =>
    obtain ⟨fuel, rfl⟩ : ∃ n, fuel = n + 1 := ⟨fuel - 1, by omega⟩
    cases s with
    | nil => cases hname
    | cons c s =>
      unfold extractMember
      simp [hname, hcolon, ht]
  | @next s s1 s2 s3 s4 rest k hname hk hcolon hvalue hcomma h ih =>
    obtain ⟨fuel, rfl⟩ : ∃ n, fuel = n + 1 := ⟨fuel - 1, by omega⟩
    have hlen : s4.length < fuel := by
      have h1 := parseJsonString_length hname
      have h2 := length_skipWs s
      have h3 := length_skipWs s1
      have h4 := skipJsonValue_length hvalue
      have h5 := length_skipWs s3
      rw [hcolon] at h3
      rw [hcomma] at h5
      simp only [List.length_cons] at h3 h5
      omega
    cases s with
    | nil => cases hname
    | cons c s =>
      unfold extractMember
      simp [hname, hk, hcolon, hvalue, hcomma, ih ht hlen]

theorem reaches_skipWs {name s rest : List Char} :
    Reaches name (skipWs s) rest ↔ Reaches name s rest := by
  have hidem : skipWs (skipWs s) = skipWs s := List.dropWhile_idempotent _ _
  constructor
  · intro h
    cases h with
    | here hname hcolon => exact .here (hidem ▸ hname) hcolon
    | next hname hk hcolon hvalue hcomma h =>
      exact .next (hidem ▸ hname) hk hcolon hvalue hcomma h
  · intro h
    cases h with
    | here hname hcolon => exact .here (hidem.symm ▸ hname) hcolon
    | next hname hk hcolon hvalue hcomma h =>
      exact .next (hidem.symm ▸ hname) hk hcolon hvalue hcomma h

theorem reaches_head {name s rest : List Char} (h : Reaches name s rest) :
    (skipWs s).head? = some '"' := by
  have hquote : ∀ {u t r : List Char}, parseJsonString u = some (t, r) → u.head? = some '"' := by
    intro u t r hu
    unfold parseJsonString at hu
    cases u with
    | nil => cases hu
    | cons c u =>
      dsimp only at hu
      split_ifs at hu with hc
      rw [hc]
      rfl
  cases h with
  | here hname _ => exact hquote hname
  | next hname => exact hquote hname

/-- What the scanner finds under a name is what the opening of the body tells. -/
theorem extractJsonField_iff {body name text : String} :
    extractJsonField body name = some text ↔ Tells body name text := by
  unfold extractJsonField Tells
  constructor
  · intro h
    cases hs : skipWs body.toList with
    | nil =>
      rw [hs] at h
      cases h
    | cons c s =>
      rw [hs] at h
      dsimp only at h
      split_ifs at h with hc hempty
      obtain ⟨t, ht, rfl⟩ := Option.map_eq_some_iff.1 h
      obtain ⟨rest, hreach, hscalar⟩ := reaches_of_extractMember ht
      rw [not_not.1 hc]
      exact ⟨s, rest, rfl, reaches_skipWs.1 hreach, by rw [hscalar, String.toList_ofList]⟩
  · rintro ⟨s, rest, hs, hreach, hscalar⟩
    have hopen : (skipWs s).head? ≠ some '}' := by
      rw [reaches_head hreach]
      decide
    have hfound := extractMember_of_reaches (reaches_skipWs.2 hreach) hscalar (Nat.lt_succ_self _)
    rw [hs]
    dsimp only
    rw [if_neg (by simp), if_neg hopen, hfound, Option.map_some, String.ofList_toList]

/-- The scans confirm the bodies that open like the row. -/
theorem confirmed_iff {rec : FindRecord} {body : String} :
    confirmationMatches rec body = .confirmed ↔ OpensAs rec body := by
  unfold confirmationMatches
  constructor
  · intro h
    cases hkey : extractJsonField body "key" with
    | none =>
      rw [hkey] at h
      cases h
    | some key =>
      rw [hkey] at h
      dsimp only at h
      split_ifs at h with hne
      rw [not_not.1 hne] at hkey
      refine ⟨extractJsonField_iff.1 hkey, fun text htext => ?_⟩
      rw [extractJsonField_iff.2 htext] at h
      dsimp only at h
      split_ifs at h with hhash
      exact not_not.1 hhash
  · rintro ⟨hkey, hhash⟩
    rw [extractJsonField_iff.2 hkey]
    dsimp only
    rw [if_neg (by simp)]
    cases hfield : extractJsonField body "hash_to_verify" with
    | none => rfl
    | some text =>
      dsimp only
      rw [if_neg (not_not.2 (hhash text (extractJsonField_iff.1 hfield)))]

/-! ## What the scanner shows and what a literal denotes -/

/-- No escape beyond ASCII. -/
def Narrow (p : List Piece) : Prop := ∀ n, .unit n ∈ p → n < 0x80

theorem units_cons (x : Piece) (p : List Piece) :
    units (x :: p) = units [x] ++ units p := by
  unfold units
  rw [List.flatMap_cons, List.flatMap_cons, List.flatMap_nil, List.append_nil]

theorem units_shown {x : Piece} (h : ∀ n, x = .unit n → n < 0x80) : units [x] = utf16 (shown x) := by
  cases x with
  | plain c => simp [units, shown]
  | unit n =>
    have hn := h n rfl
    have hcode : (Char.ofNat n).toNat = n := ofNat_toNat_of_lt (by omega)
    have hshown : shown (.unit n) = Char.ofNat n := if_pos hn
    rw [hshown]
    unfold utf16
    rw [hcode, if_pos (by omega)]
    rfl

/-- Where the scanner shows a text, the literal denotes it if no escape was replaced. -/
theorem denotes_iff_narrow {p : List Piece} {s : String} (h : p.map shown = s.toList) :
    Denotes p s ↔ Narrow p := by
  unfold Denotes
  rw [← h]
  clear h
  induction p with
  | nil =>
    refine ⟨fun _ n hn => ?_, fun _ => rfl⟩
    cases hn
  | cons x p ih =>
    rw [units_cons, List.map_cons, List.flatMap_cons]
    by_cases hx : ∀ n, x = .unit n → n < 0x80
    · rw [units_shown hx, List.append_cancel_left_eq, ih]
      constructor
      · intro hp n hn
        rcases List.mem_cons.1 hn with rfl | hn
        · exact hx n rfl
        · exact hp n hn
      · exact fun hp n hn => hp n (List.mem_cons_of_mem _ hn)
    · obtain ⟨n, hn⟩ := not_forall.1 hx
      obtain ⟨rfl, hwide⟩ := Classical.not_imp.1 hn
      constructor
      · intro heq
        have hshown : shown (.unit n) = '?' := if_neg hwide
        rw [hshown] at heq
        have hhead : n = 63 := (List.cons.inj heq).1
        omega
      · exact fun hp => absurd (hp n List.mem_cons_self) hwide

/-- A text whose characters are their own UTF-16 code units, none a question mark. -/
def IsPlainName (name : String) : Prop := ∀ c ∈ name.toList, c.toNat < 0x80 ∧ c ≠ '?'

theorem shown_eq_of_units {p : List Piece} {t : List Char} (ht : ∀ c ∈ t, c.toNat < 0x80)
    (h : units p = t.flatMap utf16) : p.map shown = t := by
  induction p generalizing t with
  | nil =>
    cases t with
    | nil => rfl
    | cons c t =>
      have hc : utf16 c = [c.toNat] := if_pos (by have := ht c List.mem_cons_self; omega)
      rw [List.flatMap_cons, hc] at h
      cases h
  | cons x p ih =>
    cases t with
    | nil =>
      rw [units_cons] at h
      have hnil : units [x] = [] := (List.append_eq_nil_iff.1 h).1
      cases x with
      | plain c =>
        unfold units utf16 at hnil
        simp only [List.flatMap_cons, List.flatMap_nil, List.append_nil] at hnil
        split_ifs at hnil
      | unit n => cases hnil
    | cons c t =>
      have hlt := ht c List.mem_cons_self
      have hc : utf16 c = [c.toNat] := if_pos (by omega)
      rw [units_cons, List.flatMap_cons, hc] at h
      have hx : units [x] = [c.toNat] ∧ shown x = c := by
        cases x with
        | plain d =>
          have hd : units [.plain d] = utf16 d := by simp [units]
          rw [hd] at h ⊢
          unfold utf16 at h ⊢
          split_ifs at h ⊢ with hbmp
          · have heq : d.toNat = c.toNat := (List.cons.inj h).1
            exact ⟨by rw [heq], Char.toNat_inj.1 heq⟩
          · have heq := (List.cons.inj h).1
            omega
        | unit n =>
          have heq : n = c.toNat := (List.cons.inj h).1
          refine ⟨by rw [← heq]; rfl, ?_⟩
          have hshown : shown (.unit n) = Char.ofNat n := if_pos (by omega)
          rw [hshown, heq, Char.ofNat_toNat]
      rw [hx.1] at h
      rw [List.map_cons, hx.2, ih (fun d hd => ht d (List.mem_cons_of_mem _ hd))
        (List.append_cancel_left h)]

theorem shown_iff_denotes {p : List Piece} {name : String} (hname : IsPlainName name) :
    p.map shown = name.toList ↔ Denotes p name := by
  constructor
  · intro h
    refine (denotes_iff_narrow h).2 fun n hn => ?_
    by_contra hwide
    have hshown : shown (.unit n) = '?' := if_neg hwide
    have hmem : '?' ∈ name.toList := by
      rw [← h, ← hshown]
      exact List.mem_map_of_mem hn
    exact (hname _ hmem).2 rfl
  · exact shown_eq_of_units fun c hc => (hname c hc).1

theorem firstMember_eq {name : String} (hname : IsPlainName name)
    (ms : List (List Piece × Json)) : firstMember name.toList ms = firstNamed name ms := by
  unfold firstMember firstNamed
  congr 2
  funext m
  rw [decide_eq_decide]
  exact shown_iff_denotes hname

/-- On an object, the opening tells the first member of the name. -/
theorem tells_iff {body name text : String} {ms : List (List Piece × Json)}
    (ht : Text body.toList (.object ms)) (hname : IsPlainName name) :
    Tells body name text ↔
      ∃ v p, firstNamed name ms = some v ∧ v.scalar = some p ∧ p.map shown = text.toList := by
  rw [← extractJsonField_iff, extractJsonField_text ht, ← firstMember_eq hname]
  constructor
  · intro h
    obtain ⟨t, hbind, htext⟩ := Option.map_eq_some_iff.1 h
    obtain ⟨v, hv, hscalar⟩ := Option.bind_eq_some_iff.1 hbind
    obtain ⟨p, hp, rfl⟩ := Option.map_eq_some_iff.1 hscalar
    exact ⟨v, p, hv, hp, by rw [← htext, String.toList_ofList]⟩
  · rintro ⟨v, p, hv, hp, hshown⟩
    dsimp only
    rw [hv]
    simp [scalarText, hp, hshown]

theorem firstNamed_none {name : String} {ms : List (List Piece × Json)}
    (h : firstNamed name ms = none) : ∀ m ∈ ms, ¬ Denotes m.1 name := by
  intro m hm hname
  have hfind := Option.map_eq_none_iff.1 h
  exact List.find?_eq_none.1 hfind m hm (decide_eq_true hname)

theorem firstNamed_some {name : String} {ms : List (List Piece × Json)} {v : Json}
    (h : firstNamed name ms = some v) : ∃ m ∈ ms, m.2 = v ∧ Denotes m.1 name := by
  obtain ⟨m, hfind, rfl⟩ := Option.map_eq_some_iff.1 h
  have hname : decide (Denotes m.1 name) = true := by simpa using List.find?_some hfind
  exact ⟨m, List.mem_of_find?_eq_some hfind, rfl, of_decide_eq_true hname⟩

/-! ## The law -/

theorem isPlainName_iff {name : String} :
    IsPlainName name ↔ name.toList.all (fun c => c.toNat < 0x80 && c ≠ '?') = true := by
  simp [IsPlainName, List.all_eq_true]

theorem key_plain : IsPlainName "key" := isPlainName_iff.2 (by decide +kernel)

theorem hash_plain : IsPlainName "hash_to_verify" := isPlainName_iff.2 (by decide +kernel)

/-- A misread body is not fully checked. -/
theorem Misread.unchecked {rec : FindRecord} {body : String} (h : Misread rec body) :
    OpensAs rec body ∧ ¬ FullyChecked rec body := by
  cases h with
  | notJson h hbody =>
    refine ⟨h, ?_⟩
    rintro ⟨ms, ht, -⟩
    exact hbody ms ht
  | keyEscape h ht hkey hp hn hwide =>
    refine ⟨h, ?_⟩
    rintro ⟨ms', ht', ⟨v', p', hkey', hp', hdenotes⟩, -⟩
    cases text_unique ht ht'
    rw [hkey] at hkey'
    cases hkey'
    rw [hp] at hp'
    cases hp'
    obtain ⟨v'', p'', hkey'', hp'', hshown⟩ := (tells_iff ht key_plain).1 h.key
    rw [hkey] at hkey''
    cases hkey''
    rw [hp] at hp''
    cases hp''
    have := (denotes_iff_narrow hshown).1 hdenotes _ hn
    omega
  | hashKind h ht hhash hv =>
    refine ⟨h, ?_⟩
    rintro ⟨ms', ht', -, hall⟩
    cases text_unique ht ht'
    obtain ⟨m, hm, rfl, hname⟩ := firstNamed_some hhash
    obtain ⟨p, hp, -⟩ := hall m hm hname
    exact hv p hp
  | @hashEscape _ p n h ht hhash hn hwide =>
    refine ⟨h, ?_⟩
    rintro ⟨ms', ht', -, hall⟩
    cases text_unique ht ht'
    obtain ⟨m, hm, hmv, hname⟩ := firstNamed_some hhash
    obtain ⟨q, hq, hdenotes⟩ := hall m hm hname
    rw [hmv] at hq
    cases hq
    have htells : Tells body "hash_to_verify" (String.ofList (p.map shown)) :=
      (tells_iff ht hash_plain).2 ⟨_, p, hhash, rfl, by rw [String.toList_ofList]⟩
    have hshown : p.map shown = rec.payload.hashToVerify.toList := by
      rw [← h.hash _ htells, String.toList_ofList]
    have := (denotes_iff_narrow hshown).1 hdenotes _ hn
    omega
  | @hashAgain _ m p h ht hhash hm hname hne =>
    refine ⟨h, ?_⟩
    rintro ⟨ms', ht', -, hall⟩
    cases text_unique ht ht'
    obtain ⟨m0, hm0, hmv, hname0⟩ := firstNamed_some hhash
    obtain ⟨q0, hq0, hdenotes0⟩ := hall m0 hm0 hname0
    rw [hmv] at hq0
    cases hq0
    obtain ⟨q, hq, hdenotes⟩ := hall m hm hname
    exact hne q hq (hdenotes.trans hdenotes0.symm)

/-- A body that opens like the row and is not misread is the row's. -/
theorem checked_of_opensAs {rec : FindRecord} {body : String} (h : OpensAs rec body)
    (hread : ¬ Misread rec body) : FullyChecked rec body := by
  obtain ⟨ms, ht⟩ : ∃ ms, Text body.toList (.object ms) := by
    by_contra hno
    exact hread (.notJson h (not_exists.1 hno))
  obtain ⟨v, p, hkey, hp, hshown⟩ := (tells_iff ht key_plain).1 h.key
  have hnarrow : Narrow p := by
    intro n hn
    by_contra hwide
    exact hread (.keyEscape h ht hkey hp hn (not_lt.1 hwide))
  refine ⟨ms, ht, ⟨v, p, hkey, hp, (denotes_iff_narrow hshown).2 hnarrow⟩, fun m hm hname => ?_⟩
  cases hhash : firstNamed "hash_to_verify" ms with
  | none => exact absurd hname (firstNamed_none hhash m hm)
  | some w =>
    obtain ⟨q, rfl⟩ : ∃ q, w = .string q := by
      by_contra hkind
      exact hread (.hashKind h ht hhash (not_exists.1 hkind))
    have htells : Tells body "hash_to_verify" (String.ofList (q.map shown)) :=
      (tells_iff ht hash_plain).2 ⟨_, q, hhash, rfl, by rw [String.toList_ofList]⟩
    have hqshown : q.map shown = rec.payload.hashToVerify.toList := by
      rw [← h.hash _ htells, String.toList_ofList]
    have hqnarrow : Narrow q := by
      intro n hn
      by_contra hwide
      exact hread (.hashEscape h ht hhash hn (not_lt.1 hwide))
    have hq := (denotes_iff_narrow hqshown).2 hqnarrow
    by_contra hbad
    refine hread (.hashAgain h ht hhash hm hname fun u hu heq => hbad ⟨u, hu, ?_⟩)
    exact heq.trans hq

/-- A confirmed body is fully checked, but for the bodies that are misread. -/
theorem confirmed_checked_iff (rec : FindRecord) (body : String) :
    (confirmationMatches rec body = .confirmed → FullyChecked rec body) ↔ ¬ Misread rec body := by
  rw [confirmed_iff]
  constructor
  · intro h hmis
    obtain ⟨hopens, hun⟩ := hmis.unchecked
    exact hun (h hopens)
  · intro hread hopens
    exact checked_of_opensAs hopens hread

/-- A body cut off behind the key is confirmed. -/
theorem cut_body_confirmed : ¬ ∀ rec body,
    confirmationMatches rec body = .confirmed → FullyChecked rec body := by
  intro h
  obtain ⟨ms, ht, -⟩ := h ⟨0, .sample "k" .xen11 100, .pending, "", 0, none, none, none, "", none, 0⟩
    cutBody (by decide +kernel)
  exact cutBody_not_text _ ht

end TreeMiner
