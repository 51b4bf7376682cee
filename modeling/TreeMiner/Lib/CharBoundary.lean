import Mathlib.Data.String.Basic

/-! Byte positions of a text. A position is a boundary when whole characters end there; in
front of a variable text, whatever is fixed decides its own positions. -/

namespace TreeMiner.Lib

open String (utf8Len)

/-- `n` bytes are a whole number of leading characters. -/
def isBoundary : List Char → Nat → Bool
  | _, 0 => true
  | [], _ + 1 => false
  | c :: cs, n + 1 => decide (c.utf8Size ≤ n + 1) && isBoundary cs (n + 1 - c.utf8Size)

/-- The characters that fit into `n` bytes. -/
def takeBytes : Nat → List Char → List Char
  | _, [] => []
  | n, c :: cs => if c.utf8Size ≤ n then c :: takeBytes (n - c.utf8Size) cs else []

/-- A boundary is the byte length of a prefix. -/
theorem isBoundary_iff {cs : List Char} {n : Nat} :
    isBoundary cs n = true ↔ ∃ pre, pre <+: cs ∧ utf8Len pre = n := by
  induction cs generalizing n with
  | nil =>
    cases n with
    | zero => simp [isBoundary]
    | succ n => simp [isBoundary]
  | cons c cs ih =>
    cases n with
    | zero => exact ⟨fun _ => ⟨[], List.nil_prefix, rfl⟩, fun _ => rfl⟩
    | succ n =>
      rw [isBoundary, Bool.and_eq_true, decide_eq_true_eq, ih]
      constructor
      · rintro ⟨hle, pre, hpre, hlen⟩
        exact ⟨c :: pre, List.cons_prefix_cons.2 ⟨rfl, hpre⟩, by rw [String.utf8Len_cons]; omega⟩
      · rintro ⟨pre, hpre, hlen⟩
        cases pre with
        | nil => cases hlen
        | cons d pre =>
          obtain ⟨rfl, htail⟩ := List.cons_prefix_cons.1 hpre
          rw [String.utf8Len_cons] at hlen
          exact ⟨by omega, pre, htail, by omega⟩

theorem isBoundary_append_left {pre cs : List Char} {n : Nat} (h : n ≤ utf8Len pre) :
    isBoundary (pre ++ cs) n = isBoundary pre n := by
  induction pre generalizing n with
  | nil =>
    obtain rfl : n = 0 := Nat.le_zero.1 h
    cases cs <;> rfl
  | cons c pre ih =>
    cases n with
    | zero => rfl
    | succ n =>
      rw [String.utf8Len_cons] at h
      rw [List.cons_append, isBoundary, isBoundary, ih (by omega)]

theorem isBoundary_append_right {pre cs : List Char} {n : Nat} (h : utf8Len pre ≤ n) :
    isBoundary (pre ++ cs) n = isBoundary cs (n - utf8Len pre) := by
  induction pre generalizing n with
  | nil => rfl
  | cons c pre ih =>
    have hpos := c.utf8Size_pos
    rw [String.utf8Len_cons] at h ⊢
    obtain ⟨n, rfl⟩ := Nat.exists_eq_succ_of_ne_zero (show n ≠ 0 by omega)
    rw [List.cons_append, Nat.succ_eq_add_one, isBoundary, ih (by omega),
      decide_eq_true (show c.utf8Size ≤ n + 1 by omega), Bool.true_and]
    congr 1
    omega

/-- One byte a character: every position is a boundary. -/
theorem isBoundary_of_ascii {cs : List Char} {n : Nat} (h : ∀ c ∈ cs, c.utf8Size = 1)
    (hn : n ≤ cs.length) : isBoundary cs n = true := by
  induction cs generalizing n with
  | nil =>
    obtain rfl : n = 0 := Nat.le_zero.1 hn
    rfl
  | cons c cs ih =>
    cases n with
    | zero => rfl
    | succ n =>
      rw [isBoundary, h c List.mem_cons_self, Nat.add_sub_cancel,
        ih (fun d hd => h d (List.mem_cons_of_mem c hd)) (Nat.le_of_succ_le_succ hn)]
      simp

theorem utf8Len_of_ascii {cs : List Char} (h : ∀ c ∈ cs, c.utf8Size = 1) :
    utf8Len cs = cs.length := by
  induction cs with
  | nil => rfl
  | cons c cs ih =>
    rw [String.utf8Len_cons, ih fun d hd => h d (List.mem_cons_of_mem c hd),
      h c List.mem_cons_self, List.length_cons]

/-! ## Slices -/

/-- What is left behind the characters that fit into `n` bytes. -/
def dropBytes : Nat → List Char → List Char
  | _, [] => []
  | n, c :: cs => if c.utf8Size ≤ n then dropBytes (n - c.utf8Size) cs else c :: cs

/-- The text between two byte positions; `none` if one of them is no boundary. -/
def slice (cs : List Char) (b e : Nat) : Option (List Char) :=
  if b ≤ e ∧ isBoundary cs b = true ∧ isBoundary cs e = true then
    some (takeBytes (e - b) (dropBytes b cs))
  else none

/-- The position of the first character of a kind. -/
def findBy (p : Char → Bool) : List Char → Option Nat
  | [] => none
  | c :: cs => if p c then some 0 else (findBy p cs).map fun n => c.utf8Size + n

/-- The position of the last character of a kind: where it starts. -/
def rfindBy (p : Char → Bool) : List Char → Option Nat
  | [] => none
  | c :: cs =>
    match rfindBy p cs with
    | some n => some (c.utf8Size + n)
    | none => if p c then some 0 else none

theorem takeBytes_append (pre cs : List Char) : takeBytes (utf8Len pre) (pre ++ cs) = pre := by
  induction pre with
  | nil =>
    cases cs with
    | nil => rfl
    | cons c cs => exact if_neg (Nat.not_le.2 c.utf8Size_pos)
  | cons c pre ih =>
    rw [List.cons_append, String.utf8Len_cons, takeBytes, if_pos (Nat.le_add_left _ _),
      Nat.add_sub_cancel, ih]

theorem dropBytes_append (pre cs : List Char) : dropBytes (utf8Len pre) (pre ++ cs) = cs := by
  induction pre with
  | nil =>
    cases cs with
    | nil => rfl
    | cons c cs => exact if_neg (Nat.not_le.2 c.utf8Size_pos)
  | cons c pre ih =>
    rw [List.cons_append, String.utf8Len_cons, dropBytes, if_pos (Nat.le_add_left _ _),
      Nat.add_sub_cancel, ih]

theorem isBoundary_front (pre cs : List Char) : isBoundary (pre ++ cs) (utf8Len pre) = true :=
  isBoundary_iff.2 ⟨pre, List.prefix_append pre cs, rfl⟩

theorem slice_middle (front mid back : List Char) :
    slice (front ++ (mid ++ back)) (utf8Len front) (utf8Len front + utf8Len mid) = some mid := by
  have hend : isBoundary (front ++ (mid ++ back)) (utf8Len front + utf8Len mid) = true := by
    rw [← String.utf8Len_append, ← List.append_assoc]
    exact isBoundary_front _ _
  rw [slice, if_pos ⟨Nat.le_add_right _ _, isBoundary_front _ _, hend⟩, dropBytes_append,
    Nat.add_sub_cancel_left, takeBytes_append]

variable {p : Char → Bool}

theorem findBy_eq_none {cs : List Char} (h : ∀ c ∈ cs, p c = false) : findBy p cs = none := by
  induction cs with
  | nil => rfl
  | cons c cs ih =>
    rw [findBy, h c List.mem_cons_self, ih fun d hd => h d (List.mem_cons_of_mem c hd)]
    rfl

theorem findBy_append {front : List Char} (h : ∀ c ∈ front, p c = false) {c : Char}
    (hc : p c = true) (back : List Char) :
    findBy p (front ++ c :: back) = some (utf8Len front) := by
  induction front with
  | nil => exact if_pos hc
  | cons d front ih =>
    rw [List.cons_append, findBy, h d List.mem_cons_self,
      ih fun e he => h e (List.mem_cons_of_mem d he), String.utf8Len_cons, Nat.add_comm]
    rfl

theorem rfindBy_eq_none {cs : List Char} (h : ∀ c ∈ cs, p c = false) : rfindBy p cs = none := by
  induction cs with
  | nil => rfl
  | cons c cs ih =>
    rw [rfindBy, ih fun d hd => h d (List.mem_cons_of_mem c hd), h c List.mem_cons_self]
    rfl

theorem rfindBy_append (front : List Char) {c : Char} (hc : p c = true) {back : List Char}
    (h : ∀ d ∈ back, p d = false) : rfindBy p (front ++ c :: back) = some (utf8Len front) := by
  induction front with
  | nil =>
    rw [List.nil_append, rfindBy, rfindBy_eq_none h]
    exact if_pos hc
  | cons d front ih =>
    rw [List.cons_append, rfindBy, ih, String.utf8Len_cons, Nat.add_comm]

end TreeMiner.Lib
