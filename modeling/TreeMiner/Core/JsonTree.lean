import Mathlib.Data.List.Sort
import TreeMiner.Core.SerdeJson

/-! JSON values over any kind of number, and the texts serialisers write for them. A text
written in a style is read back to its tree, so two trees of one text are equal. -/

namespace TreeMiner

open Lib Lib.Json

theorem sizeOf_snd_lt {α β : Type} [SizeOf α] [SizeOf β] {ms : List (α × β)} {m : α × β}
    (h : m ∈ ms) : sizeOf m.2 < 1 + sizeOf ms := by
  have hm := List.sizeOf_lt_of_mem h
  have hp : sizeOf m = 1 + sizeOf m.1 + sizeOf m.2 := by
    cases m
    rfl
  omega

inductive JsonTree (ν : Type)
  | null
  | bool (b : Bool)
  | number (n : ν)
  | string (s : String)
  | array (items : List (JsonTree ν))
  | object (members : List (String × JsonTree ν))

namespace JsonTree

variable {ν μ : Type}

theorem ind {motive : JsonTree ν → Prop} (null : motive .null) (bool : ∀ b, motive (.bool b))
    (number : ∀ n, motive (.number n)) (string : ∀ s, motive (.string s))
    (array : ∀ ds, (∀ d ∈ ds, motive d) → motive (.array ds))
    (object : ∀ ms : List (String × JsonTree ν), (∀ m ∈ ms, motive m.2) → motive (.object ms))
    (d : JsonTree ν) : motive d :=
  match d with
  | .null => null
  | .bool b => bool b
  | .number n => number n
  | .string s => string s
  | .array ds => array ds fun d _ => ind null bool number string array object d
  | .object ms => object ms fun m _ => ind null bool number string array object m.2
decreasing_by all_goals first | decreasing_tactic | simpa using sizeOf_snd_lt ‹_›

def map (f : ν → μ) : JsonTree ν → JsonTree μ
  | .null => .null
  | .bool b => .bool b
  | .number n => .number (f n)
  | .string s => .string s
  | .array ds => .array (ds.map (map f))
  | .object ms => .object (ms.map fun m => (m.1, map f m.2))
decreasing_by all_goals first | decreasing_tactic | simpa using sizeOf_snd_lt ‹_›

def numbers : JsonTree ν → List ν
  | .number n => [n]
  | .array ds => ds.flatMap numbers
  | .object ms => ms.flatMap fun m => numbers m.2
  | _ => []
decreasing_by all_goals first | decreasing_tactic | simpa using sizeOf_snd_lt ‹_›

/-- How many arrays and objects stand inside each other. -/
def depth : JsonTree ν → Nat
  | .array ds => (ds.map depth).foldr max 0 + 1
  | .object ms => (ms.map fun m => depth m.2).foldr max 0 + 1
  | _ => 0
decreasing_by all_goals first | decreasing_tactic | simpa using sizeOf_snd_lt ‹_›

def byKey (a b : String × JsonTree ν) : Bool := decide (a.1 ≤ b.1)

/-- The members of each object in key order. -/
def norm : JsonTree ν → JsonTree ν
  | .null => .null
  | .bool b => .bool b
  | .number n => .number n
  | .string s => .string s
  | .array ds => .array (ds.map norm)
  | .object ms => .object ((ms.map fun m => (m.1, norm m.2)).mergeSort byKey)
decreasing_by all_goals first | decreasing_tactic | simpa using sizeOf_snd_lt ‹_›

/-- No object has a key twice. -/
def Distinct : JsonTree ν → Prop
  | .array ds => ∀ d ∈ ds, Distinct d
  | .object ms => (ms.map Prod.fst).Nodup ∧ ∀ m ∈ ms, Distinct m.2
  | _ => True
decreasing_by all_goals first | decreasing_tactic | simpa using sizeOf_snd_lt ‹_›

def decode : Json → Option (JsonTree (List Char))
  | .null => some .null
  | .bool b => some (.bool b)
  | .number t => some (.number t)
  | .string p => (decodeString p).map fun cs => .string (String.ofList cs)
  | .array js => (js.mapM decode).map .array
  | .object ms => (ms.mapM fun m => (decodeString m.1).bind fun k =>
      (decode m.2).map (String.ofList k, ·)).map .object
decreasing_by all_goals first | decreasing_tactic | simpa using sizeOf_snd_lt ‹_›

/-! ## Trees and their numbers -/

theorem map_eq_self {f : ν → ν} {d : JsonTree ν} : d.map f = d ↔ ∀ n ∈ d.numbers, f n = n := by
  have hlist : ∀ {α : Type} (g : α → α) (l : List α), l.map g = l ↔ ∀ x ∈ l, g x = x := by
    intro α g l
    have := List.map_inj_left (l := l) (f := g) (g := id)
    rwa [List.map_id] at this
  induction d using ind with
  | null => simp [map, numbers]
  | bool b => simp [map, numbers]
  | number n => simp [map, numbers]
  | string s => simp [map, numbers]
  | array ds ih =>
    simp only [map, numbers, array.injEq, hlist, List.mem_flatMap]
    constructor
    · rintro h n ⟨d, hd, hn⟩
      exact (ih d hd).1 (h d hd) n hn
    · intro h d hd
      exact (ih d hd).2 fun n hn => h n ⟨d, hd, hn⟩
  | object ms ih =>
    simp only [map, numbers, object.injEq, hlist, List.mem_flatMap]
    constructor
    · rintro h n ⟨m, hm, hn⟩
      exact (ih m hm).1 (congrArg Prod.snd (h m hm)) n hn
    · intro h m hm
      exact Prod.ext rfl ((ih m hm).2 fun n hn => h n ⟨m, hm, hn⟩)

theorem numbers_map (f : ν → μ) (d : JsonTree ν) : (d.map f).numbers = d.numbers.map f := by
  induction d using ind with
  | array ds ih =>
    simp only [map, numbers, List.flatMap_map, List.map_flatMap]
    exact List.flatMap_congr fun d hd => ih d hd
  | object ms ih =>
    simp only [map, numbers, List.flatMap_map, List.map_flatMap]
    exact List.flatMap_congr fun m hm => ih m hm
  | _ => simp [map, numbers]

theorem depth_map (f : ν → μ) (d : JsonTree ν) : (d.map f).depth = d.depth := by
  induction d using ind with
  | array ds ih =>
    simp only [map, depth, List.map_map]
    exact congrArg (fun l => l.foldr max 0 + 1) (List.map_congr_left ih)
  | object ms ih =>
    simp only [map, depth, List.map_map]
    exact congrArg (fun l => l.foldr max 0 + 1) (List.map_congr_left ih)
  | _ => simp [map, depth]

theorem foldr_max_lt {l : List Nat} {n : Nat} :
    l.foldr max 0 + 1 < n ↔ 1 < n ∧ ∀ x ∈ l, x < n - 1 := by
  induction l with
  | nil => simp
  | cons x l ih =>
    rw [List.foldr_cons, List.forall_mem_cons]
    have hmax : max x (l.foldr max 0) + 1 < n ↔ x < n - 1 ∧ l.foldr max 0 + 1 < n := by omega
    rw [hmax, ih]
    tauto

theorem depth_array_lt {ds : List (JsonTree ν)} {n : Nat} :
    (array ds).depth < n ↔ 1 < n ∧ ∀ d ∈ ds, d.depth < n - 1 := by
  rw [depth, foldr_max_lt, List.forall_mem_map]

theorem depth_object_lt {ms : List (String × JsonTree ν)} {n : Nat} :
    (object ms).depth < n ↔ 1 < n ∧ ∀ m ∈ ms, m.2.depth < n - 1 := by
  rw [depth, foldr_max_lt, List.forall_mem_map]

theorem distinct_map (f : ν → μ) (d : JsonTree ν) : (d.map f).Distinct ↔ d.Distinct := by
  induction d using ind with
  | array ds ih =>
    simp only [map, Distinct, List.forall_mem_map]
    exact forall₂_congr ih
  | object ms ih =>
    simp only [map, Distinct, List.forall_mem_map, List.map_map]
    exact and_congr Iff.rfl (forall₂_congr ih)
  | _ => simp [map, Distinct]

theorem mem_numbers_norm {n : ν} {d : JsonTree ν} : n ∈ d.norm.numbers ↔ n ∈ d.numbers := by
  induction d using ind with
  | array ds ih =>
    simp only [norm, numbers, List.mem_flatMap, List.mem_map, exists_exists_and_eq_and]
    exact exists_congr fun d => and_congr_right fun hd => ih d hd
  | object ms ih =>
    simp only [norm, numbers, List.mem_flatMap, List.mem_mergeSort, List.mem_map,
      exists_exists_and_eq_and]
    exact exists_congr fun m => and_congr_right fun hm => ih m hm
  | _ => simp [norm]

theorem norm_map (f : ν → μ) (d : JsonTree ν) : (d.map f).norm = d.norm.map f := by
  induction d using ind with
  | array ds ih =>
    simp only [map, norm, List.map_map]
    exact congrArg _ (List.map_congr_left ih)
  | object ms ih =>
    have hkeys : ∀ x ∈ ms.map (fun m => (m.1, m.2.norm)), ∀ y ∈ ms.map (fun m => (m.1, m.2.norm)),
        byKey x y = byKey (x.1, x.2.map f) (y.1, y.2.map f) := fun _ _ _ _ => rfl
    simp only [map, norm, object.injEq]
    rw [List.map_mergeSort hkeys, List.map_map, List.map_map]
    exact congrArg (List.mergeSort · byKey)
      (List.map_congr_left fun m hm => Prod.ext rfl (ih m hm))
  | _ => simp [map, norm]

end JsonTree

/-! ## Texts -/

/-- How strings are escaped, and what stands behind a comma and a colon. -/
structure Style where
  gap : List Char
  escape : Char → List Char
  gap_ws : ∀ c ∈ gap, isWs c = true
  escape_read : ∀ c, ∃ p : List Piece,
    (∀ s ps r, StrBody s ps r → StrBody (escape c ++ s) (p ++ ps) r) ∧
      ∀ ps, decodeString (p ++ ps) = (decodeString ps).map (c :: ·)

namespace Style

variable (S : Style)

def string (s : String) : List Char := '"' :: (s.toList.flatMap S.escape ++ ['"'])

def join : List (List Char) → List Char
  | [] => []
  | [x] => x
  | x :: xs => x ++ ',' :: (S.gap ++ join xs)

def write : JsonTree (List Char) → List Char
  | .null => nullText
  | .bool true => trueText
  | .bool false => falseText
  | .number t => t
  | .string s => S.string s
  | .array ds => '[' :: (S.join (ds.map write) ++ [']'])
  | .object ms => '{' ::
      (S.join (ms.map fun m => S.string m.1 ++ ':' :: (S.gap ++ write m.2)) ++ ['}'])
decreasing_by all_goals first | decreasing_tactic | simpa using sizeOf_snd_lt ‹_›

/-- The text of a member of an object. -/
def member (m : String × JsonTree (List Char)) : List Char :=
  S.string m.1 ++ ':' :: (S.gap ++ S.write m.2)

theorem write_object (ms : List (String × JsonTree (List Char))) :
    S.write (.object ms) = '{' :: (S.join (ms.map S.member) ++ ['}']) := by
  rw [write]
  rfl

end Style

/-- The texts of the numbers are JSON numbers. -/
def JsonTree.Numeric (d : JsonTree (List Char)) : Prop := ∀ t ∈ d.numbers, Json.Number t

namespace Style

variable {S : Style}

theorem string_read (s : String) : ∃ p, decodeString p = some s.toList ∧
    ∀ r, ∃ body, S.string s ++ r = '"' :: body ∧ StrBody body p r := by
  have hbody : ∀ cs : List Char, ∃ p, decodeString p = some cs ∧
      ∀ r, StrBody (cs.flatMap S.escape ++ '"' :: r) p r := by
    intro cs
    induction cs with
    | nil => exact ⟨[], rfl, .close⟩
    | cons c cs ih =>
      obtain ⟨ps, hdec, hps⟩ := ih
      obtain ⟨p, hread, hp⟩ := S.escape_read c
      refine ⟨p ++ ps, by rw [hp, hdec, Option.map_some], fun r => ?_⟩
      rw [List.flatMap_cons, List.append_assoc]
      exact hread _ _ _ (hps r)
  obtain ⟨p, hdec, hp⟩ := hbody s.toList
  exact ⟨p, hdec, fun r => ⟨_, by simp [string], hp r⟩⟩

/-- The text of a tree is read as the tree, in front of anything. -/
def ReadBack (S : Style) (d : JsonTree (List Char)) : Prop :=
  ∃ j, JsonTree.decode j = some d ∧ ∀ r, Json.Value (S.write d ++ r) j r

theorem ws_gap {lead : List Char} (h : ∀ c ∈ lead, isWs c = true) (s : List Char) :
    Ws (lead ++ s) s := ⟨lead, rfl, h⟩

theorem ws_self (s : List Char) : Ws s s := ⟨[], rfl, by simp⟩

theorem items_read {d : JsonTree (List Char)} {ds : List (JsonTree (List Char))}
    (h : ∀ x ∈ d :: ds, S.ReadBack x) : ∃ js, js.mapM JsonTree.decode = some (d :: ds) ∧
      ∀ lead, (∀ c ∈ lead, isWs c = true) → ∀ r,
        Items (lead ++ S.join ((d :: ds).map S.write) ++ ']' :: r) js r := by
  induction ds generalizing d with
  | nil =>
    obtain ⟨j, hj, hread⟩ := h d List.mem_cons_self
    refine ⟨[j], by simp [hj], fun lead hlead r => ?_⟩
    rw [List.append_assoc]
    exact .last (ws_gap hlead _) (hread _) (ws_self _)
  | cons e ds ih =>
    obtain ⟨j, hj, hread⟩ := h d List.mem_cons_self
    obtain ⟨js, hjs, hitems⟩ := ih fun x hx => h x (List.mem_cons_of_mem _ hx)
    refine ⟨j :: js, by simp [hj, hjs], fun lead hlead r => ?_⟩
    have htext : lead ++ S.join ((d :: e :: ds).map S.write) ++ ']' :: r =
        lead ++ (S.write d ++ ',' :: (S.gap ++ S.join ((e :: ds).map S.write) ++ ']' :: r)) := by
      simp [join]
    rw [htext]
    exact .cons (ws_gap hlead _) (hread _) (ws_self _) (hitems S.gap S.gap_ws r)

theorem members_read {m : String × JsonTree (List Char)}
    {ms : List (String × JsonTree (List Char))} (h : ∀ x ∈ m :: ms, S.ReadBack x.2) :
    ∃ js, (js.mapM fun j => (decodeString j.1).bind fun k =>
        (JsonTree.decode j.2).map (String.ofList k, ·)) = some (m :: ms) ∧
      ∀ lead, (∀ c ∈ lead, isWs c = true) → ∀ r,
        Members (lead ++ S.join ((m :: ms).map S.member) ++ '}' :: r) js r := by
  induction ms generalizing m with
  | nil =>
    obtain ⟨j, hj, hread⟩ := h m List.mem_cons_self
    obtain ⟨p, hdec, hp⟩ := S.string_read m.1
    refine ⟨[(p, j)], by simp [hj, hdec], fun lead hlead r => ?_⟩
    obtain ⟨body, hbody, hstr⟩ := hp (':' :: (S.gap ++ (S.write m.2 ++ '}' :: r)))
    have htext : lead ++ S.join ([m].map S.member) ++ '}' :: r = lead ++ '"' :: body := by
      rw [← hbody]
      simp [join, member]
    rw [htext]
    exact .last (ws_gap hlead _) hstr (ws_self _) (ws_gap S.gap_ws _) (hread _) (ws_self _)
  | cons n ms ih =>
    obtain ⟨j, hj, hread⟩ := h m List.mem_cons_self
    obtain ⟨js, hjs, hmembers⟩ := ih fun x hx => h x (List.mem_cons_of_mem _ hx)
    obtain ⟨p, hdec, hp⟩ := S.string_read m.1
    refine ⟨(p, j) :: js, by simp [hj, hdec, hjs], fun lead hlead r => ?_⟩
    obtain ⟨body, hbody, hstr⟩ := hp (':' :: (S.gap ++ (S.write m.2 ++
      ',' :: (S.gap ++ S.join ((n :: ms).map S.member) ++ '}' :: r))))
    have htext : lead ++ S.join ((m :: n :: ms).map S.member) ++ '}' :: r =
        lead ++ '"' :: body := by
      rw [← hbody]
      simp [join, member]
    rw [htext]
    exact .cons (ws_gap hlead _) hstr (ws_self _) (ws_gap S.gap_ws _) (hread _) (ws_self _)
      (hmembers S.gap S.gap_ws r)

theorem readBack {d : JsonTree (List Char)} (h : d.Numeric) : S.ReadBack d := by
  induction d using JsonTree.ind with
  | null => exact ⟨.null, by simp [JsonTree.decode], fun r => by rw [write]; exact .null r⟩
  | bool b =>
    refine ⟨.bool b, by simp [JsonTree.decode], fun r => ?_⟩
    cases b with
    | true => rw [write]; exact .true r
    | false => rw [write]; exact .false r
  | number t =>
    refine ⟨.number t, by simp [JsonTree.decode], fun r => ?_⟩
    rw [write]
    exact .number (h t (by simp [JsonTree.numbers])) r
  | string s =>
    obtain ⟨p, hdec, hp⟩ := S.string_read s
    refine ⟨.string p, by simp [JsonTree.decode, hdec], fun r => ?_⟩
    obtain ⟨body, hbody, hstr⟩ := hp r
    rw [write, hbody]
    exact .string hstr
  | array ds ih =>
    rcases ds with _ | ⟨d, ds⟩
    · refine ⟨.array [], by simp [JsonTree.decode], fun r => ?_⟩
      rw [write]
      exact .emptyArray (ws_self _)
    · obtain ⟨js, hjs, hitems⟩ := items_read fun x hx => ih x hx fun t ht =>
        h t (by rw [JsonTree.numbers]; exact List.mem_flatMap.2 ⟨x, hx, ht⟩)
      refine ⟨.array js, by simp [JsonTree.decode, hjs], fun r => ?_⟩
      have := hitems [] (by simp) r
      rw [write]
      simpa using Json.Value.array this
  | object ms ih =>
    rcases ms with _ | ⟨m, ms⟩
    · refine ⟨.object [], by simp [JsonTree.decode], fun r => ?_⟩
      rw [write]
      exact .emptyObject (ws_self _)
    · obtain ⟨js, hjs, hmembers⟩ := members_read fun x hx => ih x hx fun t ht =>
        h t (by rw [JsonTree.numbers]; exact List.mem_flatMap.2 ⟨x, hx, ht⟩)
      refine ⟨.object js, by simp [JsonTree.decode, hjs], fun r => ?_⟩
      have := hmembers [] (by simp) r
      rw [write_object]
      simpa using Json.Value.object this

theorem text_read {d : JsonTree (List Char)} (h : d.Numeric) :
    ∃ j, JsonTree.decode j = some d ∧ Text (S.write d) j := by
  obtain ⟨j, hj, hread⟩ := S.readBack h
  have := hread []
  rw [List.append_nil] at this
  exact ⟨j, hj, _, _, ws_self _, this, ws_self _⟩

/-- A text has one tree. -/
theorem write_injective {d d' : JsonTree (List Char)} (h : d.Numeric) (h' : d'.Numeric)
    (he : S.write d = S.write d') : d = d' := by
  obtain ⟨j, hj, htext⟩ := S.text_read h
  obtain ⟨j', hj', htext'⟩ := S.text_read h'
  rw [he] at htext
  cases text_unique htext htext'
  rw [hj] at hj'
  exact Option.some.inj hj'

end Style

end TreeMiner
