import TreeMiner.Core.JsonTree
import TreeMiner.Journal.Line

/-! `serde_json` on whole trees: `from_str` down to its recursion limit, and `to_string`.
What is read and written again is the sorted tree with its numbers written afresh. -/

namespace TreeMiner

open Lib Lib.Json

/-! ## Maps in key order -/

theorem byKey_trans {α : Type*} (a b c : String × α) (h : decide (a.1 ≤ b.1) = true)
    (h' : decide (b.1 ≤ c.1) = true) : decide (a.1 ≤ c.1) = true :=
  decide_eq_true (le_trans (of_decide_eq_true h) (of_decide_eq_true h'))

theorem byKey_total {α : Type*} (a b : String × α) :
    (decide (a.1 ≤ b.1) || decide (b.1 ≤ a.1)) = true := by
  rw [Bool.or_eq_true, decide_eq_true_eq, decide_eq_true_eq]
  exact le_total _ _

namespace Value

theorem insert_perm {m : List (String × Value)} {k : String} (x : Value)
    (hk : k ∉ m.map Prod.fst) :
    ((m.filter fun p => decide (p.1 < k)) ++ (k, x) :: m.filter fun p => decide (k < p.1)).Perm
      ((k, x) :: m) := by
  have hgt : (m.filter fun p => decide (k < p.1)) = m.filter fun p => !decide (p.1 < k) := by
    refine List.filter_congr fun p hp => ?_
    have hne : p.1 ≠ k := fun h => hk (List.mem_map.2 ⟨p, hp, h⟩)
    rcases lt_or_gt_of_ne hne with h | h
    · simp [h, not_lt_of_gt h]
    · simp [h, not_lt_of_gt h]
  refine List.perm_middle.trans (List.Perm.cons _ ?_)
  rw [hgt]
  exact List.filter_append_perm _ m

theorem insert_sorted {m : List (String × Value)} (k : String) (x : Value)
    (h : m.Pairwise fun a b => a.1 < b.1) :
    ((m.filter fun p => decide (p.1 < k)) ++ (k, x) :: m.filter fun p => decide (k < p.1)).Pairwise
      fun a b => a.1 < b.1 := by
  have hlt : ∀ p ∈ m.filter (fun p => decide (p.1 < k)), p.1 < k :=
    fun p hp => of_decide_eq_true (List.mem_filter.1 hp).2
  have hgt : ∀ p ∈ m.filter (fun p => decide (k < p.1)), k < p.1 :=
    fun p hp => of_decide_eq_true (List.mem_filter.1 hp).2
  refine List.pairwise_append.2 ⟨h.filter _, List.pairwise_cons.2 ⟨hgt, h.filter _⟩, ?_⟩
  intro a ha b hb
  rcases List.mem_cons.1 hb with rfl | hb
  · exact hlt a ha
  · exact lt_trans (hlt a ha) (hgt b hb)

theorem foldl_insert_sorted (kvs m : List (String × Value)) (hm : m.Pairwise fun a b => a.1 < b.1)
    (hkeys : (kvs.map Prod.fst).Nodup) (hnew : ∀ k ∈ kvs.map Prod.fst, k ∉ m.map Prod.fst) :
    ∃ m', kvs.foldl (fun (v : Value) kv => v.insert kv.1 kv.2) (.object m) = .object m' ∧
      (m'.Pairwise fun a b => a.1 < b.1) ∧ m'.Perm (kvs ++ m) := by
  induction kvs generalizing m with
  | nil => exact ⟨m, rfl, hm, List.Perm.refl _⟩
  | cons kv kvs ih =>
    rw [List.map_cons, List.nodup_cons] at hkeys
    have hkv := insert_perm kv.2 (hnew kv.1 List.mem_cons_self)
    have hrest : ∀ k ∈ kvs.map Prod.fst, k ∉ ((m.filter fun p => decide (p.1 < kv.1)) ++
        (kv.1, kv.2) :: m.filter fun p => decide (kv.1 < p.1)).map Prod.fst := by
      intro k hk hin
      rcases List.mem_cons.1 ((hkv.map Prod.fst).mem_iff.1 hin) with rfl | hin
      · exact hkeys.1 hk
      · exact hnew k (List.mem_cons_of_mem _ hk) hin
    obtain ⟨m', hfold, hsorted, hperm⟩ := ih _ (insert_sorted kv.1 kv.2 hm) hkeys.2 hrest
    refine ⟨m', hfold, hsorted, hperm.trans ?_⟩
    exact ((List.Perm.refl kvs).append hkv).trans List.perm_middle

/-- A map of different keys is its members in key order. -/
theorem ofMembers_eq {kvs : List (String × Value)} (hkeys : (kvs.map Prod.fst).Nodup) :
    ofMembers kvs = .object (kvs.mergeSort fun a b => decide (a.1 ≤ b.1)) := by
  obtain ⟨m, hfold, hsorted, hperm⟩ := foldl_insert_sorted kvs [] List.Pairwise.nil hkeys (by simp)
  rw [List.append_nil] at hperm
  have hle : m.Pairwise fun a b => decide (a.1 ≤ b.1) = true :=
    hsorted.imp fun h => decide_eq_true (le_of_lt h)
  have heq : m = kvs.mergeSort fun a b => decide (a.1 ≤ b.1) := by
    refine List.Perm.eq_of_pairwise ?_ hle (List.pairwise_mergeSort byKey_trans byKey_total kvs)
      (hperm.trans (List.mergeSort_perm _ _).symm)
    intro a b ha hb hab hba
    exact List.inj_on_of_nodup_map hkeys (hperm.mem_iff.1 ha) (List.mem_mergeSort.1 hb)
      (le_antisymm (of_decide_eq_true hab) (of_decide_eq_true hba))
  unfold ofMembers
  rw [hfold, heq]

/-- A member put into a map without its key is the only thing `remove` takes out. -/
theorem remove_insert {kvs : List (String × Value)} {k : String} (x : Value)
    (hkeys : (kvs.map Prod.fst).Nodup) (hk : k ∉ kvs.map Prod.fst) :
    ((ofMembers kvs).insert k x).remove k = ofMembers kvs := by
  obtain ⟨m, hfold, hsorted, hperm⟩ := foldl_insert_sorted kvs [] List.Pairwise.nil hkeys (by simp)
  rw [List.append_nil] at hperm
  have hkm : k ∉ m.map Prod.fst := fun h => hk ((hperm.map Prod.fst).mem_iff.1 h)
  have hne : ∀ p ∈ m, (p.1 != k) = true := by
    intro p hp
    rw [bne_iff_ne]
    rintro rfl
    exact hkm (List.mem_map_of_mem hp)
  have hrest : (((k, x) :: m).filter fun p => p.1 != k) = m := by
    rw [List.filter_cons_of_neg (by simp), List.filter_eq_self.2 hne]
  unfold ofMembers
  rw [hfold]
  refine congrArg Value.object (@List.Perm.eq_of_pairwise _ (fun a b => a.1 < b.1) _ _ ?_
    ((insert_sorted k x hsorted).filter _) hsorted ?_)
  · intro a b _ _ hab hba
    exact absurd hab (not_lt_of_gt hba)
  · have := (insert_perm x hkm).filter fun p => p.1 != k
    rwa [hrest] at this

theorem get_insert_ofMembers {kvs : List (String × Value)} {k : String} (x : Value)
    (hkeys : (kvs.map Prod.fst).Nodup) : ((ofMembers kvs).insert k x).get k = some x := by
  obtain ⟨m, hm, -⟩ := ofMembers_object kvs hkeys
  rw [hm, get_insert, if_pos rfl]

end Value

/-! ## Reading and writing -/

/-- The string escapes of `serde_json`. -/
def serdeStyle : Style where
  gap := []
  escape := escape
  gap_ws := by simp
  escape_read c := by
    obtain ⟨p, hread, hp⟩ := escape_read c
    exact ⟨[p], hread, hp⟩

/-- `Deserializer::remaining_depth` -/
def RECURSION_LIMIT : Nat := 128

/-- The value of a tree with a given depth left: each array and each object takes one, and
none may take the last. -/
def Value.ofTree (number : List Char → Option Number) : JsonTree (List Char) → Nat → Option Value
  | .null, _ => some .null
  | .bool b, _ => some (.bool b)
  | .number t, _ => (number t).map .number
  | .string s, _ => some (.string s)
  | .array ds, left =>
    if left - 1 = 0 then none else (ds.mapM fun d => ofTree number d (left - 1)).map .array
  | .object ms, left =>
    if left - 1 = 0 then none
    else (ms.mapM fun m => (ofTree number m.2 (left - 1)).map (m.1, ·)).map ofMembers
decreasing_by all_goals first | decreasing_tactic | simpa using sizeOf_snd_lt ‹_›

namespace Codec

variable (C : Codec)

/-- A value with its numbers as `to_string` writes them. -/
def tree : Value → JsonTree (List Char)
  | .null => .null
  | .bool b => .bool b
  | .number n => .number (C.numberText n).toList
  | .string s => .string s
  | .array xs => .array (xs.map tree)
  | .object m => .object (m.map fun p => (p.1, tree p.2))
decreasing_by all_goals first | decreasing_tactic | simpa using sizeOf_snd_lt ‹_›

/-- `Value::to_string` -/
def render (v : Value) : String := String.ofList (serdeStyle.write (C.tree v))

/-- `from_str` and its numbers, on any text. -/
structure Reader : Prop where
  reads : ∀ {text : String} {j : Json}, Text text.toList j →
    C.fromStr text = (JsonTree.decode j).bind (Value.ofTree C.number · RECURSION_LIMIT)
  number_int : ∀ n : Int, i64Min ≤ n → n ≤ u64Max → C.number (toString n).toList = some (.int n)
  /-- an integer of neither `i64` nor `u64` is read as a float or refused, and no float is
  written as an integer -/
  number_big : ∀ n : Int, ¬ (i64Min ≤ n ∧ n ≤ u64Max) → C.number (toString n).toList = none ∨
    ∃ x, C.number (toString n).toList = some (.float x) ∧ Json.Number (C.floatText x).toList ∧
      ∀ i : Int, C.floatText x ≠ toString i

/-- A number read and written again. -/
def retext (t : List Char) : List Char :=
  match C.number t with
  | some n => (C.numberText n).toList
  | none => t

variable {C}

theorem mapM_some_iff {α β : Type} {f : α → Option β} {l : List α} {l' : List β} :
    l.mapM f = some l' ↔ List.Forall₂ (fun a b => f a = some b) l l' := by
  induction l generalizing l' with
  | nil => simp [eq_comm]
  | cons a l ih =>
    rw [List.mapM_cons]
    simp only [Option.bind_eq_bind, Option.bind_eq_some_iff, List.forall₂_cons_left_iff, ← ih]
    constructor
    · rintro ⟨b, hb, bs, hbs, h⟩
      exact ⟨b, bs, hb, hbs, (Option.some.inj h).symm⟩
    · rintro ⟨b, bs, hb, hbs, rfl⟩
      exact ⟨b, hb, bs, hbs, rfl⟩

theorem forall₂_map_eq {α β γ : Type} {R : α → β → Prop} {f : α → γ} {g : β → γ} {l : List α}
    {l' : List β} (h : List.Forall₂ R l l') (hfg : ∀ a ∈ l, ∀ b, R a b → f a = g b) :
    l.map f = l'.map g := by
  induction h with
  | nil => rfl
  | cons hab _ ih =>
    rw [List.map_cons, List.map_cons, hfg _ List.mem_cons_self _ hab,
      ih fun a ha => hfg a (List.mem_cons_of_mem _ ha)]

theorem exists_of_mapM {α β : Type} {f : α → Option β} {l : List α} {l' : List β}
    (h : l.mapM f = some l') {a : α} (ha : a ∈ l) : ∃ b ∈ l', f a = some b := by
  have hall := mapM_some_iff.1 h
  clear h
  induction hall with
  | nil => cases ha
  | cons hab _ ih =>
    rcases List.mem_cons.1 ha with rfl | ha
    · exact ⟨_, List.mem_cons_self, hab⟩
    · obtain ⟨b, hb, hfb⟩ := ih ha
      exact ⟨b, List.mem_cons_of_mem _ hb, hfb⟩

section

variable {number : List Char → Option Number} {ms : List (String × JsonTree (List Char))}
  {left : Nat} {v : Value}

/-- One member of an object as it is read. -/
def readMember (number : List Char → Option Number) (left : Nat)
    (m : String × JsonTree (List Char)) : Option (String × Value) :=
  (Value.ofTree number m.2 left).map (m.1, ·)

theorem ofTree_object : Value.ofTree number (.object ms) left = some v ↔
    left - 1 ≠ 0 ∧ ∃ kvs, ms.mapM (readMember number (left - 1)) = some kvs ∧
      v = Value.ofMembers kvs := by
  have hmember : (fun m : String × JsonTree (List Char) =>
      (Value.ofTree number m.2 (left - 1)).map (m.1, ·)) = readMember number (left - 1) := rfl
  rw [Value.ofTree, hmember]
  split_ifs with h0
  · simp [h0]
  · simp only [Option.map_eq_some_iff, ne_eq, h0, not_false_eq_true, true_and, eq_comm (a := v)]

theorem readMember_some {m : String × JsonTree (List Char)} {kv : String × Value}
    (h : readMember number left m = some kv) :
    kv.1 = m.1 ∧ Value.ofTree number m.2 left = some kv.2 := by
  obtain ⟨x, hx, rfl⟩ := Option.map_eq_some_iff.1 h
  exact ⟨rfl, hx⟩

theorem keys_of_mapM {kvs : List (String × Value)}
    (h : ms.mapM (readMember number left) = some kvs) : kvs.map Prod.fst = ms.map Prod.fst :=
  (forall₂_map_eq (mapM_some_iff.1 h) fun _ _ _ hkv => (readMember_some hkv).1.symm).symm

/-- A member of an object is found under its key. -/
theorem get_ofTree (h : Value.ofTree number (.object ms) left = some v)
    (hkeys : (ms.map Prod.fst).Nodup) {k : String} {d : JsonTree (List Char)} (hm : (k, d) ∈ ms) :
    ∃ x, Value.ofTree number d (left - 1) = some x ∧ v.get k = some x := by
  obtain ⟨-, kvs, hall, rfl⟩ := ofTree_object.1 h
  obtain ⟨m, heq, hin, -⟩ := Value.ofMembers_object kvs (by rwa [keys_of_mapM hall])
  obtain ⟨kv, hkv, hread⟩ := exists_of_mapM hall hm
  obtain ⟨hk, hx⟩ := readMember_some hread
  have hfound := hin _ hkv
  rw [hk] at hfound
  rw [heq]
  exact ⟨kv.2, hx, hfound⟩

/-- The last member of an object is put into the map of the others. -/
theorem ofTree_append {k : String} {d : JsonTree (List Char)}
    (h : Value.ofTree number (.object (ms ++ [(k, d)])) left = some v)
    (hkeys : ((ms ++ [(k, d)]).map Prod.fst).Nodup) : ∃ x,
      Value.ofTree number d (left - 1) = some x ∧ v.get k = some x ∧
      Value.ofTree number (.object ms) left = some (v.remove k) := by
  obtain ⟨h0, kvs, hall, rfl⟩ := ofTree_object.1 h
  rw [List.mapM_append] at hall
  simp only [List.mapM_cons, List.mapM_nil, Option.bind_eq_bind, Option.bind_eq_some_iff,
    Option.pure_def, Option.some.injEq] at hall
  obtain ⟨kvs, hkvs, _, ⟨kv, hkv, _, rfl, rfl⟩, rfl⟩ := hall
  obtain ⟨rfl, hx⟩ := readMember_some hkv
  rw [List.map_append, List.nodup_append] at hkeys
  have hnodup : (kvs.map Prod.fst).Nodup := by
    rw [keys_of_mapM hkvs]
    exact hkeys.1
  have hnew : kv.1 ∉ kvs.map Prod.fst := by
    rw [keys_of_mapM hkvs]
    exact fun hin => hkeys.2.2 _ hin _ List.mem_cons_self rfl
  have hinsert : Value.ofMembers (kvs ++ [kv]) = (Value.ofMembers kvs).insert kv.1 kv.2 := by
    unfold Value.ofMembers
    rw [List.foldl_append]
    rfl
  rw [hinsert, Value.remove_insert kv.2 hnodup hnew]
  exact ⟨kv.2, hx, Value.get_insert_ofMembers kv.2 hnodup, ofTree_object.2 ⟨h0, kvs, hkvs, rfl⟩⟩

theorem isObject_ofTree (h : Value.ofTree number (.object ms) left = some v)
    (hkeys : (ms.map Prod.fst).Nodup) : v.isObject = true := by
  obtain ⟨-, kvs, hall, rfl⟩ := ofTree_object.1 h
  obtain ⟨m, heq, -⟩ := Value.ofMembers_object kvs (by rwa [keys_of_mapM hall])
  rw [heq]
  rfl

end

/-- What is read is written again as the sorted tree, its numbers written afresh. -/
theorem tree_ofTree {d : JsonTree (List Char)} {left : Nat} {v : Value}
    (h : Value.ofTree C.number d left = some v) (hd : d.Distinct) :
    C.tree v = (d.map C.retext).norm := by
  induction d using JsonTree.ind generalizing left v with
  | null =>
    rw [Value.ofTree] at h
    cases h
    simp [tree, JsonTree.map, JsonTree.norm]
  | bool b =>
    rw [Value.ofTree] at h
    cases h
    simp [tree, JsonTree.map, JsonTree.norm]
  | number t =>
    rw [Value.ofTree, Option.map_eq_some_iff] at h
    obtain ⟨n, hn, rfl⟩ := h
    simp [tree, JsonTree.map, JsonTree.norm, retext, hn]
  | string s =>
    rw [Value.ofTree] at h
    cases h
    simp [tree, JsonTree.map, JsonTree.norm]
  | array ds ih =>
    rw [Value.ofTree] at h
    split_ifs at h
    rw [Option.map_eq_some_iff] at h
    obtain ⟨xs, hxs, rfl⟩ := h
    rw [JsonTree.Distinct] at hd
    have := forall₂_map_eq (f := fun d => (d.map C.retext).norm) (g := C.tree)
      (mapM_some_iff.1 hxs) fun d hmem x hx => (ih d hmem hx (hd d hmem)).symm
    rw [tree, JsonTree.map, JsonTree.norm, List.map_map, ← this]
    rfl
  | object ms ih =>
    rw [Value.ofTree] at h
    split_ifs at h
    rw [Option.map_eq_some_iff] at h
    obtain ⟨kvs, hkvs, rfl⟩ := h
    rw [JsonTree.Distinct] at hd
    have hall := mapM_some_iff.1 hkvs
    have hkeys := forall₂_map_eq (f := Prod.fst) (g := Prod.fst) hall fun m _ kv hkv => by
      obtain ⟨x, -, rfl⟩ := Option.map_eq_some_iff.1 hkv
      rfl
    have htrees := forall₂_map_eq (f := fun m => (m.1, (m.2.map C.retext).norm))
      (g := fun kv : String × Value => (kv.1, C.tree kv.2)) hall fun m hmem kv hkv => by
        obtain ⟨x, hx, rfl⟩ := Option.map_eq_some_iff.1 hkv
        exact Prod.ext rfl (ih m hmem hx (hd.2 m hmem)).symm
    have hsort : (kvs.mergeSort fun a b => decide (a.1 ≤ b.1)).map (fun p => (p.1, C.tree p.2)) =
        (kvs.map fun p => (p.1, C.tree p.2)).mergeSort JsonTree.byKey :=
      List.map_mergeSort fun _ _ _ _ => rfl
    rw [Value.ofMembers_eq (hkeys ▸ hd.1), tree, hsort, ← htrees, JsonTree.map, JsonTree.norm,
      List.map_map]
    rfl

theorem mapM_isSome_iff {α β : Type} {f : α → Option β} {l : List α} :
    (∃ l', l.mapM f = some l') ↔ ∀ a ∈ l, ∃ b, f a = some b := by
  induction l with
  | nil => simp
  | cons a l ih =>
    rw [List.forall_mem_cons, ← ih]
    constructor
    · rintro ⟨l', h⟩
      rw [mapM_some_iff, List.forall₂_cons_left_iff] at h
      obtain ⟨b, bs, hb, hbs, -⟩ := h
      exact ⟨⟨b, hb⟩, bs, mapM_some_iff.2 hbs⟩
    · rintro ⟨⟨b, hb⟩, bs, hbs⟩
      exact ⟨b :: bs, mapM_some_iff.2 (.cons hb (mapM_some_iff.1 hbs))⟩

/-- A tree is read if it is not too deep and each of its numbers is read. -/
theorem ofTree_isSome_iff {d : JsonTree (List Char)} {left : Nat} (hleft : 0 < left) :
    (∃ v, Value.ofTree C.number d left = some v) ↔
      d.depth < left ∧ ∀ t ∈ d.numbers, ∃ n, C.number t = some n := by
  induction d using JsonTree.ind generalizing left with
  | null => simp [Value.ofTree, JsonTree.depth, JsonTree.numbers, hleft]
  | bool b => simp [Value.ofTree, JsonTree.depth, JsonTree.numbers, hleft]
  | number t => simp [Value.ofTree, JsonTree.depth, JsonTree.numbers, hleft]
  | string s => simp [Value.ofTree, JsonTree.depth, JsonTree.numbers, hleft]
  | array ds ih =>
    rw [Value.ofTree, JsonTree.depth_array_lt]
    split_ifs with h0
    · have : ¬ 1 < left := by omega
      simp [this]
    · have hread : (∃ v, (ds.mapM fun d =>
          Value.ofTree C.number d (left - 1)).map Value.array = some v) ↔
          ∃ xs, (ds.mapM fun d => Value.ofTree C.number d (left - 1)) = some xs := by
        simp [Option.map_eq_some_iff]
      have h1 : 1 < left := by omega
      rw [hread, mapM_isSome_iff, JsonTree.numbers]
      simp only [List.mem_flatMap, h1, true_and]
      constructor
      · intro h
        exact ⟨fun d hd => ((ih d hd (by omega)).1 (h d hd)).1,
          fun t ht => ht.elim fun d ht => ((ih d ht.1 (by omega)).1 (h d ht.1)).2 t ht.2⟩
      · rintro ⟨hdepth, hnum⟩ d hd
        exact (ih d hd (by omega)).2 ⟨hdepth d hd, fun t ht => hnum t ⟨d, hd, ht⟩⟩
  | object ms ih =>
    rw [Value.ofTree, JsonTree.depth_object_lt]
    split_ifs with h0
    · have : ¬ 1 < left := by omega
      simp [this]
    · have hread : (∃ v, (ms.mapM fun m => (Value.ofTree C.number m.2 (left - 1)).map (m.1, ·)).map
          Value.ofMembers = some v) ↔
          ∃ xs, (ms.mapM fun m =>
            (Value.ofTree C.number m.2 (left - 1)).map (m.1, ·)) = some xs := by
        simp [Option.map_eq_some_iff]
      have hmember : ∀ m : String × JsonTree (List Char),
          (∃ b, (Value.ofTree C.number m.2 (left - 1)).map (m.1, ·) = some b) ↔
            ∃ v, Value.ofTree C.number m.2 (left - 1) = some v := by
        simp [Option.map_eq_some_iff]
      have h1 : 1 < left := by omega
      rw [hread, mapM_isSome_iff, JsonTree.numbers]
      simp only [List.mem_flatMap, h1, true_and, hmember]
      constructor
      · intro h
        exact ⟨fun m hm => ((ih m hm (by omega)).1 (h m hm)).1,
          fun t ht => ht.elim fun m ht => ((ih m ht.1 (by omega)).1 (h m ht.1)).2 t ht.2⟩
      · rintro ⟨hdepth, hnum⟩ m hm
        exact (ih m hm (by omega)).2 ⟨hdepth m hm, fun t ht => hnum t ⟨m, hm, ht⟩⟩

/-! ## A codec with these laws -/

/-- An integer in range by its decimal text, and no other number. -/
def integerNumber (text : List Char) : Option Number :=
  let n : Int := match text with
    | '-' :: ds => -(natOfDigits ds : Int)
    | ds => natOfDigits ds
  if text = (toString n).toList ∧ i64Min ≤ n ∧ n ≤ u64Max then some (.int n) else none

open Classical in
/-- The reader of trees whose numbers are integers. -/
noncomputable def sampleTree : Codec where
  fromStr text := if h : ∃ j, Text text.toList j then
    (JsonTree.decode h.choose).bind (Value.ofTree integerNumber · RECURSION_LIMIT) else none
  number := integerNumber
  floatText x := String.ofList (sampleText x)
  debugF64 x := String.ofList (sampleText x)
  parseF64 text := some (sampleFloat text.toList)

open Classical in
theorem sampleTree_fromStr (text : String) : sampleTree.fromStr text =
    if h : ∃ j, Text text.toList j then
      (JsonTree.decode h.choose).bind (Value.ofTree integerNumber · RECURSION_LIMIT)
    else none := rfl

theorem integerNumber_toString (n : Int) : integerNumber (toString n).toList =
    if i64Min ≤ n ∧ n ≤ u64Max then some (.int n) else none := by
  have hval : (match (toString n).toList with
      | '-' :: ds => -(natOfDigits ds : Int)
      | ds => natOfDigits ds) = n := intOfDigits_toString n
  unfold integerNumber
  dsimp only
  rw [hval]
  simp

theorem sampleTree_reader : sampleTree.Reader where
  reads := by
    intro text j htext
    have hex : ∃ j, Text text.toList j := ⟨j, htext⟩
    rw [sampleTree_fromStr, dif_pos hex, text_unique hex.choose_spec htext]
    rfl
  number_int := by
    intro n hmin hmax
    change integerNumber _ = _
    rw [integerNumber_toString, if_pos ⟨hmin, hmax⟩]
  number_big := by
    intro n hn
    left
    change integerNumber _ = _
    rw [integerNumber_toString, if_neg hn]

end Codec

end TreeMiner
