import Mathlib.Data.List.Induction
import TreeMiner.Platform.Replay

/-! What the replay cache is: a queue of bounded length over the nonces of its map, in the order
in which they were recorded. Eviction takes the nonce recorded first of those still there. -/

namespace TreeMiner

namespace NonceCache

/-- The queue lists the nonces of the map, each once, and no more than there is room for. -/
structure Listed (c : NonceCache) : Prop where
  perm : c.insertionOrder.Perm c.byNonce.keys
  room : 0 < c.capacity
  size : c.len ≤ c.capacity

variable {c : NonceCache} {order : List String} {m : AList fun _ : String => Int}

theorem Listed.nodup (h : c.Listed) : c.insertionOrder.Nodup :=
  h.perm.nodup_iff.2 c.byNonce.keys_nodup

theorem Listed.mem_iff (h : c.Listed) (nonce : String) :
    nonce ∈ c.insertionOrder ↔ nonce ∈ c.byNonce := h.perm.mem_iff

theorem len_of_perm (h : c.insertionOrder.Perm c.byNonce.keys) :
    c.len = c.insertionOrder.length := by
  rw [h.length_eq]
  exact (List.length_map _).symm

theorem listed_new (capacity : Nat) : (new capacity).Listed :=
  ⟨.refl _, Nat.lt_of_lt_of_le Nat.zero_lt_one (Nat.le_max_right _ _), Nat.zero_le _⟩

/-! ## The loops -/

/-- The front of the queue leaves queue and map together. -/
theorem perm_erase {front : String} {rest : List String} (h : (front :: rest).Perm m.keys) :
    rest.Perm (m.erase front).keys := by
  have herase := h.erase front
  rwa [List.erase_cons_head, ← AList.keys_erase] at herase

theorem purgeLoop_listed (now : Int) (h : order.Perm m.keys) :
    (purgeLoop now order m).1.Perm (purgeLoop now order m).2.keys ∧
      (purgeLoop now order m).1 <:+ order := by
  induction order generalizing m with
  | nil => exact ⟨h, List.suffix_refl _⟩
  | cons front rest ih =>
    have hfront : front ∈ m := h.mem_iff.1 List.mem_cons_self
    obtain ⟨expiresAt, hlookup⟩ := Option.isSome_iff_exists.1 (AList.lookup_isSome.2 hfront)
    unfold purgeLoop
    rw [hlookup]
    dsimp only
    split_ifs with hlive
    · exact ⟨h, List.suffix_refl _⟩
    · obtain ⟨hperm, hsuffix⟩ := ih (perm_erase h)
      exact ⟨hperm, hsuffix.trans (List.suffix_cons front rest)⟩

theorem Listed.purge (h : c.Listed) (now : Int) :
    (c.purgeExpired now).Listed ∧ (c.purgeExpired now).insertionOrder <:+ c.insertionOrder := by
  obtain ⟨hperm, hsuffix⟩ := purgeLoop_listed now h.perm
  refine ⟨⟨hperm, h.room, ?_⟩, hsuffix⟩
  calc (c.purgeExpired now).len = (c.purgeExpired now).insertionOrder.length := len_of_perm hperm
    _ ≤ c.insertionOrder.length := hsuffix.length_le
    _ = c.len := (len_of_perm h.perm).symm
    _ ≤ c.capacity := h.size

/-- A full cache loses its oldest nonce and no other. -/
theorem evictLoop_full {capacity : Nat} {oldest : String} {rest : List String}
    (h : (oldest :: rest).Perm m.keys) (hfull : m.entries.length = capacity) :
    evictLoop capacity (oldest :: rest) m = (rest, m.erase oldest) := by
  have hkeys : m.entries.length = m.keys.length := (List.length_map _).symm
  have hrest : (m.erase oldest).entries.length = (m.erase oldest).keys.length :=
    (List.length_map _).symm
  have hshort : (m.erase oldest).entries.length < capacity := by
    rw [hrest, ← (perm_erase h).length_eq, ← hfull, hkeys, ← h.length_eq]
    exact Nat.lt_succ_self _
  unfold evictLoop
  rw [if_pos (Nat.le_of_eq hfull.symm), evictLoop_room hshort]

/-! ## One call -/

/-- What a call can do: it knows the nonce, or records it behind the others, with room or after
the oldest has made room. -/
theorem Listed.checkAndInsert_cases (h : c.Listed) (nonce : String) (expiresAt now : Int) :
    (nonce ∈ (c.purgeExpired now).byNonce ∧
      c.checkAndInsert nonce expiresAt now = (false, c.purgeExpired now)) ∨
    (nonce ∉ (c.purgeExpired now).byNonce ∧ (c.purgeExpired now).len < c.capacity ∧
      c.checkAndInsert nonce expiresAt now = (true, ⟨c.capacity,
        (c.purgeExpired now).byNonce.insert nonce expiresAt,
        (c.purgeExpired now).insertionOrder ++ [nonce]⟩)) ∨
    ∃ oldest rest, nonce ∉ (c.purgeExpired now).byNonce ∧
      (c.purgeExpired now).len = c.capacity ∧
      (c.purgeExpired now).insertionOrder = oldest :: rest ∧
      c.checkAndInsert nonce expiresAt now = (true, ⟨c.capacity,
        ((c.purgeExpired now).byNonce.erase oldest).insert nonce expiresAt, rest ++ [nonce]⟩) := by
  obtain ⟨hpurged, -⟩ := h.purge now
  by_cases hseen : nonce ∈ (c.purgeExpired now).byNonce
  · exact .inl ⟨hseen, checkAndInsert_seen (AList.lookup_isSome.2 hseen)⟩
  · have hfresh : (c.purgeExpired now).containsKey nonce = false :=
      Bool.eq_false_iff.2 fun hkey => hseen (AList.lookup_isSome.1 hkey)
    have hsize : (c.purgeExpired now).len ≤ c.capacity := hpurged.size
    rw [checkAndInsert_fresh hfresh]
    rcases Nat.lt_or_eq_of_le hsize with hroom | hfull
    · refine .inr (.inl ⟨hseen, hroom, ?_⟩)
      rw [evictLoop_room hroom]
    · cases horder : (c.purgeExpired now).insertionOrder with
      | nil =>
        have hempty := len_of_perm hpurged.perm
        rw [horder, hfull] at hempty
        exact absurd hempty (Nat.ne_of_gt h.room)
      | cons oldest rest =>
        have hperm := hpurged.perm
        rw [horder] at hperm
        refine .inr (.inr ⟨oldest, rest, hseen, hfull, rfl, ?_⟩)
        rw [evictLoop_full hperm hfull]

theorem perm_insert {nonce : String} {expiresAt : Int} (h : order.Perm m.keys)
    (hnew : nonce ∉ m) : (order ++ [nonce]).Perm (m.insert nonce expiresAt).keys := by
  rw [AList.keys_insert, List.erase_of_not_mem hnew]
  exact (List.perm_append_singleton nonce order).trans (h.cons nonce)

/-- The step lemma: a call keeps queue and map in step. -/
theorem Listed.checkAndInsert (h : c.Listed) (nonce : String) (expiresAt now : Int) :
    (c.checkAndInsert nonce expiresAt now).2.Listed := by
  obtain ⟨hpurged, -⟩ := h.purge now
  have hlen := len_of_perm hpurged.perm
  rcases h.checkAndInsert_cases nonce expiresAt now with
    ⟨-, hcall⟩ | ⟨hnew, hroom, hcall⟩ | ⟨oldest, rest, hnew, hfull, horder, hcall⟩
  · rw [hcall]
    exact hpurged
  · have hperm := @perm_insert _ _ nonce expiresAt hpurged.perm hnew
    rw [hcall]
    refine ⟨hperm, h.room, ?_⟩
    rw [len_of_perm hperm, List.length_append, ← hlen]
    exact hroom
  · have hrest := hpurged.perm
    rw [horder] at hrest hlen
    have hperm := @perm_insert _ _ nonce expiresAt (perm_erase hrest)
      fun hmem => hnew (AList.mem_erase.1 hmem).2
    rw [hcall]
    refine ⟨hperm, h.room, ?_⟩
    rw [len_of_perm hperm, List.length_append, ← hfull, hlen]
    exact le_rfl

end NonceCache

/-! ## Histories -/

structure NonceCall where
  nonce : String
  expiresAt : Int
  now : Int

namespace NonceCache

def check (c : NonceCache) (x : NonceCall) : Bool × NonceCache :=
  c.checkAndInsert x.nonce x.expiresAt x.now

/-- The cache after a sequence of calls. -/
def after (capacity : Nat) (calls : List NonceCall) : NonceCache :=
  calls.foldl (fun c x => (c.check x).2) (new capacity)

/-- Call `i` recorded the nonce. -/
def Recorded (capacity : Nat) (calls : List NonceCall) (i : Nat) (nonce : String) : Prop :=
  ∃ x, calls[i]? = some x ∧ x.nonce = nonce ∧ ((after capacity (calls.take i)).check x).1 = true

/-- The nonce was recorded by call `i`, and by none after it. -/
def RecordedLast (capacity : Nat) (calls : List NonceCall) (i : Nat) (nonce : String) : Prop :=
  Recorded capacity calls i nonce ∧ ∀ j, Recorded capacity calls j nonce → j ≤ i

variable {capacity : Nat} {calls : List NonceCall} {x : NonceCall} {i : Nat} {nonce : String}

theorem after_append : after capacity (calls ++ [x]) = ((after capacity calls).check x).2 := by
  unfold after
  rw [List.foldl_append]
  rfl

theorem recorded_lt (h : Recorded capacity calls i nonce) : i < calls.length := by
  obtain ⟨x, hx, -⟩ := h
  exact (List.getElem?_eq_some_iff.1 hx).1

theorem recorded_append : Recorded capacity (calls ++ [x]) i nonce ↔
    Recorded capacity calls i nonce ∨ i = calls.length ∧ x.nonce = nonce ∧
      ((after capacity calls).check x).1 = true := by
  unfold Recorded
  rcases Nat.lt_trichotomy i calls.length with hlt | rfl | hgt
  · rw [List.getElem?_append_left hlt, List.take_append_of_le_length (Nat.le_of_lt hlt)]
    exact ⟨.inl, fun h => h.elim id fun h => absurd h.1 (Nat.ne_of_lt hlt)⟩
  · have hbeyond : calls[calls.length]? = none := List.getElem?_eq_none le_rfl
    rw [List.getElem?_concat_length, List.take_append_of_le_length le_rfl, List.take_length,
      hbeyond]
    constructor
    · rintro ⟨y, hy, hnonce, hcall⟩
      cases hy
      exact .inr ⟨rfl, hnonce, hcall⟩
    · rintro (⟨y, hy, -⟩ | ⟨-, hnonce, hcall⟩)
      · cases hy
      · exact ⟨x, rfl, hnonce, hcall⟩
  · have hbeyond : calls[i]? = none := List.getElem?_eq_none (Nat.le_of_lt hgt)
    have hbeyond' : (calls ++ [x])[i]? = none :=
      List.getElem?_eq_none (by rw [List.length_append]; exact hgt)
    rw [hbeyond, hbeyond']
    constructor
    · rintro ⟨y, hy, -⟩
      cases hy
    · rintro (⟨y, hy, -⟩ | ⟨heq, -⟩)
      · cases hy
      · exact absurd heq (Nat.ne_of_gt hgt)

/-- A call that does not record the nonce leaves it where it was recorded. -/
theorem recordedLast_append (h : x.nonce = nonce → ((after capacity calls).check x).1 = false) :
    RecordedLast capacity (calls ++ [x]) i nonce ↔ RecordedLast capacity calls i nonce := by
  have hiff : ∀ j, Recorded capacity (calls ++ [x]) j nonce ↔ Recorded capacity calls j nonce := by
    intro j
    rw [recorded_append]
    refine or_iff_left ?_
    rintro ⟨-, hnonce, hcall⟩
    rw [h hnonce] at hcall
    cases hcall
  unfold RecordedLast
  simp only [hiff]

theorem recordedLast_new (h : ((after capacity calls).check x).1 = true) :
    RecordedLast capacity (calls ++ [x]) i x.nonce ↔ i = calls.length := by
  have hlast : Recorded capacity (calls ++ [x]) calls.length x.nonce :=
    recorded_append.2 (.inr ⟨rfl, rfl, h⟩)
  have hle : ∀ j, Recorded capacity (calls ++ [x]) j x.nonce → j ≤ calls.length := by
    intro j hj
    have := recorded_lt hj
    rw [List.length_append] at this
    exact Nat.lt_succ_iff.1 this
  constructor
  · rintro ⟨hrecorded, hmax⟩
    exact Nat.le_antisymm (hle i hrecorded) (hmax _ hlast)
  · rintro rfl
    exact ⟨hlast, hle⟩

/-- The nonces of the queue, each behind those recorded before it. -/
structure Ordered (capacity : Nat) (calls : List NonceCall) (order : List String) : Prop where
  recorded : ∀ nonce ∈ order, ∃ i, RecordedLast capacity calls i nonce
  sorted : order.Pairwise fun nonce nonce' => ∀ i j, RecordedLast capacity calls i nonce →
    RecordedLast capacity calls j nonce' → i < j

theorem Ordered.sublist {order order' : List String} (h : Ordered capacity calls order)
    (hsub : order'.Sublist order) : Ordered capacity calls order' :=
  ⟨fun nonce hmem => h.recorded nonce (hsub.subset hmem), h.sorted.sublist hsub⟩

/-- Calls that record none of these nonces leave their order. -/
theorem Ordered.keep {order : List String} (h : Ordered capacity calls order)
    (hx : x.nonce ∈ order → ((after capacity calls).check x).1 = false) :
    Ordered capacity (calls ++ [x]) order := by
  have hiff : ∀ nonce ∈ order, ∀ i, RecordedLast capacity (calls ++ [x]) i nonce ↔
      RecordedLast capacity calls i nonce :=
    fun nonce hmem i => recordedLast_append fun heq => hx (heq ▸ hmem)
  constructor
  · intro nonce hmem
    obtain ⟨i, hi⟩ := h.recorded nonce hmem
    exact ⟨i, (hiff nonce hmem i).2 hi⟩
  · refine h.sorted.imp_of_mem fun {a b} ha hb hlt i j hi hj => ?_
    exact hlt i j ((hiff a ha i).1 hi) ((hiff b hb j).1 hj)

/-- A nonce just recorded goes behind them. -/
theorem Ordered.record {order : List String} (h : Ordered capacity calls order)
    (hnew : x.nonce ∉ order) (hcall : ((after capacity calls).check x).1 = true) :
    Ordered capacity (calls ++ [x]) (order ++ [x.nonce]) := by
  have hkept := h.keep fun hmem => absurd hmem hnew
  constructor
  · intro nonce hmem
    rcases List.mem_append.1 hmem with hmem | hmem
    · exact hkept.recorded nonce hmem
    · rw [List.mem_singleton.1 hmem]
      exact ⟨_, (recordedLast_new hcall).2 rfl⟩
  · refine List.pairwise_append.2 ⟨hkept.sorted, List.pairwise_singleton _ _, ?_⟩
    intro nonce hmem nonce' hmem' i j hi hj
    rw [List.mem_singleton.1 hmem', recordedLast_new hcall] at hj
    have hold := (recordedLast_append fun heq => absurd (heq ▸ hmem) hnew).1 hi
    rw [hj]
    exact recorded_lt hold.1

theorem capacity_after (capacity : Nat) (calls : List NonceCall) :
    (after capacity calls).capacity = max capacity 1 := by
  induction calls using List.reverseRecOn with
  | nil => rfl
  | append_singleton calls x ih =>
    rw [after_append, ← ih]
    unfold check checkAndInsert
    dsimp only
    split_ifs
    · rfl
    · rfl

/-- The invariant along every history. -/
theorem listed_after (capacity : Nat) (calls : List NonceCall) :
    (after capacity calls).Listed ∧
      Ordered capacity calls (after capacity calls).insertionOrder := by
  induction calls using List.reverseRecOn with
  | nil => exact ⟨listed_new capacity, nofun, .nil⟩
  | append_singleton calls x ih =>
    obtain ⟨hlisted, hordered⟩ := ih
    obtain ⟨hpurged, hsuffix⟩ := hlisted.purge x.now
    have hpurgedOrder := hordered.sublist hsuffix.sublist
    rw [after_append]
    refine ⟨hlisted.checkAndInsert x.nonce x.expiresAt x.now, ?_⟩
    rcases hlisted.checkAndInsert_cases x.nonce x.expiresAt x.now with
      ⟨-, hcall⟩ | ⟨hnew, -, hcall⟩ | ⟨oldest, rest, hnew, -, horder, hcall⟩
    · have hfalse : ((after capacity calls).check x).1 = false := congrArg Prod.fst hcall
      unfold check
      rw [hcall]
      exact hpurgedOrder.keep fun _ => hfalse
    · have htrue : ((after capacity calls).check x).1 = true := congrArg Prod.fst hcall
      unfold check
      rw [hcall]
      exact hpurgedOrder.record (mt (hpurged.mem_iff _).1 hnew) htrue
    · have htrue : ((after capacity calls).check x).1 = true := congrArg Prod.fst hcall
      have hold := mt (hpurged.mem_iff _).1 hnew
      rw [horder] at hold hpurgedOrder
      unfold check
      rw [hcall]
      exact (hpurgedOrder.sublist (List.sublist_cons_self oldest rest)).record
        (mt (List.mem_cons_of_mem oldest) hold) htrue

/-- Of the nonces of a cache this one was recorded first. -/
def Earliest (capacity : Nat) (calls : List NonceCall) (c : NonceCache) (nonce : String) : Prop :=
  ∃ i, RecordedLast capacity calls i nonce ∧ ∀ nonce' ∈ c.byNonce, nonce' ≠ nonce →
    ∃ j, RecordedLast capacity calls j nonce' ∧ i < j

theorem earliest_iff {c : NonceCache} {oldest : String} {rest : List String} (h : c.Listed)
    (hordered : Ordered capacity calls (oldest :: rest))
    (horder : c.insertionOrder = oldest :: rest) (hmem : nonce ∈ c.byNonce) :
    Earliest capacity calls c nonce ↔ nonce = oldest := by
  have hqueue : ∀ n, n ∈ c.byNonce ↔ n = oldest ∨ n ∈ rest := fun n => by
    rw [← h.mem_iff, horder, List.mem_cons]
  obtain ⟨hfirst, -⟩ := List.pairwise_cons.1 hordered.sorted
  constructor
  · rintro ⟨i, hi, hearliest⟩
    by_contra hne
    obtain ⟨j, hj, hlt⟩ := hearliest oldest ((hqueue _).2 (.inl rfl)) fun heq => hne heq.symm
    have hrest := ((hqueue nonce).1 hmem).resolve_left hne
    exact absurd (hfirst nonce hrest j i hj hi) (Nat.lt_asymm hlt)
  · rintro rfl
    obtain ⟨i, hi⟩ := hordered.recorded nonce List.mem_cons_self
    refine ⟨i, hi, fun nonce' hmem' hne => ?_⟩
    have hrest := ((hqueue nonce').1 hmem').resolve_left hne
    obtain ⟨j, hj⟩ := hordered.recorded nonce' (List.mem_cons_of_mem _ hrest)
    exact ⟨j, hj, hfirst nonce' hrest i j hi hj⟩

/-- After every sequence of calls the queue lists the nonces of the map, each once and no more
than the capacity, and whatever the next call is, it is refused exactly if its nonce is still
there after the purge, and takes out of the cache exactly the nonce recorded first, if the cache
is full. -/
theorem nonceCache_queue (capacity : Nat) (calls : List NonceCall) :
    let c := after capacity calls
    (c.insertionOrder.Nodup ∧ (∀ nonce, nonce ∈ c.insertionOrder ↔ nonce ∈ c.byNonce) ∧
      c.len ≤ c.capacity ∧ c.capacity = max capacity 1) ∧
    ∀ x : NonceCall,
      let purged := c.purgeExpired x.now
      let (fresh, next) := c.check x
      (fresh = false ↔ x.nonce ∈ purged.byNonce) ∧ (fresh = false → next = purged) ∧
      (fresh = true → next.byNonce.lookup x.nonce = some x.expiresAt) ∧
      ∀ nonce ∈ purged.byNonce, (nonce ∉ next.byNonce ↔
        fresh = true ∧ purged.len = c.capacity ∧ Earliest capacity calls purged nonce) := by
  intro c
  obtain ⟨hlisted, hordered⟩ := listed_after capacity calls
  refine ⟨⟨hlisted.nodup, hlisted.mem_iff, hlisted.size, ?_⟩, fun x => ?_⟩
  · exact capacity_after capacity calls
  obtain ⟨hpurged, hsuffix⟩ := hlisted.purge x.now
  intro purged
  rcases hlisted.checkAndInsert_cases x.nonce x.expiresAt x.now with
    ⟨hseen, hcall⟩ | ⟨hnew, hroom, hcall⟩ | ⟨oldest, rest, hnew, hfull, horder, hcall⟩
  · have hcheck : c.check x = (false, purged) := hcall
    rw [hcheck]
    exact ⟨iff_of_true rfl hseen, fun _ => rfl, nofun, fun nonce hmem =>
      iff_of_false (not_not.2 hmem) fun h => nomatch h.1⟩
  · have hcheck : c.check x = _ := hcall
    rw [hcheck]
    refine ⟨iff_of_false nofun hnew, nofun, fun _ => AList.lookup_insert _, fun nonce hmem => ?_⟩
    refine iff_of_false (not_not.2 (AList.mem_insert _ |>.2 (.inr hmem))) fun h => ?_
    exact absurd h.2.1 (Nat.ne_of_lt hroom)
  · have hcheck : c.check x = _ := hcall
    have hpurgedOrder := hordered.sublist hsuffix.sublist
    rw [horder] at hpurgedOrder
    rw [hcheck]
    refine ⟨iff_of_false nofun hnew, nofun, fun _ => AList.lookup_insert _, fun nonce hmem => ?_⟩
    have hother : nonce ≠ x.nonce := fun heq => hnew (heq ▸ hmem)
    have hlost : nonce ∉ (AList.insert x.nonce x.expiresAt (AList.erase oldest purged.byNonce)) ↔
        nonce = oldest := by
      rw [AList.mem_insert, AList.mem_erase, not_or, not_and']
      exact ⟨fun h => by_contra fun hne => h.2 hmem hne, fun heq => ⟨hother, fun _ hne => hne heq⟩⟩
    refine hlost.trans ?_
    rw [← earliest_iff hpurged hpurgedOrder horder hmem]
    exact ⟨fun h => ⟨rfl, hfull, h⟩, fun h => h.2.2⟩

end NonceCache

end TreeMiner
