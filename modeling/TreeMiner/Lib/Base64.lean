import Mathlib.Data.List.GetD
import Mathlib.Data.List.Induction
import Mathlib.Data.Nat.Bitwise

/-! Unpadded base64. Bytes are a stream of bits, most significant first, that is cut up again in
groups of six; beyond its end the stream is zero. -/

namespace TreeMiner.Lib.Base64

/-! ## Regrouping -/

/-- The number of a group of bits, most significant first. -/
def ofBits (bs : List Bool) : Nat := bs.foldl (fun n b => 2 * n + b.toNat) 0

/-- Bit `i` of numbers of `w` bits each. -/
def stream (w : Nat) (values : List Nat) (i : Nat) : Bool :=
  (values.getD (i / w) 0).testBit (w - 1 - i % w)

/-- Group `k` of `w` bits. -/
def group (w : Nat) (bit : Nat → Bool) (k : Nat) : Nat :=
  ofBits ((List.range w).map fun i => bit (w * k + i))

theorem ofBits_range_succ (w : Nat) (bit : Nat → Bool) :
    ofBits ((List.range (w + 1)).map bit) =
      2 * ofBits ((List.range w).map bit) + (bit w).toNat := by
  unfold ofBits
  rw [List.range_succ, List.map_append, List.foldl_append]
  rfl

theorem ofBits_range_lt (w : Nat) (bit : Nat → Bool) :
    ofBits ((List.range w).map bit) < 2 ^ w := by
  induction w with
  | zero => exact Nat.one_pos
  | succ w ih =>
    rw [ofBits_range_succ, pow_succ']
    have := Bool.toNat_lt (bit w)
    omega

theorem testBit_ofBits {w i : Nat} (bit : Nat → Bool) (hi : i < w) :
    (ofBits ((List.range w).map bit)).testBit (w - 1 - i) = bit i := by
  induction w with
  | zero => cases hi
  | succ w ih =>
    rw [ofBits_range_succ, Nat.add_sub_cancel]
    rcases Nat.lt_succ_iff_lt_or_eq.1 hi with hlt | rfl
    · have hshift : w - i = w - 1 - i + 1 := by omega
      have hhalf : (2 * ofBits ((List.range w).map bit) + (bit w).toNat) / 2 =
          ofBits ((List.range w).map bit) := by
        have := Bool.toNat_lt (bit w)
        omega
      rw [hshift, Nat.testBit_succ, hhalf, ih hlt]
    · rw [Nat.sub_self, Nat.testBit_zero]
      cases bit i with
      | false => simp
      | true => simp

/-- The bits of a number make up the number. -/
theorem ofBits_testBit (w n : Nat) :
    ofBits ((List.range w).map fun i => n.testBit (w - 1 - i)) = n % 2 ^ w := by
  induction w generalizing n with
  | zero => rw [pow_zero, Nat.mod_one]; rfl
  | succ w ih =>
    have hhigh : (List.range w).map (fun i => n.testBit (w + 1 - 1 - i)) =
        (List.range w).map fun i => (n / 2).testBit (w - 1 - i) := by
      refine List.map_congr_left fun i hi => ?_
      have hi := List.mem_range.1 hi
      have hshift : w + 1 - 1 - i = w - 1 - i + 1 := by omega
      rw [hshift, Nat.testBit_succ]
    have hlow : (n.testBit (w + 1 - 1 - w)).toNat = n % 2 := by
      rw [Nat.add_sub_cancel, Nat.sub_self, Nat.testBit_zero]
      rcases Nat.mod_two_eq_zero_or_one n with h | h <;> rw [h] <;> rfl
    rw [ofBits_range_succ, hhigh, ih, hlow, pow_succ', Nat.mod_mul, Nat.add_comm]

theorem group_lt (w : Nat) (bit : Nat → Bool) (k : Nat) : group w bit k < 2 ^ w :=
  ofBits_range_lt w fun i => bit (w * k + i)

theorem group_congr {w k l : Nat} {bit bit' : Nat → Bool}
    (h : ∀ i < w, bit (w * k + i) = bit' (w * l + i)) : group w bit k = group w bit' l := by
  unfold group
  rw [List.map_congr_left fun i hi => h i (List.mem_range.1 hi)]

/-- The groups of a stream at its own width are its numbers. -/
theorem group_stream {w k : Nat} (values : List Nat) (hvalue : values.getD k 0 < 2 ^ w) :
    group w (stream w values) k = values.getD k 0 := by
  have hbits : (List.range w).map (fun i => stream w values (w * k + i)) =
      (List.range w).map fun i => (values.getD k 0).testBit (w - 1 - i) := by
    refine List.map_congr_left fun i hi => ?_
    have hi := List.mem_range.1 hi
    unfold stream
    rw [Nat.mul_add_div (by omega), Nat.div_eq_of_lt hi, Nat.add_zero, Nat.mul_add_mod,
      Nat.mod_eq_of_lt hi]
  unfold group
  rw [hbits, ofBits_testBit, Nat.mod_eq_of_lt hvalue]

/-- The stream of so many groups is what was grouped. -/
theorem stream_group {w count i : Nat} (bit : Nat → Bool) (hi : i < w * count) :
    stream w ((List.range count).map (group w bit)) i = bit i := by
  have hw : 0 < w := Nat.pos_of_mul_pos_right (Nat.zero_lt_of_lt hi)
  have hk : i / w < count := Nat.div_lt_of_lt_mul hi
  have hget : ((List.range count).map (group w bit)).getD (i / w) 0 = group w bit (i / w) := by
    rw [List.getD_eq_getElem _ _ (by rwa [List.length_map, List.length_range]),
      List.getElem_map, List.getElem_range]
  unfold stream
  rw [hget]
  unfold group
  rw [testBit_ofBits (fun j => bit (w * (i / w) + j)) (Nat.mod_lt i hw), Nat.div_add_mod]

theorem stream_beyond {w i : Nat} (values : List Nat) (hi : w * values.length ≤ i) (hw : 0 < w) :
    stream w values i = false := by
  have hk : values.length ≤ i / w := (Nat.le_div_iff_mul_le hw).2 (by rwa [Nat.mul_comm])
  unfold stream
  rw [List.getD_eq_default _ _ hk, Nat.zero_testBit]

theorem stream_append_left {w i : Nat} {values : List Nat} (rest : List Nat)
    (hi : i < w * values.length) : stream w (values ++ rest) i = stream w values i := by
  unfold stream
  rw [List.getD_append _ _ _ _ (Nat.div_lt_of_lt_mul hi)]

theorem stream_append_right {w : Nat} (hw : 0 < w) (values rest : List Nat) (i : Nat) :
    stream w (values ++ rest) (w * values.length + i) = stream w rest i := by
  unfold stream
  rw [Nat.mul_add_div hw, Nat.mul_add_mod, List.getD_append_right _ _ _ _ (Nat.le_add_right ..),
    Nat.add_sub_cancel_left]

/-- Zeros behind the numbers are not seen. -/
theorem stream_append_zeros (w : Nat) (values : List Nat) (n i : Nat) :
    stream w (values ++ List.replicate n 0) i = stream w values i := by
  have hget : (values ++ List.replicate n 0).getD (i / w) 0 = values.getD (i / w) 0 := by
    rcases Nat.lt_or_ge (i / w) values.length with hin | hout
    · exact List.getD_append _ _ _ _ hin
    · rw [List.getD_append_right _ _ _ _ hout, List.getD_eq_default _ _ hout]
      rcases Nat.lt_or_ge (i / w - values.length) n with hlt | hge
      · exact List.getD_replicate 0 hlt
      · exact List.getD_eq_default _ _ (by rwa [List.length_replicate])
  unfold stream
  rw [hget]

/-- One number out of numbers of `w` bits each. -/
def number (w : Nat) (values : List Nat) : Nat := values.foldl (fun n v => 2 ^ w * n + v) 0

theorem number_snoc (w : Nat) (values : List Nat) (v : Nat) :
    number w (values ++ [v]) = 2 ^ w * number w values + v := by
  unfold number
  rw [List.foldl_append]
  rfl

theorem stream_number {w i : Nat} {values : List Nat} (hlt : ∀ v ∈ values, v < 2 ^ w)
    (hi : i < w * values.length) :
    stream w values i = (number w values).testBit (w * values.length - 1 - i) := by
  induction values using List.reverseRecOn with
  | nil => cases hi
  | append_singleton values v ih =>
    have hv : v < 2 ^ w := hlt v (List.mem_append_right _ List.mem_cons_self)
    have hmul : w * (values.length + 1) = w * values.length + w := Nat.mul_succ ..
    rw [List.length_append, List.length_singleton, hmul] at hi ⊢
    rw [number_snoc, Nat.testBit_two_pow_mul_add _ hv]
    rcases Nat.lt_or_ge i (w * values.length) with hin | hout
    · rw [stream_append_left _ hin, ih (fun u hu => hlt u (List.mem_append_left _ hu)) hin,
        if_neg (by omega)]
      congr 1
      omega
    · obtain ⟨j, rfl⟩ := Nat.exists_eq_add_of_le hout
      have hj : j < w := by omega
      rw [stream_append_right (Nat.zero_lt_of_lt hj), if_pos (by omega)]
      unfold stream
      rw [Nat.div_eq_of_lt hj, Nat.mod_eq_of_lt hj]
      congr 1
      omega

/-- A group of bits of a number, by division. -/
theorem group_number {w b k : Nat} {values : List Nat} (hlt : ∀ v ∈ values, v < 2 ^ b)
    (hk : w * k + w ≤ b * values.length) :
    group w (stream b values) k =
      number b values / 2 ^ (b * values.length - (w * k + w)) % 2 ^ w := by
  rw [← ofBits_testBit]
  unfold group
  refine congrArg ofBits (List.map_congr_left fun i hi => ?_)
  have hi := List.mem_range.1 hi
  rw [stream_number hlt (by omega), Nat.testBit_div_two_pow]
  congr 1
  omega

/-! ## The text -/

/-- The character of a group of six bits. -/
def symbol (v : Nat) : Char :=
  if v < 26 then Char.ofNat ('A'.toNat + v)
  else if v < 52 then Char.ofNat ('a'.toNat + (v - 26))
  else if v < 62 then Char.ofNat ('0'.toNat + (v - 52))
  else if v = 62 then '+'
  else '/'

def value (c : Char) : Option Nat :=
  if 'A'.toNat ≤ c.toNat ∧ c.toNat ≤ 'Z'.toNat then some (c.toNat - 'A'.toNat)
  else if 'a'.toNat ≤ c.toNat ∧ c.toNat ≤ 'z'.toNat then some (c.toNat - 'a'.toNat + 26)
  else if '0'.toNat ≤ c.toNat ∧ c.toNat ≤ '9'.toNat then some (c.toNat - '0'.toNat + 52)
  else if c = '+' then some 62
  else if c = '/' then some 63
  else none

theorem value_symbol : ∀ v < 64, value (symbol v) = some v := by decide

theorem symbol_value {c : Char} {v : Nat} (h : value c = some v) : v < 64 ∧ symbol v = c := by
  have hz : 'A'.toNat = 65 ∧ 'Z'.toNat = 90 ∧ 'a'.toNat = 97 ∧ 'z'.toNat = 122 ∧
      '0'.toNat = 48 ∧ '9'.toNat = 57 := by decide
  unfold value at h
  unfold symbol
  split at h
  · obtain rfl := Option.some.inj h
    have hback : 'A'.toNat + (c.toNat - 'A'.toNat) = c.toNat := by omega
    rw [if_pos (by omega), hback, Char.ofNat_toNat]
    exact ⟨by omega, rfl⟩
  split at h
  · obtain rfl := Option.some.inj h
    have hback : 'a'.toNat + (c.toNat - 'a'.toNat + 26 - 26) = c.toNat := by omega
    rw [if_neg (by omega), if_pos (by omega), hback, Char.ofNat_toNat]
    exact ⟨by omega, rfl⟩
  split at h
  · obtain rfl := Option.some.inj h
    have hback : '0'.toNat + (c.toNat - '0'.toNat + 52 - 52) = c.toNat := by omega
    rw [if_neg (by omega), if_neg (by omega), if_pos (by omega), hback, Char.ofNat_toNat]
    exact ⟨by omega, rfl⟩
  split at h
  · rename_i hc
    obtain rfl := Option.some.inj h
    exact ⟨by decide, hc.symm⟩
  split at h
  · rename_i hc
    obtain rfl := Option.some.inj h
    exact ⟨by decide, hc.symm⟩
  · cases h

/-- The bits of the bytes, six to a character, the last group filled up with zeros. -/
def encode (bytes : List UInt8) : List Char :=
  (List.range ((8 * bytes.length + 5) / 6)).map fun k =>
    symbol (group 6 (stream 8 (bytes.map UInt8.toNat)) k)

example : encode [102, 111] = ['Z', 'm', '8'] := by decide

/-- The bytes of a text. Bits beyond the last whole byte have to be zero, and fewer than six. -/
def decode (text : List Char) : Option (List UInt8) :=
  match text.mapM value with
  | none => none
  | some values =>
    let bits := 6 * values.length
    let count := bits / 8
    if bits % 8 < 6 ∧ ∀ i < bits, 8 * count ≤ i → stream 6 values i = false then
      some ((List.range count).map fun k => UInt8.ofNat (group 8 (stream 6 values) k))
    else none

theorem length_encode (bytes : List UInt8) :
    (encode bytes).length = (8 * bytes.length + 5) / 6 := by
  unfold encode
  rw [List.length_map, List.length_range]

/-- The values behind a list of characters. -/
theorem mapM_value_map_symbol {values : List Nat} (h : ∀ v ∈ values, v < 64) :
    (values.map symbol).mapM value = some values := by
  induction values with
  | nil => rfl
  | cons v values ih =>
    rw [List.map_cons, List.mapM_cons, value_symbol v (h v List.mem_cons_self),
      ih fun u hu => h u (List.mem_cons_of_mem _ hu)]
    rfl

theorem map_symbol_of_mapM_value {text : List Char} {values : List Nat}
    (h : text.mapM value = some values) :
    (∀ v ∈ values, v < 64) ∧ values.map symbol = text := by
  induction text generalizing values with
  | nil =>
    obtain rfl := Option.some.inj h
    exact ⟨fun v hv => absurd hv List.not_mem_nil, rfl⟩
  | cons c text ih =>
    rw [List.mapM_cons] at h
    rcases hc : value c with _ | v
    · rw [hc] at h
      cases h
    rcases htext : text.mapM value with _ | rest
    · rw [hc, htext] at h
      cases h
    rw [hc, htext] at h
    obtain rfl := Option.some.inj h
    obtain ⟨hlt, hsymbol⟩ := symbol_value hc
    obtain ⟨hrest, rfl⟩ := ih htext
    refine ⟨fun u hu => ?_, by rw [List.map_cons, hsymbol]⟩
    rcases List.mem_cons.1 hu with rfl | hu
    · exact hlt
    · exact hrest u hu

/-- The groups of six bits of the bytes. -/
def sextets (bytes : List UInt8) : List Nat :=
  (List.range ((8 * bytes.length + 5) / 6)).map (group 6 (stream 8 (bytes.map UInt8.toNat)))

theorem encode_eq (bytes : List UInt8) : encode bytes = (sextets bytes).map symbol := by
  unfold encode sextets
  rw [List.map_map]
  rfl

theorem length_sextets (bytes : List UInt8) :
    (sextets bytes).length = (8 * bytes.length + 5) / 6 := by
  unfold sextets
  rw [List.length_map, List.length_range]

theorem getElem_sextets {bytes : List UInt8} {k : Nat} (hk : k < (sextets bytes).length) :
    (sextets bytes)[k] = group 6 (stream 8 (bytes.map UInt8.toNat)) k := by
  simp [sextets]

theorem sextets_lt {bytes : List UInt8} : ∀ v ∈ sextets bytes, v < 64 := by
  intro v hv
  obtain ⟨k, -, rfl⟩ := List.mem_map.1 hv
  exact group_lt 6 _ k

/-- The groups hold the bits of the bytes and then zeros. -/
theorem stream_sextets {bytes : List UInt8} {i : Nat}
    (hi : i < 6 * (sextets bytes).length) :
    stream 6 (sextets bytes) i = stream 8 (bytes.map UInt8.toNat) i := by
  rw [length_sextets] at hi
  exact stream_group _ hi

theorem getD_toNat (bytes : List UInt8) (k : Nat) :
    (bytes.map UInt8.toNat).getD k 0 = (bytes.getD k 0).toNat :=
  List.getD_map bytes 0 UInt8.toNat

/-- Whole groups of three bytes are encoded apart from what follows. -/
theorem encode_append {bytes : List UInt8} (h : bytes.length % 3 = 0) (rest : List UInt8) :
    encode (bytes ++ rest) = encode bytes ++ encode rest := by
  have hlen : (8 * (bytes ++ rest).length + 5) / 6 =
      (8 * bytes.length + 5) / 6 + (8 * rest.length + 5) / 6 := by
    rw [List.length_append]
    omega
  unfold encode
  rw [hlen, List.range_add, List.map_append, List.map_map, List.map_append]
  congr 1
  · refine List.map_congr_left fun k hk => congrArg symbol (group_congr fun i hi => ?_)
    have hk := List.mem_range.1 hk
    refine stream_append_left _ ?_
    rw [List.length_map]
    omega
  · refine List.map_congr_left fun k _ => ?_
    rw [Function.comp_apply]
    refine congrArg symbol (group_congr fun i _ => ?_)
    have hskip : 6 * ((8 * bytes.length + 5) / 6 + k) + i =
        8 * (bytes.map UInt8.toNat).length + (6 * k + i) := by
      rw [List.length_map]
      omega
    rw [hskip, stream_append_right (by decide)]

theorem decode_encode (bytes : List UInt8) : decode (encode bytes) = some bytes := by
  have hlen := length_sextets bytes
  have hcount : 6 * (sextets bytes).length / 8 = bytes.length := by omega
  have hzero : ∀ i < 6 * (sextets bytes).length, 8 * bytes.length ≤ i →
      stream 6 (sextets bytes) i = false := by
    intro i hi hbeyond
    rw [stream_sextets hi]
    exact stream_beyond _ (by rwa [List.length_map]) (by decide)
  have hbyte : ∀ k < bytes.length,
      UInt8.ofNat (group 8 (stream 6 (sextets bytes)) k) = bytes.getD k 0 := by
    intro k hk
    have hgroup : group 8 (stream 6 (sextets bytes)) k =
        group 8 (stream 8 (bytes.map UInt8.toNat)) k :=
      group_congr fun i hi => stream_sextets (by omega)
    have hlt : (bytes.map UInt8.toNat).getD k 0 < 2 ^ 8 := by
      rw [getD_toNat]
      exact (bytes.getD k 0).toNat_lt
    rw [hgroup, group_stream _ hlt, getD_toNat, UInt8.ofNat_toNat]
  unfold decode
  rw [encode_eq, mapM_value_map_symbol sextets_lt]
  dsimp only
  rw [hcount, if_pos ⟨by omega, hzero⟩]
  refine congrArg some (List.ext_getElem (by rw [List.length_map, List.length_range]) ?_)
  intro k hk hk'
  rw [List.getElem_map, List.getElem_range, hbyte k hk', List.getD_eq_getElem]

/-- No two texts stand for the same bytes. -/
theorem decode_eq_some_iff {text : List Char} {bytes : List UInt8} :
    decode text = some bytes ↔ text = encode bytes := by
  refine ⟨fun h => ?_, fun h => h ▸ decode_encode bytes⟩
  unfold decode at h
  rcases hvalues : text.mapM value with _ | values
  · rw [hvalues] at h
    cases h
  rw [hvalues] at h
  dsimp only at h
  split at h
  case isFalse => cases h
  rename_i hcond
  obtain ⟨hrest, hzero⟩ := hcond
  obtain ⟨hlt, rfl⟩ := map_symbol_of_mapM_value hvalues
  have hbytes := Option.some.inj h
  have hlen : bytes.length = 6 * values.length / 8 := by
    rw [← hbytes, List.length_map, List.length_range]
  have htoNat : bytes.map UInt8.toNat =
      (List.range (6 * values.length / 8)).map (group 8 (stream 6 values)) := by
    rw [← hbytes, List.map_map]
    refine List.map_congr_left fun k _ => ?_
    exact UInt8.toNat_ofNat_of_lt' (group_lt 8 _ k)
  have hbit : ∀ i < 6 * values.length,
      stream 8 (bytes.map UInt8.toNat) i = stream 6 values i := by
    intro i hi
    rcases Nat.lt_or_ge i (8 * (6 * values.length / 8)) with hin | hout
    · rw [htoNat, stream_group _ hin]
    · rw [hzero i hi hout]
      exact stream_beyond _ (by rwa [List.length_map, hlen]) (by decide)
  have hsextets : sextets bytes = values := by
    refine List.ext_getElem (by rw [length_sextets]; omega) fun k hk hk' => ?_
    have hget : values.getD k 0 = values[k] := List.getD_eq_getElem _ _ hk'
    have hgroup : group 6 (stream 8 (bytes.map UInt8.toNat)) k = group 6 (stream 6 values) k :=
      group_congr fun i hi => hbit _ (by omega)
    rw [getElem_sextets, hgroup, group_stream _ (hget ▸ hlt _ (List.getElem_mem hk')), hget]
  rw [encode_eq, hsextets]

theorem encode_injective : Function.Injective encode := fun a b h => by
  have := decode_encode a
  rw [h, decode_encode] at this
  exact (Option.some.inj this).symm

end TreeMiner.Lib.Base64
