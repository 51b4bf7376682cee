import Mathlib.Data.List.Basic
import Mathlib.Tactic.IntervalCases

/-! Numbers as bytes of seven bits, the lowest first, every byte but the last with its high bit
set, and packets whose length is written that way. -/

namespace TreeMiner.Lib.Base128

/-! ## Numbers -/

def encode (n : Nat) : List UInt8 :=
  if n < 128 then [n.toUInt8] else (n % 128 + 128).toUInt8 :: encode (n / 128)

/-- The number in front of `bytes` and the bytes behind it; `none` if they end inside it. -/
def decode : List UInt8 → Option (Nat × List UInt8)
  | [] => none
  | b :: bytes =>
    if b.toNat < 128 then some (b.toNat, bytes)
    else (decode bytes).map fun r => (b.toNat % 128 + 128 * r.1, r.2)

theorem toNat_toUInt8 {n : Nat} (h : n < 256) : n.toUInt8.toNat = n := by
  simp [Nat.mod_eq_of_lt h]

theorem decode_last {b : UInt8} (h : b.toNat < 128) (bytes : List UInt8) :
    decode (b :: bytes) = some (b.toNat, bytes) := by
  rw [decode, if_pos h]

theorem decode_more {b : UInt8} (h : ¬ b.toNat < 128) (bytes : List UInt8) :
    decode (b :: bytes) = (decode bytes).map fun r => (b.toNat % 128 + 128 * r.1, r.2) := by
  rw [decode, if_neg h]

theorem decode_encode (n : Nat) (rest : List UInt8) :
    decode (encode n ++ rest) = some (n, rest) := by
  induction n using encode.induct with
  | case1 n h =>
    have hbyte := toNat_toUInt8 (show n < 256 by omega)
    rw [encode, if_pos h, List.singleton_append, decode_last (by omega), hbyte]
  | case2 n h ih =>
    have hbyte := toNat_toUInt8 (show n % 128 + 128 < 256 by omega)
    rw [encode, if_neg h, List.cons_append, decode_more (by omega), ih, Option.map_some, hbyte]
    congr 2
    omega

/-- The lowest digit is in the first byte. -/
theorem decode_mod {b : UInt8} {bytes rest : List UInt8} {n : Nat}
    (h : decode (b :: bytes) = some (n, rest)) : n % 128 = b.toNat % 128 := by
  by_cases hb : b.toNat < 128
  · rw [decode_last hb] at h
    cases h
    rfl
  · rw [decode_more hb, Option.map_eq_some_iff] at h
    obtain ⟨r, -, heq⟩ := h
    cases heq
    omega

/-- The number ends at the first byte below 128 at the latest. -/
theorem decode_length {front bytes rest : List UInt8} {b : UInt8} {n : Nat} (hb : b.toNat < 128)
    (h : decode (front ++ b :: bytes) = some (n, rest)) :
    bytes.length ≤ rest.length ∧ rest.length ≤ front.length + bytes.length := by
  induction front generalizing n with
  | nil =>
    rw [List.nil_append, decode_last hb] at h
    cases h
    simp
  | cons f front ih =>
    by_cases hf : f.toNat < 128
    · rw [List.cons_append, decode_last hf] at h
      cases h
      simp only [List.length_append, List.length_cons]
      omega
    · rw [List.cons_append, decode_more hf, Option.map_eq_some_iff] at h
      obtain ⟨r, hr, heq⟩ := h
      cases heq
      have := ih hr
      rw [List.length_cons]
      omega

/-! ## Packets -/

/-- A first byte, the length of the body, and the body. -/
def frame (first : UInt8) (body : List UInt8) : List UInt8 := first :: (encode body.length ++ body)

/-- The packet in front of a stream and the stream behind it. -/
def unframe : List UInt8 → Option ((UInt8 × List UInt8) × List UInt8)
  | [] => none
  | first :: bytes =>
    match decode bytes with
    | some (n, rest) =>
      if n ≤ rest.length then some ((first, rest.take n), rest.drop n) else none
    | none => none

theorem unframe_frame (first : UInt8) (body rest : List UInt8) :
    unframe (frame first body ++ rest) = some ((first, body), rest) := by
  rw [frame, List.cons_append, unframe, List.append_assoc, decode_encode]
  simp

/-- What it takes for a stream to be one packet and nothing else. -/
theorem unframe_whole {first : UInt8} {bytes : List UInt8} {packet : UInt8 × List UInt8}
    (h : unframe (first :: bytes) = some (packet, [])) :
    decode bytes = some (packet.2.length, packet.2) ∧ packet.1 = first := by
  rw [unframe] at h
  cases hd : decode bytes with
  | none => simp [hd] at h
  | some r =>
    obtain ⟨n, rest⟩ := r
    simp only [hd] at h
    split at h
    · simp only [Option.some.injEq, Prod.mk.injEq, List.drop_eq_nil_iff] at h
      obtain ⟨rfl, hle⟩ := h
      have heq : n = rest.length := by omega
      simp [heq]
    · cases h

/-- A length of 128 or more in a single byte runs into the body: with a byte below 128 among the
next few, the packet is not the whole stream. -/
theorem unframe_ne_whole {first len b : UInt8} {front bytes : List UInt8} (hlen : 128 ≤ len.toNat)
    (hb : b.toNat < 128) (hfront : front.length < 127)
    (hsize : len.toNat = front.length + bytes.length + 1) (packet : UInt8 × List UInt8) :
    unframe (first :: len :: (front ++ b :: bytes)) ≠ some (packet, []) := by
  intro h
  obtain ⟨hd, -⟩ := unframe_whole h
  have hmod := decode_mod hd
  rw [decode_more (by omega), Option.map_eq_some_iff] at hd
  obtain ⟨r, hr, heq⟩ := hd
  simp only [Prod.mk.injEq] at heq
  have hbounds := decode_length hb hr
  rw [heq.2] at hbounds
  omega

end TreeMiner.Lib.Base128
