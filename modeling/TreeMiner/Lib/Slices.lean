import Mathlib.Data.List.Nodup

/-! Sub-slices of a buffer and their chunks. Cut into chunks and these into smaller ones, a
slice is cut as it is into the smaller ones at once, and the numbers of the pieces agree. -/

namespace TreeMiner.Lib

structure Slice where
  start : Nat
  length : Nat
deriving DecidableEq, Repr

namespace Slice

variable {α : Type*}

/-- All of a buffer. -/
def whole (xs : List α) : Slice := ⟨0, xs.length⟩

/-- What a slice shows of a buffer. -/
def read (s : Slice) (xs : List α) : List α := (xs.drop s.start).take s.length

/-- `slice.chunks(size)`, for a size above zero: every chunk but the last is full. -/
def chunks (size : Nat) (s : Slice) : List Slice :=
  if 0 < size ∧ 0 < s.length then
    ⟨s.start, min size s.length⟩ :: chunks size ⟨s.start + size, s.length - size⟩
  else []
termination_by s.length

variable {size : Nat} {s : Slice}

theorem chunks_empty (size start : Nat) : chunks size ⟨start, 0⟩ = [] := by
  rw [chunks, if_neg (by simp)]

theorem chunks_cons (hsize : 0 < size) (hlen : 0 < s.length) : chunks size s =
    ⟨s.start, min size s.length⟩ :: chunks size ⟨s.start + size, s.length - size⟩ := by
  rw [chunks, if_pos ⟨hsize, hlen⟩]

/-- A slice that is one chunk. -/
theorem chunks_single (hlen : 0 < s.length) (hfits : s.length ≤ size) : chunks size s = [s] := by
  rw [chunks_cons (by omega) hlen, Nat.min_eq_right hfits, Nat.sub_eq_zero_of_le hfits,
    chunks_empty]

/-- `k` full chunks. -/
theorem chunks_length (hsize : 0 < size) (start k : Nat) :
    (chunks size ⟨start, k * size⟩).length = k := by
  induction k generalizing start with
  | zero => rw [Nat.zero_mul, chunks_empty, List.length_nil]
  | succ k ih =>
    have hlen : 0 < (k + 1) * size := Nat.mul_pos k.succ_pos hsize
    rw [chunks_cons hsize hlen, List.length_cons]
    dsimp only
    rw [Nat.succ_mul, Nat.add_sub_cancel, ih]

theorem length_of_mem_chunks (hsize : 0 < size) {start k : Nat} {t : Slice}
    (h : t ∈ chunks size ⟨start, k * size⟩) :
    t.length = size ∧ t.start + size ≤ start + k * size := by
  induction k generalizing start with
  | zero =>
    rw [Nat.zero_mul, chunks_empty] at h
    cases h
  | succ k ih =>
    have hlen : 0 < (k + 1) * size := Nat.mul_pos k.succ_pos hsize
    have hmul : (k + 1) * size = k * size + size := Nat.succ_mul k size
    rw [chunks_cons hsize hlen, List.mem_cons] at h
    dsimp only at h
    rw [hmul] at h ⊢
    rcases h with rfl | h
    · exact ⟨by dsimp only; omega, by dsimp only; omega⟩
    · rw [Nat.add_sub_cancel] at h
      have := ih h
      exact ⟨this.1, by omega⟩

/-- The first `k` chunks, where there are as many. -/
theorem chunks_split (hsize : 0 < size) {start length k : Nat} (h : k * size ≤ length) :
    chunks size ⟨start, length⟩ =
      chunks size ⟨start, k * size⟩ ++ chunks size ⟨start + k * size, length - k * size⟩ := by
  induction k generalizing start length with
  | zero => simp [chunks_empty]
  | succ k ih =>
    have hmul : (k + 1) * size = k * size + size := Nat.succ_mul k size
    rw [hmul] at h ⊢
    rw [chunks_cons hsize (by dsimp only; omega), @chunks_cons size ⟨start, k * size + size⟩ hsize
      (by dsimp only; omega)]
    dsimp only
    rw [ih (by omega), Nat.add_sub_cancel, Nat.min_eq_left (by omega), Nat.min_eq_left (by omega),
      Nat.add_assoc start size, Nat.add_comm size, Nat.sub_sub, Nat.add_comm size]
    rfl

/-- Chunks of chunks, numbered from the first of each, are the chunks with their numbers. -/
theorem chunks_chunks (hsize : 0 < size) {c : Nat} (hc : 0 < c) (s : Slice) (k : Nat) :
    ((chunks (c * size) s).zipIdx k).flatMap (fun p => (chunks size p.1).zipIdx (p.2 * c)) =
      (chunks size s).zipIdx (k * c) := by
  have hlong : 0 < c * size := Nat.mul_pos hc hsize
  rcases Nat.eq_zero_or_pos s.length with hzero | hpos
  · obtain ⟨start, length⟩ := s
    obtain rfl : length = 0 := hzero
    rw [chunks_empty, chunks_empty]
    rfl
  · rcases Nat.lt_or_ge (c * size) s.length with hlt | hge
    · rw [chunks_cons hlong hpos, List.zipIdx_cons, List.flatMap_cons,
        chunks_chunks hsize hc ⟨s.start + c * size, s.length - c * size⟩ (k + 1),
        Nat.min_eq_left (Nat.le_of_lt hlt), chunks_split hsize (Nat.le_of_lt hlt),
        List.zipIdx_append, chunks_length hsize, Nat.succ_mul]
    · rw [chunks_single hpos hge]
      simp
termination_by s.length

theorem start_of_mem_chunks {t : Slice} (h : t ∈ chunks size s) : s.start ≤ t.start := by
  induction s using chunks.induct size with
  | case1 s hpos ih =>
    rw [chunks, if_pos hpos, List.mem_cons] at h
    rcases h with rfl | h
    · exact Nat.le_refl _
    · exact Nat.le_trans (Nat.le_add_right _ _) (ih h)
  | case2 s hnone =>
    rw [chunks, if_neg hnone] at h
    cases h

theorem chunks_nodup (size : Nat) (s : Slice) : (chunks size s).Nodup := by
  induction s using chunks.induct size with
  | case1 s hpos ih =>
    rw [chunks, if_pos hpos, List.nodup_cons]
    refine ⟨fun hmem => ?_, ih⟩
    have hle := start_of_mem_chunks hmem
    dsimp only at hle
    omega
  | case2 s hnone =>
    rw [chunks, if_neg hnone]
    exact List.nodup_nil

end Slice

end TreeMiner.Lib
