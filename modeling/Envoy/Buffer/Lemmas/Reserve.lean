import Envoy.Buffer.Lemmas.OwnedImpl
import Envoy.Buffer.Watermark

/-!
# 予約の長さの上下の限り

`reserveWithMaxLength(max_length)` の while 文は、`default_slice_size_` の片を足すたびに
`bytes_remaining` を減らし、残りが一片より小さく既に一片以上を予約していれば止まる。足し過ぎは最後の
一片の中に収まるので、予約は `max_length + default_slice_size_` に届かない。止まるのは、残りが 0、
片が `MAX_SLICES_` 個、または一片以上を予約した後なので、`min(max_length, default_slice_size_)` は
予約される。
-/

namespace Envoy.Buffer

namespace OwnedImpl

@[simp] theorem reservationLength_nil : reservationLength [] = 0 := rfl

theorem reservationLength_append (r r' : List ReservationSlice) :
    reservationLength (r ++ r') = reservationLength r + reservationLength r' := by
  simp [reservationLength]

/-! ## while 文 -/

theorem length_reserveLoop (fuel n rem reserved : Nat) (hn : n ≤ 8) :
    (reserveLoop fuel n rem reserved).length ≤ 8 - n := by
  induction fuel generalizing n rem reserved with
  | zero => simp [reserveLoop]
  | succ fuel ih =>
    unfold reserveLoop
    split
    · simp
    · split
      · simp
      · rw [List.length_cons]
        have := ih (n + 1) (rem - min Slice.defaultSliceSize rem) (reserved + Slice.defaultSliceSize) (by omega)
        omega

/-- 足し過ぎは最後の一片の中: 残りが 0 なら何も足さず、そうでなくても残りに一片を足した長さに届かない。 -/
theorem reservationLength_reserveLoop_lt (fuel n rem reserved : Nat) :
    reservationLength (reserveLoop fuel n rem reserved) < rem + Slice.defaultSliceSize ∧
      (rem = 0 → reservationLength (reserveLoop fuel n rem reserved) = 0) := by
  induction fuel generalizing n rem reserved with
  | zero => simp [reserveLoop, Slice.defaultSliceSize]
  | succ fuel ih =>
    unfold reserveLoop
    split
    · simp [Slice.defaultSliceSize]
    · rename_i hgo
      split
      · simp [Slice.defaultSliceSize]
      · obtain ⟨hlt, hzero⟩ := ih (n + 1) (rem - min Slice.defaultSliceSize rem) (reserved + Slice.defaultSliceSize)
        rw [reservationLength_cons]
        dsimp only
        refine ⟨?_, fun h => absurd (Or.inl h) hgo⟩
        -- 残りが一片より小さければ、この片で残りは 0 になり、次は足さない
        by_cases hsmall : rem < Slice.defaultSliceSize
        · rw [hzero (by simp only [Slice.defaultSliceSize] at hsmall ⊢; omega)]
          simp only [Slice.defaultSliceSize] at hgo ⊢
          omega
        · simp only [Slice.defaultSliceSize] at hlt hsmall ⊢
          omega

/-- 止まるまでに、残りを使い切るか、一片以上を予約する。 -/
theorem le_reservationLength_reserveLoop (fuel n rem reserved : Nat)
    (hgo : n < 8 ∨ Slice.defaultSliceSize ≤ reserved) (hfuel : 8 ≤ fuel + n) :
    min (reserved + rem) Slice.defaultSliceSize ≤ reserved + reservationLength (reserveLoop fuel n rem reserved) := by
  induction fuel generalizing n rem reserved with
  | zero =>
    simp only [reserveLoop, reservationLength_nil, Nat.add_zero]
    omega
  | succ fuel ih =>
    unfold reserveLoop
    split
    · rename_i hstop
      simp only [reservationLength_nil, Nat.add_zero]
      omega
    · split
      · rename_i hstop
        simp only [reservationLength_nil, Nat.add_zero]
        omega
      · have := ih (n + 1) (rem - min Slice.defaultSliceSize rem) (reserved + Slice.defaultSliceSize)
          (Or.inr (Nat.le_add_left _ _)) (by omega)
        rw [reservationLength_cons]
        dsimp only
        omega

/-! ## `reserveWithMaxLength` -/

/-- 捨てるのは末尾の中身の無い slice だけ。 -/
theorem dropEmptyBack_eq (l : List Slice) :
    ∃ suf, l = (dropEmptyBack l).1 ++ suf ∧ ∀ s ∈ suf, s.dataSize = 0 := by
  obtain ⟨pre, hpre, hz⟩ := dropEmptyFront_eq l.reverse
  refine ⟨pre.reverse, ?_, fun s hs => hz s (List.mem_reverse.mp hs)⟩
  rw [dropEmptyBack, ← List.reverse_append, ← hpre, List.reverse_reverse]

/-- 末尾の slice の空きを使う最初の片は、一つまでで、`max_length` を越えない。 -/
theorem reserveWithMaxLength_first {b : OwnedImpl} {maxLength : Nat} (hpos : 0 < maxLength) :
    ∃ first : List ReservationSlice, first.length ≤ 1 ∧ reservationLength first ≤ maxLength ∧
      (b.reserveWithMaxLength maxLength).2 = first ++
        reserveLoop 8 first.length (maxLength - reservationLength first) (reservationLength first) := by
  unfold reserveWithMaxLength
  rw [if_neg (by omega)]
  dsimp only
  split
  · rename_i back _
    split
    · refine ⟨_, by simp, ?_, rfl⟩
      simp only [reservationLength_cons, reservationLength_nil, Nat.add_zero]
      exact (Slice.reserve_le _ _).trans (Nat.min_le_right _ _)
    · exact ⟨[], by simp, by simp, rfl⟩
  · exact ⟨[], by simp, by simp, rfl⟩

theorem reserveWithMaxLength_bounds' (b : OwnedImpl) {maxLength : Nat} (hpos : 0 < maxLength) :
    (b.reserveWithMaxLength maxLength).2.length ≤ 8 ∧
      min maxLength Slice.defaultSliceSize ≤ reservationLength (b.reserveWithMaxLength maxLength).2 ∧
      reservationLength (b.reserveWithMaxLength maxLength).2 < maxLength + Slice.defaultSliceSize := by
  obtain ⟨first, hfirst, hle, heq⟩ := reserveWithMaxLength_first (b := b) hpos
  rw [heq, List.length_append, reservationLength_append]
  have hcount := length_reserveLoop 8 first.length (maxLength - reservationLength first)
    (reservationLength first) (by omega)
  have hlow := le_reservationLength_reserveLoop 8 first.length (maxLength - reservationLength first)
    (reservationLength first) (Or.inl (by omega)) (by omega)
  have hup := (reservationLength_reserveLoop_lt 8 first.length (maxLength - reservationLength first)
    (reservationLength first)).1
  refine ⟨by omega, ?_, by omega⟩
  rw [Nat.add_sub_cancel' hle] at hlow
  exact hlow

theorem reserveWithMaxLength_slices (b : OwnedImpl) {maxLength : Nat} (hpos : 0 < maxLength) :
    (b.reserveWithMaxLength maxLength).1.1.slices = (dropEmptyBack b.slices).1 := by
  unfold reserveWithMaxLength
  rw [if_neg (by omega)]

/-- `WatermarkBuffer::reserveForRead` が長さを縮めるとき、`reserveWithMaxLength` に渡す長さ。 -/
theorem reserveForRead_eq (wb : WatermarkBuffer) (hhigh : 0 < wb.highWatermark.toNat)
    (hlt : wb.buffer.length < wb.highWatermark.toNat) :
    wb.reserveForRead = wb.buffer.reserveWithMaxLength
      (min (roundUpToMultiple (wb.highWatermark.toNat - wb.buffer.length) Slice.defaultSliceSize)
        (8 * Slice.defaultSliceSize)) := by
  unfold WatermarkBuffer.reserveForRead
  dsimp only
  rw [if_pos ⟨hhigh, by decide⟩, if_neg (Nat.not_le.mpr hlt)]
  rfl

/-- `reserveWithMaxLength(max_length)` は `MAX_SLICES_` 個までの片で、`min(max_length, default_slice_size_)`
以上、`max_length + default_slice_size_` 未満を予約する。中身と長さは変えず、捨てるのは末尾の中身の無い
slice だけ。よって `WatermarkBuffer::reserveForRead` は、縮めた長さ `a` を一片以上越えて予約しない。 -/
theorem reserveWithMaxLength_bounds :
    (∀ (b : OwnedImpl) (maxLength : Nat), 0 < maxLength →
      (b.reserveWithMaxLength maxLength).2.length ≤ 8 ∧
      min maxLength Slice.defaultSliceSize ≤ reservationLength (b.reserveWithMaxLength maxLength).2 ∧
      reservationLength (b.reserveWithMaxLength maxLength).2 < maxLength + Slice.defaultSliceSize ∧
      sliceBytes (b.reserveWithMaxLength maxLength).1.1.slices = sliceBytes b.slices ∧
      (b.reserveWithMaxLength maxLength).1.1.length = b.length ∧
      ∃ suf, b.slices = (b.reserveWithMaxLength maxLength).1.1.slices ++ suf ∧ ∀ s ∈ suf, s.dataSize = 0) ∧
    ∀ wb : WatermarkBuffer, 0 < wb.highWatermark.toNat → wb.buffer.length < wb.highWatermark.toNat →
      reservationLength wb.reserveForRead.2 <
        min (roundUpToMultiple (wb.highWatermark.toNat - wb.buffer.length) Slice.defaultSliceSize)
          (8 * Slice.defaultSliceSize) + Slice.defaultSliceSize := by
  refine ⟨fun b maxLength hpos => ?_, fun wb hhigh hlt => ?_⟩
  · obtain ⟨hcount, hlow, hup⟩ := reserveWithMaxLength_bounds' b hpos
    obtain ⟨hbytes, hlen, -⟩ := reserveWithMaxLength_spec b maxLength
    refine ⟨hcount, hlow, hup, hbytes, hlen, ?_⟩
    rw [reserveWithMaxLength_slices b hpos]
    exact dropEmptyBack_eq b.slices
  · -- 縮めた長さは正: 上の閾値までの空きを切り上げたもの
    have hpos : 0 < min (roundUpToMultiple (wb.highWatermark.toNat - wb.buffer.length) Slice.defaultSliceSize)
        (8 * Slice.defaultSliceSize) := by
      simp only [roundUpToMultiple, Slice.defaultSliceSize]
      omega
    rw [reserveForRead_eq wb hhigh hlt]
    exact (reserveWithMaxLength_bounds' wb.buffer hpos).2.2

/-- 三 byte を足した buffer の末尾の slice（4096 byte）には 4093 byte の空きがある。100 byte を求めれば
空きの中に収まって一片で済み、20000 byte を求めれば空きの全部を最初の片にして、足りない分に新しい
slice を一つ足す。上の閾値 1000 の `WatermarkBuffer` の `reserveForRead` は、縮めた長さ 16384 を一片以上
越えない。 -/
theorem reserveWithMaxLength_back_slice_room :
    ((empty.addImpl [1, 2, 3]).1.reserveWithMaxLength 100).2.map ReservationSlice.len = [100] ∧
    ((empty.addImpl [1, 2, 3]).1.reserveWithMaxLength 20000).2.map ReservationSlice.len = [4093, 16384] ∧
    (min 20000 Slice.defaultSliceSize ≤
        reservationLength ((empty.addImpl [1, 2, 3]).1.reserveWithMaxLength 20000).2 ∧
      reservationLength ((empty.addImpl [1, 2, 3]).1.reserveWithMaxLength 20000).2 <
        20000 + Slice.defaultSliceSize) ∧
    reservationLength (WatermarkBuffer.reserveForRead ⟨(empty.addImpl [1, 2, 3]).1, 1000, 0, 0, false, false⟩).2 <
      min (roundUpToMultiple (1000 - 3) Slice.defaultSliceSize) (8 * Slice.defaultSliceSize) +
        Slice.defaultSliceSize := by
  obtain ⟨hbuf, hwb⟩ := reserveWithMaxLength_bounds
  obtain ⟨-, hlow, hup, -⟩ := hbuf (empty.addImpl [1, 2, 3]).1 20000 (by decide)
  have hlen : (empty.addImpl [1, 2, 3]).1.length = 3 := by decide
  have hread := hwb ⟨(empty.addImpl [1, 2, 3]).1, 1000, 0, 0, false, false⟩ (by decide) (by decide)
  simp only [hlen] at hread
  exact ⟨by decide, by decide, ⟨hlow, hup⟩, hread⟩

end OwnedImpl

end Envoy.Buffer
