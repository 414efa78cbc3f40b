import Envoy.Buffer.Lemmas.OwnedImpl

/-!
# 中身を読む操作: `copyOutToSlices`、`copyOut`、`startsWith`

`copyOutToSlices` の while 文は、元の slice の中の位置と、書き込み先の片の中の位置という二つの
カーソルを別々に進める。どちらのカーソルの状態でも、残りの周回は「まだ写していない中身の先頭を、
書き込み先の残りの枠に前から詰める」ことに当たる（`fillSlices`）。
-/

namespace Envoy.Buffer

namespace OwnedImpl

/-- 書き込み先の片に、最初の片は位置 `off` から、`w` を前から詰める。 -/
def fillSlices : Nat → List RawSlice → Bytes → List RawSlice
  | _, [], _ => []
  | off, d :: ds, w => d.write off (w.take (d.len - off)) :: fillSlices 0 ds (w.drop (d.len - off))

@[simp] theorem RawSlice.len_write (d : RawSlice) (off : Nat) (src : Bytes) : (d.write off src).len = d.len := rfl

@[simp] theorem RawSlice.write_nil (d : RawSlice) (off : Nat) : d.write off [] = d := by
  simp [RawSlice.write]

/-- 続けて書いた二つは、つないだ一つの書き込み。 -/
theorem RawSlice.write_write (d : RawSlice) {off : Nat} {a b : Bytes} (h : off + a.length + b.length ≤ d.len) :
    (d.write off a).write (off + a.length) b = d.write off (a ++ b) := by
  have := d.len_le
  simp only [RawSlice.write, RawSlice.mk.injEq, and_true]
  exact List.writeAt_writeAt _ (by omega)

/-- 何も詰めなければ、書き込み先は変わらない。 -/
@[simp] theorem fillSlices_nil_bytes (off : Nat) (ds : List RawSlice) : fillSlices off ds [] = ds := by
  induction ds generalizing off with
  | nil => rfl
  | cons d ds ih => simp [fillSlices, ih]

/-- 書き込み先の枠の合計。 -/
def capacity (ds : List RawSlice) : Nat := (ds.map RawSlice.len).sum

@[simp] theorem capacity_nil : capacity [] = 0 := rfl

@[simp] theorem capacity_cons (d : RawSlice) (ds : List RawSlice) : capacity (d :: ds) = d.len + capacity ds := by
  simp [capacity]

/-- 詰めるのは枠の合計までで、その先の `w` は読まない。 -/
theorem fillSlices_take (ds : List RawSlice) (w : Bytes) {k : Nat} (hk : capacity ds ≤ k) :
    fillSlices 0 ds (w.take k) = fillSlices 0 ds w := by
  induction ds generalizing w k with
  | nil => rfl
  | cons d ds ih =>
    rw [capacity_cons] at hk
    simp only [fillSlices, Nat.sub_zero, List.take_take, Nat.min_eq_left (show d.len ≤ k by omega),
      List.drop_take, ih (w.drop d.len) (show capacity ds ≤ k - d.len by omega)]

/-- 一周で写した後も、先の片は同じ位置から詰め続ける: 二度の `writeAt` は一度の `writeAt`。 -/
theorem fillSlices_cons_step (d : RawSlice) (ds : List RawSlice) (w : Bytes) {off len : Nat}
    (hlen : len ≤ w.length) (hfit : off + len ≤ d.len) :
    fillSlices (off + len) (d.write off (w.take len) :: ds) (w.drop len) = fillSlices off (d :: ds) w := by
  have hw : (w.take len).length = len := by simp; omega
  have hsum : len + (d.len - (off + len)) = d.len - off := by omega
  simp only [fillSlices, RawSlice.len_write, List.cons.injEq]
  constructor
  · have hww := @RawSlice.write_write d off (w.take len) ((w.drop len).take (d.len - (off + len)))
      (by simp; omega)
    rw [hw] at hww
    rw [hww, ← List.take_add, hsum]
  · rw [List.drop_drop, hsum]

/-! ## `copyOutToSlices` -/

/-- while 文の各周での状態の意味。まだ写していない中身は `(sliceBytes src).drop srcSliceOffset` の先頭
`total - numBytesRead` byte。`fuel` は、元の slice と書き込み先の片の数だけあれば足りる。 -/
theorem copyOutToSlicesLoop_spec (total fuel : Nat) (src : List Slice) (srcOff : Nat) (ds : List RawSlice)
    (dstOff read : Nat) (hsrc : ∀ s ∈ src.head?, srcOff ≤ s.dataSize) (hdst : ∀ d ∈ ds.head?, dstOff ≤ d.len)
    (henough : total - read ≤ ((sliceBytes src).drop srcOff).length)
    (hfuel : read < total → src.length + ds.length ≤ fuel) :
    copyOutToSlicesLoop total fuel src srcOff ds dstOff read =
      some (fillSlices dstOff ds (((sliceBytes src).drop srcOff).take (total - read)),
        read + min (total - read) (capacity ds - dstOff)) := by
  induction fuel generalizing src srcOff ds dstOff read with
  | zero =>
    cases ds with
    | nil => simp [copyOutToSlicesLoop, fillSlices]
    | cons d ds =>
      -- 周回が残っていなければ、写し終えている
      have hread : ¬read < total := fun h => by simpa using hfuel h
      rw [copyOutToSlicesLoop, if_neg hread, show total - read = 0 by omega]
      simp
  | succ fuel ih =>
    cases ds with
    | nil => simp [copyOutToSlicesLoop, fillSlices]
    | cons d ds =>
      have hd : dstOff ≤ d.len := hdst d rfl
      by_cases hread : read < total
      swap
      · -- 写し終えた: 書き込み先は変わらない
        have hdone : copyOutToSlicesLoop total (fuel + 1) src srcOff (d :: ds) dstOff read =
            some (d :: ds, read) := by
          cases src with
          | nil => rw [copyOutToSlicesLoop, if_neg hread]
          | cons s srcs => rw [copyOutToSlicesLoop, if_neg hread]
        rw [hdone, show total - read = 0 by omega]
        simp
      cases src with
      | nil => simp at henough; omega
      | cons s srcs =>
        have hs : srcOff ≤ s.dataSize := hsrc s rfl
        rw [copyOutToSlicesLoop, if_pos hread]
        dsimp only
        generalize hlen : min (s.dataSize - srcOff) (min (d.len - dstOff) (total - read)) = len
        -- この周に写す分は、まだ写していない中身の先頭 `len` byte
        have hR : (sliceBytes (s :: srcs)).drop srcOff = s.dataBytes.drop srcOff ++ sliceBytes srcs := by
          rw [sliceBytes_cons, List.drop_append_of_le_length (by simpa using hs)]
        have hchunk : (s.dataBytes.drop srcOff).take len =
            (((sliceBytes (s :: srcs)).drop srcOff).take (total - read)).take len := by
          rw [List.take_take, Nat.min_eq_left (by omega), hR,
            List.take_append_of_le_length (by simp; omega)]
        have hrest : (((sliceBytes (s :: srcs)).drop srcOff).take (total - read)).drop len =
            ((if srcOff + len = s.dataSize then sliceBytes srcs else sliceBytes (s :: srcs)).drop
              (if srcOff + len = s.dataSize then 0 else srcOff + len)).take (total - (read + len)) := by
          rw [List.drop_take, show total - read - len = total - (read + len) by omega]
          split
          · rw [List.drop_zero, hR, List.drop_append_of_le_length (by simp; omega), List.drop_of_length_le
              (by simp; omega), List.nil_append]
          · rw [List.drop_drop, Nat.add_comm]
        have hsrcs : (if srcOff + len = s.dataSize then sliceBytes srcs else sliceBytes (s :: srcs)) =
            sliceBytes (if srcOff + len = s.dataSize then srcs else s :: srcs) := by
          split <;> rfl
        rw [hsrcs] at hrest
        have hsrc' : ∀ s' ∈ (if srcOff + len = s.dataSize then srcs else s :: srcs).head?,
            (if srcOff + len = s.dataSize then 0 else srcOff + len) ≤ s'.dataSize := by
          split
          · exact fun _ _ => Nat.zero_le _
          · intro s' hs'
            cases hs'
            omega
        have henough' : total - (read + len) ≤ ((sliceBytes (if srcOff + len = s.dataSize then srcs
            else s :: srcs)).drop (if srcOff + len = s.dataSize then 0 else srcOff + len)).length := by
          rw [← hsrcs]
          split
          · rw [hR] at henough; simp at henough ⊢; omega
          · simp at henough ⊢; omega
        have hsrcLen : (if srcOff + len = s.dataSize then srcs else s :: srcs).length =
            if srcOff + len = s.dataSize then srcs.length else srcs.length + 1 := by
          split <;> rfl
        have hw : len ≤ (((sliceBytes (s :: srcs)).drop srcOff).take (total - read)).length := by
          simp; omega
        rw [hchunk]
        split
        · -- 書き込み先の片を書き終えた
          rename_i hfull
          have hfuel' : read + len < total →
              (if srcOff + len = s.dataSize then srcs else s :: srcs).length + ds.length ≤ fuel := by
            intro h
            have := hfuel hread
            rw [hsrcLen]
            simp only [List.length_cons] at this
            split <;> omega
          rw [ih _ _ _ _ _ hsrc' (fun _ _ => Nat.zero_le _) henough' hfuel', Option.map_some, ← hrest]
          simp only [Option.some.injEq, Prod.mk.injEq, fillSlices, capacity_cons, Nat.sub_zero,
            show d.len - dstOff = len by omega]
          exact ⟨trivial, by omega⟩
        · -- 書き込み先の片に続けて書く。元の slice も進まなければ、写し終えている
          rename_i hpart
          have hfuel' : ∀ x : RawSlice, read + len < total →
              (if srcOff + len = s.dataSize then srcs else s :: srcs).length + (x :: ds).length ≤ fuel := by
            intro x h
            have := hfuel hread
            rw [hsrcLen]
            simp only [List.length_cons] at this ⊢
            split
            · omega
            · omega
          rw [ih _ _ _ _ _ hsrc' (fun d' hd' => by cases hd'; simp; omega) henough' (hfuel' _), ← hrest,
            fillSlices_cons_step d ds _ hw (by omega)]
          simp only [Option.some.injEq, Prod.mk.injEq, true_and, capacity_cons, RawSlice.len_write]
          omega

/-- `copyOutToSlices(size, d, k)` は `n = min(size, len, Σ len(d_i))` を返し、中身の先頭 `n` byte を
書き込み先へ前から詰める。 -/
theorem copyOutToSlices_eq (b : OwnedImpl) (hb : b.LengthOk) (size : Nat) (dest : List RawSlice) :
    b.copyOutToSlices size dest =
      some (fillSlices 0 dest ((sliceBytes b.slices).take (min size (min b.length (capacity dest)))),
        min size (min b.length (capacity dest))) := by
  unfold LengthOk at hb
  rw [copyOutToSlices, copyOutToSlicesLoop_spec _ _ _ _ _ _ _ (by simp) (by simp) (by simp; omega)
    (fun _ => by omega), List.drop_zero, Nat.sub_zero, Nat.sub_zero, Nat.zero_add]
  -- 詰めるのは枠の合計まで
  have hn : min size (min b.length (capacity dest)) = min (capacity dest) (min size b.length) := by omega
  have htake : (sliceBytes b.slices).take (min (capacity dest) (min size b.length)) =
      ((sliceBytes b.slices).take (min size b.length)).take (capacity dest) := by
    rw [List.take_take]
  rw [hn, htake, fillSlices_take dest _ (le_refl _), Nat.min_comm (capacity dest)]

/-! ## `startsWith` -/

theorem startsWithLoop_spec (l : List Slice) (pfx : Bytes) (hp : pfx ≠ []) (hlen : pfx.length ≤ (sliceBytes l).length) :
    startsWithLoop l pfx = true ↔ pfx <+: sliceBytes l := by
  induction l generalizing pfx with
  | nil => exact absurd (List.eq_nil_of_length_eq_zero (by simpa using hlen)) hp
  | cons s rest ih =>
    rw [startsWithLoop, sliceBytes_cons]
    by_cases hfit : s.dataSize ≥ pfx.length
    · -- 残りの `prefix` は、この slice に収まる
      rw [if_pos hfit, beq_iff_eq, List.prefix_iff_eq_take, List.take_append_of_le_length (by simpa using hfit),
        eq_comm]
    rw [if_neg hfit]
    -- `prefix` は、この slice の中身と、残りの slice の中身の先頭に分かれる
    have hsplit : pfx <+: s.dataBytes ++ sliceBytes rest ↔
        pfx.take s.dataSize = s.dataBytes ∧ pfx.drop s.dataSize <+: sliceBytes rest := by
      constructor
      · intro h
        have htake : pfx.take s.dataSize = s.dataBytes := by
          rw [← Slice.dataBytes_length, (List.prefix_iff_eq_take.mp h), List.take_take,
            Nat.min_eq_left (by simp; omega), List.take_left]
        refine ⟨htake, ?_⟩
        rw [← List.take_append_drop s.dataSize pfx, htake] at h
        exact (List.prefix_append_right_inj _).mp h
      · rintro ⟨htake, hdrop⟩
        rw [← List.take_append_drop s.dataSize pfx, htake]
        exact (List.prefix_append_right_inj _).mpr hdrop
    by_cases hhead : pfx.take s.dataSize = s.dataBytes
    · rw [if_neg (by simpa using hhead), hsplit, ih _ (by simp; omega) (by simp at hlen ⊢; omega)]
      exact ⟨fun h => ⟨hhead, h⟩, fun h => h.2⟩
    · rw [if_pos (by simpa using hhead), hsplit]
      simp [hhead]

/-- `startsWith(p)` は、`p` が中身の先頭にあるときに限り真。 -/
theorem startsWith_iff (b : OwnedImpl) (hb : b.LengthOk) (data : Bytes) :
    b.startsWith data = true ↔ data <+: sliceBytes b.slices := by
  unfold LengthOk at hb
  rw [startsWith]
  by_cases hshort : b.length < data.length
  · rw [if_pos hshort]
    simp only [Bool.false_eq_true, false_iff]
    intro h
    have := h.length_le
    omega
  rw [if_neg hshort]
  by_cases hempty : data = []
  · subst hempty
    simp
  rw [if_neg (by simpa using hempty)]
  exact startsWithLoop_spec _ _ hempty (by omega)

/-- 中身 `s` を読む三つの操作。`copyOutToSlices(size, d, k)` は止まって `n = min(size, |s|, Σ len(d_i))` を
返し、`s` の先頭 `n` byte を書き込み先へ前から順に詰める。`copyOut(start, size)` は `s[start, start + size)`
を書き、`startsWith(p)` は `p` が `s` の先頭にあるときに限り真。 -/
theorem copyOutToSlices_fills_in_order (b : OwnedImpl) (hb : b.LengthOk) :
    (∀ size dest, b.copyOutToSlices size dest =
        some (fillSlices 0 dest (b.toString.take (min size (min b.toString.length (capacity dest)))),
          min size (min b.toString.length (capacity dest)))) ∧
    (∀ start size, start + size ≤ b.toString.length →
        b.copyOut start size = (b.toString.drop start).take size ∧ (b.copyOut start size).length = size) ∧
    (∀ data, b.startsWith data = true ↔ data <+: b.toString) := by
  have hlen : b.toString.length = b.length := by rw [toString_eq]; exact hb.symm
  refine ⟨fun size dest => ?_, fun start size hfit => ?_, fun data => ?_⟩
  · rw [copyOutToSlices_eq b hb, hlen, toString_eq]
  · rw [copyOut, copyOutLoop_spec, ← toString_eq]
    exact ⟨rfl, by simp; omega⟩
  · rw [startsWith_iff b hb, toString_eq]

/-- 中身 `[1, 2] [3, 4]` を枠 1 と 2 の書き込み先へ: 三 byte を `[1]`、`[2, 3]` に詰める。 -/
theorem copyOutToSlices_two_by_two :
    ((⟨[Slice.ofFragment [1, 2], Slice.ofFragment [3, 4]], 4, none⟩ : OwnedImpl).copyOutToSlices 5
        [⟨[0], 1, by decide⟩, ⟨[0, 0], 2, by decide⟩]).map (fun r => (r.1.map RawSlice.mem, r.2)) =
      some ([[1], [2, 3]], 3) := by
  have hb : (⟨[Slice.ofFragment [1, 2], Slice.ofFragment [3, 4]], 4, none⟩ : OwnedImpl).LengthOk := rfl
  rw [(copyOutToSlices_fills_in_order _ hb).1]
  rfl

end OwnedImpl

end Envoy.Buffer
