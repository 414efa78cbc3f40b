import Envoy.Common.BitArray

/-!
# `BitArray` は `w` bit の値の配列

記憶域を bit の列とみると（`LittleEndian.bit`）、要素 `j` は位置 `[j * w, j * w + w)` の bit である。
`set(index, value)` は 64 bit の語を丸ごと読み書きするが、書き換わる bit は要素 `index` の `w` bit だけ
（`bit_set`）。よって `Represents t vals`（記憶域の要素 `j` の bit が `vals[j]` の bit）は `create` で
成り立ち、`set` で保たれ、`get(j)` は `vals[j]` を返す。範囲内の要素の語は、記憶域の中にある。
-/

namespace Envoy

namespace BitArray

open LittleEndian

/-! ## 語の読み書き -/

theorem testBit_loadUnsignedWord (mem : List UInt8) (off i : Nat) :
    (loadUnsignedWord mem off).testBit i = (decide (i < 64) && bit mem (8 * off + i)) := by
  rw [loadUnsignedWord, testBit_ofBytes, bit_take, bit_drop]
  rfl

@[simp] theorem length_storeUnsignedWord (mem : List UInt8) (off v : Nat) :
    (storeUnsignedWord mem off v).length = mem.length :=
  List.length_writeAt _ _ _

/-- 記憶域に収まる語の書き込みは、その 64 bit だけを値の bit にする。 -/
theorem bit_storeUnsignedWord {mem : List UInt8} {off : Nat} (h : off + wordSize ≤ mem.length) (v p : Nat) :
    bit (storeUnsignedWord mem off v) p =
      if 8 * off ≤ p ∧ p < 8 * off + 64 then v.testBit (p - 8 * off) else bit mem p := by
  rw [storeUnsignedWord, bit_writeAt _ (by simpa using h), length_toBytes, bit_toBytes]
  by_cases hp : 8 * off ≤ p ∧ p < 8 * off + 64
  · rw [if_pos (by simp only [wordSize]; omega), if_pos hp]
    have hq : p - 8 * off < 8 * wordSize := by simp only [wordSize]; omega
    simp [hq]
  · rw [if_neg (by simp only [wordSize]; omega), if_neg hp]

theorem bit_replicate_zero (n p : Nat) : bit (List.replicate n 0) p = false := by
  unfold bit
  by_cases hp : p / 8 < n
  · rw [List.getD_replicate _ hp]
    simp
  · rw [List.getD_eq_default _ _ (by simpa using hp)]
    simp

/-! ## 要素の位置 -/

theorem shiftRight_three (x : Nat) : x >>> 3 = x / 8 := Nat.shiftRight_eq_div_pow x 3

theorem and_seven (x : Nat) : x &&& 0x7 = x % 8 := Nat.and_two_pow_sub_one_eq_mod x 3

/-- 範囲内の要素の最初の byte から一語は、`bytesNeeded(w, n)` byte の記憶域に収まる。 -/
theorem byte0Offset_add_wordSize_le {w n j : Nat} (hj : j < n) : (j * w) >>> 3 + wordSize ≤ bytesNeeded w n := by
  have hjw : j * w ≤ w * n := by
    rw [Nat.mul_comm w n]
    exact Nat.mul_le_mul_right w hj.le
  rw [shiftRight_three, bytesNeeded]
  simp only [shiftRight_three, wordSize]
  have : j * w / 8 ≤ (w * n + 7) / 8 := Nat.div_le_div_right (by omega)
  omega

/-- 違う二つの要素の bit の位置は重ならない。 -/
theorem not_mem_field {w i j k : Nat} (hij : j ≠ i) (hk : k < w) :
    ¬(i * w ≤ j * w + k ∧ j * w + k < i * w + w) := by
  rcases Nat.lt_or_gt_of_ne hij with hlt | hgt
  · have : (j + 1) * w ≤ i * w := Nat.mul_le_mul_right w hlt
    rw [Nat.succ_mul] at this
    omega
  · have : (i + 1) * w ≤ j * w := Nat.mul_le_mul_right w hgt
    rw [Nat.succ_mul] at this
    omega

/-! ## `set` -/

@[simp] theorem bitWidth_set (t : BitArray) (index : Nat) (value : UInt32) :
    (t.set index value).bitWidth = t.bitWidth := by
  unfold set
  split <;> rfl

@[simp] theorem mask_set (t : BitArray) (index : Nat) (value : UInt32) : (t.set index value).mask = t.mask := by
  unfold set
  split <;> rfl

@[simp] theorem numItems_set (t : BitArray) (index : Nat) (value : UInt32) :
    (t.set index value).numItems = t.numItems := by
  unfold set
  split <;> rfl

@[simp] theorem length_set (t : BitArray) (index : Nat) (value : UInt32) :
    (t.set index value).arrayStart.length = t.arrayStart.length := by
  unfold set
  split
  · rfl
  · exact length_storeUnsignedWord _ _ _

theorem set_of_le {t : BitArray} {index : Nat} (hi : t.numItems ≤ index) (value : UInt32) :
    t.set index value = t := by
  rw [set, if_pos hi]

/-- `set(index, value)` が書き換える bit は要素 `index` の `w` bit だけで、そこには `value` の下位の bit が入る。 -/
theorem bit_set {t : BitArray} (hlen : t.arrayStart.length = bytesNeeded t.bitWidth t.numItems)
    (hw : t.bitWidth ≤ maxBitWidth) {index : Nat} (hi : index < t.numItems) (value : UInt32) (p : Nat) :
    bit (t.set index value).arrayStart p =
      if index * t.bitWidth ≤ p ∧ p < index * t.bitWidth + t.bitWidth then
        value.toNat.testBit (p - index * t.bitWidth)
      else bit t.arrayStart p := by
  have hbound := byte0Offset_add_wordSize_le (w := t.bitWidth) hi
  rw [← hlen] at hbound
  unfold set
  rw [if_neg (not_le.mpr hi)]
  dsimp only
  rw [bit_storeUnsignedWord hbound]
  simp only [shiftRight_three, and_seven]
  simp only [maxBitWidth] at hw
  generalize index * t.bitWidth = W
  by_cases hp : 8 * (W / 8) ≤ p ∧ p < 8 * (W / 8) + 64
  · rw [if_pos hp]
    simp only [Nat.testBit_or, Nat.testBit_and, Nat.testBit_xor, Nat.testBit_shiftLeft, Nat.one_shiftLeft,
      Nat.testBit_two_pow_sub_one, testBit_loadUnsignedWord]
    -- 語の中の位置 `q`: 要素の bit なら `value` の bit、そうでなければ読んだ bit のまま
    by_cases hf : W ≤ p ∧ p < W + t.bitWidth
    · rw [if_pos hf]
      have h1 : W % 8 ≤ p - 8 * (W / 8) := by omega
      have h2 : p - 8 * (W / 8) - W % 8 < t.bitWidth := by omega
      have h3 : p - 8 * (W / 8) - W % 8 = p - W := by omega
      have h4 : p - W < t.bitWidth := by omega
      simp [h1, h3, h4, show p - 8 * (W / 8) < 64 by omega]
    · rw [if_neg hf]
      have hq : ¬(W % 8 ≤ p - 8 * (W / 8) ∧ p - 8 * (W / 8) - W % 8 < t.bitWidth) := by omega
      have hp8 : 8 * (W / 8) + (p - 8 * (W / 8)) = p := by omega
      simp only [ge_iff_le, Bool.and_comm (decide (W % 8 ≤ p - 8 * (W / 8)))] at hq ⊢
      by_cases h1 : W % 8 ≤ p - 8 * (W / 8)
      · have h2 : ¬(p - 8 * (W / 8) - W % 8 < t.bitWidth) := fun h => hq ⟨h1, h⟩
        simp [h1, h2, hp8, show p - 8 * (W / 8) < 64 by omega]
      · simp [h1, hp8, show p - 8 * (W / 8) < 64 by omega]
  · rw [if_neg hp, if_neg (by omega)]

/-! ## 値の配列としての表し -/

/-- `BitArray` が `w` bit の値の列 `vals` を表す: 要素 `j` の位置の bit が `vals[j]` の bit。 -/
structure Represents (t : BitArray) (vals : List Nat) : Prop where
  length_arrayStart : t.arrayStart.length = bytesNeeded t.bitWidth t.numItems
  width_le : t.bitWidth ≤ maxBitWidth
  mask_eq : t.mask = 2 ^ t.bitWidth - 1
  length_vals : vals.length = t.numItems
  lt_two_pow : ∀ v ∈ vals, v < 2 ^ t.bitWidth
  bits : ∀ j (hj : j < vals.length), ∀ k < t.bitWidth, bit t.arrayStart (j * t.bitWidth + k) = vals[j].testBit k

/-- 作った直後は、幅と要素数が引数のとおりで、値はすべて 0。 -/
theorem create_spec {width : Nat} (hw : width ≤ maxBitWidth) (numItems : Nat) :
    ∃ t, create width numItems = some t ∧ t.bitWidth = width ∧ t.numItems = numItems ∧
      Represents t (List.replicate numItems 0) := by
  have hmask : ((1 <<< width) - 1) % 2 ^ 32 = 2 ^ width - 1 := by
    rw [Nat.one_shiftLeft]
    apply Nat.mod_eq_of_lt
    have : 2 ^ width ≤ 2 ^ 32 := Nat.pow_le_pow_right (by decide) hw
    omega
  have hbytes : wordSize ≤ bytesNeeded width numItems := by
    simp only [bytesNeeded, wordSize]
    omega
  refine ⟨_, by rw [create, if_pos hw], rfl, rfl, ?_⟩
  refine ⟨by simp, hw, hmask, List.length_replicate, fun v hv => ?_, fun j hj k hk => ?_⟩
  · rw [List.eq_of_mem_replicate hv]
    exact Nat.two_pow_pos _
  · -- 0 で埋めた記憶域に 0 の語を書いても、bit はすべて 0
    dsimp only
    rw [bit_storeUnsignedWord (by simp; omega)]
    simp only [List.getElem_replicate, Nat.zero_testBit]
    split
    · rfl
    · exact bit_replicate_zero _ _

/-- `get(j)` は `vals[j]` を返す。 -/
theorem Represents.get {t : BitArray} {vals : List Nat} (h : Represents t vals) {j : Nat} (hj : j < vals.length) :
    (t.get j).map UInt32.toNat = some vals[j] := by
  have hv := h.lt_two_pow _ (List.getElem_mem hj)
  have hw := h.width_le
  simp only [maxBitWidth] at hw
  -- 語をずらして `mask_` を掛けた値の bit は、要素 `j` の bit
  have key : (loadUnsignedWord t.arrayStart ((j * t.bitWidth) >>> 3) >>> (j * t.bitWidth &&& 0x7)) &&& t.mask =
      vals[j] := by
    apply Nat.eq_of_testBit_eq
    intro k
    rw [Nat.testBit_and, Nat.testBit_shiftRight, testBit_loadUnsignedWord, h.mask_eq,
      Nat.testBit_two_pow_sub_one, shiftRight_three, and_seven]
    by_cases hk : k < t.bitWidth
    · have hpos : 8 * (j * t.bitWidth / 8) + (j * t.bitWidth % 8 + k) = j * t.bitWidth + k := by omega
      rw [hpos, h.bits j hj k hk]
      simp [hk, show j * t.bitWidth % 8 + k < 64 by omega]
    · have hlt : vals[j] < 2 ^ k := hv.trans_le (Nat.pow_le_pow_right (by decide) (not_lt.mp hk))
      simp [hk, Nat.testBit_lt_two_pow hlt]
  rw [BitArray.get, if_pos (h.length_vals ▸ hj), Option.map_some, key, UInt32.toNat_ofNat',
    Nat.mod_eq_of_lt (hv.trans_le (Nat.pow_le_pow_right (by decide) hw))]

/-- `set(index, value)` は `vals[index]` を `value` の下位 `w` bit にする（範囲外なら何もしない）。 -/
theorem Represents.set {t : BitArray} {vals : List Nat} (h : Represents t vals) (index : Nat) (value : UInt32) :
    Represents (t.set index value) (vals.set index (value.toNat % 2 ^ t.bitWidth)) := by
  by_cases hi : index < t.numItems
  · refine ⟨by simpa using h.length_arrayStart, by simpa using h.width_le, by simpa using h.mask_eq,
      by simpa using h.length_vals, fun v hv => ?_, fun j hj k hk => ?_⟩
    · rw [bitWidth_set]
      rcases List.mem_or_eq_of_mem_set hv with hv | rfl
      · exact h.lt_two_pow v hv
      · exact Nat.mod_lt _ (Nat.two_pow_pos _)
    · rw [bitWidth_set] at hk ⊢
      rw [List.length_set] at hj
      rw [bit_set h.length_arrayStart h.width_le hi]
      by_cases hji : j = index
      · subst hji
        rw [if_pos ⟨by omega, by omega⟩, List.getElem_set_self, Nat.testBit_mod_two_pow,
          show j * t.bitWidth + k - j * t.bitWidth = k by omega]
        simp [hk]
      · rw [if_neg (not_mem_field hji hk), List.getElem_set_ne (Ne.symm hji)]
        exact h.bits j hj k hk
  · rw [set_of_le (not_lt.mp hi), List.set_eq_of_length_le (by rw [h.length_vals]; exact not_lt.mp hi)]
    exact h

/-! ## `set` の列 -/

/-- `set(i, v)` を順に呼ぶ。 -/
def runSets (ops : List (Nat × UInt32)) (t : BitArray) : BitArray := ops.foldl (fun t op => t.set op.1 op.2) t

/-- 同じ `set` を、`w` bit の値の列に対してする。 -/
def arraySets (w : Nat) (ops : List (Nat × UInt32)) (vals : List Nat) : List Nat :=
  ops.foldl (fun vals op => vals.set op.1 (op.2.toNat % 2 ^ w)) vals

/-- 位置 `j` に最後に `set` した値の下位 `w` bit。一度も `set` していなければ 0。 -/
def lastSet (w : Nat) (ops : List (Nat × UInt32)) (j : Nat) : Nat :=
  match ops.reverse.find? (fun op => op.1 == j) with
  | some op => op.2.toNat % 2 ^ w
  | none => 0

theorem Represents.runSets {t : BitArray} {vals : List Nat} (h : Represents t vals) (ops : List (Nat × UInt32)) :
    Represents (BitArray.runSets ops t) (arraySets t.bitWidth ops vals) := by
  induction ops generalizing t vals with
  | nil => exact h
  | cons op ops ih =>
    have := ih (h.set op.1 op.2)
    rw [bitWidth_set] at this
    exact this

@[simp] theorem length_arraySets (w : Nat) (ops : List (Nat × UInt32)) (vals : List Nat) :
    (arraySets w ops vals).length = vals.length := by
  induction ops generalizing vals with
  | nil => rfl
  | cons op ops ih => rw [arraySets, List.foldl_cons, ← arraySets, ih, List.length_set]

/-- 値の列の位置 `j` は、最後にそこへ `set` した値、無ければ元の値。 -/
theorem getD_arraySets (w : Nat) (ops : List (Nat × UInt32)) {vals : List Nat} {j : Nat} (hj : j < vals.length) :
    (arraySets w ops vals).getD j 0 =
      match ops.reverse.find? (fun op => op.1 == j) with
      | some op => op.2.toNat % 2 ^ w
      | none => vals.getD j 0 := by
  induction ops using List.reverseRecOn with
  | nil => rfl
  | append_singleton ops op ih =>
    rw [arraySets, List.foldl_append, List.reverse_append, List.reverse_singleton, List.singleton_append,
      List.find?_cons]
    simp only [List.foldl_cons, List.foldl_nil]
    rw [← arraySets, List.getD_eq_getElem?_getD, List.getElem?_set]
    by_cases hop : op.1 = j
    · simp [hop, hj]
    · have hbeq : (op.1 == j) = false := beq_eq_false_iff_ne.mpr hop
      simp only [hbeq, hop, if_false, ← List.getD_eq_getElem?_getD]
      exact ih

@[simp] theorem bitWidth_runSets (ops : List (Nat × UInt32)) (t : BitArray) :
    (runSets ops t).bitWidth = t.bitWidth := by
  induction ops generalizing t with
  | nil => rfl
  | cons op ops ih => exact (ih _).trans (bitWidth_set _ _ _)

@[simp] theorem numItems_runSets (ops : List (Nat × UInt32)) (t : BitArray) :
    (runSets ops t).numItems = t.numItems := by
  induction ops generalizing t with
  | nil => rfl
  | cons op ops ih => exact (ih _).trans (numItems_set _ _ _)

/-- 0 から始めた値の列の位置 `j` は `lastSet`。 -/
theorem getElem_arraySets_replicate (w : Nat) (ops : List (Nat × UInt32)) {n j : Nat}
    (hj : j < (arraySets w ops (List.replicate n 0)).length) :
    (arraySets w ops (List.replicate n 0))[j] = lastSet w ops j := by
  rw [← List.getD_eq_getElem _ 0 hj, getD_arraySets w ops (by simpa using hj), lastSet]
  cases ops.reverse.find? (fun op => op.1 == j) with
  | none => simp
  | some op => rfl

example : (create 3 10).map (fun t => ((runSets [(2, 5), (3, 9), (2, 6)] t).get 2,
    (runSets [(2, 5), (3, 9), (2, 6)] t).get 3)) = some (some 6, some 1) := by decide

end BitArray

end Envoy
