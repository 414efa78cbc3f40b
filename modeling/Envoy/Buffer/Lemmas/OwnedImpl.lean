import Envoy.Buffer.OwnedImpl

/-!
# `OwnedImpl` の操作の中身

各操作が、slice の中身をつないだ byte 列 `sliceBytes` と長さの控え `length_` をどう変えるかを
示す。長さの控えが中身の長さに等しいこと（`LengthOk`）を前提に取る補題もある。
-/

namespace Envoy.Buffer

/-- slice の中身を順につないだ byte 列。 -/
def sliceBytes (slices : List Slice) : Bytes := slices.flatMap Slice.dataBytes

@[simp] theorem sliceBytes_nil : sliceBytes [] = [] := rfl

@[simp] theorem sliceBytes_cons (s : Slice) (l : List Slice) :
    sliceBytes (s :: l) = s.dataBytes ++ sliceBytes l := rfl

@[simp] theorem sliceBytes_append (l l' : List Slice) :
    sliceBytes (l ++ l') = sliceBytes l ++ sliceBytes l' := List.flatMap_append

theorem length_sliceBytes (l : List Slice) :
    (sliceBytes l).length = (l.map Slice.dataSize).sum := by
  induction l with
  | nil => rfl
  | cons s l ih => simp [ih]

/-- 末尾の slice を取り出す形。 -/
theorem sliceBytes_of_getLast? {slices : List Slice} {back : Slice}
    (h : slices.getLast? = some back) :
    sliceBytes slices = sliceBytes slices.dropLast ++ back.dataBytes := by
  obtain ⟨ys, rfl⟩ := List.getLast?_eq_some_iff.mp h
  simp

namespace OwnedImpl

/-- 長さの控えが中身の長さに等しい。 -/
def LengthOk (b : OwnedImpl) : Prop := b.length = (sliceBytes b.slices).length

theorem toString_eq (b : OwnedImpl) : b.toString = sliceBytes b.slices := by
  unfold toString getRawSlices sliceBytes
  induction b.slices with
  | nil => rfl
  | cons s l ih =>
    rw [List.filter_cons, List.flatMap_cons]
    split
    · rw [List.map_cons, List.flatten_cons, ih]
    · -- 読み飛ばす slice の中身は空
      rename_i h
      have : s.dataBytes = [] := List.eq_nil_of_length_eq_zero (by simpa using h)
      rw [this, List.nil_append, ih]

/-! ## `addImpl` -/

theorem appendToBack_of_getLast? {slices : List Slice} {back : Slice}
    (h : slices.getLast? = some back) (src : Bytes) :
    appendToBack slices src = (slices.dropLast ++ [(back.append src).1], (back.append src).2) := by
  simp [appendToBack, h]

theorem sliceBytes_appendToBack {slices : List Slice} {back : Slice}
    (h : slices.getLast? = some back) (src : Bytes) :
    sliceBytes (appendToBack slices src).1 =
      sliceBytes slices ++ src.take (appendToBack slices src).2 := by
  rw [appendToBack_of_getLast? h, sliceBytes_of_getLast? h]
  simp [Slice.dataBytes_append]

/-- 新しい slice には残りが全部入る。 -/
theorem append_create_snd (src : Bytes) (a : Option Nat) :
    ((Slice.create src.length a).append src).2 = src.length := by
  rw [Slice.append_snd, Slice.reservableSize_create]
  exact Nat.min_eq_left (Slice.le_sliceSize _)

/-- `addImpl` の while 文は `src` を末尾に足す。新しい slice を作る周では一周で終わり、
既存の末尾から始める周では二周で終わる。 -/
theorem addLoop_spec (fuel : Nat) (b : OwnedImpl) (src : Bytes) (newSliceNeeded : Bool)
    (hstart : newSliceNeeded = true ∨ b.slices ≠ [])
    (hfuel : src = [] ∨ (newSliceNeeded = true ∧ 1 ≤ fuel) ∨ 2 ≤ fuel) :
    sliceBytes (addLoop fuel b src newSliceNeeded).1.slices = sliceBytes b.slices ++ src ∧
      (addLoop fuel b src newSliceNeeded).1.length = b.length + src.length := by
  induction fuel generalizing b src newSliceNeeded with
  | zero =>
    rcases hfuel with rfl | ⟨_, h⟩ | h
    · simp [addLoop]
    · omega
    · omega
  | succ fuel ih =>
    by_cases hsrc : src = []
    · subst hsrc; simp [addLoop]
    simp only [addLoop, hsrc, ↓reduceIte]
    -- この周で足す slice の列と、その末尾
    generalize hsl : (if newSliceNeeded then b.slices ++ [Slice.create src.length b.account]
      else b.slices) = slices
    obtain ⟨back, hback⟩ : ∃ back, slices.getLast? = some back := by
      cases newSliceNeeded
      · simp only [Bool.false_eq_true, ↓reduceIte] at hsl
        subst hsl
        exact Option.ne_none_iff_exists'.mp (by simpa using hstart.resolve_left (by simp))
      · simp only [↓reduceIte] at hsl
        subst hsl
        exact ⟨Slice.create src.length b.account, by simp⟩
    have hbytes := sliceBytes_appendToBack hback src
    have hsl' : sliceBytes slices = sliceBytes b.slices := by
      cases newSliceNeeded
      · simp only [Bool.false_eq_true, ↓reduceIte] at hsl; rw [hsl]
      · simp only [↓reduceIte] at hsl; rw [← hsl]; simp
    obtain ⟨h1, h2⟩ := ih ⟨(appendToBack slices src).1, b.length + (appendToBack slices src).2,
        b.account⟩ (src.drop (appendToBack slices src).2) true (Or.inl rfl) (by
        -- 新しい slice を作った周なら、残りは空
        cases newSliceNeeded
        · rcases hfuel with h | ⟨h, _⟩ | h
          · exact absurd h hsrc
          · cases h
          · exact Or.inr (Or.inl ⟨rfl, by omega⟩)
        · left
          simp only [↓reduceIte] at hsl
          subst hsl
          rw [appendToBack_of_getLast?
            (show (b.slices ++ [Slice.create src.length b.account]).getLast? =
              some (Slice.create src.length b.account) by simp)]
          simp [append_create_snd])
    refine ⟨?_, ?_⟩
    · simp only [h1, hbytes, hsl', List.append_assoc, List.take_append_drop]
    · have hle : (appendToBack slices src).2 ≤ src.length := by
        rw [appendToBack_of_getLast? hback, Slice.append_snd]; exact Nat.min_le_left _ _
      simp only [h2, List.length_drop]
      omega

theorem addImpl_spec (b : OwnedImpl) (src : Bytes) :
    sliceBytes (b.addImpl src).1.slices = sliceBytes b.slices ++ src ∧
      (b.addImpl src).1.length = b.length + src.length := by
  apply addLoop_spec
  · cases b.slices <;> simp
  · cases src with
    | nil => exact Or.inl rfl
    | cons _ _ => exact Or.inr (Or.inr (by simp))

theorem LengthOk.addImpl {b : OwnedImpl} (h : b.LengthOk) (src : Bytes) : (b.addImpl src).1.LengthOk := by
  obtain ⟨h1, h2⟩ := addImpl_spec b src
  unfold LengthOk at *
  rw [h1, h2, h]
  simp

theorem addBuffer_spec (b other : OwnedImpl) :
    sliceBytes (b.addBuffer other).1.slices = sliceBytes b.slices ++ other.toString ∧
      (b.addBuffer other).1.length = b.length + other.toString.length := by
  unfold addBuffer toString
  generalize other.getRawSlices = raw
  -- 畳み込みの途中の buffer について帰納法
  suffices ∀ (acc : OwnedImpl × List AccountOp),
      sliceBytes (raw.foldl (fun acc s => ((addImpl acc.1 s).1, acc.2 ++ (addImpl acc.1 s).2))
        acc).1.slices = sliceBytes acc.1.slices ++ raw.flatten ∧
      (raw.foldl (fun acc s => ((addImpl acc.1 s).1, acc.2 ++ (addImpl acc.1 s).2))
        acc).1.length = acc.1.length + raw.flatten.length from this (b, [])
  induction raw with
  | nil => intro acc; simp
  | cons s raw ih =>
    intro acc
    obtain ⟨h1, h2⟩ := ih ((addImpl acc.1 s).1, acc.2 ++ (addImpl acc.1 s).2)
    obtain ⟨h3, h4⟩ := addImpl_spec acc.1 s
    simp only [List.foldl_cons, List.flatten_cons, List.length_append]
    refine ⟨?_, ?_⟩
    · rw [h1, h3, List.append_assoc]
    · rw [h2, h4]; omega

theorem addBufferFragment_spec (b : OwnedImpl) (f : Bytes) :
    sliceBytes (b.addBufferFragment f).slices = sliceBytes b.slices ++ f ∧
      (b.addBufferFragment f).length = b.length + f.length := by
  simp [addBufferFragment]

/-! ## `prepend` -/

/-- 新しい slice の前の空きには残りが全部入る。 -/
theorem prepend_create_snd (src : Bytes) (a : Option Nat) :
    ((Slice.create src.length a).prepend src).2 = src.length := by
  rw [Slice.prepend_snd, if_pos (Slice.dataSize_create _ _), Slice.reservableSize_create]
  exact Nat.min_eq_left (Slice.le_sliceSize _)

theorem prependLoop_spec (fuel : Nat) (b : OwnedImpl) (src : Bytes) (newSliceNeeded : Bool)
    (hstart : newSliceNeeded = true ∨ b.slices ≠ [])
    (hfuel : src = [] ∨ (newSliceNeeded = true ∧ 1 ≤ fuel) ∨ 2 ≤ fuel) :
    sliceBytes (prependLoop fuel b src newSliceNeeded).1.slices = src ++ sliceBytes b.slices ∧
      (prependLoop fuel b src newSliceNeeded).1.length = b.length + src.length := by
  induction fuel generalizing b src newSliceNeeded with
  | zero =>
    rcases hfuel with rfl | ⟨_, h⟩ | h
    · simp [prependLoop]
    · omega
    · omega
  | succ fuel ih =>
    by_cases hsrc : src = []
    · subst hsrc; simp [prependLoop]
    simp only [prependLoop, hsrc, ↓reduceIte]
    generalize hsl : (if newSliceNeeded then Slice.create src.length b.account :: b.slices
      else b.slices) = slices
    have hsl' : sliceBytes slices = sliceBytes b.slices := by
      cases newSliceNeeded
      · simp only [Bool.false_eq_true, ↓reduceIte] at hsl; rw [hsl]
      · simp only [↓reduceIte] at hsl; rw [← hsl]; simp
    cases slices with
    | nil =>
      cases newSliceNeeded
      · simp only [Bool.false_eq_true, ↓reduceIte] at hsl
        exact absurd hsl (hstart.resolve_left (by simp))
      · simp at hsl
    | cons front rest =>
      simp only
      -- この周で写した byte 数
      have hle : (front.prepend src).2 ≤ src.length := by
        rw [Slice.prepend_snd]; split <;> exact Nat.min_le_left _ _
      obtain ⟨h1, h2⟩ := ih ⟨(front.prepend src).1 :: rest, b.length + (front.prepend src).2,
          b.account⟩ (src.take (src.length - (front.prepend src).2)) true (Or.inl rfl) (by
          cases newSliceNeeded
          · rcases hfuel with h | ⟨h, _⟩ | h
            · exact absurd h hsrc
            · cases h
            · exact Or.inr (Or.inl ⟨rfl, by omega⟩)
          · -- 新しい slice を作った周なら、残りは空
            left
            simp only [↓reduceIte, List.cons.injEq] at hsl
            obtain ⟨rfl, rfl⟩ := hsl
            simp [prepend_create_snd])
      refine ⟨?_, ?_⟩
      · rw [h1]
        simp only [sliceBytes_cons, Slice.dataBytes_prepend] at hsl' ⊢
        rw [← List.append_assoc, ← List.append_assoc, List.take_append_drop, List.append_assoc,
          hsl']
      · simp only [h2, List.length_take]
        omega

theorem prepend_spec (b : OwnedImpl) (src : Bytes) :
    sliceBytes (b.prepend src).1.slices = src ++ sliceBytes b.slices ∧
      (b.prepend src).1.length = b.length + src.length := by
  apply prependLoop_spec
  · cases b.slices <;> simp
  · cases src with
    | nil => exact Or.inl rfl
    | cons _ _ => exact Or.inr (Or.inr (by simp))

@[simp] theorem dataBytes_maybeChargeAccount (s : Slice) (a : Option Nat) :
    (s.maybeChargeAccount a).1.dataBytes = s.dataBytes := by
  unfold Slice.maybeChargeAccount
  split <;> rfl

theorem prependSlices_spec (a : Option Nat) (acc l : List Slice) (n : Nat) :
    sliceBytes (prependSlices a acc l n).1 = sliceBytes l.reverse ++ sliceBytes acc ∧
      (prependSlices a acc l n).2.1 = n + (sliceBytes l).length := by
  induction l generalizing acc n with
  | nil => simp [prependSlices]
  | cons s l ih =>
    obtain ⟨h1, h2⟩ := ih ((s.maybeChargeAccount a).1 :: acc) (n + s.dataSize)
    refine ⟨?_, ?_⟩
    · simp only [prependSlices, h1, sliceBytes_cons, dataBytes_maybeChargeAccount,
        List.reverse_cons, sliceBytes_append, sliceBytes_nil, List.append_nil, List.append_assoc]
    · simp only [prependSlices, h2, sliceBytes_cons, List.length_append, Slice.dataBytes_length]
      omega

theorem prependBuffer_spec (b other : OwnedImpl) :
    sliceBytes (b.prependBuffer other).1.slices = sliceBytes other.slices ++ sliceBytes b.slices ∧
      (b.prependBuffer other).1.length = b.length + (sliceBytes other.slices).length ∧
      (b.prependBuffer other).2.1.slices = [] ∧
      (b.prependBuffer other).2.1.length = other.length - (sliceBytes other.slices).length := by
  obtain ⟨h1, h2⟩ := prependSlices_spec b.account b.slices other.slices.reverse 0
  simp only [List.reverse_reverse] at h1
  -- 相手の slice を末尾から数えても、長さの和は同じ
  have hrev : (sliceBytes other.slices.reverse).length = (sliceBytes other.slices).length := by
    simp [length_sliceBytes, List.sum_reverse]
  refine ⟨h1, ?_, rfl, ?_⟩
  · simp only [prependBuffer, h2, Nat.zero_add, hrev]
  · simp only [prependBuffer, h2, Nat.zero_add, hrev]

/-! ## `drain` -/

theorem sliceBytes_dropEmptyFront (l : List Slice) : sliceBytes (dropEmptyFront l).1 = sliceBytes l := by
  induction l with
  | nil => rfl
  | cons s l ih =>
    unfold dropEmptyFront
    split
    · rename_i h
      have : s.dataBytes = [] := List.eq_nil_of_length_eq_zero (by simp [h])
      simp [ih, this]
    · rfl

/-- `drainImpl` の後の先頭の slice は空でない。 -/
theorem dropEmptyFront_head (l : List Slice) :
    ∀ s ∈ ((dropEmptyFront l).1).head?, s.dataSize ≠ 0 := by
  induction l with
  | nil => simp [dropEmptyFront]
  | cons s l ih =>
    unfold dropEmptyFront
    split
    · exact ih
    · rename_i h; simpa using h

/-- 先頭の slice より先から読むときは、その slice を読み飛ばす。 -/
theorem drop_sliceBytes_cons_of_le {s : Slice} {n : Nat} (l : List Slice) (h : s.dataSize ≤ n) :
    (sliceBytes (s :: l)).drop n = (sliceBytes l).drop (n - s.dataSize) := by
  rw [sliceBytes_cons, List.drop_append, List.drop_of_length_le (by simp [h]), List.nil_append,
    Slice.dataBytes_length]

theorem drainLoop_spec (l : List Slice) (size : Nat) :
    sliceBytes (drainLoop l (sliceBytes l).length size).1 = (sliceBytes l).drop size ∧
      (drainLoop l (sliceBytes l).length size).2.1 = (sliceBytes l).length - size := by
  induction l generalizing size with
  | nil => simp [drainLoop]
  | cons s l ih =>
    unfold drainLoop
    by_cases h0 : size = 0
    · simp [h0]
    by_cases hle : s.dataSize ≤ size
    · -- 先頭の slice を丸ごと捨てる
      obtain ⟨h1, h2⟩ := ih (size - s.dataSize)
      have hlen : (sliceBytes (s :: l)).length - s.dataSize = (sliceBytes l).length := by
        simp
      simp only [h0, ↓reduceIte, hle, hlen, h1, h2, drop_sliceBytes_cons_of_le l hle, true_and]
      simp only [sliceBytes_cons, List.length_append, Slice.dataBytes_length]
      omega
    · -- 先頭の slice の途中まで
      have hlt : size ≤ s.dataSize := by omega
      simp only [h0, ↓reduceIte, hle, sliceBytes_cons, Slice.dataBytes_drain s hlt]
      refine ⟨?_, by simp⟩
      rw [List.drop_append_of_le_length (by simp; omega)]

theorem drainImpl_spec (b : OwnedImpl) (h : b.LengthOk) (size : Nat) :
    sliceBytes (b.drainImpl size).1.slices = (sliceBytes b.slices).drop size ∧
      (b.drainImpl size).1.length = b.length - size := by
  unfold LengthOk at h
  obtain ⟨h1, h2⟩ := drainLoop_spec b.slices size
  simp only [drainImpl, h, sliceBytes_dropEmptyFront, h1, h2, and_self]

/-! ## `copyOut` -/

theorem copyOutLoop_spec (l : List Slice) (start size : Nat) :
    copyOutLoop l start size = ((sliceBytes l).drop start).take size := by
  induction l generalizing start size with
  | nil => simp [copyOutLoop]
  | cons s l ih =>
    unfold copyOutLoop
    by_cases h0 : size = 0
    · simp [h0]
    by_cases hle : s.dataSize ≤ start
    · simp only [h0, ↓reduceIte, hle, ih, drop_sliceBytes_cons_of_le l hle]
    · simp only [h0, ↓reduceIte, hle, ih, sliceBytes_cons]
      rw [List.drop_append_of_le_length (by simp; omega), List.take_append, List.drop_zero]
      have hl : (s.dataBytes.drop start).length = s.dataSize - start := by simp
      rw [hl]
      congr 1
      · rw [List.take_eq_take_min (i := size), hl]
      · congr 1; omega

/-! ## `move` -/

theorem coalesceOrAddSlice_spec (b : OwnedImpl) (s : Slice) :
    sliceBytes (b.coalesceOrAddSlice s).1.slices = sliceBytes b.slices ++ s.dataBytes ∧
      (b.coalesceOrAddSlice s).1.length = b.length + s.dataSize := by
  unfold coalesceOrAddSlice
  split
  · -- 末尾の slice があるときは、写すかどうかで分ける
    dsimp only
    split
    · simpa using addImpl_spec b s.dataBytes
    · simp
  · simp

theorem moveLoop_spec (b : OwnedImpl) (l : List Slice) :
    sliceBytes (moveLoop b l).1.slices = sliceBytes b.slices ++ sliceBytes l ∧
      (moveLoop b l).1.length = b.length + (sliceBytes l).length := by
  induction l generalizing b with
  | nil => simp [moveLoop]
  | cons s l ih =>
    obtain ⟨h1, h2⟩ := coalesceOrAddSlice_spec b s
    obtain ⟨h3, h4⟩ := ih (b.coalesceOrAddSlice s).1
    simp only [moveLoop, h3, h4, h1, h2, sliceBytes_cons, List.append_assoc, List.length_append,
      Slice.dataBytes_length, true_and]
    omega

theorem move_spec (b other : OwnedImpl) (ho : other.LengthOk) :
    sliceBytes (b.move other).1.slices = sliceBytes b.slices ++ sliceBytes other.slices ∧
      (b.move other).1.length = b.length + (sliceBytes other.slices).length ∧
      (b.move other).2.1.slices = [] ∧ (b.move other).2.1.length = 0 := by
  obtain ⟨h1, h2⟩ := moveLoop_spec b other.slices
  unfold LengthOk at ho
  refine ⟨h1, h2, rfl, ?_⟩
  simp [move, ho, length_sliceBytes]

theorem moveLengthLoop_spec (reset : Bool) (b : OwnedImpl) (l : List Slice) (n : Nat) :
    sliceBytes (moveLengthLoop reset b l n).1.slices = sliceBytes b.slices ++ (sliceBytes l).take n ∧
      sliceBytes (moveLengthLoop reset b l n).2.1 = (sliceBytes l).drop n ∧
      (moveLengthLoop reset b l n).2.2.1 = min n (sliceBytes l).length ∧
      (moveLengthLoop reset b l n).1.length = b.length + min n (sliceBytes l).length := by
  induction l generalizing b n with
  | nil => simp [moveLengthLoop]
  | cons s l ih =>
    unfold moveLengthLoop
    by_cases h0 : n = 0
    · simp [h0]
    simp only [h0, ↓reduceIte]
    by_cases hc : min s.dataSize n = 0
    · -- 中身の無い slice は捨てる
      have hs : s.dataSize = 0 := by omega
      have hb : s.dataBytes = [] := List.eq_nil_of_length_eq_zero (by simp [hs])
      obtain ⟨h1, h2, h3, h4⟩ := ih b n
      simp only [hc, ↓reduceIte, h1, h2, h3, h4, sliceBytes_cons, hb, List.nil_append, and_self]
    simp only [hc, ↓reduceIte]
    by_cases hlt : min s.dataSize n < s.dataSize
    · -- 先頭の slice の一部だけを写して終わる
      have hn : n < s.dataSize := by omega
      have hmin : min s.dataSize n = n := by omega
      obtain ⟨h1, h2⟩ := addImpl_spec b (s.dataBytes.take n)
      rw [if_pos hlt]
      simp only [hmin, h1, h2, sliceBytes_cons, Slice.dataBytes_drain s (Nat.le_of_lt hn)]
      have hl : n ≤ s.dataBytes.length := by simp; omega
      refine ⟨by rw [List.take_append_of_le_length hl], by rw [List.drop_append_of_le_length hl], ?_, ?_⟩
      · simp; omega
      · simp [List.length_take]; omega
    · -- 先頭の slice を丸ごと移す
      have hle : s.dataSize ≤ n := by omega
      have hmin : min s.dataSize n = s.dataSize := by omega
      generalize hcl : (if reset = true then s.callAndClearDrainTrackersAndCharges else (s, [])) = cl
      have hcl1 : cl.1.dataBytes = s.dataBytes := by
        rw [← hcl]; split <;> rfl
      obtain ⟨h1, h2⟩ := coalesceOrAddSlice_spec b cl.1
      obtain ⟨h3, h4, h5, h6⟩ := ih (b.coalesceOrAddSlice cl.1).1 (n - s.dataSize)
      have hl : s.dataBytes.length ≤ n := by simp [hle]
      have hds : cl.1.dataSize = s.dataSize := by
        rw [← Slice.dataBytes_length, hcl1, Slice.dataBytes_length]
      rw [if_neg hlt]
      simp only [hmin, h3, h4, h5, h6, h1, h2, hcl1, hds, sliceBytes_cons]
      refine ⟨?_, ?_, ?_, ?_⟩
      · rw [List.take_append, List.take_of_length_le hl, List.append_assoc, Slice.dataBytes_length]
      · rw [List.drop_append, List.drop_of_length_le hl, List.nil_append, Slice.dataBytes_length]
      · simp; omega
      · simp; omega

theorem moveLength_spec (b other : OwnedImpl) (ho : other.LengthOk) (n : Nat) (reset : Bool) :
    sliceBytes (b.moveLength other n reset).1.slices =
        sliceBytes b.slices ++ (sliceBytes other.slices).take n ∧
      (b.moveLength other n reset).1.length = b.length + min n (sliceBytes other.slices).length ∧
      sliceBytes (b.moveLength other n reset).2.1.slices = (sliceBytes other.slices).drop n ∧
      (b.moveLength other n reset).2.1.LengthOk := by
  obtain ⟨h1, h2, h3, h4⟩ := moveLengthLoop_spec reset b other.slices n
  unfold LengthOk at ho ⊢
  refine ⟨h1, h4, h2, ?_⟩
  simp only [moveLength, h3, h2, ho, List.length_drop]
  omega

/-! ## `linearize` -/

theorem linearize_spec (b : OwnedImpl) (h : b.LengthOk) {size : Nat} (hs : size ≤ b.length) :
    sliceBytes (b.linearize size).1.slices = sliceBytes b.slices ∧ (b.linearize size).1.LengthOk := by
  unfold linearize
  split
  · exact ⟨rfl, h⟩
  · rename_i front rest hsl
    split
    · rename_i hlt
      have hpos : 0 < size := by omega
      obtain ⟨h1, h2⟩ := drainImpl_spec b h size
      have hcopy : b.copyOut 0 size = (sliceBytes b.slices).take size := by
        simp [copyOut, copyOutLoop_spec]
      have hlen : (b.copyOut 0 size).length = size := by
        unfold LengthOk at h; rw [hcopy, List.length_take]; omega
      have hnew := Slice.dataBytes_create_commit (b.copyOut 0 size) b.account hlen
      rw [hcopy] at hnew
      unfold LengthOk at h ⊢
      dsimp only
      simp only [sliceBytes_cons, hcopy, hnew, h1, List.take_append_drop, h2, true_and]
      omega
    · exact ⟨rfl, h⟩

/-! ## `addFragments` -/

theorem fitFragments_append (len : Nat) (l : List Bytes) (w : Nat) :
    (fitFragments len l w).1 ++ (fitFragments len l w).2 = l := by
  induction l generalizing w with
  | nil => rfl
  | cons f l ih =>
    unfold fitFragments
    split
    · simp [ih]
    · rfl

theorem fitFragments_le (len : Nat) (l : List Bytes) (w : Nat) (hw : w ≤ len) :
    w + ((fitFragments len l w).1.map List.length).sum ≤ len := by
  induction l generalizing w with
  | nil => simpa [fitFragments]
  | cons f l ih =>
    unfold fitFragments
    split
    · rename_i h
      have := ih (w + f.length) h
      simp only [List.map_cons, List.sum_cons]
      omega
    · simpa

theorem commitToBack_spec {slices : List Slice} {back : Slice} (hb : slices.getLast? = some back)
    (w : Bytes) (hw : w.length ≤ back.reservableSize) :
    sliceBytes (commitToBack slices w w.length) = sliceBytes slices ++ w := by
  have := Slice.dataBytes_commit_fillReservation_take back w hw (Nat.le_refl w.length)
    (Nat.le_refl w.length)
  rw [List.take_length] at this
  simp only [commitToBack, hb, sliceBytes_append, sliceBytes_cons, sliceBytes_nil, List.append_nil,
    sliceBytes_of_getLast? hb, List.append_assoc]
  rw [← this]

theorem addFragments_spec (b : OwnedImpl) (fragments : List Bytes) :
    sliceBytes (b.addFragments fragments).1.1.slices = sliceBytes b.slices ++ fragments.flatten ∧
      (b.addFragments fragments).1.1.length = b.length + fragments.flatten.length := by
  unfold addFragments
  simp only [← List.length_flatten]
  -- 予約の前に slice が一つはある
  generalize hb0 : (if b.slices.isEmpty = true then
    ({ b with slices := [Slice.create fragments.flatten.length b.account] } : OwnedImpl) else b) = b0
  have hb0s : sliceBytes b0.slices = sliceBytes b.slices := by
    rw [← hb0]; split
    · rename_i h; simp [List.isEmpty_iff.mp h]
    · rfl
  have hb0l : b0.length = b.length := by rw [← hb0]; split <;> rfl
  obtain ⟨back, hback⟩ : ∃ back, b0.slices.getLast? = some back := by
    rw [← hb0]; split
    · exact ⟨_, rfl⟩
    · rename_i h
      exact Option.ne_none_iff_exists'.mp (by simpa [List.isEmpty_iff] using h)
  simp only [hback]
  split
  · -- 予約に全部が入る
    rename_i heq
    have hw : fragments.flatten.length ≤ back.reservableSize :=
      heq ▸ Slice.reserve_le_reservableSize back _
    simp only [commitToBack_spec hback _ hw, hb0s, hb0l, and_self]
  · have happ := fitFragments_append (back.reserve fragments.flatten.length) fragments 0
    have hfit := fitFragments_le (back.reserve fragments.flatten.length) fragments 0 (Nat.zero_le _)
    have hres := Slice.reserve_le_reservableSize back fragments.flatten.length
    generalize fitFragments (back.reserve fragments.flatten.length) fragments 0 = fit at happ hfit ⊢
    have hflat : fragments.flatten = fit.1.flatten ++ fit.2.flatten := by
      rw [← happ, List.flatten_append]
    have hw1 : fit.1.flatten.length ≤ back.reservableSize := by
      rw [List.length_flatten]; omega
    -- 予約に書いた分を commit した buffer
    generalize hb1 : (if fit.1.flatten.length > 0 then
      ({ b0 with slices := commitToBack b0.slices fit.1.flatten fit.1.flatten.length,
                 length := b0.length + fit.1.flatten.length } : OwnedImpl) else b0) = b1
    have hs1 : sliceBytes b1.slices = sliceBytes b0.slices ++ fit.1.flatten := by
      rw [← hb1]; split
      · exact commitToBack_spec hback _ hw1
      · rename_i h
        rw [List.eq_nil_of_length_eq_zero (by omega : fit.1.flatten.length = 0), List.append_nil]
    have hl1 : b1.length = b0.length + fit.1.flatten.length := by
      rw [← hb1]; split
      · rfl
      · omega
    split
    · -- 残りの fragment は無い
      rename_i hnil
      have : fit.2.flatten = [] := by simp [List.isEmpty_iff.mp hnil]
      rw [hflat, this, List.append_nil]
      exact ⟨by rw [hs1, hb0s], by rw [hl1, hb0l]⟩
    · -- 残りを新しい slice に書く
      have hfresh := Slice.dataBytes_create_commit fit.2.flatten b1.account rfl
      simp only [sliceBytes_append, hs1, hb0s, sliceBytes_cons, hfresh, sliceBytes_nil,
        List.append_nil, hflat, List.append_assoc, hl1, hb0l, List.length_append]
      exact ⟨trivial, by omega⟩

/-! ## 中身の無い slice を捨てる -/

theorem sliceBytes_eq_nil {l : List Slice} (h : ∀ s ∈ l, s.dataSize = 0) : sliceBytes l = [] := by
  simp only [sliceBytes, List.flatMap_eq_nil_iff]
  intro s hs
  exact List.eq_nil_of_length_eq_zero (by simp [h s hs])

/-- `dropEmptyFront` は中身の無い slice の前置きを捨てるだけである。 -/
theorem dropEmptyFront_eq (l : List Slice) :
    ∃ pre, l = pre ++ (dropEmptyFront l).1 ∧ ∀ s ∈ pre, s.dataSize = 0 := by
  induction l with
  | nil => exact ⟨[], rfl, by simp⟩
  | cons s l ih =>
    unfold dropEmptyFront
    split
    · rename_i h
      obtain ⟨pre, hpre, hz⟩ := ih
      refine ⟨s :: pre, by simp [← hpre], ?_⟩
      simp only [List.mem_cons, forall_eq_or_imp]
      exact ⟨h, hz⟩
    · exact ⟨[], rfl, by simp⟩

theorem sliceBytes_dropEmptyBack (l : List Slice) : sliceBytes (dropEmptyBack l).1 = sliceBytes l := by
  obtain ⟨pre, hpre, hz⟩ := dropEmptyFront_eq l.reverse
  -- 反転の前では、捨てた slice は末尾にある
  have hl : l = (dropEmptyFront l.reverse).1.reverse ++ pre.reverse := by
    rw [← List.reverse_append, ← hpre, List.reverse_reverse]
  conv => rhs; rw [hl]
  rw [sliceBytes_append, sliceBytes_eq_nil (l := pre.reverse) (by simpa using hz), List.append_nil]
  rfl

/-! ## 予約と `commit` -/

/-- 自前の記憶域の片の列: どの片もその記憶域に収まる。 -/
def OwnedOk (rs : List ReservationSlice) : Prop :=
  ∀ r ∈ rs, ∃ st, r.storage = some st ∧ r.len ≤ st.length

/-- 予約の形: 自前の記憶域の片の列か、その前に、末尾の slice の空きに収まる片が一つある。 -/
def ReservationOk (b : OwnedImpl) (rs : List ReservationSlice) : Prop :=
  OwnedOk rs ∨ ∃ r rest back, rs = r :: rest ∧ r.storage = none ∧ b.slices.getLast? = some back ∧
    r.len ≤ back.reservableSize ∧ OwnedOk rest

theorem OwnedOk.tail {r : ReservationSlice} {rs : List ReservationSlice} (h : OwnedOk (r :: rs)) :
    OwnedOk rs := fun r' hr' => h r' (List.mem_cons_of_mem _ hr')

@[simp] theorem reservationLength_cons (r : ReservationSlice) (rs : List ReservationSlice) :
    reservationLength (r :: rs) = r.len + reservationLength rs := by
  simp [reservationLength]

/-- 自前の記憶域への書き込みは buffer を変えない。 -/
theorem fillReservation_fst_owned (b : OwnedImpl) {rs : List ReservationSlice} (h : OwnedOk rs)
    (w : Bytes) : (b.fillReservation rs w).1 = b := by
  induction rs generalizing w with
  | nil => rfl
  | cons r rs ih =>
    obtain ⟨st, hst, -⟩ := h r (List.mem_cons_self ..)
    simp only [fillReservation, hst, ih h.tail]

/-- commit の一片ぶん: 先頭 `len` 個を写した後に、残りの `k - len` 個を読み継ぐ。 -/
theorem take_append_take_drop (w : Bytes) {len rlen k : Nat} (hlen : len = min rlen k) :
    w.take len ++ (w.drop rlen).take (k - len) = w.take k := by
  by_cases h : rlen ≤ k
  · rw [show len = rlen by omega, ← List.take_add, Nat.add_sub_cancel' h]
  · rw [show len = k by omega, Nat.sub_self, List.take_zero, List.append_nil]

/-- 自前の記憶域の片を commit すると、書いた byte 列の先頭 `k` 個が新しい slice として末尾に並ぶ。 -/
theorem commitLoop_owned (rs : List ReservationSlice) (hrs : OwnedOk rs) (b b0 : OwnedImpl)
    (w : Bytes) (k : Nat) (hk : k ≤ w.length) (hkr : k ≤ reservationLength rs) :
    sliceBytes (commitLoop b (b0.fillReservation rs w).2 k).1.slices = sliceBytes b.slices ++ w.take k ∧
      (commitLoop b (b0.fillReservation rs w).2 k).1.length = b.length + k := by
  induction rs generalizing b b0 w k with
  | nil =>
    have : k = 0 := by simpa [reservationLength] using hkr
    subst this; simp [fillReservation, commitLoop]
  | cons r rs ih =>
    obtain ⟨st, hst, hlen⟩ := hrs r (List.mem_cons_self ..)
    simp only [fillReservation, hst, Option.map_some, commitLoop]
    by_cases h0 : k = 0
    · subst h0; simp
    simp only [h0, ↓reduceIte]
    generalize hl : min r.len k = len
    have hfit : len ≤ (st.writeAt 0 (w.take r.len)).length := by rw [List.length_writeAt]; omega
    rw [dif_pos hfit]
    rw [reservationLength_cons] at hkr
    obtain ⟨h1, h2⟩ := ih hrs.tail
      ⟨b.slices ++ [Slice.ofStorage _ len b.account hfit], b.length + len, b.account⟩
      b0 (w.drop r.len) (k - len) (by simp; omega) (by omega)
    -- 新しい slice の中身は、書いた byte 列の先頭 `len` 個
    have hs : (Slice.ofStorage _ len b.account hfit).dataBytes = w.take len := by
      rw [Slice.dataBytes_ofStorage,
        List.take_writeAt_zero st (by simp; omega) (by simp; omega), List.take_take,
        Nat.min_eq_left (by omega)]
    refine ⟨?_, ?_⟩
    · rw [h1, sliceBytes_append, sliceBytes_cons, sliceBytes_nil, List.append_nil, hs,
        List.append_assoc, take_append_take_drop w hl.symm]
    · rw [h2]; dsimp only; omega

theorem sliceBytes_fillReservation_inPlace {b : OwnedImpl} {back : Slice}
    (hb : b.slices.getLast? = some back) (part : Bytes) :
    sliceBytes (b.slices.dropLast ++ [back.fillReservation part]) = sliceBytes b.slices := by
  rw [sliceBytes_of_getLast? hb]; simp

/-- 予約に `w` を書いて `k` byte を commit すると、`w` の先頭 `k` 個が末尾に足される。 -/
theorem fillReservation_commit_spec (b : OwnedImpl) (rs : List ReservationSlice)
    (hr : ReservationOk b rs) (w : Bytes) (k : Nat) (hk : k ≤ w.length)
    (hkr : k ≤ reservationLength rs) :
    sliceBytes ((b.fillReservation rs w).1.commit k (b.fillReservation rs w).2).1.slices =
        sliceBytes b.slices ++ w.take k ∧
      ((b.fillReservation rs w).1.commit k (b.fillReservation rs w).2).1.length = b.length + k := by
  unfold commit
  by_cases h0 : k = 0
  · -- 何も commit しない。書き込みは中身を変えない
    subst h0
    rcases hr with hown | ⟨r, rest, back, rfl, hnone, hb, -, hrest⟩
    · simp [fillReservation_fst_owned b hown]
    · simp [fillReservation, hnone, hb, fillReservation_fst_owned _ hrest,
        sliceBytes_fillReservation_inPlace hb]
  rw [if_neg h0]
  rcases hr with hown | ⟨r, rest, back, rfl, hnone, hb, hback, hrest⟩
  · rw [fillReservation_fst_owned b hown]
    exact commitLoop_owned rs hown b b w k hk hkr
  · -- 先頭の片は末尾の slice の空きに書き、その場で commit する
    simp only [fillReservation, hnone, hb, Option.map_none]
    generalize hb1 : ({ b with slices := b.slices.dropLast ++ [back.fillReservation (w.take r.len)] } :
      OwnedImpl) = b1
    rw [fillReservation_fst_owned b1 hrest]
    simp only [commitLoop, h0, ↓reduceIte]
    have hlast : b1.slices.getLast? = some (back.fillReservation (w.take r.len)) := by
      rw [← hb1]; simp
    simp only [hlast]
    rw [reservationLength_cons] at hkr
    obtain ⟨h1, h2⟩ := commitLoop_owned rest hrest
      ⟨b1.slices.dropLast ++ [(back.fillReservation (w.take r.len)).commit (min r.len k)],
        b1.length + min r.len k, b1.account⟩ b1 (w.drop r.len) (k - min r.len k)
      (by simp; omega) (by omega)
    have hc : ((back.fillReservation (w.take r.len)).commit (min r.len k)).dataBytes =
        back.dataBytes ++ w.take (min r.len k) := by
      rw [Slice.dataBytes_commit_fillReservation_take back w hback (Nat.min_le_left _ _) (by omega)]
    have hdrop : b1.slices.dropLast = b.slices.dropLast := by rw [← hb1]; simp
    refine ⟨?_, ?_⟩
    · rw [h1, sliceBytes_append, hdrop, sliceBytes_cons, sliceBytes_nil, List.append_nil, hc,
        sliceBytes_of_getLast? hb, List.append_assoc, List.append_assoc,
        take_append_take_drop w rfl, List.append_assoc]
    · rw [h2, ← hb1]; dsimp only; omega

theorem reserveLoop_ownedOk (fuel n rem reserved : Nat) : OwnedOk (reserveLoop fuel n rem reserved) := by
  induction fuel generalizing n rem reserved with
  | zero => simp [reserveLoop, OwnedOk]
  | succ fuel ih =>
    unfold reserveLoop
    split
    · simp [OwnedOk]
    · split
      · simp [OwnedOk]
      · intro r hr
        rcases List.mem_cons.mp hr with rfl | hr
        · exact ⟨_, rfl, by simp⟩
        · exact ih _ _ _ r hr

/-- 予約は中身と長さの控えを変えない（捨てるのは中身の無い末尾の slice だけ）。 -/
theorem reserveWithMaxLength_spec (b : OwnedImpl) (maxLength : Nat) :
    sliceBytes (b.reserveWithMaxLength maxLength).1.1.slices = sliceBytes b.slices ∧
      (b.reserveWithMaxLength maxLength).1.1.length = b.length ∧
      ReservationOk (b.reserveWithMaxLength maxLength).1.1 (b.reserveWithMaxLength maxLength).2 := by
  unfold reserveWithMaxLength
  split
  · exact ⟨rfl, rfl, Or.inl (by simp [OwnedOk])⟩
  · refine ⟨sliceBytes_dropEmptyBack _, rfl, ?_⟩
    dsimp only
    split
    · rename_i back hback
      split
      · -- 末尾の slice の空きが最初の片になる
        exact Or.inr ⟨_, _, back, rfl, rfl, hback, Slice.reserve_le_reservableSize _ _,
          reserveLoop_ownedOk _ _ _ _⟩
      · exact Or.inl (reserveLoop_ownedOk _ _ _ _)
    · exact Or.inl (reserveLoop_ownedOk _ _ _ _)

theorem reserveSingleSlice_spec (b : OwnedImpl) (length : Nat) (separateSlice : Bool) :
    sliceBytes (b.reserveSingleSlice length separateSlice).1.1.slices = sliceBytes b.slices ∧
      (b.reserveSingleSlice length separateSlice).1.1.length = b.length ∧
      ReservationOk (b.reserveSingleSlice length separateSlice).1.1
        (b.reserveSingleSlice length separateSlice).2 := by
  unfold reserveSingleSlice
  split
  · exact ⟨rfl, rfl, Or.inl (by simp [OwnedOk])⟩
  · dsimp only
    split
    · -- 末尾の slice の空きに収まる
      rename_i len hin
      refine ⟨sliceBytes_dropEmptyBack _, rfl, ?_⟩
      split at hin
      · rename_i back hback
        split at hin
        · cases hin
          exact Or.inr ⟨_, [], back, rfl, rfl, hback, Slice.reserve_le_reservableSize _ _,
            by simp [OwnedOk]⟩
        · cases hin
      · cases hin
    · exact ⟨sliceBytes_dropEmptyBack _, rfl, Or.inl (by simp [OwnedOk, Slice.le_sliceSize])⟩

/-! ## `extractMutableFrontSlice` -/

/-- 新しい slice に写すと、全部が入る。 -/
theorem dataBytes_append_create (src : Bytes) (a : Option Nat) :
    ((Slice.create src.length a).append src).1.dataBytes = src := by
  rw [Slice.dataBytes_append, append_create_snd, Slice.dataBytes_create, List.nil_append,
    List.take_length]

/-- 空でない buffer から取り出した slice は中身を持ち、buffer の先頭からちょうどその中身が消える。 -/
theorem extractMutableFrontSlice_spec (b : OwnedImpl) (h : b.LengthOk) (hpos : 0 < b.length) :
    sliceBytes b.slices =
        (b.extractMutableFrontSlice).2.dataBytes ++ sliceBytes (b.extractMutableFrontSlice).1.1.slices ∧
      (b.extractMutableFrontSlice).2.dataBytes ≠ [] ∧ (b.extractMutableFrontSlice).1.1.LengthOk := by
  unfold LengthOk at h ⊢
  have he := sliceBytes_dropEmptyFront b.slices
  have hhead := dropEmptyFront_head b.slices
  unfold extractMutableFrontSlice
  dsimp only
  split
  · -- 中身の無い buffer は無い
    rename_i hnil
    rw [hnil, sliceBytes_nil] at he
    rw [← he] at h; simp at h; omega
  · rename_i s rest hsr
    rw [hsr, sliceBytes_cons] at he
    have hs : s.dataSize ≠ 0 := hhead s (by simp [hsr])
    have hne : s.dataBytes ≠ [] := by
      intro hn; apply hs; rw [← Slice.dataBytes_length, hn, List.length_nil]
    have hlen : b.length - s.dataSize = (sliceBytes rest).length := by
      rw [h, ← he, List.length_append, Slice.dataBytes_length]; omega
    split
    · exact ⟨he.symm, hne, hlen⟩
    · -- 書き換えられない slice は写しを渡す
      have hcopy := dataBytes_append_create s.dataBytes none
      rw [Slice.dataBytes_length] at hcopy
      exact ⟨by rw [hcopy, he], by rw [hcopy]; exact hne, hlen⟩

end OwnedImpl

end Envoy.Buffer
