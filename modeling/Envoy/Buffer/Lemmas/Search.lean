import Envoy.Buffer.Search
import Envoy.Buffer.Lemmas.OwnedImpl
import Envoy.Lib.FirstFrom

/-!
# `search` は、窓の中で needle が最初に現れる位置を返す

buffer の中身 `s` の位置 `i` から needle `p` が始まり、`i + |p|` が窓の端 `W` を越えないことを
`Occurs s p W i` とする。一つの slice の走査は、`memchr` が飛ばした位置と、比べて外れた位置を
`firstFrom` から外していく。for 文の各周で `offset + start + left_to_search` が窓の端 `W` に等しい
（`left_to_search` が 0 になった後は、窓の外しか残らない）。
-/

namespace Envoy.Buffer

namespace OwnedImpl

open FirstFrom

/-- 位置 `i` から needle `p` が始まり、窓の端 `W` に収まる。 -/
def Occurs (s p : Bytes) (W i : Nat) : Prop := i + p.length ≤ W ∧ p <+: s.drop i

/-- 見つかった位置を `search` の返り値に。 -/
def toIndex : Option Nat → Int
  | some i => i
  | none => -1

variable {s p : Bytes} {W : Nat}

theorem not_occurs_of_getElem? (hp : p ≠ []) {i : Nat} (h : s[i]? ≠ p.head?) : ¬Occurs s p W i := by
  rintro ⟨-, hpre⟩
  obtain ⟨a, p', rfl⟩ := List.exists_cons_of_ne_nil hp
  apply h
  rw [← List.head?_drop]
  obtain ⟨t, ht⟩ := hpre
  rw [← ht]
  rfl

theorem firstFrom_occurs_of_le (hp : p ≠ []) {j : Nat} (hW : W ≤ j) : firstFrom (Occurs s p W) j = none := by
  rw [firstFrom_eq_none_iff]
  rintro i hji ⟨hle, -⟩
  have := List.length_pos_iff.mpr hp
  omega

theorem firstFrom_occurs_of_length_le (hp : p ≠ []) {j : Nat} (hs : s.length ≤ j) :
    firstFrom (Occurs s p W) j = none := by
  rw [firstFrom_eq_none_iff]
  rintro i hji ⟨-, hpre⟩
  rw [List.drop_eq_nil_of_le (by omega), List.prefix_nil] at hpre
  exact hp hpre

/-! ## `memchr` -/

theorem memchr_eq_none {d : Bytes} {pos limit : Nat} {c : UInt8} (h : memchr d pos limit c = none) {k : Nat}
    (hpk : pos ≤ k) (hk : k < pos + limit) : d[k]? ≠ some c := by
  intro hkc
  unfold memchr at h
  rw [Option.map_eq_none_iff, List.findIdx?_eq_none_iff] at h
  -- `d[k]` は `memchr` が見た範囲にある
  have hmem : c ∈ (d.drop pos).take limit := by
    apply List.mem_of_getElem? (i := k - pos)
    rw [List.getElem?_take, if_pos (by omega), List.getElem?_drop, Nat.add_sub_cancel' hpk, hkc]
  simpa using h c hmem

theorem memchr_eq_some {d : Bytes} {pos limit k : Nat} {c : UInt8} (h : memchr d pos limit c = some k) :
    pos ≤ k ∧ k < pos + limit ∧ d[k]? = some c ∧ ∀ k', pos ≤ k' → k' < k → d[k']? ≠ some c := by
  obtain ⟨hpk, -, hk⟩ := memchr_bounds h
  unfold memchr at h
  obtain ⟨j, hj, rfl⟩ := Option.map_eq_some_iff.mp h
  obtain ⟨hlt, hjc, hmin⟩ := List.findIdx?_eq_some_iff_getElem.mp hj
  have hget : ∀ m (hm : m < ((d.drop pos).take limit).length), d[pos + m]? = some ((d.drop pos).take limit)[m] := by
    intro m hm
    have hml : m < limit := by simp at hm; omega
    rw [← List.getElem?_drop, ← List.getElem?_take_of_lt hml, List.getElem?_eq_getElem hm]
  refine ⟨hpk, hk, ?_, fun k' hpk' hk'k hk'c => ?_⟩
  · rw [hget j hlt]
    simpa using hjc
  · have hm : k' - pos < ((d.drop pos).take limit).length := by omega
    have := hmin (k' - pos) (by omega)
    rw [show k' = pos + (k' - pos) by omega, hget _ hm, Option.some.injEq] at hk'c
    simp [hk'c] at this

/-! ## 一致の確認 -/

/-- 一致の確認は、needle の残りが続く中身の先頭にあり、`left_to_search` に収まるときに限り最後まで進む。 -/
theorem matchLoop_spec (cur : Bytes) (rest : List Slice) (i left : Nat) (hi : i ≤ p.length) :
    matchLoop p cur rest i left = p.length ↔ p.drop i <+: cur ++ sliceBytes rest ∧ p.length - i ≤ left := by
  induction cur, rest, i, left using matchLoop.induct p with
  | case1 i left hc =>
    -- buffer の末尾: needle の残りは空でない
    rw [matchLoop, if_pos hc]
    simp only [List.nil_append, sliceBytes_nil, List.prefix_nil, List.drop_eq_nil_iff]
    omega
  | case2 i left hc s rest ih =>
    rw [matchLoop, if_pos hc, ih hi, sliceBytes_cons, List.nil_append]
  | case3 i left hc c cur rest hne =>
    rw [matchLoop, if_pos hc, if_pos hne, List.drop_eq_getElem_cons hc.1, List.cons_append,
      List.cons_prefix_cons, ← List.getD_eq_getElem p 0 hc.1]
    constructor
    · intro h; omega
    · rintro ⟨⟨rfl⟩, -⟩; exact absurd rfl hne
  | case4 i left hc c cur rest heq ih =>
    have hci : p.getD i 0 = c := (not_not.mp heq).symm
    rw [matchLoop, if_pos hc, if_neg heq, ih hc.1, List.drop_eq_getElem_cons hc.1 (l := p), List.cons_append,
      List.cons_prefix_cons, ← List.getD_eq_getElem p 0 hc.1, hci]
    simp only [true_and]
    constructor
    · rintro ⟨h1, h2⟩; exact ⟨h1, by omega⟩
    · rintro ⟨h1, h2⟩; exact ⟨h1, by omega⟩
  | case5 cur rest i left hc =>
    rw [matchLoop.eq_def, if_neg hc]
    constructor
    · intro h
      subst h
      simp
    · rintro ⟨hpre, hle⟩
      rcases Nat.lt_or_ge i p.length with hlt | hge
      · exact absurd ⟨hlt, by omega⟩ hc
      · omega

/-- `memchr` の見つけた候補 `k` では、一致の確認の結果が `Occurs` を決める。 -/
theorem occurs_iff_matchLoop {offset : Nat} {d : Bytes} {rest : List Slice}
    (hs : s.drop offset = d ++ sliceBytes rest) (hp : p ≠ []) {k : Nat} (hk : d[k]? = p.head?)
    (hkW : offset + k < W) :
    Occurs s p W (offset + k) ↔ matchLoop p (d.drop (k + 1)) rest 1 (W - (offset + k + 1)) = p.length := by
  obtain ⟨a, p', rfl⟩ := List.exists_cons_of_ne_nil hp
  have hkd : k < d.length := by
    by_contra hge
    rw [List.getElem?_eq_none (by omega)] at hk
    cases hk
  have hdrop : s.drop (offset + k) = a :: (d.drop (k + 1) ++ sliceBytes rest) := by
    rw [← List.drop_drop, hs, List.drop_append_of_le_length hkd.le, ← List.getElem_cons_drop hkd]
    rw [List.getElem?_eq_getElem hkd, List.head?_cons, Option.some.injEq] at hk
    rw [hk, List.cons_append]
  rw [matchLoop_spec _ _ _ _ (by simp), Occurs, hdrop, List.cons_prefix_cons]
  simp only [List.length_cons, List.drop_succ_cons, List.drop_zero, true_and, Nat.add_sub_cancel]
  constructor
  · rintro ⟨hle, hpre⟩; exact ⟨hpre, by omega⟩
  · rintro ⟨hpre, hle⟩; exact ⟨by omega, hpre⟩

/-! ## 一つの slice の走査 -/

/-- 走査の結果の意味。`g` は走査を始めた位置、`e` は slice の末尾の位置。 -/
def ScanOk (s p : Bytes) (W offset g e : Nat) : ScanResult → Prop
  | .found k => firstFrom (Occurs s p W) g = some (offset + k)
  | .notFound left => firstFrom (Occurs s p W) g = firstFrom (Occurs s p W) e ∧ left = W - e

/-- 走査は `g` から `e` までの候補を順に調べる。`offset + pos + left_to_search` が窓の端。 -/
theorem scanSlice_spec {offset : Nat} {d : Bytes} {rest : List Slice} (hs : s.drop offset = d ++ sliceBytes rest)
    (hp : p ≠ []) (pos left : Nat) (hpos : pos ≤ d.length) :
    ScanOk s p (offset + pos + left) offset (offset + pos) (offset + d.length) (scanSlice p d rest pos left) := by
  obtain ⟨a, p', rfl⟩ := List.exists_cons_of_ne_nil hp
  -- `memchr` が飛ばした位置には needle の先頭の byte が無い
  have hskip : ∀ {W pos k}, k ≤ d.length → (∀ k', pos ≤ k' → k' < k → d[k']? ≠ some a) →
      ∀ i, offset + pos ≤ i → i < offset + k → ¬Occurs s (a :: p') W i := by
    intro W pos k hkd hk i hpi hik
    apply not_occurs_of_getElem? hp
    rw [List.head?_cons, show i = offset + (i - offset) by omega, ← List.getElem?_drop, hs]
    by_cases hid : i - offset < d.length
    · rw [List.getElem?_append_left hid]
      exact hk _ (by omega) (by omega)
    · omega
  induction pos, left using scanSlice.induct (a :: p') d rest with
  | case1 pos left hlt limit hnone =>
    simp only [List.getD_cons_zero] at hnone
    rw [scanSlice, if_pos hlt]
    dsimp only
    split
    · refine ⟨?_, by omega⟩
      rw [firstFrom_skip (k := offset + (pos + min (d.length - pos) left)) (by omega)
        (hskip (by omega) fun k' hpk' hk' => memchr_eq_none hnone hpk' hk')]
      -- 窓が slice の中で終われば、残りはどちらも空
      by_cases hW : d.length - pos ≤ left
      · rw [show offset + (pos + min (d.length - pos) left) = offset + d.length by omega]
      · rw [firstFrom_occurs_of_le hp (by omega), firstFrom_occurs_of_le hp (by omega)]
    · rename_i k hk
      simp only [List.getD_cons_zero] at hk
      rw [hnone] at hk
      cases hk
  | case2 pos left hlt limit k hsome left' hmatch =>
    simp only [List.getD_cons_zero] at hsome hmatch
    obtain ⟨hpk, hkl, hka, hmin⟩ := memchr_eq_some hsome
    rw [scanSlice, if_pos hlt]
    dsimp only
    split
    · rename_i hk
      simp only [List.getD_cons_zero] at hk
      rw [hsome] at hk
      cases hk
    · rename_i k' hk
      simp only [List.getD_cons_zero] at hk
      rw [hsome, Option.some.injEq] at hk
      subst hk
      rw [if_pos hmatch]
      show firstFrom _ _ = _
      rw [firstFrom_skip (k := offset + k) (by omega) (hskip (memchr_bounds hsome).2.1.le hmin)]
      apply firstFrom_of_pos
      rw [occurs_iff_matchLoop hs hp (by simpa using hka) (by omega),
        show offset + pos + left - (offset + k + 1) = left - (k - pos + 1) by omega]
      exact hmatch
  | case3 pos left hlt limit k hsome left' hmatch ih =>
    simp only [List.getD_cons_zero] at hsome hmatch
    obtain ⟨hpk, hkl, hka, hmin⟩ := memchr_eq_some hsome
    have hkd := (memchr_bounds hsome).2.1
    -- 候補 `k` は外れ。`k + 1` からの走査に移る
    have hnot : ¬Occurs s (a :: p') (offset + pos + left) (offset + k) := by
      rw [occurs_iff_matchLoop hs hp (by simpa using hka) (by omega),
        show offset + pos + left - (offset + k + 1) = left - (k - pos + 1) by omega]
      exact hmatch
    have hstep : firstFrom (Occurs s (a :: p') (offset + pos + left)) (offset + pos) =
        firstFrom (Occurs s (a :: p') (offset + pos + left)) (offset + (k + 1)) := by
      refine firstFrom_skip (by omega) fun i hpi hik => ?_
      rcases Nat.lt_or_ge i (offset + k) with hlt' | hge
      · exact hskip hkd.le hmin i hpi hlt'
      · rw [show i = offset + k by omega]; exact hnot
    have hnext := ih (by omega)
    rw [show offset + (k + 1) + (left - (k - pos + 1)) = offset + pos + left by omega] at hnext
    rw [scanSlice, if_pos hlt]
    dsimp only
    split
    · rename_i hk
      simp only [List.getD_cons_zero] at hk
      rw [hsome] at hk
      cases hk
    · rename_i k' hk
      simp only [List.getD_cons_zero] at hk
      rw [hsome, Option.some.injEq] at hk
      subst hk
      rw [if_neg hmatch]
      revert hnext
      cases scanSlice (a :: p') d rest (k + 1) (left - (k - pos + 1)) with
      | found j => exact fun h => hstep.trans h
      | notFound l => exact fun ⟨h1, h2⟩ => ⟨hstep.trans h1, h2⟩
  | case4 pos left hge =>
    rw [scanSlice, if_neg hge, show pos = d.length by omega]
    exact ⟨rfl, by omega⟩

/-! ## slice の for 文 -/

/-- for 文の各周で、`offset` はこの slice の先頭の位置、`offset + start + left_to_search` が窓の端。 -/
theorem searchLoop_spec (hp : p ≠ []) (l : List Slice) (start offset left : Nat)
    (hs : s.drop offset = sliceBytes l) (hlen : s.length = offset + (sliceBytes l).length) :
    searchLoop p l start offset left = toIndex (firstFrom (Occurs s p (offset + start + left)) (offset + start)) := by
  induction l generalizing start offset left with
  | nil =>
    rw [searchLoop, firstFrom_occurs_of_length_le hp (by simp at hlen; omega)]
    rfl
  | cons sl rest ih =>
    have hs' : s.drop (offset + sl.dataSize) = sliceBytes rest := by
      rw [← List.drop_drop, hs, sliceBytes_cons, ← Slice.dataBytes_length, List.drop_left]
    have hlen' : s.length = offset + sl.dataSize + (sliceBytes rest).length := by
      rw [hlen, sliceBytes_cons, List.length_append, Slice.dataBytes_length, Nat.add_assoc]
    rw [searchLoop]
    by_cases h0 : left = 0
    · -- `left_to_search` を使い切った: 窓の外しか残らない
      rw [if_pos h0, firstFrom_occurs_of_le hp (by omega)]
      rfl
    rw [if_neg h0]
    by_cases hle : sl.dataSize ≤ start
    · -- slice を丸ごと読み飛ばす
      rw [if_pos hle, ih _ _ _ hs' hlen', show offset + sl.dataSize + (start - sl.dataSize) = offset + start by omega]
    rw [if_neg hle]
    have hscan := @scanSlice_spec s p offset sl.dataBytes rest
      (by rw [hs, sliceBytes_cons]) hp start left (by simp; omega)
    revert hscan
    cases scanSlice p sl.dataBytes rest start left with
    | found k =>
      intro hscan
      dsimp only [ScanOk] at hscan
      rw [hscan]
      simp [toIndex]
    | notFound left' =>
      rintro ⟨hscan, rfl⟩
      simp only [Slice.dataBytes_length] at hscan ⊢
      rw [hscan, ih _ _ _ hs' hlen', Nat.add_zero]
      -- 窓の端が slice の中なら、残りの走査も結果も空
      by_cases hW : offset + sl.dataSize ≤ offset + start + left
      · rw [Nat.add_sub_cancel' hW]
      · rw [firstFrom_occurs_of_le hp (by omega), firstFrom_occurs_of_le hp (by omega)]

/-- `search(data, size, start, length)` は、`start` 以上で、needle が窓
`[start, length == 0 ? len : min(len, start + length))` に収まる最小の位置を返し、無ければ -1。
`size == 0` なら `start <= len` のとき `start`。 -/
theorem search_eq_firstFrom (b : OwnedImpl) (hb : b.LengthOk) (p : Bytes) (start length : Nat) :
    b.search p start length =
      if p = [] then (if start ≤ b.toString.length then (start : Int) else -1)
      else toIndex (firstFrom (fun i => i + p.length ≤
          (if length = 0 then b.toString.length else min b.toString.length (start + length)) ∧
          (b.toString.drop i).take p.length = p) start) := by
  unfold LengthOk at hb
  rw [toString_eq, search]
  by_cases hp : p = []
  · subst hp
    simp [hb]
  rw [if_neg (by simpa using hp), if_neg hp]
  dsimp only
  rw [searchLoop_spec hp b.slices start 0 _ (List.drop_zero) (by omega), Nat.zero_add]
  congr 1
  refine firstFrom_congr fun i hi => ?_
  rw [Occurs, ← hb]
  -- 中身の `i` から needle が始まれば、`i + |p|` は中身の長さを越えない
  have hfit : p <+: (sliceBytes b.slices).drop i → i + p.length ≤ b.length := by
    intro hpre
    have hle := hpre.length_le
    have hpos := List.length_pos_iff.mpr hp
    simp only [List.length_drop] at hle
    omega
  rw [show ((sliceBytes b.slices).drop i).take p.length = p ↔ p <+: (sliceBytes b.slices).drop i from
    eq_comm.trans List.prefix_iff_eq_take.symm]
  -- 窓の端の二通り
  have hwin : i + p.length ≤ b.length →
      (i + p.length ≤ start + (if length = 0 then b.length - start else length) ↔
        i + p.length ≤ (if length = 0 then b.length else min b.length (start + length))) := by
    intro hle
    by_cases hl : length = 0
    · simp only [hl, if_true]; omega
    · simp only [hl, if_false]; omega
  constructor
  · rintro ⟨hW, hpre⟩
    exact ⟨(hwin (hfit hpre)).mp hW, hpre⟩
  · rintro ⟨hW, hpre⟩
    exact ⟨(hwin (hfit hpre)).mpr hW, hpre⟩

/-- 二つの slice にまたがる needle: `[1, 2] [3, 4]` で `[2, 3]` は位置 1 から。 -/
theorem search_across_slices :
    (⟨[Slice.ofFragment [1, 2], Slice.ofFragment [3, 4]], 4, none⟩ : OwnedImpl).search [2, 3] 0 0 = 1 := by
  have hb : (⟨[Slice.ofFragment [1, 2], Slice.ofFragment [3, 4]], 4, none⟩ : OwnedImpl).LengthOk := rfl
  rw [search_eq_firstFrom _ hb]
  have hs : (⟨[Slice.ofFragment [1, 2], Slice.ofFragment [3, 4]], 4, none⟩ : OwnedImpl).toString = [1, 2, 3, 4] := rfl
  rw [hs, if_neg (by decide)]
  rw [(firstFrom_eq_some_iff (i := 1)).mpr ⟨by omega, by decide, fun k _ hk => by
    rw [show k = 0 by omega]; decide⟩]
  rfl

end OwnedImpl

end Envoy.Buffer
