import Envoy.Common.StringUtil

/-!
# `IntervalSetImpl` は値の集合を精密化する

`intervals_` が標準形（`Intervals.Canonical`: 空でない区間が重ならず接しもせずに並ぶ）なら、
`insert(left, right)` は、`left` より前で終わる区間 `A`、`[left, right]` に触れる区間 `M`、`right` より
後に始まる区間 `C` に列を分けたとき、`M` を `[left, right)` と合わせた一つの区間で置き換える。よって標準形は
保たれ、覆う値に `[left, right)` が加わる。`test(v)` は `v` が覆われることを返す。

`removeCharacters(str, set)` は、標準形の区間が `str` の中にあるとき、区間に入る位置の文字を除く。
-/

namespace Envoy

namespace IntervalSetImpl

open Intervals

variable {V : Type*} [LinearOrder V]

/-! ## 列の位置 -/

/-- 前の部分で成り立たず、後の部分の先頭で成り立つ条件の最初の位置は、前の部分の長さ。 -/
theorem findIdx_append_eq_length {α : Type*} {p : α → Bool} {X Y : List α} (hX : ∀ x ∈ X, p x = false)
    (hY : ∀ y ∈ Y.head?, p y = true) : (X ++ Y).findIdx p = X.length := by
  rw [List.findIdx_append, if_neg (by rw [List.findIdx_eq_length.mpr hX]; exact lt_irrefl _)]
  cases Y with
  | nil => simp
  | cons y Y => simp [List.findIdx_cons, hY y rfl]

theorem insertIdx_append_length {α : Type*} (X Y : List α) (x : α) :
    (X ++ Y).insertIdx X.length x = X ++ x :: Y := by
  induction X with
  | nil => exact List.insertIdx_zero
  | cons a X ih => rw [List.cons_append, List.length_cons, List.insertIdx_succ_cons, ih, List.cons_append]

theorem getElem?_append_length {α : Type*} (X Y : List α) : (X ++ Y)[X.length]? = Y.head? := by
  rw [List.getElem?_append_right le_rfl, Nat.sub_self, List.head?_eq_getElem?]

/-! ## 列の分け方 -/

/-- `left` より前で終わる `A`、`[left, right]` に触れる `M`、`right` より後に始まる `C` への分け方。 -/
structure Split (s : List (V × V)) (left right : V) (A M C : List (V × V)) : Prop where
  eq : s = A ++ M ++ C
  below : ∀ a ∈ A, a.2 < left
  touch : ∀ m ∈ M, left ≤ m.2 ∧ m.1 ≤ right
  above : ∀ c ∈ C, right < c.1

/-- 条件 `p` で前から取れるだけ取った残りは、先頭で `p` が成り立たない。 -/
theorem head_dropWhile {α : Type*} (p : α → Bool) (l : List α) : ∀ y ∈ (l.dropWhile p).head?, p y = false := by
  intro y hy
  have h := List.head?_dropWhile_not p l
  rw [Option.mem_def.mp hy] at h
  exact h

theorem mem_takeWhile {α : Type*} {p : α → Bool} {l : List α} {x : α} (hx : x ∈ l.takeWhile p) : p x = true :=
  List.all_eq_true.mp List.all_takeWhile x hx

/-- 標準形の列は、`left ≤ right` のどの二つでも三つに分けられる。 -/
theorem exists_split {s : List (V × V)} (hs : Canonical s) (left right : V) :
    ∃ A M C, Split s left right A M C := by
  let R := s.dropWhile fun e => decide (e.2 < left)
  -- `R` の区間はどれも `left` 以後に終わり、`C` の区間はどれも `right` より後に始まる
  have hR : ∀ e ∈ R, left ≤ e.2 := by
    intro e he
    have hRc : Canonical R := hs.sublist (List.dropWhile_sublist _)
    obtain ⟨h, R', hR'⟩ : ∃ h R', R = h :: R' := List.exists_cons_of_ne_nil (List.ne_nil_of_mem he)
    have hh := head_dropWhile (fun e => decide (e.2 < left)) s h (by simp [R] at hR'; simp [hR'])
    rw [hR'] at he hRc
    exact (not_lt.mp (by simpa using hh)).trans (hRc.le_of_mem_cons he).2
  let C := R.dropWhile fun e => decide (e.1 ≤ right)
  have hC : ∀ c ∈ C, right < c.1 := by
    intro c hc
    have hCc : Canonical C := (hs.sublist (List.dropWhile_sublist _)).sublist (List.dropWhile_sublist _)
    obtain ⟨h, C', hC'⟩ : ∃ h C', C = h :: C' := List.exists_cons_of_ne_nil (List.ne_nil_of_mem hc)
    have hh := head_dropWhile (fun e => decide (e.1 ≤ right)) R h (by simp [C] at hC'; simp [hC'])
    rw [hC'] at hc hCc
    exact (not_le.mp (by simpa using hh)).trans_le (hCc.le_of_mem_cons hc).1
  refine ⟨s.takeWhile fun e => decide (e.2 < left), R.takeWhile fun e => decide (e.1 ≤ right), C, ?_, ?_, ?_, hC⟩
  · rw [List.append_assoc, List.takeWhile_append_dropWhile, List.takeWhile_append_dropWhile]
  · intro a ha
    simpa using mem_takeWhile ha
  · intro m hm
    exact ⟨hR m ((List.takeWhile_sublist _).subset hm), by simpa using mem_takeWhile hm⟩

section Split

variable {s A M C : List (V × V)} {left right : V}

theorem Split.canonical_parts (hs : Canonical s) (hsp : Split s left right A M C) :
    Canonical (A ++ M) ∧ Canonical (M ++ C) ∧ (∀ a ∈ A, ∀ c ∈ C, a.2 < c.1) := by
  rw [hsp.eq] at hs
  refine ⟨hs.sublist (List.sublist_append_left _ _),
    hs.sublist (by rw [List.append_assoc]; exact List.sublist_append_right _ _), fun a ha c hc => ?_⟩
  exact (List.pairwise_append.mp hs.sorted).2.2 a (by simp [ha]) c hc

/-- `lower_bound((left, _))` は `A` の後。 -/
theorem Split.lowerBound (hs : Canonical s) (hsp : Split s left right A M C) (hlr : left ≤ right) (v : V) :
    lowerBound s (left, v) = A.length := by
  rw [IntervalSetImpl.lowerBound, hsp.eq, List.append_assoc]
  apply findIdx_append_eq_length
  · intro a ha
    simp [compare, hsp.below a ha]
  · intro y hy
    have hne := (hsp.canonical_parts hs).2.1.nonempty
    cases M with
    | nil =>
      have hyC : y ∈ C := List.mem_of_mem_head? hy
      simp only [compare, Bool.not_eq_eq_eq_not, Bool.not_true, decide_eq_false_iff_not, not_lt]
      exact hlr.trans ((hsp.above y hyC).trans (hne y (by simp [hyC]))).le
    | cons m M =>
      have hym : y = m := by simpa [eq_comm] using hy
      subst hym
      simp [compare, (hsp.touch y (by simp)).1]

/-- `upper_bound((right, right))` は `M` の後。 -/
theorem Split.upperBound (hs : Canonical s) (hsp : Split s left right A M C) (hlr : left ≤ right) :
    IntervalSetImpl.upperBound s (right, right) = A.length + M.length := by
  rw [IntervalSetImpl.upperBound, hsp.eq, ← List.length_append]
  apply findIdx_append_eq_length
  · intro e he
    have hne := (hsp.canonical_parts hs).1.nonempty e he
    rcases List.mem_append.mp he with ha | hm
    · simpa [compare] using (hne.trans (hsp.below e ha)).le.trans hlr
    · simpa [compare] using (hsp.touch e hm).2
  · intro c hc
    simpa [compare] using hsp.above c (List.mem_of_mem_head? hc)

end Split

/-! ## `insert` -/

/-- `M` と `[left, right)` を合わせた区間。 -/
def merge : List (V × V) → V → V → V × V
  | [], left, right => (left, right)
  | m :: M, left, right => (min m.1 left, max ((m :: M).getLast (List.cons_ne_nil m M)).2 right)

section Insert

variable {s A M C : List (V × V)} {left right : V}

/-- 触れる区間が無ければ、`[left, right)` をそのまま `A` と `C` の間に入れる。 -/
theorem insert_of_split_nil (hs : Canonical s) (hsp : Split s left right A [] C) (hlr : left < right) :
    (insert ⟨s⟩ left right).intervals = A ++ (left, right) :: C := by
  have hs' : s = A ++ C := by rw [hsp.eq, List.append_nil]
  have hlow := hsp.lowerBound hs hlr.le right
  unfold insert
  rw [if_neg (ne_of_lt hlr)]
  dsimp only
  rw [hsp.lowerBound hs hlr.le left]
  -- どの分かれ道でも `intervals_` は変わらず、`setInsert` は `A` の後に入れる
  have hset : setInsert s (left, right) = A ++ (left, right) :: C := by
    unfold setInsert
    dsimp only
    rw [hlow, hs', getElem?_append_length]
    cases C with
    | nil => rw [insertIdx_append_length]; rfl
    | cons c C =>
      simp only [List.head?_cons]
      rw [if_pos (by simpa [compare] using hsp.above c (by simp)), insertIdx_append_length]
  split
  · exact hset
  · split
    · rename_i lp hlp
      rw [hs', getElem?_append_length] at hlp
      cases C with
      | nil => cases hlp
      | cons c C =>
        simp only [List.head?_cons, Option.some.injEq] at hlp
        subst hlp
        rw [if_neg (fun h => absurd h.1 (not_le.mpr (hsp.above _ (by simp))))]
        exact hset
    · exact hset

/-- 触れる区間 `m :: M` があれば、それを消して合わせた区間を `A` の後に入れる。 -/
theorem insert_of_split_cons {m : V × V} (hs : Canonical s) (hsp : Split s left right A (m :: M) C)
    (hlr : left < right) : (insert ⟨s⟩ left right).intervals = A ++ merge (m :: M) left right :: C := by
  have hparts := hsp.canonical_parts hs
  have hm := hsp.touch m (by simp)
  have hlastMem := List.getLast_mem (List.cons_ne_nil m M)
  have hlast := hsp.touch _ hlastMem
  have hsne : s ≠ [] := by rw [hsp.eq]; simp
  unfold insert
  rw [if_neg (ne_of_lt hlr)]
  dsimp only
  rw [hsp.lowerBound hs hlr.le left, hsp.upperBound hs hlr.le, if_neg (by simpa using hsne)]
  have hleft : s[A.length]? = some m := by
    rw [hsp.eq, List.append_assoc, getElem?_append_length]
    rfl
  have hright : s[A.length + (m :: M).length - 1]? = some ((m :: M).getLast (List.cons_ne_nil m M)) := by
    rw [hsp.eq, List.getLast_eq_getElem, List.append_assoc, List.getElem?_append_right (by simp),
      List.getElem?_append_left (by simp)]
    simp only [List.length_cons]
    rw [List.getElem?_eq_getElem (by simp)]
    congr 2
    omega
  rw [hleft]
  dsimp only
  rw [if_pos ⟨hm.2, by simp⟩, hright]
  dsimp only
  rw [if_pos hlast.1]
  -- 消した後の列は `A ++ C`、そこに合わせた区間を入れる
  have herase : eraseRange s A.length (A.length + (m :: M).length) = A ++ C := by
    rw [eraseRange, hsp.eq, List.append_assoc, List.take_left', List.drop_append, List.drop_append_of_le_length
      (by simp), List.drop_eq_nil_of_le (by simp), List.nil_append]
    · simp
    · rfl
  rw [herase]
  unfold setInsert
  dsimp only
  have hlow : lowerBound (A ++ C) (min m.1 left, max ((m :: M).getLast (List.cons_ne_nil m M)).2 right) =
      A.length := by
    apply findIdx_append_eq_length
    · intro a ha
      have hAm : a.2 < m.1 := (List.pairwise_append.mp hparts.1.sorted).2.2 a ha m (by simp)
      simp [compare, hAm, hsp.below a ha]
    · intro c hc
      have hcC := List.mem_of_mem_head? hc
      have hcc := hparts.2.1.nonempty c (by simp [hcC])
      simp only [compare, Bool.not_eq_eq_eq_not, Bool.not_true, decide_eq_false_iff_not, not_lt]
      exact (min_le_right _ _).trans (hlr.le.trans ((hsp.above c hcC).trans hcc).le)
  rw [hlow, getElem?_append_length]
  cases C with
  | nil => rw [insertIdx_append_length]; rfl
  | cons c C =>
    have hMc : ((m :: M).getLast (List.cons_ne_nil m M)).2 < c.1 :=
      (List.pairwise_append.mp hparts.2.1.sorted).2.2 _ hlastMem c (by simp)
    simp only [List.head?_cons]
    rw [if_pos (by simpa [compare] using ⟨hMc, hsp.above c (by simp)⟩), insertIdx_append_length]
    rfl

theorem insert_of_split (hs : Canonical s) (hsp : Split s left right A M C) (hlr : left < right) :
    (insert ⟨s⟩ left right).intervals = A ++ merge M left right :: C := by
  cases M with
  | nil => exact insert_of_split_nil hs hsp hlr
  | cons m M => exact insert_of_split_cons hs hsp hlr

/-- 合わせた区間は `A` の後、`C` の前で、空でなく、`M` と `[left, right)` を覆う。 -/
theorem Split.merge_spec (hs : Canonical s) (hsp : Split s left right A M C) (hlr : left < right) :
    (∀ a ∈ A, a.2 < (merge M left right).1) ∧ (∀ c ∈ C, (merge M left right).2 < c.1) ∧
      (merge M left right).1 < (merge M left right).2 ∧
      ∀ v, covers [merge M left right] v ↔ covers M v ∨ (left ≤ v ∧ v < right) := by
  have hparts := hsp.canonical_parts hs
  cases M with
  | nil =>
    refine ⟨hsp.below, hsp.above, hlr, fun v => ?_⟩
    simp [merge]
  | cons m M =>
    have hlastMem := List.getLast_mem (List.cons_ne_nil m M)
    have hMc : ∀ c ∈ C, ((m :: M).getLast (List.cons_ne_nil m M)).2 < c.1 := fun c hc =>
      (List.pairwise_append.mp hparts.2.1.sorted).2.2 _ hlastMem c hc
    have hMcan : Canonical (m :: M) := hparts.1.sublist (List.sublist_append_right _ _)
    refine ⟨fun a ha => ?_, fun c hc => ?_, ?_, fun v => ?_⟩
    · exact lt_min ((List.pairwise_append.mp hparts.1.sorted).2.2 a ha m (by simp)) (hsp.below a ha)
    · exact max_lt (hMc c hc) (hsp.above c hc)
    · exact (min_le_right _ _).trans_lt (hlr.trans_le (le_max_right _ _))
    · rw [covers_merge hMcan (fun e he => (hsp.touch e he).1) (fun e he => (hsp.touch e he).2) v]
      simp [merge]

end Insert

/-- `insert(left, right)` は標準形を保ち、覆う値に `[left, right)` を加える。 -/
theorem insert_spec {t : IntervalSetImpl V} (hs : Canonical t.intervals) {left right : V}
    (hlr : left ≤ right) :
    Canonical (t.insert left right).intervals ∧
      ∀ v, covers (t.insert left right).intervals v ↔ covers t.intervals v ∨ (left ≤ v ∧ v < right) := by
  rcases eq_or_lt_of_le hlr with heq | hlt
  · -- 空の区間は何も変えない
    subst heq
    rw [IntervalSetImpl.insert, if_pos rfl]
    exact ⟨hs, fun v => (or_iff_left fun h => lt_irrefl _ (h.1.trans_lt h.2)).symm⟩
  · obtain ⟨A, M, C, hsp⟩ := exists_split hs left right
    obtain ⟨hA, hC, hne, hcov⟩ := hsp.merge_spec hs hlt
    have hparts := hsp.canonical_parts hs
    rw [insert_of_split hs hsp hlt]
    refine ⟨⟨?_, ?_⟩, fun v => ?_⟩
    · rw [List.pairwise_append, List.pairwise_cons]
      refine ⟨hparts.1.sorted.sublist (List.sublist_append_left _ _), ⟨hC, hparts.2.1.sorted.sublist
        (List.sublist_append_right _ _)⟩, fun a ha b hb => ?_⟩
      rcases List.mem_cons.mp hb with rfl | hb
      · exact hA a ha
      · exact hparts.2.2 a ha b hb
    · intro p hp
      rcases List.mem_append.mp hp with hp | hp
      · exact hparts.1.nonempty p (by simp [hp])
      · rcases List.mem_cons.mp hp with rfl | hp
        · exact hne
        · exact hparts.2.1.nonempty p (by simp [hp])
    · have hc := hcov v
      simp only [covers_cons, not_covers_nil, or_false] at hc
      rw [hsp.eq, covers_append, covers_append, covers_append, covers_cons, hc]
      tauto

/-! ## `test` -/

/-- `test(v)` は、`v` が覆われることを返す。 -/
theorem test_iff [Add V] [One V] {t : IntervalSetImpl V} (hs : Canonical t.intervals) (v : V) :
    t.test v = true ↔ covers t.intervals v := by
  obtain ⟨A, M, C, hsp⟩ := exists_split hs v v
  have hparts := hsp.canonical_parts hs
  have hAcov : ¬covers A v := by
    rintro ⟨a, ha, -, hlt⟩
    exact absurd (hlt.trans (hsp.below a ha)) (lt_irrefl v)
  unfold test
  rw [hsp.lowerBound hs le_rfl (v + 1), hsp.eq, List.append_assoc, getElem?_append_length, covers_append,
    or_iff_right hAcov]
  -- `lower_bound` の先頭の区間に入らなければ、その後の区間にも入らない
  cases M with
  | nil =>
    cases C with
    | nil => simp
    | cons c C =>
      have hc := hsp.above c (by simp)
      have hCc : Canonical (c :: C) := hparts.2.1
      simp only [List.nil_append, List.head?_cons, Bool.and_eq_true, decide_eq_true_eq, covers_cons]
      constructor
      · rintro ⟨h1, -⟩
        exact absurd (hc.trans_le h1) (lt_irrefl v)
      · rintro (⟨h1, -⟩ | hv)
        · exact absurd (hc.trans_le h1) (lt_irrefl v)
        · exact absurd hv (hCc.not_covers_tail (hc.trans (hCc.nonempty c (by simp))).le)
  | cons m M =>
    have hMC : Canonical (m :: (M ++ C)) := hparts.2.1
    simp only [List.cons_append, List.head?_cons, Bool.and_eq_true, decide_eq_true_eq, covers_cons]
    rw [or_iff_left (hMC.not_covers_tail (hsp.touch m (by simp)).1)]

/-! ## 呼び出しの列 -/

/-- `IntervalSetImpl` への呼び出し。 -/
inductive Op (V : Type*) where
  | insert (left right : V)
  | clear
  deriving DecidableEq, Repr

def Op.apply : Op V → IntervalSetImpl V → IntervalSetImpl V
  | .insert left right, t => t.insert left right
  | .clear, t => t.clear

/-- 最後の `clear()` より後に入れた区間に、呼び出しを一つ加える。 -/
def Op.record : Op V → List (V × V) → List (V × V)
  | .insert left right, acc => acc ++ [(left, right)]
  | .clear, _ => []

def run (ops : List (Op V)) (t : IntervalSetImpl V) : IntervalSetImpl V := ops.foldl (fun t op => op.apply t) t

/-- 最後の `clear()` より後に入れた区間。 -/
def inserted (ops : List (Op V)) : List (V × V) := ops.foldl (fun acc op => op.record acc) []

/-- 標準形で、入れた区間と同じ値を覆う。 -/
def Refines (t : IntervalSetImpl V) (acc : List (V × V)) : Prop :=
  Canonical t.intervals ∧ ∀ v, covers t.intervals v ↔ covers acc v

theorem Refines.apply {t : IntervalSetImpl V} {acc : List (V × V)} (h : Refines t acc) (op : Op V)
    (hop : ∀ left right, op = .insert left right → left ≤ right) : Refines (op.apply t) (op.record acc) := by
  cases op with
  | insert left right =>
    obtain ⟨hcan, hcov⟩ := insert_spec h.1 (hop left right rfl)
    refine ⟨hcan, fun v => ?_⟩
    show covers (t.insert left right).intervals v ↔ covers (acc ++ [(left, right)]) v
    rw [hcov, h.2, covers_append, covers_cons]
    simp
  | clear => exact ⟨canonical_nil, fun v => by simp [Op.apply, Op.record, clear, empty]⟩

theorem Refines.run {t : IntervalSetImpl V} {acc : List (V × V)} (h : Refines t acc) (ops : List (Op V))
    (hops : ∀ left right, Op.insert left right ∈ ops → left ≤ right) :
    Refines (IntervalSetImpl.run ops t) (ops.foldl (fun acc op => op.record acc) acc) := by
  induction ops generalizing t acc with
  | nil => exact h
  | cons op ops ih =>
    have hstep := h.apply op fun left right hop => hops left right (by simp [hop])
    exact ih hstep fun left right hmem => hops left right (by simp [hmem])

end IntervalSetImpl

/-! ## `removeCharacters` -/

namespace StringUtil

open Intervals

theorem drop_eq_take_append_drop (str : List Char) {i j : Nat} (hij : i ≤ j) :
    str.drop i = (str.drop i).take (j - i) ++ str.drop j := by
  conv_lhs => rw [← List.take_append_drop (j - i) (str.drop i)]
  rw [List.drop_drop, Nat.add_sub_cancel' hij]

/-- for 文: 標準形の区間を順に読むと、`pos` からの文字のうち区間に入らないものが残る。 -/
theorem removeCharacters_loop (str : List Char) {l : List (Nat × Nat)} (hl : Canonical l) :
    ∀ {pos : Nat} {pieces : List (List Char)} {r : Nat × List (List Char)},
      (∀ e ∈ l, pos ≤ e.1) → (∀ e ∈ l, e.2 ≤ str.length) → pos ≤ str.length →
      l.foldl (removeCharactersStep str) (pos, pieces) = r →
      (if r.1 ≠ str.length then r.2 ++ [str.drop r.1] else r.2).flatten =
        pieces.flatten ++ deletePositions (covers l) pos (str.drop pos) := by
  induction l with
  | nil =>
    intro pos pieces r _ _ hpos hr
    rw [List.foldl_nil] at hr
    subst hr
    rw [deletePositions_of_forall_not _ (by simp)]
    dsimp only
    split
    · simp
    · rename_i hend
      rw [not_not.mp hend, List.drop_length]
      simp
  | cons e l ih =>
    obtain ⟨a, b⟩ := e
    intro pos pieces r hpos hend hposlen hr
    have hab := hl.nonempty (a, b) (by simp)
    have hpa := hpos (a, b) (by simp)
    have hbs := hend (a, b) (by simp)
    have hl' := hl.tail
    -- 残りの区間は `b` より後に始まる
    have hbl : ∀ e ∈ l, b < e.1 := fun e he => List.rel_of_pairwise_cons hl.sorted he
    rw [List.foldl_cons, removeCharactersStep] at hr
    rw [ih hl' (fun e he => (hbl e he).le) (fun e he => hend e (by simp [he])) hbs hr]
    have hpiece : (if a ≠ pos then pieces ++ [(str.drop pos).take (a - pos)] else pieces).flatten =
        pieces.flatten ++ (str.drop pos).take (a - pos) := by
      split
      · simp
      · rename_i hap
        rw [not_not.mp hap, Nat.sub_self, List.take_zero, List.append_nil]
    rw [hpiece, List.append_assoc]
    congr 1
    have hlen1 : ((str.drop pos).take (a - pos)).length = a - pos := by simp; omega
    have hlen2 : ((str.drop a).take (b - a)).length = b - a := by simp; omega
    -- `[pos, a)` は `(a, b)` にも後の区間にも入らず、`[a, b)` は `(a, b)` に入り、`b` からは `l` だけが決める
    have hkeep : deletePositions (covers ((a, b) :: l)) pos ((str.drop pos).take (a - pos)) =
        (str.drop pos).take (a - pos) := by
      apply deletePositions_of_forall_not
      intro i _ hi2
      rw [hlen1] at hi2
      rw [covers_cons, not_or]
      exact ⟨fun h => absurd h.1 (by simp; omega), hl.not_covers_tail (by simp; omega)⟩
    have hdrop : deletePositions (covers ((a, b) :: l)) a ((str.drop a).take (b - a)) = [] := by
      apply deletePositions_of_forall
      intro i hi1 hi2
      rw [hlen2] at hi2
      exact covers_cons.mpr (.inl ⟨hi1, by simp; omega⟩)
    have hrest : deletePositions (covers ((a, b) :: l)) b (str.drop b) = deletePositions (covers l) b (str.drop b) := by
      apply deletePositions_congr
      intro i hi1 _
      have hout : ¬((a, b).1 ≤ i ∧ i < (a, b).2) := fun h => absurd h.2 (by simp; omega)
      rw [covers_cons, or_iff_right hout]
    conv_rhs => rw [drop_eq_take_append_drop str hpa, drop_eq_take_append_drop str hab.le]
    rw [deletePositions_append, deletePositions_append, hlen1, hlen2, Nat.add_sub_cancel' hpa,
      Nat.add_sub_cancel' hab.le, hkeep, hdrop, hrest, List.nil_append]

/-- 区間が `str` の中にある標準形の集合について、`removeCharacters` は区間に入る位置の文字を除く。 -/
theorem removeCharacters_eq (str : List Char) {t : IntervalSetImpl Nat} (ht : Canonical t.intervals)
    (hlen : ∀ v, covers t.intervals v → v < str.length) :
    removeCharacters str t = deletePositions (covers t.intervals) 0 str := by
  have hend : ∀ e ∈ t.intervals, e.2 ≤ str.length := by
    intro e he
    have hne := ht.nonempty e he
    have := hlen (e.2 - 1) ⟨e, he, by omega, by omega⟩
    omega
  unfold removeCharacters
  dsimp only
  rcases hr : t.toVector.foldl (removeCharactersStep str) (0, []) with ⟨pos, pieces⟩
  have := removeCharacters_loop str ht (fun e _ => Nat.zero_le e.1) hend (Nat.zero_le _) hr
  rw [List.drop_zero, List.flatten_nil, List.nil_append] at this
  exact this

end StringUtil

namespace IntervalSetImpl

open Intervals

/-- `IntervalSetImpl<size_t>` に `l ≤ r` の `insert(l, r)` と `clear()` をどの順に呼んでも、最後の `clear()`
より後に入れた区間の和を `U` として、`test(v)` は `v ∈ U` を返し、`toVector()` は和が `U` の標準形の列で、
そのような列は一つしかない。`U` が `[0, |s|)` の中なら、`removeCharacters(s, set)` は `U` の位置の文字を除く。 -/
theorem intervalSet_refines_union (ops : List (Op Nat)) (hops : ∀ l r, Op.insert l r ∈ ops → l ≤ r) :
    (∀ v, (run ops empty).test v = true ↔ covers (inserted ops) v) ∧
    Canonical (run ops empty).toVector ∧
    (∀ v, covers (run ops empty).toVector v ↔ covers (inserted ops) v) ∧
    (∀ l : List (Nat × Nat), Canonical l → (∀ v, covers l v ↔ covers (inserted ops) v) →
      l = (run ops empty).toVector) ∧
    ∀ s : List Char, (∀ v, covers (inserted ops) v → v < s.length) →
      StringUtil.removeCharacters s (run ops empty) = deletePositions (covers (inserted ops)) 0 s := by
  have hinit : Refines (empty : IntervalSetImpl Nat) [] := ⟨canonical_nil, fun v => by simp [empty]⟩
  obtain ⟨hcan, hcov⟩ := hinit.run ops hops
  refine ⟨fun v => (test_iff hcan v).trans (hcov v), hcan, hcov, fun l hl hlc => ?_, fun s hs => ?_⟩
  · exact hl.eq_of_covers hcan fun v => (hlc v).trans (hcov v).symm
  · rw [StringUtil.removeCharacters_eq s hcan fun v hv => hs v ((hcov v).mp hv)]
    exact deletePositions_congr _ _ fun i _ _ => hcov i

/-- 接する `[1, 3)` と `[3, 5)` は一つにまとまり、`[7, 8)` は別に残る。 -/
example : (run [.insert 1 3, .insert 3 5, .insert 7 8] (empty : IntervalSetImpl Nat)).toVector = [(1, 5), (7, 8)] := by
  decide

/-- `"abcdefghij"` から位置 `[1, 3)`、`[3, 5)`、`[7, 8)` を除くと `"afgij"`。 -/
theorem removeCharacters_abutting :
    (∀ l r, Op.insert l r ∈ ([.insert 1 3, .insert 3 5, .insert 7 8] : List (Op Nat)) → l ≤ r) ∧
      (∀ v, covers (inserted ([.insert 1 3, .insert 3 5, .insert 7 8] : List (Op Nat))) v →
        v < "abcdefghij".toList.length) ∧
      StringUtil.removeCharacters "abcdefghij".toList (run [.insert 1 3, .insert 3 5, .insert 7 8] empty) =
        "afgij".toList := by
  have hops : ∀ l r, Op.insert l r ∈ ([.insert 1 3, .insert 3 5, .insert 7 8] : List (Op Nat)) → l ≤ r := by
    intro l r h
    simp only [List.mem_cons, Op.insert.injEq, List.not_mem_nil, or_false] at h
    omega
  have hlen : ∀ v, covers (inserted ([.insert 1 3, .insert 3 5, .insert 7 8] : List (Op Nat))) v →
      v < "abcdefghij".toList.length := by
    intro v hv
    simp [inserted, Op.record, covers] at hv
    rw [show "abcdefghij".toList.length = 10 by decide]
    omega
  refine ⟨hops, hlen, ?_⟩
  rw [((intervalSet_refines_union _ hops).2.2.2.2 _ hlen)]
  decide

end IntervalSetImpl

end Envoy
