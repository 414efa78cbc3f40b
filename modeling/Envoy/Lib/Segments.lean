import Mathlib

/-!
# 区切りで分けて空の片を捨てる

列を区切り `sep` で分け、空の片を捨てたもの（`splitSkipEmpty`）と、区切りが二つ続かないこと
（`NoDoubleSep`）。片を区切りで繋ぎ直した列は、分けると元の片に戻り、区切りが二つ続かない。
-/

namespace Segments

variable {α : Type _}

/-- 区切り `sep` で分け、空の片を捨てる。 -/
def splitSkipEmpty [DecidableEq α] (sep : α) (l : List α) : List (List α) := (l.splitOn sep).filter (· ≠ [])

/-- 区切り `sep` が二つ続かない。 -/
def NoDoubleSep (sep : α) (l : List α) : Prop := l.IsChain fun a b => ¬ (a = sep ∧ b = sep)

instance [DecidableEq α] (sep : α) (l : List α) : Decidable (NoDoubleSep sep l) :=
  inferInstanceAs (Decidable (l.IsChain _))

/-- 空でなく区切りを含まない片。 -/
def Piece (sep : α) (s : List α) : Prop := s ≠ [] ∧ sep ∉ s

variable {sep : α} {l s t : List α} {segs : List (List α)}


/-! ## 区切りが二つ続かない -/

theorem head?_intercalate (hs : ∀ s ∈ segs, Piece sep s) (hne : segs ≠ []) :
    ∃ x, ([sep].intercalate segs).head? = some x ∧ x ≠ sep := by
  obtain ⟨s, rest, rfl⟩ := List.exists_cons_of_ne_nil hne
  obtain ⟨hsne, hsep⟩ := hs s List.mem_cons_self
  obtain ⟨x, xs, rfl⟩ := List.exists_cons_of_ne_nil hsne
  cases rest with
  | nil => exact ⟨x, rfl, fun h => hsep (h ▸ List.mem_cons_self)⟩
  | cons r rest => exact ⟨x, by simp [List.intercalate_cons_cons], fun h => hsep (h ▸ List.mem_cons_self)⟩

theorem getLast?_intercalate (hs : ∀ s ∈ segs, Piece sep s) (hne : segs ≠ []) :
    ∃ x, ([sep].intercalate segs).getLast? = some x ∧ x ≠ sep := by
  induction segs with
  | nil => exact absurd rfl hne
  | cons s rest ih =>
    obtain ⟨hsne, hsep⟩ := hs s List.mem_cons_self
    cases rest with
    | nil =>
      refine ⟨s.getLast hsne, by simp [List.getLast?_eq_some_getLast hsne], fun h => hsep ?_⟩
      exact h ▸ List.getLast_mem hsne
    | cons r rest =>
      obtain ⟨x, hx, hxs⟩ := ih (fun y hy => hs y (List.mem_cons_of_mem s hy)) (List.cons_ne_nil _ _)
      refine ⟨x, ?_, hxs⟩
      rw [List.intercalate_cons_cons, List.getLast?_append_of_ne_nil _ (fun h => by simp [h] at hx)]
      exact hx

/-- 片を区切りで繋いだ列の要素は、区切りか、どれかの片の要素。 -/
theorem mem_intercalate {x : α} (hx : x ∈ [sep].intercalate segs) : x = sep ∨ ∃ s ∈ segs, x ∈ s := by
  induction segs with
  | nil => simp at hx
  | cons s rest ih =>
    cases rest with
    | nil => exact .inr ⟨s, List.mem_cons_self, by simpa using hx⟩
    | cons r rest =>
      rw [List.intercalate_cons_cons] at hx
      rcases List.mem_append.mp hx with hx | hx
      · rcases List.mem_append.mp hx with hx | hx
        · exact .inr ⟨s, List.mem_cons_self, hx⟩
        · exact .inl (List.mem_singleton.mp hx)
      · rcases ih hx with h | ⟨t, ht, hxt⟩
        · exact .inl h
        · exact .inr ⟨t, List.mem_cons_of_mem s ht, hxt⟩

theorem mem_intercalate_of_mem {x : α} (hs : s ∈ segs) (hx : x ∈ s) : x ∈ [sep].intercalate segs := by
  induction segs with
  | nil => simp at hs
  | cons t rest ih =>
    cases rest with
    | nil => simpa [List.mem_singleton.mp hs] using hx
    | cons r rest =>
      rw [List.intercalate_cons_cons]
      rcases List.mem_cons.mp hs with rfl | hs
      · exact List.mem_append_left _ (List.mem_append_left _ hx)
      · exact List.mem_append_right _ (ih hs)

theorem noDoubleSep_of_not_mem (h : sep ∉ l) : NoDoubleSep sep l :=
  List.isChain_iff_forall_rel_of_append_cons_cons.mpr fun _ _ l₁ _ hl hab =>
    h (hab.1 ▸ hl ▸ List.mem_append_right l₁ List.mem_cons_self)

/-- 片を区切りで繋いだ列では区切りが二つ続かない: 区切りの前後は片の端で、区切りでない。 -/
theorem noDoubleSep_intercalate (hs : ∀ s ∈ segs, Piece sep s) : NoDoubleSep sep ([sep].intercalate segs) := by
  induction segs with
  | nil => exact List.isChain_nil
  | cons s rest ih =>
    obtain ⟨hsne, hsep⟩ := hs s List.mem_cons_self
    have hrest : ∀ x ∈ rest, Piece sep x := fun x hx => hs x (List.mem_cons_of_mem s hx)
    cases rest with
    | nil => simpa using noDoubleSep_of_not_mem hsep
    | cons r rest =>
      obtain ⟨y, hy, hys⟩ := head?_intercalate hrest (List.cons_ne_nil r rest)
      rw [List.intercalate_cons_cons]
      refine List.isChain_append.mpr ⟨List.isChain_append.mpr ⟨noDoubleSep_of_not_mem hsep,
        List.isChain_singleton _, ?_⟩, ih hrest, ?_⟩
      · -- `s` の最後は区切りでない
        exact fun a ha _ _ hab => hsep (hab.1 ▸ List.mem_of_getLast? ha)
      · -- 区切りの次は残りの先頭で、区切りでない
        intro a _ b hb hab
        rw [hy] at hb
        cases hb
        exact hys hab.2

section Split

variable [DecidableEq α]

/-! ## `splitOn` -/

theorem splitOn_append_cons (h : sep ∉ l) (r : List α) : (l ++ sep :: r).splitOn sep = l :: r.splitOn sep := by
  rw [List.splitOn_eq_splitOnP, List.splitOn_eq_splitOnP]
  exact List.splitOnP_append_cons_of_forall_mem (fun x hx => by simpa using ne_of_mem_of_not_mem hx h) sep
    (by simp) r

theorem splitOn_of_not_mem (h : sep ∉ l) : l.splitOn sep = [l] := by
  rw [List.splitOn_eq_splitOnP]
  exact List.splitOnP_eq_singleton fun x hx => by simpa using ne_of_mem_of_not_mem hx h

theorem splitOn_sep_cons (l : List α) : (sep :: l).splitOn sep = [] :: l.splitOn sep := by
  rw [List.splitOn_eq_splitOnP, List.splitOnP_cons_eq_if_modifyHead, ← List.splitOn_eq_splitOnP]
  simp

/-- 区切りでない要素は、最初の片に付く。 -/
theorem splitOn_cons_of_ne {c : α} (hc : c ≠ sep) {s₀ : List α} {rest : List (List α)} (h : l.splitOn sep = s₀ :: rest) :
    (c :: l).splitOn sep = (c :: s₀) :: rest := by
  rw [List.splitOn_eq_splitOnP, List.splitOnP_cons_eq_if_modifyHead, ← List.splitOn_eq_splitOnP,
    if_neg (by simpa using hc), h, List.modifyHead_cons]

/-- `splitOn` の片は区切りを含まない。 -/
theorem not_mem_of_mem_splitOn (hs : s ∈ l.splitOn sep) : sep ∉ s := by
  induction l generalizing s with
  | nil => simp_all
  | cons c l ih =>
    rw [List.splitOn_eq_splitOnP, List.splitOnP_cons_eq_if_modifyHead, ← List.splitOn_eq_splitOnP] at hs
    split at hs
    case isTrue => rcases List.mem_cons.mp hs with rfl | hs <;> simp_all
    case isFalse hc =>
      -- 先頭の片に `c` を足す。`c` は区切りでない
      have hne : c ≠ sep := by simpa using hc
      cases hsp : l.splitOn sep with
      | nil => simp [hsp] at hs
      | cons s₀ rest =>
        rw [hsp, List.modifyHead_cons] at hs
        rcases List.mem_cons.mp hs with rfl | hs
        · have hs₀ : sep ∉ s₀ := ih (by simp [hsp])
          simp only [List.mem_cons, not_or]
          exact ⟨fun h => hne h.symm, hs₀⟩
        · exact ih (by simp [hsp, hs])

/-- 片の要素は、元の列の要素。 -/
theorem mem_of_mem_splitOn {x : α} (hs : s ∈ l.splitOn sep) (hx : x ∈ s) : x ∈ l := by
  have hl : [sep].intercalate (l.splitOn sep) = l := List.intercalate_splitOn sep
  rw [← hl]
  exact mem_intercalate_of_mem hs hx

/-- 区切りの最初の出現で分ける。 -/
theorem exists_first_sep (h : sep ∈ l) : ∃ s₀ r, sep ∉ s₀ ∧ l = s₀ ++ sep :: r := by
  induction l with
  | nil => simp at h
  | cons c l ih =>
    by_cases hc : c = sep
    · exact ⟨[], l, List.not_mem_nil, by rw [hc]; rfl⟩
    · obtain ⟨s₀, r, hs₀, rfl⟩ := ih ((List.mem_cons.mp h).resolve_left (Ne.symm hc))
      refine ⟨c :: s₀, r, ?_, rfl⟩
      simp only [List.mem_cons, not_or]
      exact ⟨Ne.symm hc, hs₀⟩

/-- 区切りで始まり区切りが二つ続かない列の、区切りの後を分けると、最後の片の他は空でない。 -/
theorem ne_nil_of_mem_dropLast_splitOn {l : List α} (h : NoDoubleSep sep (sep :: l)) :
    ∀ s ∈ (l.splitOn sep).dropLast, s ≠ [] := by
  -- 最初の区切りで分け、その後の短い列に帰納法の仮定を使う
  induction hlen : l.length using Nat.strong_induction_on generalizing l with
  | _ n ih =>
    intro s hs
    by_cases hl : sep ∈ l
    · obtain ⟨s₀, r, hs₀, rfl⟩ := exists_first_sep hl
      rw [splitOn_append_cons hs₀, List.dropLast_cons_of_ne_nil (List.splitOn_ne_nil _ _)] at hs
      rcases List.mem_cons.mp hs with rfl | hs
      · -- 最初の片が空なら、区切りが二つ続く
        rintro rfl
        exact (List.isChain_cons_cons.mp h).1 ⟨rfl, rfl⟩
      · have hr : NoDoubleSep sep (sep :: r) := List.IsChain.suffix h ⟨sep :: s₀, by simp⟩
        exact ih r.length (by rw [← hlen]; simp; omega) hr rfl s hs
    · rw [splitOn_of_not_mem hl] at hs
      exact absurd hs (by simp)

/-! ## `splitSkipEmpty` -/

@[simp] theorem splitSkipEmpty_nil (sep : α) : splitSkipEmpty sep [] = [] := rfl

theorem piece_of_mem_splitSkipEmpty (hs : s ∈ splitSkipEmpty sep l) : Piece sep s := by
  obtain ⟨hmem, hne⟩ := List.mem_filter.mp hs
  exact ⟨by simpa using hne, not_mem_of_mem_splitOn hmem⟩

theorem splitSkipEmpty_sep_cons (l : List α) : splitSkipEmpty sep (sep :: l) = splitSkipEmpty sep l := by
  unfold splitSkipEmpty
  rw [show sep :: l = [] ++ sep :: l from rfl, splitOn_append_cons (List.not_mem_nil) l]
  simp

@[simp] theorem splitSkipEmpty_singleton_sep (sep : α) : splitSkipEmpty sep [sep] = [] := by
  rw [splitSkipEmpty_sep_cons, splitSkipEmpty_nil]

/-- 空でない片の要素は、元の列の要素。 -/
theorem mem_of_mem_splitSkipEmpty {x : α} (hs : s ∈ splitSkipEmpty sep l) (hx : x ∈ s) : x ∈ l := by
  have hl : [sep].intercalate (l.splitOn sep) = l := List.intercalate_splitOn sep
  rw [← hl]
  exact mem_intercalate_of_mem (List.mem_filter.mp hs).1 hx

/-- 空でない片が無ければ、列は区切りだけからなる。 -/
theorem eq_sep_of_splitSkipEmpty_eq_nil (h : splitSkipEmpty sep l = []) {x : α} (hx : x ∈ l) : x = sep := by
  have hl : [sep].intercalate (l.splitOn sep) = l := List.intercalate_splitOn sep
  rw [← hl] at hx
  rcases mem_intercalate hx with hx | ⟨s, hs, hxs⟩
  · exact hx
  · -- `x` を含む片は空でなく、捨てられない
    have : s ∈ splitSkipEmpty sep l := List.mem_filter.mpr ⟨hs, by simpa using List.ne_nil_of_mem hxs⟩
    simp [h] at this

/-- 片を区切りで繋いだ後に、空か区切りで始まる列を続けると、分けた片は元の片に続く。 -/
theorem splitSkipEmpty_intercalate_append (hs : ∀ s ∈ segs, Piece sep s) (ht : t = [] ∨ ∃ t', t = sep :: t') :
    splitSkipEmpty sep ([sep].intercalate segs ++ t) = segs ++ splitSkipEmpty sep t := by
  induction segs with
  | nil => rfl
  | cons s rest ih =>
    obtain ⟨hsne, hsep⟩ := hs s List.mem_cons_self
    have ih' := ih fun x hx => hs x (List.mem_cons_of_mem s hx)
    cases rest with
    | nil =>
      rw [List.intercalate_singleton]
      rcases ht with rfl | ⟨t', rfl⟩
      · simp [splitSkipEmpty, splitOn_of_not_mem hsep, hsne]
      · rw [splitSkipEmpty_sep_cons]
        unfold splitSkipEmpty
        rw [splitOn_append_cons hsep, List.filter_cons_of_pos (by simpa using hsne)]
        rfl
    | cons r rest =>
      -- 先頭の片の後の区切りで分ける
      rw [List.intercalate_cons_cons, List.append_assoc, List.append_assoc, List.singleton_append]
      unfold splitSkipEmpty at ih' ⊢
      rw [splitOn_append_cons hsep, List.filter_cons_of_pos (by simpa using hsne), ih']
      rfl

theorem splitSkipEmpty_intercalate (hs : ∀ s ∈ segs, Piece sep s) :
    splitSkipEmpty sep ([sep].intercalate segs) = segs := by
  simpa using splitSkipEmpty_intercalate_append (t := []) hs (.inl rfl)

end Split

end Segments
