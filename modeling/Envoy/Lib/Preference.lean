import Mathlib

/-!
# 左からの畳み込みで最良の候補を選ぶ

候補を左から見ていき、選べる候補のうち、今の選択より値 `q` が大きいもの、または値が同じで印 `first` の
あるものに選び直す（`pick`）。畳み込みの結果は初めの選択のままか、列のある位置の候補で、その値は選べる
候補の中で最大である。その位置の前に同じ値の選べる候補があれば結果は印を持ち、後の同じ値の選べる
候補は印を持たない。
-/

namespace Preference

variable {α Q : Type _} [LinearOrder Q] (q : α → Q) (elig : α → Prop) (first : α → Bool)

/-- 一歩: 選べる `x` の値が今の選択より大きいか、同じで印があれば `x` に選び直す。 -/
def pick [DecidablePred elig] (c x : α) : α := if elig x ∧ (q c < q x ∨ q x = q c ∧ first x = true) then x else c

/-- 初めの選択 `c₀` から列 `l` を畳み込んだ結果 `r` の性質。 -/
structure Winner (c₀ : α) (l : List α) (r : α) : Prop where
  init_le : q c₀ ≤ q r
  max : ∀ x ∈ l, elig x → q x ≤ q r
  chosen : r = c₀ ∨ ∃ pre post, l = pre ++ r :: post ∧ elig r ∧ (q c₀ < q r ∨ first r = true) ∧
    (∀ x ∈ pre, elig x → q x = q r → first r = true) ∧ (∀ x ∈ post, elig x → q x = q r → first x = false)

variable {q elig first}

theorem winner_nil (c₀ : α) : Winner q elig first c₀ [] c₀ := ⟨le_rfl, by simp, .inl rfl⟩

/-- 選べる候補と印が同じなら、一歩も同じ。 -/
theorem pick_congr {elig elig' : α → Prop} [DecidablePred elig] [DecidablePred elig'] {first first' : α → Bool}
    (he : ∀ x, elig x ↔ elig' x) (hf : ∀ x, first x = first' x) : pick q elig first = pick q elig' first' := by
  funext c x
  unfold pick
  simp only [he, hf]

variable [DecidablePred elig]

/-- 一歩で `Winner` は保たれる。 -/
theorem Winner.pick {c₀ r : α} {l : List α} (hw : Winner q elig first c₀ l r) (x : α) :
    Winner q elig first c₀ (l ++ [x]) (pick q elig first r x) := by
  unfold Preference.pick
  by_cases hp : elig x ∧ (q r < q x ∨ q x = q r ∧ first x = true)
  · -- `x` に選び直す: `x` が最後の位置の勝者
    rw [if_pos hp]
    have hle : q r ≤ q x := by
      rcases hp.2 with hlt | ⟨heq, -⟩
      · exact hlt.le
      · exact heq.ge
    refine ⟨hw.init_le.trans hle, fun y hy hey => ?_, .inr ⟨l, [], rfl, hp.1, ?_, fun y hy hey hqy => ?_, by simp⟩⟩
    · rcases List.mem_append.mp hy with hy | hy
      · exact (hw.max y hy hey).trans hle
      · rw [List.mem_singleton.mp hy]
    · rcases hp.2 with hlt | ⟨-, hfirst⟩
      · exact .inl (lt_of_le_of_lt hw.init_le hlt)
      · exact .inr hfirst
    · -- 前の同じ値の候補は `r` を越えないので、`x` は同じ値で印により選ばれた
      rcases hp.2 with hlt | ⟨-, hfirst⟩
      · exact absurd (hqy ▸ hw.max y hy hey) (not_le.mpr hlt)
      · exact hfirst
  · -- 選び直さない: `x` は選べないか、値が `r` を越えず、同じ値なら印が無い
    rw [if_neg hp]
    refine ⟨hw.init_le, fun y hy hey => ?_, ?_⟩
    · rcases List.mem_append.mp hy with hy | hy
      · exact hw.max y hy hey
      · rw [List.mem_singleton.mp hy] at hey ⊢
        exact not_lt.mp fun hlt => hp ⟨hey, .inl hlt⟩
    · rcases hw.chosen with h | ⟨pre, post, hl, he, hinit, hpre, hpost⟩
      · exact .inl h
      refine .inr ⟨pre, post ++ [x], by rw [hl]; simp, he, hinit, hpre, fun y hy hey hqy => ?_⟩
      rcases List.mem_append.mp hy with hy | hy
      · exact hpost y hy hey hqy
      · rw [List.mem_singleton.mp hy] at hey hqy ⊢
        cases hf : first x
        · rfl
        · exact absurd ⟨hey, .inr ⟨hqy, hf⟩⟩ hp

/-- 畳み込みの結果は `Winner`。 -/
theorem winner_foldl (c₀ : α) (l : List α) : Winner q elig first c₀ l (l.foldl (pick q elig first) c₀) := by
  induction l using List.reverseRecOn with
  | nil => exact winner_nil c₀
  | append_singleton l x ih =>
    rw [List.foldl_append, List.foldl_cons, List.foldl_nil]
    exact ih.pick x

end Preference
