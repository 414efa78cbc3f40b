import Mathlib

/-!
# 位置 `j` から先で、最初に条件を満たす位置

`firstFrom P j` は `j` 以上で `P` を満たす最小の位置（無ければ `none`）。前から一つずつ調べる走査は、
調べて外れた位置を飛ばしても `firstFrom` が変わらないことで、この値を計算していると言える。
-/

namespace FirstFrom

/-- `j` 以上で `P` を満たす最小の位置。 -/
noncomputable def firstFrom (P : Nat → Prop) (j : Nat) : Option Nat := by
  classical
  exact if h : ∃ i, j ≤ i ∧ P i then some (Nat.find h) else none

variable {P Q : Nat → Prop} {j k i : Nat}

theorem firstFrom_eq_some_iff : firstFrom P j = some i ↔ j ≤ i ∧ P i ∧ ∀ k, j ≤ k → k < i → ¬P k := by
  classical
  unfold firstFrom
  split
  · rename_i h
    rw [Option.some.injEq, Nat.find_eq_iff]
    constructor
    · rintro ⟨⟨hji, hi⟩, hmin⟩
      exact ⟨hji, hi, fun k hjk hki hk => hmin k hki ⟨hjk, hk⟩⟩
    · rintro ⟨hji, hi, hmin⟩
      exact ⟨⟨hji, hi⟩, fun k hki ⟨hjk, hk⟩ => hmin k hjk hki hk⟩
  · rename_i h
    simp only [reduceCtorEq, false_iff]
    rintro ⟨hji, hi, -⟩
    exact h ⟨i, hji, hi⟩

theorem firstFrom_eq_none_iff : firstFrom P j = none ↔ ∀ i, j ≤ i → ¬P i := by
  classical
  unfold firstFrom
  split
  · rename_i h
    obtain ⟨i, hji, hi⟩ := h
    simp only [reduceCtorEq, false_iff, not_forall, not_not]
    exact ⟨i, hji, hi⟩
  · rename_i h
    simp only [true_iff]
    exact fun i hji hi => h ⟨i, hji, hi⟩

theorem firstFrom_of_pos (h : P j) : firstFrom P j = some j :=
  firstFrom_eq_some_iff.mpr ⟨le_rfl, h, fun _ hjk hkj => absurd hkj (Nat.not_lt.mpr hjk)⟩

/-- 外れと分かった位置 `[j, k)` は飛ばしてよい。 -/
theorem firstFrom_skip (hjk : j ≤ k) (h : ∀ i, j ≤ i → i < k → ¬P i) : firstFrom P j = firstFrom P k := by
  cases hk : firstFrom P k with
  | none =>
    rw [firstFrom_eq_none_iff] at hk ⊢
    intro i hji
    by_cases hik : i < k
    · exact h i hji hik
    · exact hk i (Nat.not_lt.mp hik)
  | some m =>
    obtain ⟨hkm, hm, hmin⟩ := firstFrom_eq_some_iff.mp hk
    refine firstFrom_eq_some_iff.mpr ⟨le_trans hjk hkm, hm, fun i hji him => ?_⟩
    by_cases hik : i < k
    · exact h i hji hik
    · exact hmin i (Nat.not_lt.mp hik) him

/-- 条件が `j` から先で同じなら、結果も同じ。 -/
theorem firstFrom_congr (h : ∀ i, j ≤ i → (P i ↔ Q i)) : firstFrom P j = firstFrom Q j := by
  cases hq : firstFrom Q j with
  | none =>
    rw [firstFrom_eq_none_iff] at hq ⊢
    exact fun i hji hi => hq i hji ((h i hji).mp hi)
  | some m =>
    obtain ⟨hjm, hm, hmin⟩ := firstFrom_eq_some_iff.mp hq
    exact firstFrom_eq_some_iff.mpr ⟨hjm, (h m hjm).mpr hm,
      fun k hjk hkm hk => hmin k hjk hkm ((h k hjk).mp hk)⟩

end FirstFrom
