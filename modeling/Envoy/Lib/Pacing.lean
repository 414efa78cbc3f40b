import Mathlib

/-!
# 重みに比例した取り出し

各々の項目が時計を持ち、取り出すたびに時計が `1 / w` 進む。時計がいつも、全体の時刻から一周期 `1 / w` の内に
あれば、二つの時刻の間に取り出した回数は、時刻の差と重みの積から 1 の内にあり、全体の回数を重みで分けた
ものから、項目の数の分だけの内にある。
-/

namespace Pacing

variable {K : Type _} [Field K] [LinearOrder K] [IsStrictOrderedRing K]

/-- 時計が始めに `[t₀, t₀ + 1 / w]`、`m` 回進んだ後に `[t₁, t₁ + 1 / w]` にあれば、`m` は `(t₁ - t₀) w` から
1 の内。 -/
theorem count_bounds_of_clock {w t₀ t₁ x₀ : K} {m : Nat} (hw : 0 < w) (h₀ : t₀ ≤ x₀ ∧ x₀ ≤ t₀ + 1 / w)
    (h₁ : t₁ ≤ x₀ + m / w ∧ x₀ + m / w ≤ t₁ + 1 / w) :
    (t₁ - t₀) * w - 1 ≤ m ∧ (m : K) ≤ (t₁ - t₀) * w + 1 := by
  have hlo : t₁ - t₀ - 1 / w ≤ m / w := by linarith
  have hhi : (m : K) / w ≤ t₁ - t₀ + 1 / w := by linarith
  have hunit : 1 / w * w = 1 := one_div_mul_cancel hw.ne'
  constructor
  · calc (t₁ - t₀) * w - 1 = (t₁ - t₀ - 1 / w) * w := by rw [sub_mul (t₁ - t₀) (1 / w) w, hunit]
      _ ≤ m := (le_div_iff₀ hw).mp hlo
  · calc (m : K) ≤ (t₁ - t₀ + 1 / w) * w := (div_le_iff₀ hw).mp hhi
      _ = (t₁ - t₀) * w + 1 := by rw [add_mul (t₁ - t₀) (1 / w) w, hunit]

variable {ι : Type _}

/-- 項目ごとの回数が `T w` から下に `a`、上に `b` の内にあれば、全体の回数を重みで分けたものからも、下は
`a` と、項目の数の `b` 倍の分、上は `b` と、項目の数の `a` 倍の分の内。 -/
theorem share_bounds_of_slack (H : Finset ι) (w : ι → K) (hw : ∀ i ∈ H, 0 < w i) (m : ι → Nat) (T a b : K)
    (hm : ∀ i ∈ H, T * w i - a ≤ m i ∧ (m i : K) ≤ T * w i + b) {i : ι} (hi : i ∈ H) :
    (((∑ j ∈ H, m j : Nat) : K) - b * H.card) * w i / (∑ j ∈ H, w j) - a ≤ m i ∧
      (m i : K) ≤ (((∑ j ∈ H, m j : Nat) : K) + a * H.card) * w i / (∑ j ∈ H, w j) + b := by
  have hW : 0 < ∑ j ∈ H, w j := Finset.sum_pos hw ⟨i, hi⟩
  have hcast : ((∑ j ∈ H, m j : Nat) : K) = ∑ j ∈ H, (m j : K) := Nat.cast_sum H m
  -- 全体の回数は `T W` から、下に `a`、上に `b` の項目の数倍の内
  have hlo : T * (∑ j ∈ H, w j) - a * H.card ≤ ((∑ j ∈ H, m j : Nat) : K) := by
    calc T * (∑ j ∈ H, w j) - a * H.card = ∑ j ∈ H, (T * w j - a) := by
          rw [Finset.sum_sub_distrib, Finset.mul_sum, Finset.sum_const, nsmul_eq_mul, mul_comm a]
      _ ≤ ∑ j ∈ H, (m j : K) := Finset.sum_le_sum fun j hj => (hm j hj).1
      _ = ((∑ j ∈ H, m j : Nat) : K) := hcast.symm
  have hhi : ((∑ j ∈ H, m j : Nat) : K) ≤ T * (∑ j ∈ H, w j) + b * H.card := by
    calc ((∑ j ∈ H, m j : Nat) : K) = ∑ j ∈ H, (m j : K) := hcast
      _ ≤ ∑ j ∈ H, (T * w j + b) := Finset.sum_le_sum fun j hj => (hm j hj).2
      _ = T * (∑ j ∈ H, w j) + b * H.card := by
          rw [Finset.sum_add_distrib, Finset.mul_sum, Finset.sum_const, nsmul_eq_mul, mul_comm b]
  have hTlo : (((∑ j ∈ H, m j : Nat) : K) - b * H.card) / (∑ j ∈ H, w j) ≤ T :=
    (div_le_iff₀ hW).mpr (by linarith)
  have hThi : T ≤ (((∑ j ∈ H, m j : Nat) : K) + a * H.card) / (∑ j ∈ H, w j) :=
    (le_div_iff₀ hW).mpr (by linarith)
  have hwi := (hw i hi).le
  constructor
  · calc (((∑ j ∈ H, m j : Nat) : K) - b * H.card) * w i / (∑ j ∈ H, w j) - a
        = (((∑ j ∈ H, m j : Nat) : K) - b * H.card) / (∑ j ∈ H, w j) * w i - a := by rw [div_mul_eq_mul_div]
      _ ≤ T * w i - a := by gcongr
      _ ≤ m i := (hm i hi).1
  · calc (m i : K) ≤ T * w i + b := (hm i hi).2
      _ ≤ (((∑ j ∈ H, m j : Nat) : K) + a * H.card) / (∑ j ∈ H, w j) * w i + b := by gcongr
      _ = (((∑ j ∈ H, m j : Nat) : K) + a * H.card) * w i / (∑ j ∈ H, w j) + b := by rw [div_mul_eq_mul_div]

/-- 項目ごとの回数が `T w` から 1 の内にあれば、全体の回数を重みで分けたものから、項目の数の分だけの内。 -/
theorem share_bounds (H : Finset ι) (w : ι → K) (hw : ∀ i ∈ H, 0 < w i) (m : ι → Nat) (T : K)
    (hm : ∀ i ∈ H, T * w i - 1 ≤ m i ∧ (m i : K) ≤ T * w i + 1) {i : ι} (hi : i ∈ H) :
    (((∑ j ∈ H, m j : Nat) : K) - H.card) * w i / (∑ j ∈ H, w j) - 1 ≤ m i ∧
      (m i : K) ≤ (((∑ j ∈ H, m j : Nat) : K) + H.card) * w i / (∑ j ∈ H, w j) + 1 := by
  simpa only [one_mul] using share_bounds_of_slack H w hw m T 1 1 hm hi

/-- どの取り出しも `H` の項目なら、項目ごとの回数の和は取り出しの回数。 -/
theorem sum_count_some [DecidableEq ι] (H : Finset ι) :
    ∀ (l : List (Option ι)), (∀ o ∈ l, ∃ c ∈ H, o = some c) → ∑ c ∈ H, l.count (some c) = l.length
  | [], _ => by simp
  | o :: l, h => by
    obtain ⟨c, hc, rfl⟩ := h o List.mem_cons_self
    rw [List.length_cons, ← sum_count_some H l fun o ho => h o (List.mem_cons_of_mem _ ho)]
    simp only [List.count_cons, Finset.sum_add_distrib]
    congr 1
    simp [hc]

end Pacing
