import Mathlib

/-!
# 累積の和による選択

重みの列 `l` を前から足していき、和が初めて `h` 以上になった位置を選ぶ（`find`）。選ばれなければ
足し終えた和を返すので、次の列へ和を引き継いで続けられる。`acc < h` の時、位置 `j` が選ばれるのは
`acc + (l.take j).sum < h ≤ acc + (l.take (j + 1)).sum` の時ちょうどで、`h` を動かすと位置 `j` は
`l[j]` 回選ばれる。
-/

namespace Cumulative

/-- 和 `acc` から重みを足していき、和が初めて `h` 以上になる位置（`i` から数える）。選ばれなければ
足し終えた和。 -/
def find (h : Nat) : Nat → Nat → List Nat → Nat ⊕ Nat
  | acc, _, [] => .inl acc
  | acc, i, w :: ws => if h ≤ acc + w then .inr i else find h (acc + w) (i + 1) ws

variable {h acc i a j n : Nat} {l : List Nat}

@[simp] theorem find_nil (h acc i : Nat) : find h acc i [] = .inl acc := rfl

theorem find_cons (h acc i w : Nat) (ws : List Nat) :
    find h acc i (w :: ws) = if h ≤ acc + w then .inr i else find h (acc + w) (i + 1) ws := rfl

/-- 数え始めの位置をずらすと、選ぶ位置も同じだけずれる。 -/
theorem find_succ (h acc i : Nat) (l : List Nat) :
    find h acc (i + 1) l = (find h acc i l).map id (· + 1) := by
  induction l generalizing acc i with
  | nil => rfl
  | cons w ws ih =>
    rw [find_cons, find_cons, ih]
    split <;> rfl

/-- 選ばれなければ、返すのは足し終えた和。 -/
theorem find_eq_inl (hf : find h acc i l = .inl a) : a = acc + l.sum := by
  induction l generalizing acc i with
  | nil => exact (Sum.inl.inj hf).symm
  | cons w ws ih =>
    rw [find_cons] at hf
    split at hf
    case isTrue => cases hf
    case isFalse => rw [ih hf, List.sum_cons, Nat.add_assoc]

/-- `h` に届かないうちは選ばれないので、選ばれなければ和は最後まで `h` に届かない。 -/
theorem sum_lt_of_find_eq_inl (hacc : acc < h) (hf : find h acc i l = .inl a) : acc + l.sum < h := by
  induction l generalizing acc i with
  | nil => simpa using hacc
  | cons w ws ih =>
    rw [find_cons] at hf
    split at hf
    case isTrue => cases hf
    case isFalse hw =>
      have := ih (by omega) hf
      rw [List.sum_cons]
      omega

/-- `acc < h` の時、位置 `j` が選ばれるのは、`j` までの和が `h` に届かず、`j` を足すと届く時。 -/
theorem find_eq_inr_iff (hacc : acc < h) :
    find h acc 0 l = .inr j ↔
      j < l.length ∧ acc + (l.take j).sum < h ∧ h ≤ acc + (l.take (j + 1)).sum := by
  induction l generalizing acc j with
  | nil => simp
  | cons w ws ih =>
    rw [find_cons]
    by_cases hw : h ≤ acc + w
    · -- 先頭で届く
      rw [if_pos hw]
      constructor
      · rintro ⟨⟩
        exact ⟨by simp, by simpa using hacc, by simpa using hw⟩
      · rintro ⟨-, hlt, -⟩
        cases j with
        | zero => rfl
        | succ j =>
          simp only [List.take_succ_cons, List.sum_cons] at hlt
          omega
    · -- 先頭を足して続ける
      rw [if_neg hw, zero_add, find_succ]
      cases j with
      | zero =>
        constructor
        · intro hf
          cases hf' : find h (acc + w) 0 ws <;> simp [hf'] at hf
        · rintro ⟨-, -, hle⟩
          simp at hle
          omega
      | succ j =>
        have hiff := ih (j := j) (show acc + w < h by omega)
        simp only [List.length_cons, Nat.add_lt_add_iff_right, List.take_succ_cons, List.sum_cons,
          ← Nat.add_assoc]
        rw [← hiff]
        cases find h (acc + w) 0 ws with
        | inl _ => simp
        | inr k => simp

/-- `acc < h ≤ acc + l.sum` なら、どこかが選ばれる。 -/
theorem find_isRight (hacc : acc < h) (hle : h ≤ acc + l.sum) : ∃ j, find h acc 0 l = .inr j := by
  cases hf : find h acc 0 l with
  | inl a => exact absurd (sum_lt_of_find_eq_inl hacc hf) (by omega)
  | inr j => exact ⟨j, rfl⟩

/-- `[0, n)` の `r` のうち、和 `acc` から数えて `r + 1` で位置 `j` が選ばれるのは `l[j]` 個。 -/
theorem card_find_eq (hle : acc + l.sum ≤ n) (hj : j < l.length) :
    ((Finset.range n).filter fun r => acc < r + 1 ∧ find (r + 1) acc 0 l = .inr j).card = l[j] := by
  have hsucc := List.sum_take_succ l j hj
  have hpre : acc + (l.take (j + 1)).sum ≤ n :=
    le_trans (Nat.add_le_add_left ((List.take_sublist (j + 1) l).sum_le_sum fun _ _ => Nat.zero_le _) acc) hle
  -- 選ばれる `r` は区間 `[acc + (l.take j).sum, acc + (l.take (j + 1)).sum)`
  have hset : ((Finset.range n).filter fun r => acc < r + 1 ∧ find (r + 1) acc 0 l = .inr j) =
      Finset.Ico (acc + (l.take j).sum) (acc + (l.take (j + 1)).sum) := by
    ext r
    simp only [Finset.mem_filter, Finset.mem_range, Finset.mem_Ico]
    constructor
    · rintro ⟨-, hacc, hf⟩
      obtain ⟨-, hlt, hle'⟩ := (find_eq_inr_iff hacc).mp hf
      omega
    · rintro ⟨hlo, hhi⟩
      have hacc : acc < r + 1 := by omega
      exact ⟨by omega, hacc, (find_eq_inr_iff hacc).mpr ⟨hj, by omega, by omega⟩⟩
  rw [hset, Nat.card_Ico]
  omega

end Cumulative
