import Mathlib

/-!
# 一定の歩幅で輪を回る

`0, …, m - 1` の輪の上を、`c` から歩幅 `s` で進む（`c + s` が `m` 以上なら `m` を引く）。`k` 歩目は
`(c + k s) mod m` で、`s` が `m` と互いに素なら、`m` 歩の内にどの位置にも着く。
-/

namespace Stride

/-- 一歩: `c += s; if (c >= m) c -= m;`。 -/
def next (m s c : Nat) : Nat := if c + s ≥ m then c + s - m else c + s

variable {m s c : Nat}

theorem next_eq_mod (hc : c < m) (hs : s < m) : next m s c = (c + s) % m := by
  unfold next
  split_ifs with h
  · rw [Nat.mod_eq_sub_mod h, Nat.mod_eq_of_lt (by omega)]
  · exact (Nat.mod_eq_of_lt (by omega)).symm

theorem next_lt (hc : c < m) (hs : s < m) : next m s c < m := by
  unfold next
  split_ifs <;> omega

theorem iterate_next (hc : c < m) (hs : s < m) (k : Nat) : (next m s)^[k] c = (c + k * s) % m := by
  induction k with
  | zero => simp [Nat.mod_eq_of_lt hc]
  | succ k ih =>
    rw [Function.iterate_succ_apply', ih, next_eq_mod (Nat.mod_lt _ (by omega)) hs, Nat.mod_add_mod,
      Nat.succ_mul, Nat.add_assoc]

/-- 歩幅が輪の大きさと互いに素なら、どの位置にも `m` 歩より前に着く。 -/
theorem exists_iterate_next_eq (hcop : Nat.Coprime s m) (hc : c < m) (hs : s < m) {t : Nat} (ht : t < m) :
    ∃ k < m, (next m s)^[k] c = t := by
  have : NeZero m := ⟨by omega⟩
  -- `k = (t - c) s⁻¹` を `ZMod m` で解く
  let k : ZMod m := ((t : ZMod m) - c) * (s : ZMod m)⁻¹
  have hk : ((c + k.val * s : Nat) : ZMod m) = t := by
    push_cast
    rw [ZMod.natCast_zmod_val, mul_assoc, mul_comm _ (s : ZMod m), ZMod.coe_mul_inv_eq_one s hcop, mul_one]
    ring
  refine ⟨k.val, ZMod.val_lt k, ?_⟩
  rw [iterate_next hc hs, ← ZMod.val_natCast, hk, ZMod.val_natCast, Nat.mod_eq_of_lt ht]

end Stride
