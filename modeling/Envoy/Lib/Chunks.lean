import Mathlib

/-!
# chunk に切った列

byte 列を任意の所で chunk に切って順に渡す時の、列の上の事実。chunk は `f : β → List α` で
中身を読む値（buffer など）とする。先頭の幾つかの chunk の中身は全体の接頭辞で、全体の中の
各位置はちょうど一つの chunk に入る。
-/

namespace List

variable {α β : Type _}

/-- 先頭の `k` 個の chunk の中身は、全体の中身の接頭辞である。 -/
theorem flatten_map_take_prefix (f : β → List α) (L : List β) (k : Nat) :
    ((L.take k).map f).flatten <+: (L.map f).flatten := by
  conv_rhs => rw [← List.take_append_drop k L]
  rw [List.map_append, List.flatten_append]
  exact List.prefix_append _ _

/-- 全体の中の位置 `n` を含む chunk で、列を前、その chunk、後に分ける。 -/
theorem exists_chunk_of_lt_length {f : β → List α} {L : List β} {n : Nat}
    (h : n < (L.map f).flatten.length) :
    ∃ pre x post, L = pre ++ x :: post ∧ (pre.map f).flatten.length ≤ n ∧
      n < (pre.map f).flatten.length + (f x).length := by
  induction L generalizing n with
  | nil => simp at h
  | cons x L ih =>
    by_cases hx : n < (f x).length
    · exact ⟨[], x, L, rfl, by simp, by simpa using hx⟩
    · simp only [List.map_cons, List.flatten_cons, List.length_append] at h
      obtain ⟨pre, y, post, rfl, hle, hlt⟩ := ih (n := n - (f x).length) (by omega)
      refine ⟨x :: pre, y, post, rfl, ?_, ?_⟩ <;>
        simp only [List.map_cons, List.flatten_cons, List.length_append] <;> omega

end List
