import Mathlib

/-!
# 仮想時刻で数える消費の上限

token bucket を一つの仮想時刻 `T` で表す形。消費の一つ一つは、時刻 `t` に量 `c` を取って、
`T` を `T'` へ進める。`T'` が `T` から少なくとも `c / r` 進み、`t` を越えず、`t - T'` が
`(M - c) / r` を越えなければ（`Advance`）、消費をどの順に並べても、時刻が区間 `[a, b]` にある
消費の和は `M + r (b - a)` 以下である（`Bounded`）。

順は仮想時刻を進めた順で、時刻 `t` の順でなくてよい。不変条件は、区間の和の上限の他に、
`a` 以後の消費の和が今の仮想時刻で `M + r (T - a)` に抑えられることを持つ。
-/

namespace RateLimit

variable {α : Type _} [Field α] [LinearOrder α] [IsStrictOrderedRing α]

/-- 時刻 `t` に量 `c` を取り、仮想時刻を `T` から `T'` へ進める一つの消費。 -/
structure Advance (M r T t c T' : α) : Prop where
  nonneg : 0 ≤ c
  credit : c ≤ r * (T' - T)
  notAhead : T' ≤ t
  burst : c ≤ M + r * (T' - t)

/-- 時刻が `[a, b]` にある消費の和。 -/
def windowSum (log : List (α × α)) (a b : α) : α :=
  ((log.filter fun e => a ≤ e.1 ∧ e.1 ≤ b).map Prod.snd).sum

/-- 時刻が `a` 以後の消費の和。 -/
def tailSum (log : List (α × α)) (a : α) : α :=
  ((log.filter fun e => a ≤ e.1).map Prod.snd).sum

/-- 消費の記録 `log` と今の仮想時刻 `T` の不変条件。 -/
structure Bounded (M r T : α) (log : List (α × α)) : Prop where
  nonneg : ∀ e ∈ log, 0 ≤ e.2
  tail : ∀ a, tailSum log a ≤ max 0 (M + r * (T - a))
  window : ∀ a b, a ≤ b → windowSum log a b ≤ M + r * (b - a)

omit [IsStrictOrderedRing α] in
theorem windowSum_append_singleton (log : List (α × α)) (t c a b : α) :
    windowSum (log ++ [(t, c)]) a b = windowSum log a b + if a ≤ t ∧ t ≤ b then c else 0 := by
  unfold windowSum
  split_ifs with h <;> simp [List.filter_append, h]

omit [IsStrictOrderedRing α] in
theorem tailSum_append_singleton (log : List (α × α)) (t c a : α) :
    tailSum (log ++ [(t, c)]) a = tailSum log a + if a ≤ t then c else 0 := by
  unfold tailSum
  split_ifs with h <;> simp [List.filter_append, h]

/-- 量が負でなければ、区間の和は、その区間の始め以後の和を越えない。 -/
theorem windowSum_le_tailSum {log : List (α × α)} (h : ∀ e ∈ log, 0 ≤ e.2) (a b : α) :
    windowSum log a b ≤ tailSum log a := by
  induction log with
  | nil => simp [windowSum, tailSum]
  | cons e log ih =>
    have he := h e (List.mem_cons_self ..)
    have hrest := ih fun e' h' => h e' (List.mem_cons_of_mem _ h')
    unfold windowSum tailSum at hrest ⊢
    rw [List.filter_cons, List.filter_cons]
    by_cases ha : a ≤ e.1
    · by_cases hb : e.1 ≤ b
      · simp only [ha, hb, and_self, decide_true, if_true, List.map_cons, List.sum_cons]
        linarith
      · simp only [ha, hb, and_false, decide_false, decide_true, if_true, List.map_cons, List.sum_cons,
          Bool.false_eq_true, if_false]
        linarith
    · simp only [ha, false_and, decide_false, Bool.false_eq_true, if_false]
      exact hrest

variable {M r T : α}

theorem bounded_nil (hM : 0 ≤ M) (hr : 0 ≤ r) : Bounded M r T [] where
  nonneg := by simp
  tail a := by simp [tailSum]
  window a b hab := by
    have : 0 ≤ r * (b - a) := mul_nonneg hr (by linarith)
    simp only [windowSum, List.filter_nil, List.map_nil, List.sum_nil]
    linarith

omit [IsStrictOrderedRing α] in
/-- 零を取る消費は、仮想時刻を動かさずに記録に足せる。 -/
theorem Bounded.append_zero {log : List (α × α)} (h : Bounded M r T log) (t : α) :
    Bounded M r T (log ++ [(t, 0)]) where
  nonneg e he := by
    rcases List.mem_append.mp he with he | he
    · exact h.nonneg e he
    · simp at he; rw [he]
  tail a := by rw [tailSum_append_singleton, ite_self, add_zero]; exact h.tail a
  window a b hab := by rw [windowSum_append_singleton, ite_self, add_zero]; exact h.window a b hab

/-- 一つの消費の後、`t` 以前に始まる区間の、今までの和とその消費の量は、新しい仮想時刻で抑えられる。 -/
theorem Bounded.tailSum_add_le {log : List (α × α)} {t c T' a : α} (h : Bounded M r T log) (hr : 0 ≤ r)
    (ha : Advance M r T t c T') (hat : a ≤ t) : tailSum log a + c ≤ M + r * (T' - a) := by
  have htail := h.tail a
  have hshift : r * (T' - a) = r * (T' - T) + r * (T - a) := by ring
  have hta : r * (T' - t) ≤ r * (T' - a) := mul_le_mul_of_nonneg_left (by linarith) hr
  rcases le_total 0 (M + r * (T - a)) with hpos | hneg
  · rw [max_eq_right hpos] at htail
    linarith [ha.credit]
  · rw [max_eq_left hneg] at htail
    linarith [ha.burst]

/-- 一つの消費は不変条件を保つ。 -/
theorem Bounded.advance {log : List (α × α)} {t c T' : α} (h : Bounded M r T log) (hr : 0 ≤ r)
    (ha : Advance M r T t c T') : Bounded M r T' (log ++ [(t, c)]) where
  nonneg e he := by
    rcases List.mem_append.mp he with he | he
    · exact h.nonneg e he
    · simp at he; rw [he]; exact ha.nonneg
  tail a := by
    rw [tailSum_append_singleton]
    split_ifs with hat
    · exact le_max_of_le_right (h.tailSum_add_le hr ha hat)
    · -- 仮想時刻は進むだけなので、前の上限がそのまま使える
      have hT : r * (T - a) ≤ r * (T' - a) := by
        have : r * (T' - a) = r * (T' - T) + r * (T - a) := by ring
        linarith [ha.credit, ha.nonneg]
      calc tailSum log a + 0 = tailSum log a := add_zero _
        _ ≤ max 0 (M + r * (T - a)) := h.tail a
        _ ≤ max 0 (M + r * (T' - a)) := max_le_max le_rfl (by linarith)
  window a b hab := by
    rw [windowSum_append_singleton]
    split_ifs with hin
    · have hle := windowSum_le_tailSum h.nonneg a b
      have hkey := h.tailSum_add_le hr ha hin.1
      have hT' : r * (T' - a) ≤ r * (b - a) := mul_le_mul_of_nonneg_left (by linarith [ha.notAhead, hin.2]) hr
      linarith
    · rw [add_zero]; exact h.window a b hab

end RateLimit
