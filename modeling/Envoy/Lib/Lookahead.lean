import Mathlib

/-!
# 先読みの buffer

取り出すと次の状態に進む機械 `next` の前に、先読みしたものを並べる buffer を置く。`peek` は取り出して
buffer の後ろに置き、`pick` は buffer があればその先頭を、無ければ機械から取り出す。
-/

namespace Lookahead

variable {Q α : Type _} (next : Q → Option (α × Q))

/-- `k` 回取り出した後の状態と、取り出したもの。取り出せなくなれば止まる。 -/
def advance (q : Q) : Nat → Q × List α
  | 0 => (q, [])
  | k + 1 =>
    match next q with
    | none => (q, [])
    | some (a, q') => ((advance q' k).1, a :: (advance q' k).2)

/-- 先読み: 取り出したものを buffer の後ろに置く。 -/
def peek (s : Q × List α) : Option α × (Q × List α) :=
  match next s.1 with
  | none => (none, s)
  | some (a, q') => (some a, (q', s.2 ++ [a]))

/-- 取り出し: buffer があればその先頭、無ければ機械から取り出す。 -/
def pick (s : Q × List α) : Option α × (Q × List α) :=
  match s.2 with
  | a :: rest => (some a, (s.1, rest))
  | [] =>
    match next s.1 with
    | none => (none, (s.1, []))
    | some (a, q') => (some a, (q', []))

/-- `n` 回の取り出しの返したものと、後の状態。 -/
def pickN : Nat → Q × List α → List (Option α) × (Q × List α)
  | 0, s => ([], s)
  | n + 1, s => ((pick next s).1 :: (pickN n (pick next s).2).1, (pickN n (pick next s).2).2)

/-- 先読みした側 `sP` は、しない側 `sL` の状態から `k` 回取り出した後の状態にあり、その buffer は `sL` の
buffer に取り出したものを足したもの。 -/
def Lag (sP sL : Q × List α) : Prop :=
  ∃ k, sP = ((advance next sL.1 k).1, sL.2 ++ (advance next sL.1 k).2)

variable {next}

@[simp] theorem advance_zero (q : Q) : advance next q 0 = (q, []) := rfl

theorem advance_succ_of_none {q : Q} (h : next q = none) (k : Nat) : advance next q (k + 1) = (q, []) := by
  simp [advance, h]

theorem advance_succ_of_some {q q' : Q} {a : α} (h : next q = some (a, q')) (k : Nat) :
    advance next q (k + 1) = ((advance next q' k).1, a :: (advance next q' k).2) := by
  simp [advance, h]

/-- `k + 1` 回目は、`k` 回の後の状態から取り出す。 -/
theorem advance_succ (q : Q) (k : Nat) :
    advance next q (k + 1) =
      match next (advance next q k).1 with
      | none => advance next q k
      | some (a, q') => (q', (advance next q k).2 ++ [a]) := by
  induction k generalizing q with
  | zero =>
    cases h : next q with
    | none => simp [advance_succ_of_none h, h]
    | some r =>
      obtain ⟨a, q'⟩ := r
      simp [advance_succ_of_some h, h]
  | succ k ih =>
    cases h : next q with
    | none => simp [advance_succ_of_none h, h]
    | some r =>
      obtain ⟨a, q'⟩ := r
      rw [advance_succ_of_some h, advance_succ_of_some h, ih q']
      split <;> simp_all

theorem Lag.refl (s : Q × List α) : Lag next s s := ⟨0, by simp⟩

/-- 先読みは `Lag` を保つ: 取り出す回数が一つ増える。 -/
theorem Lag.peek {sP sL : Q × List α} (h : Lag next sP sL) : Lag next (peek next sP).2 sL := by
  obtain ⟨k, rfl⟩ := h
  refine ⟨k + 1, ?_⟩
  rw [advance_succ]
  unfold Lookahead.peek
  split <;> simp_all

/-- 取り出しは両側で同じものを返し、`Lag` を保つ。 -/
theorem Lag.pick {sP sL : Q × List α} (h : Lag next sP sL) :
    (pick next sP).1 = (pick next sL).1 ∧ Lag next (pick next sP).2 (pick next sL).2 := by
  obtain ⟨k, rfl⟩ := h
  obtain ⟨q, P⟩ := sL
  cases P with
  | cons a rest =>
    -- 両側とも buffer の先頭
    exact ⟨rfl, k, by simp [Lookahead.pick]⟩
  | nil =>
    cases k with
    | zero => exact ⟨rfl, Lag.refl _⟩
    | succ k =>
      cases hq : next q with
      | none =>
        -- 取り出せない: 両側は同じ
        rw [advance_succ_of_none hq, List.nil_append]
        exact ⟨rfl, Lag.refl _⟩
      | some r =>
        -- 先読みした側は buffer の先頭を、しない側は機械から、同じものを取り出す
        obtain ⟨a, q'⟩ := r
        rw [advance_succ_of_some hq, List.nil_append]
        exact ⟨by simp [Lookahead.pick, hq], k, by simp [Lookahead.pick, hq]⟩

theorem pickN_add (m n : Nat) (s : Q × List α) : (pickN next (m + n) s).2 = (pickN next n (pickN next m s).2).2 := by
  induction m generalizing s with
  | zero => rw [Nat.zero_add]; rfl
  | succ m ih =>
    rw [Nat.succ_add]
    exact ih _

/-- buffer の分の取り出しは、buffer を空にするだけ。 -/
theorem pickN_buffer (q : Q) (P : List α) (n : Nat) : (pickN next (P.length + n) (q, P)).2 = (pickN next n (q, [])).2 := by
  induction P with
  | nil => simp
  | cons a P ih =>
    rw [List.length_cons, Nat.add_right_comm]
    exact ih

/-- 機械から `k` 回取り出して得たものの数だけ取り出すと、`k` 回の後の状態に着く。 -/
theorem pickN_advance (q : Q) (k : Nat) : (pickN next (advance next q k).2.length (q, [])).2 = ((advance next q k).1, []) := by
  induction k generalizing q with
  | zero => rfl
  | succ k ih =>
    cases hq : next q with
    | none => rw [advance_succ_of_none hq]; rfl
    | some r =>
      obtain ⟨a, q'⟩ := r
      rw [advance_succ_of_some hq, List.length_cons]
      simp only [pickN, Lookahead.pick, hq]
      exact ih q'

/-- 先読みした側の状態は、しない側から、先読みした側の buffer の長さだけ取り出した後の状態。 -/
theorem Lag.pickN_length {sP sL : Q × List α} (h : Lag next sP sL) : (pickN next sP.2.length sL).2 = (sP.1, []) := by
  obtain ⟨k, rfl⟩ := h
  obtain ⟨q, P⟩ := sL
  simp only [List.length_append]
  rw [pickN_buffer, pickN_advance]

/-- 状態と buffer を同時に写す `f`、`g` が取り出しと可換なら、`Lag` は写した後も成り立つ。 -/
theorem Lag.map {sP sL : Q × List α} (h : Lag next sP sL) (f : Q → Q) (g : List α → List α)
    (hg : ∀ P X, g (P ++ X) = g P ++ g X)
    (hcomm : ∀ k, ∃ k', (f (advance next sL.1 k).1, g (advance next sL.1 k).2) = advance next (f sL.1) k') :
    Lag next (f sP.1, g sP.2) (f sL.1, g sL.2) := by
  obtain ⟨k, rfl⟩ := h
  obtain ⟨k', hk'⟩ := hcomm k
  refine ⟨k', ?_⟩
  simp only [hg, ← hk']

end Lookahead
