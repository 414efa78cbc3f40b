import Mathlib.Data.List.Basic

/-!
# 一つの列の上で読みながら書く

列 `buf` の上に、読む位置 `read` と書く位置 `write ≤ read` を置き、読んだものを書く位置へ写したり、
読み飛ばしたり、書く位置を戻したりする繰り返し（`std::remove_if` の形の書き換え）。
`Cursor buf read write out rest` は、位置 `write` までに出力 `out` が書いてあり、位置 `read` から先に
まだ読んでいない入力 `rest` が残っていること。書く位置は読む位置を越えないので、書いても残りの入力は
壊れない。一回の動きごとに、この関係がどう移るかをここで一度だけ述べる。
-/

namespace InPlace

variable {α : Type _} {buf : List α} {read write : Nat} {out rest : List α} {c : α}

/-- 位置 `write` までが出力 `out`、位置 `read` からが残りの入力 `rest`。 -/
structure Cursor (buf : List α) (read write : Nat) (out rest : List α) : Prop where
  write_le : write ≤ read
  read_le : read ≤ buf.length
  take_eq : buf.take write = out
  drop_eq : buf.drop read = rest

/-- 始め: 位置 `k` までをそのまま出力とみて、`k` から読む。 -/
theorem cursor_init (buf : List α) {k : Nat} (hk : k ≤ buf.length) : Cursor buf k k (buf.take k) (buf.drop k) :=
  ⟨Nat.le_refl k, hk, rfl, rfl⟩

namespace Cursor

theorem length_out (h : Cursor buf read write out rest) : out.length = write := by
  rw [← h.take_eq, List.length_take]
  have := h.write_le
  have := h.read_le
  omega

theorem length_rest (h : Cursor buf read write out rest) : rest.length = buf.length - read := by
  rw [← h.drop_eq, List.length_drop]

theorem lt_length (h : Cursor buf read write out (c :: rest)) : read < buf.length := by
  have := h.length_rest
  simp only [List.length_cons] at this
  omega

/-- 入力を読み切った位置は、列の終わり。 -/
theorem not_lt_length (h : Cursor buf read write out []) : ¬read < buf.length := by
  have := h.length_rest
  simp only [List.length_nil] at this
  omega

/-- 読む位置から `k` 先の要素は、残りの入力の `k` 番目。 -/
theorem getD_read_add (h : Cursor buf read write out rest) (k : Nat) (d : α) :
    buf.getD (read + k) d = rest.getD k d := by
  rw [← h.drop_eq, List.getD_eq_getElem?_getD, List.getD_eq_getElem?_getD, List.getElem?_drop]

/-- 読む位置の要素は、残りの入力の先頭。 -/
theorem getD_read (h : Cursor buf read write out (c :: rest)) (d : α) : buf.getD read d = c :=
  h.getD_read_add 0 d

/-- 書く位置より前の要素は、出力の要素。 -/
theorem getD_of_lt (h : Cursor buf read write out rest) {i : Nat} (hi : i < write) (d : α) :
    buf.getD i d = out.getD i d := by
  rw [← h.take_eq, List.getD_eq_getElem?_getD, List.getD_eq_getElem?_getD, List.getElem?_take, if_pos hi]

/-- 書く位置の一つ前の要素は、出力の最後の要素。 -/
theorem getD_last {init : List α} (h : Cursor buf read write (init ++ [c]) rest) (d : α) :
    buf.getD (write - 1) d = c := by
  have hw := h.length_out
  simp only [List.length_append, List.length_singleton] at hw
  rw [h.getD_of_lt (by omega), ← hw, Nat.add_sub_cancel, List.getD_eq_getElem?_getD,
    List.getElem?_append_right (Nat.le_refl _), Nat.sub_self]
  rfl

/-- 読む位置から先の `n` 個は、残りの入力の先頭の `n` 個。 -/
theorem take_drop_read (h : Cursor buf read write out rest) (n : Nat) : (buf.drop read).take n = rest.take n := by
  rw [h.drop_eq]

/-- 読んだ要素を書く位置へ写し、両方を一つ進める。 -/
theorem copy (h : Cursor buf read write out (c :: rest)) : Cursor (buf.set write c) (read + 1) (write + 1) (out ++ [c]) rest := by
  have hr := h.lt_length
  have hw : write < (buf.set write c).length := by rw [List.length_set]; exact Nat.lt_of_le_of_lt h.write_le hr
  refine ⟨Nat.succ_le_succ h.write_le, by rw [List.length_set]; exact hr, ?_, ?_⟩
  · rw [List.take_succ_eq_append_getElem hw, List.take_set_of_le (Nat.le_refl write), h.take_eq, List.getElem_set_self]
  · rw [List.drop_set_of_lt (Nat.lt_succ_of_le h.write_le), ← List.tail_drop, h.drop_eq, List.tail_cons]

/-- 読み飛ばす。 -/
theorem skip (h : Cursor buf read write out (c :: rest)) : Cursor buf (read + 1) write out rest := by
  have hr := h.lt_length
  refine ⟨Nat.le_succ_of_le h.write_le, hr, h.take_eq, ?_⟩
  rw [← List.tail_drop, h.drop_eq, List.tail_cons]

/-- 残りの入力の先頭 `xs` を読み飛ばす。 -/
theorem skipAppend (xs : List α) (h : Cursor buf read write out (xs ++ rest)) :
    Cursor buf (read + xs.length) write out rest := by
  have hlen : xs.length + rest.length = buf.length - read := by simpa using h.length_rest
  have hw := h.write_le
  have hr := h.read_le
  refine ⟨by omega, by omega, h.take_eq, ?_⟩
  rw [← List.drop_drop, h.drop_eq, List.drop_left]

/-- 書く位置を `write'` に戻す。その先の出力は捨てる。 -/
theorem rewind (h : Cursor buf read write out rest) {write' : Nat} (hw : write' ≤ write) :
    Cursor buf read write' (out.take write') rest := by
  refine ⟨Nat.le_trans hw h.write_le, h.read_le, ?_, h.drop_eq⟩
  rw [← h.take_eq, List.take_take, Nat.min_eq_left hw]

/-- まだ読んでいない位置 `read + k` を書き換える。 -/
theorem setAhead (h : Cursor buf read write out rest) (k : Nat) (c : α) :
    Cursor (buf.set (read + k) c) read write out (rest.set k c) := by
  refine ⟨h.write_le, by rw [List.length_set]; exact h.read_le, ?_, ?_⟩
  · rw [List.take_set_of_le (by have := h.write_le; omega), h.take_eq]
  · rw [List.drop_set, if_neg (by omega), h.drop_eq, Nat.add_sub_cancel_left]

end Cursor

end InPlace
