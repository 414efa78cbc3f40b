import Mathlib.Data.Nat.ModEq

/-!
# 輪の上の窓

長さ `cap` の輪の升目 `cells` を、位置 `head` から `count` 個、`cap` を法として順に読んだ列を窓と呼ぶ。
輪で作った両端の列の中身はこの窓で、両端での追加と削除は升目を一つ書き、`head` か `count` を一つ動かす
ことになる。輪を広げるときの写しは、窓を同じに保つ升目の書き換え。
-/

namespace RingBuffer

variable {α : Type*} [Inhabited α]

/-- 位置 `head` から `count` 個の升目を、`cap` を法として順に読む。 -/
def window (cells : List α) (head cap count : Nat) : List α :=
  (List.range count).map fun i => cells.getD ((head + i) % cap) default

@[simp] theorem length_window (cells : List α) (head cap count : Nat) :
    (window cells head cap count).length = count := by
  simp [window]

@[simp] theorem window_zero (cells : List α) (head cap : Nat) : window cells head cap 0 = [] := rfl

theorem window_succ (cells : List α) (head cap count : Nat) :
    window cells head cap (count + 1) =
      window cells head cap count ++ [cells.getD ((head + count) % cap) default] := by
  simp [window, List.range_succ]

theorem window_succ_left (cells : List α) (head cap count : Nat) :
    window cells head cap (count + 1) =
      cells.getD (head % cap) default :: window cells (head + 1) cap count := by
  simp only [window, List.range_succ_eq_map, List.map_cons, List.map_map, Nat.add_zero]
  congr 1
  apply List.map_congr_left
  intro i _
  simp [Nat.add_assoc, Nat.add_comm 1 i]

theorem window_congr {cells cells' : List α} {head head' cap cap' count : Nat}
    (h : ∀ i < count, cells.getD ((head + i) % cap) default = cells'.getD ((head' + i) % cap') default) :
    window cells head cap count = window cells' head' cap' count := by
  apply List.map_congr_left
  intro i hi
  exact h i (List.mem_range.mp hi)

/-- 窓は `head` を `cap` を法としてしか見ない。 -/
theorem window_mod (cells : List α) (head cap count : Nat) :
    window cells (head % cap) cap count = window cells head cap count :=
  window_congr fun i _ => by rw [Nat.mod_add_mod]

/-- 一周より短い二つのずれは、違う升目を指す。 -/
theorem add_mod_ne (head : Nat) {i j cap : Nat} (hij : i < j) (hj : j < cap) :
    (head + i) % cap ≠ (head + j) % cap := by
  intro h
  have hmod : i % cap = j % cap := Nat.ModEq.add_left_cancel' head h
  rw [Nat.mod_eq_of_lt (hij.trans hj), Nat.mod_eq_of_lt hj] at hmod
  omega

/-- 窓の先頭より後の升目は、先頭の升目とは違う。 -/
theorem succ_add_mod_ne (head : Nat) {i cap : Nat} (hi : i + 1 < cap) : (head + 1 + i) % cap ≠ head % cap := by
  have h := add_mod_ne head (Nat.succ_pos i) hi
  rw [Nat.add_zero] at h
  rw [Nat.add_assoc, Nat.add_comm 1 i]
  exact Ne.symm h

/-! ## 升目の書き換え -/

theorem window_set_outside {cells : List α} {head cap count j : Nat} (x : α)
    (hj : ∀ i < count, (head + i) % cap ≠ j) :
    window (cells.set j x) head cap count = window cells head cap count := by
  apply window_congr
  intro i hi
  simp [List.getD_eq_getElem?_getD, Ne.symm (hj i hi)]

/-- 窓の直後の升目を書くと、窓は末尾に一つ伸びる。 -/
theorem window_push_back {cells : List α} {head cap count : Nat} (x : α) (hcount : count < cap)
    (hlen : cells.length = cap) :
    window (cells.set ((head + count) % cap) x) head cap (count + 1) = window cells head cap count ++ [x] := by
  have hcap : 0 < cap := by omega
  rw [window_succ, window_set_outside x fun i hi => add_mod_ne head hi hcount]
  simp [List.getD_eq_getElem?_getD, hlen, Nat.mod_lt _ hcap]

/-- 窓の直前の升目を書いて `head` をそこへ下げると、窓は先頭に一つ伸びる。 -/
theorem window_push_front {cells : List α} {head head' cap count : Nat} (x : α) (hcount : count < cap)
    (hlen : cells.length = cap) (hhead : head' < cap) (hback : (head' + 1) % cap = head % cap) :
    window (cells.set head' x) head' cap (count + 1) = x :: window cells head cap count := by
  have hout : ∀ i < count, (head' + 1 + i) % cap ≠ head' := fun i hi => by
    simpa [Nat.mod_eq_of_lt hhead] using succ_add_mod_ne head' (show i + 1 < cap by omega)
  rw [window_succ_left, window_set_outside x hout, ← window_mod, hback, window_mod]
  simp [List.getD_eq_getElem?_getD, hlen, Nat.mod_eq_of_lt hhead, hhead]

/-- 先頭の升目を消して `head` を一つ進めると、窓は先頭を一つ失う。 -/
theorem window_pop_front {cells : List α} {head cap count : Nat} (x : α) (hcount : count < cap) :
    window (cells.set (head % cap) x) (head + 1) cap count = (window cells head cap (count + 1)).tail := by
  have hout : ∀ i < count, (head + 1 + i) % cap ≠ head % cap := fun i hi =>
    succ_add_mod_ne head (show i + 1 < cap by omega)
  rw [window_set_outside x hout, window_succ_left, List.tail_cons]

/-- 末尾の升目を消すと、窓は末尾を一つ失う。 -/
theorem window_pop_back {cells : List α} {head cap count : Nat} (x : α) (hcount : count < cap) :
    window (cells.set ((head + count) % cap) x) head cap count = (window cells head cap (count + 1)).dropLast := by
  rw [window_set_outside x fun i hi => add_mod_ne head hi hcount, window_succ, List.dropLast_concat]

end RingBuffer
