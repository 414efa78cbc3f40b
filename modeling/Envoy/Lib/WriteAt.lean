import Mathlib

/-!
# 列の一部の上書き

`memcpy(base + off, src, n)` を列の上で表す。`l.writeAt off src` は、`l` の位置 `off` から
`src` を書き、長さを変えない。書いた範囲の外は変わらない（フレームの補題）。
-/

namespace List

variable {α : Type _}

/-- 位置 `off` から `src` を書く。はみ出す分は書かない。 -/
def writeAt (l : List α) (off : Nat) (src : List α) : List α :=
  l.take off ++ (src.take (l.length - off) ++ l.drop (off + src.length))

@[simp] theorem length_writeAt (l : List α) (off : Nat) (src : List α) :
    (l.writeAt off src).length = l.length := by
  simp only [writeAt, length_append, length_take, length_drop]
  omega

/-- 収まる書き込みは、前の部分、`src`、後の部分の連結である。 -/
theorem writeAt_eq (l : List α) {off : Nat} {src : List α} (h : off + src.length ≤ l.length) :
    l.writeAt off src = l.take off ++ src ++ l.drop (off + src.length) := by
  rw [writeAt, take_of_length_le (l := src) (by omega), append_assoc]

theorem take_writeAt (l : List α) {off : Nat} (src : List α) (h : off ≤ l.length) :
    (l.writeAt off src).take off = l.take off := by
  simp [writeAt, h]

/-- 書き込みの終わりより先 `n` までを読む。 -/
theorem take_writeAt_of_le (l : List α) {off n : Nat} {src : List α}
    (h : off + src.length ≤ n) (hn : n ≤ l.length) :
    (l.writeAt off src).take n =
      l.take off ++ src ++ (l.drop (off + src.length)).take (n - (off + src.length)) := by
  have hlen : (l.take off ++ src).length = off + src.length := by simp; omega
  rw [writeAt_eq l (by omega), take_append, hlen, take_of_length_le (by omega)]

/-- 書いた範囲の先頭 `k` 個までを、手前の `[d, off)` に続けて読む。 -/
theorem drop_take_add_writeAt (l : List α) {d off k : Nat} {src : List α} (hd : d ≤ off)
    (hk : k ≤ src.length) (h : off + src.length ≤ l.length) :
    ((l.writeAt off src).take (off + k)).drop d = (l.take off).drop d ++ src.take k := by
  have hlen : (l.take off).length = off := by simp; omega
  rw [writeAt_eq l h, append_assoc, take_append, hlen, Nat.add_sub_cancel_left,
    take_of_length_le (l := l.take off) (by omega), take_append_of_le_length hk,
    drop_append_of_le_length (by omega)]

/-- 先頭から書いたものを、書いた長さまで読む。 -/
theorem take_writeAt_zero (l : List α) {src : List α} {n : Nat} (h : src.length ≤ l.length)
    (hn : n ≤ src.length) : (l.writeAt 0 src).take n = src.take n := by
  rw [writeAt_eq l (by omega), take_zero, nil_append, take_append_of_le_length hn]

@[simp] theorem writeAt_nil (l : List α) (off : Nat) : l.writeAt off [] = l := by
  simp [writeAt]

/-- 続けて書いた二つは、つないだ一つの書き込み。 -/
theorem writeAt_writeAt (l : List α) {off : Nat} {a b : List α} (h : off + a.length + b.length ≤ l.length) :
    (l.writeAt off a).writeAt (off + a.length) b = l.writeAt off (a ++ b) := by
  have hpre : (l.take off ++ a).length = off + a.length := by simp; omega
  -- 一つ目の書き込みの後の列を、書いた所までとその後に分ける
  have hfirst : l.writeAt off a = (l.take off ++ a) ++ l.drop (off + a.length) := by
    rw [writeAt_eq l (by omega), append_assoc]
  rw [hfirst, writeAt_eq _ (by simp; omega), take_left' hpre, drop_append, hpre,
    drop_of_length_le (by omega), nil_append, drop_drop, writeAt_eq l (by simp; omega)]
  simp only [append_assoc, length_append]
  rw [show off + a.length + (off + a.length + b.length - (off + a.length)) = off + (a.length + b.length) by omega]

end List
