import Mathlib

/-!
# 十進の数字の列

文字の列の先頭の数字を左から読む値 `valueFrom v ds`（`v` から始めて一桁ごとに `v * 10 + d`）と、
空でない数字の列 `IsNumeral`。値は桁が増えるほど大きくなるので、途中の値はどれも最後の値を
越えない。先頭の数字の列は `takeWhile Char.isDigit` で、数字の列の後に数字でない文字が続けば、
そこで切れる。
-/

namespace Decimal

/-- 数字 `c` の値 `c - '0'`。 -/
def digitValue (c : Char) : Nat := c.toNat - '0'.toNat

/-- `v` から始めて、`ds` の数字を左から読んだ値。 -/
def valueFrom (v : Nat) (ds : List Char) : Nat := ds.foldl (fun v c => v * 10 + digitValue c) v

/-- 数字の列 `ds` の値。 -/
def value (ds : List Char) : Nat := valueFrom 0 ds

/-- 空でない、数字だけの列。 -/
def IsNumeral (ds : List Char) : Prop := ds ≠ [] ∧ ∀ c ∈ ds, c.isDigit = true

instance (ds : List Char) : Decidable (IsNumeral ds) :=
  inferInstanceAs (Decidable (ds ≠ [] ∧ ∀ c ∈ ds, c.isDigit = true))

theorem digitValue_lt {c : Char} (h : c.isDigit = true) : digitValue c < 10 := by
  simp only [Char.isDigit, Bool.and_eq_true, decide_eq_true_eq, UInt32.le_iff_toNat_le] at h
  simp only [digitValue, Char.toNat]
  have h0 : ('0'.val).toNat = 48 := rfl
  have h9 : ('9'.val).toNat = 57 := rfl
  omega

@[simp] theorem valueFrom_nil (v : Nat) : valueFrom v [] = v := rfl

@[simp] theorem valueFrom_cons (v : Nat) (c : Char) (ds : List Char) :
    valueFrom v (c :: ds) = valueFrom (v * 10 + digitValue c) ds := by
  simp only [valueFrom, List.foldl_cons]

/-- 読み進めた値は減らない。 -/
theorem le_valueFrom (v : Nat) (ds : List Char) : v ≤ valueFrom v ds := by
  induction ds generalizing v with
  | nil => exact le_rfl
  | cons c ds ih => exact le_trans (by omega) (ih (v * 10 + digitValue c))

/-! ## 先頭の数字の列 -/

variable {ds rest : List Char}

/-- 数字でない文字から始まる列（空の列も含む）。 -/
def StopsDigits (rest : List Char) : Prop := ∀ c ∈ rest.head?, c.isDigit = false

theorem stopsDigits_nil : StopsDigits [] := nofun

theorem stopsDigits_dash (l : List Char) : StopsDigits ('-' :: l) := fun _ h => by cases h; rfl

theorem takeWhile_of_stops (h : StopsDigits rest) : rest.takeWhile Char.isDigit = [] := by
  cases rest with
  | nil => rfl
  | cons c rest => simp [h c rfl]

/-- 数字の列に、数字でない文字から始まる列が続けば、先頭の数字の列はその数字の列である。 -/
theorem takeWhile_append_of_stops (hd : ∀ c ∈ ds, c.isDigit = true) (h : StopsDigits rest) :
    (ds ++ rest).takeWhile Char.isDigit = ds := by
  rw [List.takeWhile_append_of_pos hd, takeWhile_of_stops h, List.append_nil]

theorem dropWhile_append_of_stops (hd : ∀ c ∈ ds, c.isDigit = true) (h : StopsDigits rest) :
    (ds ++ rest).dropWhile Char.isDigit = rest := by
  rw [List.dropWhile_append_of_pos hd]
  cases rest with
  | nil => rfl
  | cons c rest => simp [h c rfl]

end Decimal
