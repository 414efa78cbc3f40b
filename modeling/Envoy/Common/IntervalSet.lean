import Envoy.Lib.Intervals

/-!
# `IntervalSetImpl<Value>`

`source/common/common/utility.h` の `IntervalSetImpl`。`intervals_` は比較 `Compare`（`a.second < b.first`）
で並ぶ `std::set` で、この比較では重なるか接する二つの区間が同値になる。`std::set` はその並びの列で表し、
`lower_bound`、`upper_bound`、`insert`、`erase` を、列の上で標準の意味のとおりに書く。

`test(value)` の `value + 1` は、`lower_bound` が鍵の始まりしか見ないので結果に関わらない。
-/

namespace Envoy

structure IntervalSetImpl (V : Type*) where
  intervals : List (V × V)
  deriving DecidableEq, Repr

namespace IntervalSetImpl

variable {V : Type*} [LinearOrder V]

def empty : IntervalSetImpl V := ⟨[]⟩

/-- `Compare::operator()`。 -/
def compare (a b : V × V) : Bool := decide (a.2 < b.1)

/-- `std::set::lower_bound(key)`: `compare(e, key)` でない最初の要素の位置。 -/
def lowerBound (s : List (V × V)) (key : V × V) : Nat := s.findIdx fun e => !compare e key

/-- `std::set::upper_bound(key)`: `compare(key, e)` である最初の要素の位置。 -/
def upperBound (s : List (V × V)) (key : V × V) : Nat := s.findIdx fun e => compare key e

/-- `std::set::insert(x)`: `lower_bound(x)` の要素が `x` と同値なら入れず、そうでなければその前に入れる。 -/
def setInsert (s : List (V × V)) (x : V × V) : List (V × V) :=
  let pos := lowerBound s x
  match s[pos]? with
  | some e => if compare x e then s.insertIdx pos x else s
  | none => s.insertIdx pos x

/-- `std::set::erase(first, last)`: 位置 `[first, last)` の要素を消す。 -/
def eraseRange (s : List (V × V)) (first last : Nat) : List (V × V) := s.take first ++ s.drop last

def insert (t : IntervalSetImpl V) (left right : V) : IntervalSetImpl V :=
  if left = right then t
  else
    let intervals := t.intervals
    let leftPos := lowerBound intervals (left, left)
    let rightPos := upperBound intervals (right, right)
    -- 重なるか接する区間の並び `[left_pos, right_pos)` があれば、それを消して一つにまとめる
    let merged : V × V × List (V × V) :=
      if intervals.isEmpty then (left, right, intervals)
      else
        match intervals[leftPos]? with
        | some lp =>
          if right ≥ lp.1 ∧ rightPos ≠ 0 then
            match intervals[rightPos - 1]? with
            | some rp =>
              if rp.2 ≥ left then (min lp.1 left, max rp.2 right, eraseRange intervals leftPos rightPos)
              else (left, right, intervals)
            | none => (left, right, intervals)
          else (left, right, intervals)
        | none => (left, right, intervals)
    ⟨setInsert merged.2.2 (merged.1, merged.2.1)⟩

def test [Add V] [One V] (t : IntervalSetImpl V) (value : V) : Bool :=
  match t.intervals[lowerBound t.intervals (value, value + 1)]? with
  | some e => decide (value ≥ e.1) && decide (value < e.2)
  | none => false

def toVector (t : IntervalSetImpl V) : List (V × V) := t.intervals

def clear (_ : IntervalSetImpl V) : IntervalSetImpl V := empty

end IntervalSetImpl

end Envoy
