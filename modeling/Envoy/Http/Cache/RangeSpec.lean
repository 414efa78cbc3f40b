import Envoy.Http.Cache.RangeUtils
import Envoy.Lib.Decimal

/-!
# 一つの byte 範囲の `Range` header（RFC 9110）

`Range: bytes=...` の値のうち、範囲を一つだけ書いたものの文法と意味。範囲は `A-B`（`A ≤ B`）、
`A-`、`-N` のどれかで、`A`、`B`、`N` は値が `2 ^ 64` 未満の十進の数字の列である。長さ `L` の内容に
対して、`A-B` は `[A, min(B, L - 1) + 1)`（`A-` は `B` を無限とする）、`-N` は末尾の `N` byte を
求める。内容に収まらなければ応えられず、内容全体を求めるなら区間を付けずに全体で応える。
-/

namespace Envoy.Cache

open Decimal

/-- 一つの範囲の書き方。 -/
inductive RangeSpec where
  /-- `A-B`。 -/
  | closed (a b : List Char)
  /-- `A-`。 -/
  | openEnded (a : List Char)
  /-- `-N`。 -/
  | suffix (n : List Char)
deriving DecidableEq

/-- `2 ^ 64` 未満の値の十進の数字の列。 -/
def IsUint64Numeral (ds : List Char) : Prop := IsNumeral ds ∧ value ds < 2 ^ 64

instance (ds : List Char) : Decidable (IsUint64Numeral ds) :=
  inferInstanceAs (Decidable (IsNumeral ds ∧ value ds < 2 ^ 64))

namespace RangeSpec

/-- header の値の `bytes=` の後に書く文字の列。 -/
def render : RangeSpec → List Char
  | closed a b => a ++ '-' :: b
  | openEnded a => a ++ ['-']
  | suffix n => '-' :: n

/-- RFC 9110 の文法に合う: 数字の列は `2 ^ 64` 未満で、`A-B` は `A ≤ B`。 -/
def WellFormed : RangeSpec → Prop
  | closed a b => IsUint64Numeral a ∧ IsUint64Numeral b ∧ value a ≤ value b
  | openEnded a => IsUint64Numeral a
  | suffix n => IsUint64Numeral n

/-- 先頭の位置。`-N` には無い。 -/
def firstPos : RangeSpec → Option Nat
  | closed a _ => some (value a)
  | openEnded a => some (value a)
  | suffix _ => none

end RangeSpec

/-- 長さ `L` の内容への、先頭 `A`、末尾 `B`（`none` は無限）の範囲の答え。 -/
def byteRangeDetails (L A : Nat) (B : Option Nat) : Bool × List (Nat × Nat) :=
  if L ≤ A then (false, [])
  else if A = 0 ∧ ∀ b ∈ B, L - 1 ≤ b then (true, [])
  else (true, [(A, (B.map (min · (L - 1))).getD (L - 1) + 1)])

/-- 長さ `L` の内容への、末尾 `N` byte の範囲の答え。 -/
def suffixDetails (L N : Nat) : Bool × List (Nat × Nat) :=
  if N = 0 then (false, [])
  else if L ≤ N then (true, [])
  else (true, [(L - N, L)])

/-- 範囲の意味: 応えられるか、応える半開区間の列。 -/
def RangeSpec.details (L : Nat) : RangeSpec → Bool × List (Nat × Nat)
  | .closed a b => byteRangeDetails L (value a) (some (value b))
  | .openEnded a => byteRangeDetails L (value a) none
  | .suffix n => suffixDetails L (value n)

end Envoy.Cache
