import Mathlib

/-!
# `RangeUtils` と `readAndRemoveLeadingDigits`

`source/extensions/filters/http/cache/range_utils.cc` と `cache_headers_utils.cc` の
`readAndRemoveLeadingDigits`。`Range` header の値 `bytes=...` を `RawByteRange` の列に読み
（`parseRangeHeader`）、内容の長さに合わせて半開区間 `AdjustedByteRange` の列に直す
（`createAdjustedRangeDetails`）。`uint64_t` は `2 ^ 64` を法とする `Nat`、`uint32_t` の
`bytes_consumed` は `2 ^ 32` を法とする `Nat` とする。`string_view` は文字の列である。
-/

namespace Envoy.Cache

/-- `std::numeric_limits<uint64_t>::max()`。無い先頭位置（suffix）の印にも使う。 -/
def uint64Max : Nat := 2 ^ 64 - 1

/-- `RawByteRange`: 先頭が `UINT64_MAX` なら末尾の `last_byte_pos_` byte（suffix）、そうでなければ
閉区間 `[first, last]`。作る時の `ASSERT(isSuffix() || first <= last)` を持つ。 -/
structure RawByteRange where
  firstBytePos : Nat
  lastBytePos : Nat
  valid : firstBytePos = uint64Max ∨ firstBytePos ≤ lastBytePos
deriving DecidableEq

namespace RawByteRange

def isSuffix (r : RawByteRange) : Bool := r.firstBytePos = uint64Max

def suffixLength (r : RawByteRange) : Nat := r.lastBytePos

/-- suffix でない範囲は閉区間である。 -/
theorem le_of_not_isSuffix (r : RawByteRange) (h : ¬ r.isSuffix = true) : r.firstBytePos ≤ r.lastBytePos :=
  r.valid.resolve_left fun he => h (by simp [isSuffix, he])

end RawByteRange

/-- `AdjustedByteRange`: 半開区間 `[first, last)`。作る時の `ASSERT(first < last)` を持つ。 -/
structure AdjustedByteRange where
  first : Nat
  last : Nat
  lt : first < last
deriving DecidableEq

/-- `RangeDetails`: 内容で応えられるか、応える区間の列。 -/
structure RangeDetails where
  satisfiable : Bool
  ranges : List AdjustedByteRange
deriving DecidableEq

/-- 区間を端の組で見る。 -/
def RangeDetails.toPairs (d : RangeDetails) : Bool × List (Nat × Nat) :=
  (d.satisfiable, d.ranges.map fun r => (r.first, r.last))

namespace CacheHeadersUtils

/-- `readAndRemoveLeadingDigits` の `for` loop: 数字でない文字か終わりで抜け、値と読んだ数字の数を
返す。`new_val / 8 < val` で桁あふれとみれば `nullopt` を返す。 -/
def readDigits (val bytesConsumed : Nat) : List Char → Option (Nat × Nat)
  | [] => some (val, bytesConsumed)
  | cur :: rest =>
    if !cur.isDigit then some (val, bytesConsumed)
    else
      let newVal := (val * 10 + (cur.toNat - '0'.toNat)) % 2 ^ 64
      if newVal / 8 < val then none
      else readDigits newVal ((bytesConsumed + 1) % 2 ^ 32) rest

/-- `readAndRemoveLeadingDigits(str)`: 先頭の数字を読めば、その値と残りの文字列。読めなければ
`nullopt` で、`str` は変わらない。 -/
def readAndRemoveLeadingDigits (str : List Char) : Option Nat × List Char :=
  match readDigits 0 0 str with
  | some (val, bytesConsumed) => if bytesConsumed ≠ 0 then (some val, str.drop bytesConsumed) else (none, str)
  | none => (none, str)

end CacheHeadersUtils

namespace RangeUtils

open CacheHeadersUtils

/-- `absl::StrSplit(s, absl::MaxSplits(delim, n))`: 初めの `n` 個の `delim` で切る。 -/
def maxSplits (delim : Char) : Nat → List Char → List (List Char)
  | 0, s => [s]
  | n + 1, s =>
    if delim ∈ s then s.takeWhile (· ≠ delim) :: maxSplits delim n (s.dropWhile (· ≠ delim)).tail
    else [s]

/-- `parseRangeHeader` の loop の一回: `first-last` の一つを読む。無い `first` は suffix の印
`UINT64_MAX`、無い `last` も `UINT64_MAX` とする。 -/
def parseRange (curRange : List Char) : Option RawByteRange :=
  match readAndRemoveLeadingDigits curRange with
  | (first, curRange) =>
    if "-".toList.isPrefixOf curRange then
      match readAndRemoveLeadingDigits (curRange.drop 1) with
      | (last, curRange) =>
        if curRange ≠ [] then none
        else if first.isNone ∧ last.isNone then none
        else
          let first := first.getD uint64Max
          let last := last.getD uint64Max
          if h : first ≠ uint64Max ∧ first > last then none
          else some ⟨first, last, (Decidable.or_iff_not_imp_left.mpr fun hne => not_lt.mp fun hlt => h ⟨hne, hlt⟩)⟩
    else none

/-- `parseRangeHeader(range_header, max_byte_range_specs)`。 -/
def parseRangeHeader (rangeHeader : List Char) (maxByteRangeSpecs : Nat) : Option (List RawByteRange) :=
  if "bytes=".toList.isPrefixOf rangeHeader then
    let ranges := maxSplits ',' maxByteRangeSpecs (rangeHeader.drop 6)
    if ranges.length > maxByteRangeSpecs then none
    else ranges.mapM parseRange
  else none

/-- `createAdjustedRangeDetails` の `for` loop。`ranges` はそれまでに `emplace_back` した区間。
全体を求める範囲に出会えば、区間を捨てて全体で応える。 -/
def adjustRanges (contentLength : Nat) (hlen : 0 < contentLength) :
    List RawByteRange → List AdjustedByteRange → RangeDetails
  | [], ranges => ⟨!ranges.isEmpty, ranges⟩
  | spec :: rest, ranges =>
    if hsuf : spec.isSuffix then
      if hzero : spec.suffixLength = 0 then adjustRanges contentLength hlen rest ranges
      else if spec.suffixLength ≥ contentLength then ⟨true, []⟩
      else
        adjustRanges contentLength hlen rest
          (ranges ++ [⟨contentLength - spec.suffixLength, contentLength,
            Nat.sub_lt hlen (Nat.pos_of_ne_zero hzero)⟩])
    else if hfirst : spec.firstBytePos ≥ contentLength then adjustRanges contentLength hlen rest ranges
    else if spec.lastBytePos ≥ contentLength - 1 then
      if spec.firstBytePos = 0 then ⟨true, []⟩
      else adjustRanges contentLength hlen rest (ranges ++ [⟨spec.firstBytePos, contentLength, not_le.mp hfirst⟩])
    else
      adjustRanges contentLength hlen rest
        (ranges ++ [⟨spec.firstBytePos, spec.lastBytePos + 1, Nat.lt_succ_of_le (spec.le_of_not_isSuffix hsuf)⟩])

/-- `createAdjustedRangeDetails(request_range_spec, content_length)`。 -/
def createAdjustedRangeDetails (requestRangeSpec : List RawByteRange) (contentLength : Nat) : RangeDetails :=
  if requestRangeSpec = [] then ⟨true, []⟩
  else if hlen : contentLength = 0 then ⟨false, []⟩
  else adjustRanges contentLength (Nat.pos_of_ne_zero hlen) requestRangeSpec []

/-- `createRangeDetails(range_header, content_length)`: 範囲は一つまで（`RangeSpecifierLimit = 1`）。 -/
def createRangeDetails (rangeHeader : List Char) (contentLength : Nat) : Option RangeDetails :=
  (parseRangeHeader rangeHeader 1).map (createAdjustedRangeDetails · contentLength)

end RangeUtils

end Envoy.Cache
