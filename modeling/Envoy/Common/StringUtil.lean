import Envoy.Lib.Segments
import Envoy.Common.IntervalSet

/-!
# `StringUtil` の文字列の関数

`source/common/common/utility.cc` の `StringUtil::trim`、`cropRight`、`cropLeft`、`splitToken` と、
`absl::EqualsIgnoreCase`、`removeCharacters`。`string_view` は文字の列で表す。ここで使う区切りはどれも一文字なので、
区切りを `Char` とする。
-/

namespace Envoy.StringUtil

/-- `StringUtil::WhitespaceChars`: `" \t\f\v\n\r"`。 -/
def whitespaceChars : List Char := [' ', '\t', '\x0c', '\x0b', '\n', '\r']

/-- `ltrim()`: 先頭の空白を除く。空白だけなら空。 -/
def ltrim (source : List Char) : List Char := source.dropWhile (· ∈ whitespaceChars)

/-- `rtrim()`: 末尾の空白を除く。 -/
def rtrim (source : List Char) : List Char := (source.reverse.dropWhile (· ∈ whitespaceChars)).reverse

/-- `trim()`: `ltrim(rtrim(source))`。 -/
def trim (source : List Char) : List Char := ltrim (rtrim source)

/-- `cropRight(source, delimiter)`: 最初の `delimiter` の前。無ければ全体。 -/
def cropRight (source : List Char) (delimiter : Char) : List Char := source.takeWhile (· ≠ delimiter)

/-- `cropLeft(source, delimiter)`: 最初の `delimiter` の後。無ければ全体。 -/
def cropLeft (source : List Char) (delimiter : Char) : List Char :=
  match source.dropWhile (· ≠ delimiter) with
  | [] => source
  | _ :: rest => rest

/-- `splitToken(source, delimiters, false)`: `absl::StrSplit(source, absl::ByAnyChar(delimiters),
absl::SkipEmpty())`。 -/
def splitToken (source : List Char) (delimiter : Char) : List (List Char) :=
  Segments.splitSkipEmpty delimiter source

/-- `absl::EqualsIgnoreCase`: ASCII の大文字と小文字を区別しない比較。 -/
def equalsIgnoreCase (a b : List Char) : Bool := a.map Char.toLower == b.map Char.toLower

/-- `removeCharacters` の for 文の一周: 区間の前の残す部分を `pieces` に足し、`pos` を区間の終わりへ。 -/
def removeCharactersStep (str : List Char) : Nat × List (List Char) → Nat × Nat → Nat × List (List Char)
  | (pos, pieces), (leftBound, rightBound) =>
    let pieces := if leftBound ≠ pos then pieces ++ [(str.drop pos).take (leftBound - pos)] else pieces
    (rightBound, pieces)

/-- `removeCharacters(str, remove_characters)`: `toVector()` の区間の間の部分をつなぐ。 -/
def removeCharacters (str : List Char) (removeCharacters : IntervalSetImpl Nat) : List Char :=
  let intervals := removeCharacters.toVector
  let (pos, pieces) := intervals.foldl (removeCharactersStep str) (0, [])
  let pieces := if pos ≠ str.length then pieces ++ [str.drop pos] else pieces
  pieces.flatten

example : trim " gzip ".toList = "gzip".toList := by decide
example : cropLeft "gzip;q=0.5".toList ';' = "q=0.5".toList := by decide

end Envoy.StringUtil
