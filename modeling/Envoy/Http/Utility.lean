import Mathlib

/-!
# `Http::Utility` の URI の関数

`source/common/http/utility.cc` の `PercentEncoding`、`extractSchemeHostPathFromUri()` と、
`QueryParamsMulti` の `parseParameters()`。文字列は byte の列（`char` の列）で表す。
`QueryParamsMulti::data_` は `absl::btree_map` なので、鍵の順（byte ごとの辞書順）に並べた列で表す。
-/

namespace Envoy.Http

abbrev Bytes := List UInt8

/-- 文字列の literal の byte 列。 -/
def lit (s : String) : Bytes := s.toList.map fun c => c.toNat.toUInt8

/-- `s.find(ch, start)`。 -/
def findFrom (s : Bytes) (ch : UInt8) (start : Nat) : Option Nat :=
  ((s.drop start).findIdx? (· == ch)).map (· + start)

/-- `s.find(pattern)`: 最初に現れる位置。 -/
def findSeq (pattern : Bytes) : Bytes → Option Nat
  | [] => if pattern.isEmpty then some 0 else none
  | c :: s => if pattern.isPrefixOf (c :: s) then some 0 else (findSeq pattern s).map (· + 1)

namespace Utility

namespace PercentEncoding

/-- `ch < ' ' || ch >= '~' || reserved_char_set.contains(ch)`。`char` は符号付きなので、0x80 以上も
`' '` より小さく、符号化される。 -/
def needsEncoding (reservedChars : Bytes) (ch : UInt8) : Bool :=
  ch < 32 || 126 ≤ ch || ch ∈ reservedChars

/-- `%{:02X}` の一桁。 -/
def hexDigit (n : UInt8) : UInt8 := if n < 10 then 48 + n else 55 + n

def encodeChar (reservedChars : Bytes) (ch : UInt8) : Bytes :=
  if needsEncoding reservedChars ch then [37, hexDigit (ch / 16), hexDigit (ch % 16)] else [ch]

/-- `encode(value, index, reserved_char_set)`: `index` の前はそのまま写し、`index` から一文字ずつ
符号化する。 -/
def encodeFrom (value : Bytes) (index : Nat) (reservedChars : Bytes) : Bytes :=
  value.take index ++ (value.drop index).flatMap (encodeChar reservedChars)

/-- `encode(value, reserved_chars)`: 符号化する文字が無ければそのまま、あれば最初のその文字から
一文字ずつ写す。 -/
def encode (value reservedChars : Bytes) : Bytes :=
  match value.findIdx? (needsEncoding reservedChars) with
  | none => value
  | some index => value.take index ++ (value.drop index).flatMap (encodeChar reservedChars)

def isXdigit (ch : UInt8) : Bool := (48 ≤ ch && ch ≤ 57) || (65 ≤ ch && ch ≤ 70) || (97 ≤ ch && ch ≤ 102)

def isDigit (ch : UInt8) : Bool := 48 ≤ ch && ch ≤ 57

/-- `ascii_toupper(ch) - 'A' + 10` か `ch - '0'`。 -/
def hexValue (ch : UInt8) : UInt8 :=
  if isDigit ch then ch - 48 else (if 97 ≤ ch then ch - 32 else ch) - 65 + 10

/-- `decode()`: `%` の後に十六進の二桁があれば一つの byte に戻す。`char` の掛け算は 256 で回る。 -/
def decode : Bytes → Bytes
  | 37 :: hi :: lo :: rest =>
    if isXdigit hi && isXdigit lo then (hexValue hi * 16 + hexValue lo) :: decode rest
    else 37 :: decode (hi :: lo :: rest)
  | ch :: rest => ch :: decode rest
  | [] => []

end PercentEncoding

/-- `extractSchemeHostPathFromUri()`: `://` の後から最初の `/` の前までが host。`/` が無ければ
全体が host で、path は `/`。 -/
def extractSchemeHostPathFromUri (uri : Bytes) : Bytes × Bytes × Bytes :=
  let pos := findSeq (lit "://") uri
  let scheme := uri.take (pos.getD 0)
  let hostPos := match pos with
    | none => 0
    | some p => p + 3
  match findFrom uri 47 hostPos with
  | none => (scheme, uri.drop hostPos, lit "/")
  | some pathPos => (scheme, (uri.drop hostPos).take (pathPos - hostPos), uri.drop pathPos)

def extractHostPathFromUri (uri : Bytes) : Bytes × Bytes :=
  let r := extractSchemeHostPathFromUri uri
  (r.2.1, r.2.2)

/-- `QueryParamsMulti::data_`: 鍵の順に並べた、鍵と値の列。 -/
abbrev QueryParamsMulti := List (Bytes × List Bytes)

namespace QueryParamsMulti

/-- `add()`: 無い鍵は鍵の順の位置に置き、ある鍵には値を足す。 -/
def add : QueryParamsMulti → Bytes → Bytes → QueryParamsMulti
  | [], key, value => [(key, [value])]
  | (k, values) :: rest, key, value =>
    if k = key then (k, values ++ [value]) :: rest
    else if key < k then (key, [value]) :: (k, values) :: rest
    else (k, values) :: add rest key value

/-- `parseParameters()` の `while`: `&` で区切った一つずつを、`=` の前と後に分けて足す。 -/
def parseParametersLoop (decodeParams : Bool) : Nat → Bytes → QueryParamsMulti → QueryParamsMulti
  | 0, _, params => params
  | _ + 1, [], params => params
  | fuel + 1, data, params =>
    let param := data.takeWhile (· != 38)
    let params := match param.idxOf? 61 with
      | some equal =>
        let name := param.take equal
        let value := param.drop (equal + 1)
        add params (if decodeParams then PercentEncoding.decode name else name)
          (if decodeParams then PercentEncoding.decode value else value)
      | none => add params (if decodeParams then PercentEncoding.decode param else param) []
    parseParametersLoop decodeParams fuel (data.drop (param.length + 1)) params

def parseParameters (data : Bytes) (start : Nat) (decodeParams : Bool) : QueryParamsMulti :=
  parseParametersLoop decodeParams (data.length - start) (data.drop start) []

def parseQueryString (url : Bytes) : QueryParamsMulti :=
  match url.idxOf? 63 with
  | none => []
  | some start => parseParameters url (start + 1) false

end QueryParamsMulti

end Utility

end Envoy.Http
