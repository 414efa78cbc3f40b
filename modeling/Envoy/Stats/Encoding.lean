import Mathlib

/-!
# `SymbolTable::Encoding` と `StatName` の byte 列

`source/common/stats/symbol_table.{h,cc}`。`StatName` は `size_and_data_` から始まる byte 列で、
先頭に中身の長さを可変長で持ち、続く中身は symbol の可変長の符号と、
`LiteralStringIndicator` に始まる文字列の並びである。文字列は byte 列（`absl::string_view`）で表す。
-/

namespace Envoy.Stats

abbrev Bytes := List UInt8

/-- `Symbol`（`uint32_t`）。 -/
abbrev Symbol := Nat

def firstValidSymbol : Symbol := 1

def literalStringIndicator : UInt8 := 0

/-- `'.'`。 -/
def dot : UInt8 := 46

/-- symbol の列を一つの塊に符号化する途中の値: `data_bytes_required_` と `mem_block_`。 -/
structure SymbolTable.Encoding where
  dataBytesRequired : Nat
  memBlock : Bytes

namespace SymbolTable.Encoding

def spilloverMask : Nat := 0x80

def low7Bits : Nat := 0x7f

/-- `do { ... } while (number != 0)` の一回分の byte。 -/
def encodingByte (number : Nat) : UInt8 :=
  if number < 1 <<< 7 then number.toUInt8 else ((number &&& low7Bits) ||| spilloverMask).toUInt8

/-- `appendEncoding()` の `do ... while`。一回ごとに `number` は 7 bit 縮むので、`number + 1` 回で足りる。 -/
def appendEncodingLoop : Nat → Nat → Bytes
  | 0, _ => []
  | fuel + 1, number =>
    if number >>> 7 = 0 then [encodingByte number]
    else encodingByte number :: appendEncodingLoop fuel (number >>> 7)

def appendEncoding (number : Nat) : Bytes := appendEncodingLoop (number + 1) number

def encodingSizeBytesLoop : Nat → Nat → Nat
  | 0, _ => 0
  | fuel + 1, number => if number >>> 7 = 0 then 1 else encodingSizeBytesLoop fuel (number >>> 7) + 1

def encodingSizeBytes (number : Nat) : Nat := encodingSizeBytesLoop (number + 1) number

def totalSizeBytes (numDataBytes : Nat) : Nat := encodingSizeBytes numDataBytes + numDataBytes

/-- `decodeNumber()`: 数と、読んだ byte の数。`for` の一回ごとを、残りの列への再帰で書く。
列が尽きれば source は列の外を読むが、ここでは `(0, 0)` とする。 -/
def decodeNumber : Bytes → Nat × Nat
  | [] => (0, 0)
  | b :: rest =>
    if b.toNat < spilloverMask then (b.toNat, 1)
    else
      let r := decodeNumber rest
      ((b.toNat &&& low7Bits) ||| (r.1 <<< 7), r.2 + 1)

def addSymbols (symbols : List Symbol) : Encoding :=
  ⟨(symbols.map encodingSizeBytes).sum, symbols.flatMap appendEncoding⟩

/-- `moveToMemBlock()`: 長さを前に付ける。 -/
def moveToMemBlock (e : Encoding) : Bytes := appendEncoding e.dataBytesRequired ++ e.memBlock

end SymbolTable.Encoding

open SymbolTable.Encoding

/-- `StatName`: `size_and_data_` から読める byte 列。 -/
abbrev StatName := Bytes

namespace StatName

def dataAsStringView (s : StatName) : Bytes :=
  let r := decodeNumber s
  (s.drop r.2).take r.1

def dataSize (s : StatName) : Nat := s.dataAsStringView.length

def size (s : StatName) : Nat := totalSizeBytes s.dataSize

/-- `empty()`: 先頭の byte が 0。 -/
def empty (s : StatName) : Bool := s.head? == some 0

end StatName

/-! ## 字句の取り出し -/

/-- `TokenIter::next()` が返す字句。`End` は `next` の `none` で表す。 -/
inductive Token where
  | symbol (symbol : Symbol)
  | stringView (sv : Bytes)
deriving DecidableEq, Repr

namespace SymbolTable.Encoding

structure TokenIter where
  array : Bytes
  size : Nat

namespace TokenIter

def create (statName : StatName) : TokenIter :=
  let sizeConsumed := decodeNumber statName
  ⟨statName.drop sizeConsumed.2, sizeConsumed.1⟩

def next (it : TokenIter) : Option (Token × TokenIter) :=
  if it.size = 0 then none
  else if it.array.head? = some literalStringIndicator then
    let array := it.array.drop 1
    let lengthConsumed := decodeNumber array
    let array := array.drop lengthConsumed.2
    some (.stringView (array.take lengthConsumed.1),
      ⟨array.drop lengthConsumed.1, it.size - 1 - lengthConsumed.2 - lengthConsumed.1⟩)
  else
    let symbolConsumed := decodeNumber it.array
    some (.symbol symbolConsumed.1, ⟨it.array.drop symbolConsumed.2, it.size - symbolConsumed.2⟩)

end TokenIter

/-- `decodeTokens()` の `while`。字句ごとに一 byte 以上読むので、byte の数だけ回れば足りる。 -/
def decodeTokensLoop : Nat → TokenIter → List Token
  | 0, _ => []
  | fuel + 1, it =>
    match it.next with
    | none => []
    | some (token, it') => token :: decodeTokensLoop fuel it'

/-- `decodeTokens()`。二つの callback は、字句の列を順に受け取る関数として外に置く。 -/
def decodeTokens (statName : StatName) : List Token :=
  decodeTokensLoop statName.length (TokenIter.create statName)

def decodeSymbols (statName : StatName) : List Symbol :=
  (decodeTokens statName).filterMap fun
    | .symbol s => some s
    | .stringView _ => none

end SymbolTable.Encoding

/-! ## 文字列の道具 -/

/-- `StringUtil::removeTrailingCharacters()`: `find_last_not_of` の後ろを落とす。 -/
def removeTrailingCharacters (source : Bytes) (ch : UInt8) : Bytes := source.rdropWhile (· == ch)

/-- `absl::StrSplit(name, '.')`。 -/
def strSplit (name : Bytes) (ch : UInt8) : List Bytes := name.splitOn ch

/-- `absl::StrJoin(strings, ".")`。 -/
def strJoin (strings : List Bytes) (ch : UInt8) : Bytes := [ch].intercalate strings

namespace SymbolTable

open Encoding

/-- `makeDynamicStorage()`: `[全体の長さ, LiteralStringIndicator, 名前の長さ, 名前]`。 -/
def makeDynamicStorage (name : Bytes) : StatName :=
  let name := removeTrailingCharacters name dot
  let payloadBytes := totalSizeBytes name.length + 1
  appendEncoding payloadBytes ++ [literalStringIndicator] ++ appendEncoding name.length ++ name

/-- `join()`: 空でない名前の中身の長さを足し、中身をつなぐ。参照の数は増やさない。 -/
def join (statNames : List StatName) : StatName :=
  let numBytes := (statNames.map fun s => if s.empty then 0 else s.dataSize).sum
  appendEncoding numBytes ++ statNames.flatMap StatName.dataAsStringView

/-- `getDynamicSpans()` の callback: `index` は字句を `.` で数えた位置。 -/
def getDynamicSpansLoop : Nat → List Token → List (Nat × Nat)
  | _, [] => []
  | index, .symbol _ :: tokens => getDynamicSpansLoop (index + 1) tokens
  | index, .stringView str :: tokens =>
    let last := index + str.count dot
    (index, last) :: getDynamicSpansLoop (last + 1) tokens

def getDynamicSpans (statName : StatName) : List (Nat × Nat) :=
  getDynamicSpansLoop 0 (decodeTokens statName)

end SymbolTable

/-! ## `StatNameList` -/

namespace StatNameList

/-- `iterate()` の `for`: 名前ごとに `StatName(p).size()` byte 進む。 -/
def iterateLoop : Nat → Bytes → List StatName
  | 0, _ => []
  | n + 1, p => p.take (StatName.size p) :: iterateLoop n (p.drop (StatName.size p))

/-- `iterate()`: 先頭の byte が名前の数。 -/
def iterate (storage : Bytes) : List StatName :=
  match storage with
  | [] => []
  | numElements :: p => iterateLoop numElements.toNat p

end StatNameList

end Envoy.Stats
