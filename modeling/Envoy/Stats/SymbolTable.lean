import Envoy.Stats.Encoding
import Envoy.Lib.WriteAt

/-!
# `SymbolTable`

`source/common/stats/symbol_table.cc`。`encode_map_` は文字列から symbol と参照の数へ、
`decode_map_` は symbol から文字列への有限写像で、Mathlib の `AList` で表す。
使われなくなった symbol は `pool_`（`std::stack`、先頭が `top()`）に戻る。
`recent_lookups_` は、ここで扱う関数のどれも読まないので持たない。
ASSERT が破れる所（写像に無い symbol を引く所）は `none` を返す。
-/

namespace Envoy.Stats

structure SharedSymbol where
  symbol : Symbol
  refCount : Nat
deriving DecidableEq, Repr

structure SymbolTable where
  encodeMap : AList fun _ : Bytes => SharedSymbol
  decodeMap : AList fun _ : Symbol => Bytes
  nextSymbol : Symbol
  monotonicCounter : Symbol
  pool : List Symbol

namespace SymbolTable

open Encoding

/-- `SymbolTable()`。 -/
def create : SymbolTable := ⟨∅, ∅, firstValidSymbol, firstValidSymbol, []⟩

def numSymbols (t : SymbolTable) : Nat := t.encodeMap.keys.length

/-- `newSymbol()`: pool が空なら数を一つ進める。 -/
def newSymbol (t : SymbolTable) : SymbolTable :=
  match t.pool with
  | [] => { t with nextSymbol := t.monotonicCounter + 1, monotonicCounter := t.monotonicCounter + 1 }
  | top :: rest => { t with nextSymbol := top, pool := rest }

def toSymbol (t : SymbolTable) (sv : Bytes) : Symbol × SymbolTable :=
  match t.encodeMap.lookup sv with
  | none =>
    let t' := { t with
      encodeMap := t.encodeMap.insert sv ⟨t.nextSymbol, 1⟩
      decodeMap := t.decodeMap.insert t.nextSymbol sv }
    (t.nextSymbol, t'.newSymbol)
  | some sharedSymbol =>
    (sharedSymbol.symbol,
      { t with encodeMap := t.encodeMap.insert sv { sharedSymbol with refCount := sharedSymbol.refCount + 1 } })

/-- `addTokensToEncoding()` の `for`。 -/
def toSymbols (t : SymbolTable) : List Bytes → List Symbol × SymbolTable
  | [] => ([], t)
  | token :: tokens =>
    let r := t.toSymbol token
    let rest := r.2.toSymbols tokens
    (r.1 :: rest.1, rest.2)

def addTokensToEncoding (t : SymbolTable) (name : Bytes) : List Symbol × SymbolTable :=
  if name.isEmpty then ([], t) else t.toSymbols (strSplit name dot)

def encode (t : SymbolTable) (name : Bytes) : StatName × SymbolTable :=
  let name := removeTrailingCharacters name dot
  let r := t.addTokensToEncoding name
  (moveToMemBlock (addSymbols r.1), r.2)

/-- `fromSymbol()`。無い symbol は `RELEASE_ASSERT` で落ちる。 -/
def fromSymbol (t : SymbolTable) (symbol : Symbol) : Option Bytes := t.decodeMap.lookup symbol

def tokenString (t : SymbolTable) : Token → Option Bytes
  | .symbol symbol => t.fromSymbol symbol
  | .stringView sv => some sv

def decodeStrings (t : SymbolTable) (statName : StatName) : Option (List Bytes) :=
  (decodeTokens statName).mapM t.tokenString

def toString (t : SymbolTable) (statName : StatName) : Option Bytes :=
  (t.decodeStrings statName).map (strJoin · dot)

/-- `serializeToBuffer()` の `append`: `buffer_size` に入る分だけ `memcpy` で写し、要る長さは数え続ける。
組は書いた後の記憶と `bytes_required`。 -/
def serializeAppend (bufferSize : Nat) (acc : Bytes × Nat) (token : Bytes) : Bytes × Nat :=
  (if acc.2 < bufferSize ∧ token ≠ [] then acc.1.writeAt acc.2 (token.take (min token.length (bufferSize - acc.2)))
    else acc.1,
   acc.2 + token.length)

/-- `serializeToBuffer()` の `for`: 二つ目からの字句の前に `.` を置く。`fromSymbol()` に無い symbol は
`RELEASE_ASSERT` で落ちる。 -/
def serializeLoop (t : SymbolTable) (bufferSize : Nat) : Bool → Bytes × Nat → List Token → Option (Bytes × Nat)
  | _, acc, [] => some acc
  | first, acc, token :: tokens => do
    let acc := if first then acc else serializeAppend bufferSize acc [dot]
    let str ← t.tokenString token
    serializeLoop t bufferSize false (serializeAppend bufferSize acc str) tokens

/-- `serializeToBuffer()`: `buffer` は呼び出し元の記憶（null なら空）。返すのは `bytes_required` と書いた後の
記憶。 -/
def serializeToBuffer (t : SymbolTable) (statName : StatName) (buffer : Bytes) (bufferSize : Nat) :
    Option (Nat × Bytes) :=
  (t.serializeLoop bufferSize true (buffer, 0) (decodeTokens statName)).map fun r => (r.2, r.1)

/-- `a_type == b_type && a_type == Symbol && a_iter.symbol() == b_iter.symbol()`。 -/
def sameSymbol : Token → Token → Bool
  | .symbol a, .symbol b => a == b
  | _, _ => false

/-- `lessThanLockHeld()` の `while (true)`。どちらの名前も周ごとに一つの字句を読むので、`a` の byte の数
だけ回れば足りる。 -/
def lessThanLoop (t : SymbolTable) : Nat → TokenIter → TokenIter → Option Bool
  | 0, _, _ => none
  | fuel + 1, aIter, bIter =>
    match aIter.next, bIter.next with
    | _, none => some false  -- "x.y.z" > "x.y", "x.y" == "x.y"
    | none, some _ => some true  -- "x.y" < "x.y.z"
    | some (aToken, aIter), some (bToken, bIter) =>
      -- 同じ symbol は文字列に戻さずに進む
      if sameSymbol aToken bToken then t.lessThanLoop fuel aIter bIter
      else do
        let aToken ← t.tokenString aToken
        let bToken ← t.tokenString bToken
        if aToken ≠ bToken then some (decide (aToken < bToken)) else t.lessThanLoop fuel aIter bIter

/-- `lessThan(a, b)`。 -/
def lessThan (t : SymbolTable) (a b : StatName) : Option Bool :=
  t.lessThanLoop (a.length + 1) (TokenIter.create a) (TokenIter.create b)

/-- `StatName::startsWith(prefix)` の `while (true)`。`prefix` の字句は symbol に限る。 -/
def startsWithLoop : Nat → TokenIter → TokenIter → Option Bool
  | 0, _, _ => none
  | fuel + 1, thisIter, prefixIter =>
    match prefixIter.next, thisIter.next with
    | none, _ => some true  -- "a.b.c" starts with "a.b" or "a.b.c"
    | some _, none => some false  -- "a.b" does not start with "a.b.c"
    | some (.stringView _, _), some _ => some false  -- prefix に動的な字句は許さない
    | some (.symbol p, prefixIter), some (thisToken, thisIter) =>
      if thisToken = .symbol p then startsWithLoop fuel thisIter prefixIter else some false

/-- `statName.startsWith(prefix)`。 -/
def startsWith (statName pfx : StatName) : Option Bool :=
  startsWithLoop (pfx.length + 1) (TokenIter.create statName) (TokenIter.create pfx)

/-- `incRefCount()` の `for` の一回。 -/
def incRefCountSymbol (t : SymbolTable) (symbol : Symbol) : Option SymbolTable := do
  let str ← t.decodeMap.lookup symbol
  let sharedSymbol ← t.encodeMap.lookup str
  pure { t with encodeMap := t.encodeMap.insert str { sharedSymbol with refCount := sharedSymbol.refCount + 1 } }

def incRefCount (t : SymbolTable) (statName : StatName) : Option SymbolTable :=
  (decodeSymbols statName).foldlM incRefCountSymbol t

/-- `free()` の `for` の一回: 最後の参照なら二つの写像から消し、symbol を pool に戻す。
`uint32_t` の `--ref_count_` は、参照の数が正である限り自然数の引き算に等しい。 -/
def freeSymbol (t : SymbolTable) (symbol : Symbol) : Option SymbolTable := do
  let str ← t.decodeMap.lookup symbol
  let sharedSymbol ← t.encodeMap.lookup str
  if sharedSymbol.refCount - 1 = 0 then
    pure { t with
      decodeMap := t.decodeMap.erase symbol
      encodeMap := t.encodeMap.erase str
      pool := symbol :: t.pool }
  else
    pure { t with encodeMap := t.encodeMap.insert str { sharedSymbol with refCount := sharedSymbol.refCount - 1 } }

def free (t : SymbolTable) (statName : StatName) : Option SymbolTable :=
  (decodeSymbols statName).foldlM freeSymbol t

/-- `populateList()`: 名前の数の byte に続けて各名前を置き、それぞれの参照を数える。
名前が 256 以上なら `RELEASE_ASSERT` で落ちる。 -/
def populateList (t : SymbolTable) (names : List StatName) : Option (Bytes × SymbolTable) :=
  if names.length < 256 then
    (names.foldlM incRefCount t).map fun t' =>
      (names.length.toUInt8 :: names.flatMap fun n => n.take n.size, t')
  else none

/-- `StatNameList::clear()`。 -/
def clearList (t : SymbolTable) (storage : Bytes) : Option SymbolTable :=
  (StatNameList.iterate storage).foldlM free t

/-- 表を変える呼び出し。`makeDynamicStorage()` と `join()` は表に触れない。 -/
inductive Op where
  | encode (name : Bytes)
  | incRefCount (statName : StatName)
  | free (statName : StatName)
  | populateList (names : List StatName)
  | clearList (storage : Bytes)

def step (t : SymbolTable) : Op → Option SymbolTable
  | .encode name => some (t.encode name).2
  | .incRefCount statName => t.incRefCount statName
  | .free statName => t.free statName
  | .populateList names => (t.populateList names).map Prod.snd
  | .clearList storage => t.clearList storage

end SymbolTable

end Envoy.Stats
