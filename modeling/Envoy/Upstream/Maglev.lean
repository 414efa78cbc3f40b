import Envoy.Common.BitArray
import Envoy.Lib.Stride

/-!
# Maglev の表

`source/extensions/load_balancing_policies/maglev/maglev_lb.{h,cc}` と、表の大きさの検査に使う
`Primes::isPrime()`（`source/common/common/utility.cc`）。

表作りは論文の pseudocode listing 1: host ごとに `offset` から `skip` ずつ進む位置の列を持ち、順に、まだ
埋まっていない次の位置を取る。重みの小さい host は `iteration * weight_ < target_weight_` の回を飛ばす。
`OriginalMaglevTable` は位置に host を置き、`CompactMaglevTable` は `BitArray` に entry の番号を置いて、
埋まった位置を `occupied` で覚える。二つの loop は表の持ち方の他は同じなので、表の型 `T` と、位置が
埋まっているかと位置を埋める関数を引数に取る一つの定義 `fillTable` で表す。

`xxHash64` は引数の関数 `hash`（key と seed から `uint64_t`）とする。重みの `double` は全順序の体 `D`。
`iteration` は `uint32_t` だが、表が埋まるまでの回数（表の大きさ以下）では桁あふれしないので自然数。
二つの `while` と外の `for` は、表の大きさが素数でなければ止まらないことがあるので、表の大きさより一つ
多い回数で区切り、使い切れば `none` とする。`table_size_` が 0 か 1 の時の `% table_size_` と
`% (table_size_ - 1)` は 0 での割り算で、これも `none`。`next_` は増やすだけで読まれないので持たない。
-/

namespace Envoy

/-! ## `Primes::isPrime()` -/

namespace Primes

/-- `Primes::isPrime(uint32_t x)`。`sqrt(x)` の切り捨ては `Nat.sqrt`（`uint32_t` の範囲で `double` の平方根は
切り捨てを変えない）。`for` が試す因数は、3 から `limit` までの奇数。 -/
def isPrime (x : Nat) : Bool :=
  if x ≠ 0 ∧ x < 4 then true
  else if x % 2 = 0 then false
  else
    let limit := Nat.sqrt x
    (List.range' 3 ((limit - 1) / 2) 2).all fun factor => x % factor ≠ 0

end Primes

namespace Upstream

namespace Maglev

variable {H D T : Type _}

/-- `MaglevTable::TableBuildEntry`。`offset_` は `current_permutation_` の初めの値としてだけ使われる。 -/
structure TableBuildEntry (H D : Type _) where
  host : H
  skip : Nat
  weight : D
  targetWeight : D
  count : Nat
  currentPermutation : Nat

/-- `TableBuildEntry(host, offset, skip, weight)`。 -/
def TableBuildEntry.init [Zero D] (host : H) (offset skip : Nat) (weight : D) : TableBuildEntry H D :=
  ⟨host, skip, weight, 0, 0, offset⟩

/-- `while (table_[c] != nullptr)`（`CompactMaglevTable` では `while (occupied[c])`）: 埋まった位置を
`skip_` ずつ飛ばす。 -/
def probe (occupied : Nat → Bool) (tableSize skip : Nat) : Nat → Nat → Option Nat
  | 0, _ => none
  | fuel + 1, c => if occupied c then probe occupied tableSize skip fuel (Stride.next tableSize skip c) else some c

section Fill

variable [Field D] [LinearOrder D]
variable (occupied : T → Nat → Bool) (fill : T → Nat → Nat → H → T) (tableSize : Nat) (maxNormalizedWeight : D)

/-- 一つの entry が位置 `c` を取った後: `target_weight_` を進め、次の位置から探すようにする。 -/
def TableBuildEntry.picked (entry : TableBuildEntry H D) (c : Nat) : TableBuildEntry H D :=
  { entry with
    targetWeight := entry.targetWeight + maxNormalizedWeight
    count := entry.count + 1
    currentPermutation := Stride.next tableSize entry.skip c }

/-- 内側の `for`: `i` 番目の entry から順に、表が埋まるまで、飛ばさない entry に一つずつ位置を取らせる。
表と `table_index` と、書き換えた entry の列を返す。 -/
def fillIteration (iteration fuel : Nat) :
    Nat → T → Nat → List (TableBuildEntry H D) → Option (T × Nat × List (TableBuildEntry H D))
  | _, table, tableIndex, [] => some (table, tableIndex, [])
  | i, table, tableIndex, entry :: entries =>
    if tableIndex < tableSize then
      if (iteration : D) * entry.weight < entry.targetWeight then
        (fillIteration iteration fuel (i + 1) table tableIndex entries).map fun r => (r.1, r.2.1, entry :: r.2.2)
      else
        match probe (occupied table) tableSize entry.skip fuel entry.currentPermutation with
        | none => none
        | some c =>
          (fillIteration iteration fuel (i + 1) (fill table c i entry.host) (tableIndex + 1) entries).map
            fun r => (r.1, r.2.1, entry.picked tableSize maxNormalizedWeight c :: r.2.2)
    else some (table, tableIndex, entry :: entries)

/-- 外側の `for`: 表が埋まるまで `iteration` を一つずつ増やす。 -/
def fillTable (fuel : Nat) :
    Nat → Nat → T → Nat → List (TableBuildEntry H D) → Option (T × List (TableBuildEntry H D))
  | 0, _, _, _, _ => none
  | rounds + 1, iteration, table, tableIndex, entries =>
    if tableIndex < tableSize then
      match fillIteration occupied fill tableSize maxNormalizedWeight iteration fuel 0 table tableIndex entries with
      | none => none
      | some (table, tableIndex, entries) => fillTable fuel rounds (iteration + 1) table tableIndex entries
    else some (table, entries)

/-- `constructImplementationInternals()` の loop: `iteration` は 1 から、`table_index` は 0 から。 -/
def constructTable (table : T) (entries : List (TableBuildEntry H D)) : Option (T × List (TableBuildEntry H D)) :=
  fillTable occupied fill tableSize maxNormalizedWeight (tableSize + 1) (tableSize + 1) 1 table 0 entries

end Fill

/-! ## `constructMaglevTableInternal()` -/

/-- host を hash の key で並べ、`offset` と `skip` を決める。`std::sort` は組 `(key, host, weight)` の順で、
key の等しい host は指す先の番地で並ぶが、それは持たず元の順に置く。 -/
def tableBuildEntries [Zero D] (hash : String → UInt64 → UInt64) (hashKey : H → String) (tableSize : Nat)
    (normalizedHostWeights : List (H × D)) : Option (List (TableBuildEntry H D)) :=
  if tableSize ≤ 1 then none
  else
    let sorted := (normalizedHostWeights.map fun hw => (hashKey hw.1, hw)).mergeSort fun a b => decide (a.1 ≤ b.1)
    some (sorted.map fun s =>
      TableBuildEntry.init s.2.1 ((hash s.1 0).toNat % tableSize) ((hash s.1 1).toNat % (tableSize - 1) + 1) s.2.2)

/-- 統計 `min_entries_per_host` と `max_entries_per_host`。 -/
def entriesPerHost (tableSize : Nat) (entries : List (TableBuildEntry H D)) : Nat × Nat :=
  entries.foldl (fun s entry => (min entry.count s.1, max entry.count s.2)) (tableSize, 0)

/-- retry の時の hash: `hash ^= ~0ULL - attempt + 1`。 -/
def retryHash (hash : UInt64) (attempt : UInt32) : UInt64 :=
  if attempt > 0 then hash ^^^ (~~~0 - attempt.toUInt64 + 1) else hash

end Maglev

open Maglev

/-! ## `OriginalMaglevTable` -/

structure OriginalMaglevTable (H : Type _) where
  tableSize : Nat
  table : List (Option H)

namespace OriginalMaglevTable

variable {H D : Type _} [Field D] [LinearOrder D]

/-- `table_[c]` に host を置く。 -/
def constructImplementationInternals (tableSize : Nat) (maxNormalizedWeight : D)
    (entries : List (TableBuildEntry H D)) : Option (List (Option H) × List (TableBuildEntry H D)) :=
  constructTable (fun table c => (table.getD c none).isSome) (fun table c _ host => table.set c (some host))
    tableSize maxNormalizedWeight (List.replicate tableSize none) entries

/-- コンストラクタ。host が無ければ表は空のまま。統計を書いた時はその値も返す。 -/
def create (hash : String → UInt64 → UInt64) (hashKey : H → String) (normalizedHostWeights : List (H × D))
    (maxNormalizedWeight : D) (tableSize : Nat) : Option (OriginalMaglevTable H × Option (Nat × Nat)) :=
  if normalizedHostWeights.isEmpty then some (⟨tableSize, []⟩, none)
  else do
    let entries ← tableBuildEntries hash hashKey tableSize normalizedHostWeights
    let (table, entries) ← constructImplementationInternals tableSize maxNormalizedWeight entries
    return (⟨tableSize, table⟩, some (entriesPerHost tableSize entries))

def chooseHost (t : OriginalMaglevTable H) (hash : UInt64) (attempt : UInt32) : Option H :=
  if t.table.isEmpty then none else t.table.getD ((retryHash hash attempt).toNat % t.tableSize) none

end OriginalMaglevTable

/-! ## `CompactMaglevTable` -/

structure CompactMaglevTable (H : Type _) where
  tableSize : Nat
  table : BitArray
  hostTable : List H

namespace CompactMaglevTable

variable {H D : Type _} [Field D] [LinearOrder D]

/-- 埋まった位置を `occupied` に、entry の番号 `i` を `table_` に書く。 -/
def constructImplementationInternals (tableSize : Nat) (maxNormalizedWeight : D) (table : BitArray)
    (entries : List (TableBuildEntry H D)) : Option ((List Bool × BitArray) × List (TableBuildEntry H D)) :=
  constructTable (fun t c => t.1.getD c false) (fun t c i _ => (t.1.set c true, t.2.set c (UInt32.ofNat i)))
    tableSize maxNormalizedWeight (List.replicate tableSize false, table) entries

/-- コンストラクタ: `table_(absl::bit_width(n), table_size)` を作ってから表を作る。`host_table_` は
entry の順の host。 -/
def create (hash : String → UInt64 → UInt64) (hashKey : H → String) (normalizedHostWeights : List (H × D))
    (maxNormalizedWeight : D) (tableSize : Nat) : Option (CompactMaglevTable H × Option (Nat × Nat)) := do
  let table ← BitArray.create normalizedHostWeights.length.size tableSize
  if normalizedHostWeights.isEmpty then return (⟨tableSize, table, []⟩, none)
  let entries ← tableBuildEntries hash hashKey tableSize normalizedHostWeights
  let ((_, table), entries) ← constructImplementationInternals tableSize maxNormalizedWeight table entries
  return (⟨tableSize, table, entries.map (·.host)⟩, some (entriesPerHost tableSize entries))

def chooseHost (t : CompactMaglevTable H) (hash : UInt64) (attempt : UInt32) : Option H :=
  if t.hostTable.isEmpty then none
  else
    match t.table.get ((retryHash hash attempt).toNat % t.tableSize) with
    | some index => t.hostTable[index.toNat]?
    | none => none

end CompactMaglevTable

/-! ## `DegenerateMaglevTable` と `MaglevFactory` -/

structure DegenerateMaglevTable (H : Type _) where
  singleHost : H

/-- どれか一つの表。 -/
inductive MaglevTable (H : Type _) where
  | degenerate (t : DegenerateMaglevTable H)
  | compact (t : CompactMaglevTable H)
  | original (t : OriginalMaglevTable H)

namespace MaglevTable

variable {H D : Type _} [Field D] [LinearOrder D]

def maxNumberOfHostsForCompactMaglev : Nat := 2 ^ 32 - 1

/-- `shouldUseCompactTable()`。`sizeof(HostConstSharedPtr)` は 64 bit の環境で 16。 -/
def shouldUseCompactTable (numHosts tableSize : Nat) : Bool :=
  if numHosts > maxNumberOfHostsForCompactMaglev then false
  else
    let sharedPtrSize := 16
    let originalMaglevCost := sharedPtrSize * tableSize
    let compactMaglevCost := sharedPtrSize * numHosts + numHosts.size * tableSize / 8
    compactMaglevCost < originalMaglevCost

/-- `DegenerateMaglevTable` のコンストラクタ: 表は作らず、ただ一つの host の `count_` を 1 にする。 -/
def createDegenerate (hash : String → UInt64 → UInt64) (hashKey : H → String) (normalizedHostWeights : List (H × D))
    (tableSize : Nat) : Option (DegenerateMaglevTable H × Option (Nat × Nat)) := do
  let entries ← tableBuildEntries hash hashKey tableSize normalizedHostWeights
  match entries with
  | [entry] => return (⟨entry.host⟩, some (entriesPerHost tableSize [{ entry with count := entry.count + 1 }]))
  | _ => none

/-- `MaglevFactory::createMaglevTable()`。 -/
def createMaglevTable (hash : String → UInt64 → UInt64) (hashKey : H → String) (normalizedHostWeights : List (H × D))
    (maxNormalizedWeight : D) (tableSize : Nat) : Option (MaglevTable H × Option (Nat × Nat)) :=
  if normalizedHostWeights.length = 1 then
    (createDegenerate hash hashKey normalizedHostWeights tableSize).map fun r => (degenerate r.1, r.2)
  else if shouldUseCompactTable normalizedHostWeights.length tableSize then
    (CompactMaglevTable.create hash hashKey normalizedHostWeights maxNormalizedWeight tableSize).map
      fun r => (compact r.1, r.2)
  else
    (OriginalMaglevTable.create hash hashKey normalizedHostWeights maxNormalizedWeight tableSize).map
      fun r => (original r.1, r.2)

def chooseHost : MaglevTable H → UInt64 → UInt32 → Option H
  | degenerate t, _, _ => some t.singleHost
  | compact t, hash, attempt => t.chooseHost hash attempt
  | original t, hash, attempt => t.chooseHost hash attempt

end MaglevTable

end Upstream

end Envoy
