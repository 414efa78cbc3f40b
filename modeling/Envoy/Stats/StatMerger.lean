import Envoy.Stats.SymbolTable

/-!
# `StatMerger::DynamicContext::makeDynamicStatName()`

`source/common/stats/stat_merger.cc`。hot restart で親から届いた名前の文字列を、
`.` で区切った番号の span（`DynamicSpans`）に従って、symbol の名前と動的な名前に分けて作り直す。
`symbolic_pool_.add()` は表で `encode()` し、`dynamic_pool_.add()` は `makeDynamicStorage()` で、
最後に `join()` でつなぐ。`DynamicsMap` は名前から span の列への部分関数で表す。
ASSERT が破れる所は `none` を返す。
-/

namespace Envoy.Stats

open SymbolTable SymbolTable.Encoding

/-- `DynamicSpan`: 動的な名前の最初と最後の区切りの番号。 -/
abbrev DynamicSpan := Nat × Nat

abbrev DynamicSpans := List DynamicSpan

/-- `DynamicsMap`（`absl::flat_hash_map`）の `find()`。 -/
abbrev DynamicsMap := Bytes → Option DynamicSpans

namespace StatMerger

/-- `for` の変数: 表、残りの span（`dynamic` から `dynamic_end` まで）、`segments`、
`segment_index`、`dynamic_segments`。 -/
structure SegmentState where
  table : SymbolTable
  dynamic : DynamicSpans
  segments : List StatName
  segmentIndex : Nat
  dynamicSegments : List Bytes

/-- span の始まりでない区切り: 動的な span の外なら symbol の名前、中なら動的な区切りを足す。 -/
def addSegment (s : SegmentState) (segment : Bytes) : Option SegmentState :=
  if s.dynamicSegments.isEmpty then
    let r := s.table.encode segment
    some { s with table := r.2, segments := s.segments ++ [r.1] }
  else
    let dynamicSegments := s.dynamicSegments ++ [segment]
    match s.dynamic with
    | (_, last) :: rest =>
      if last = s.segmentIndex then
        some { s with
          segments := s.segments ++ [SymbolTable.makeDynamicStorage (strJoin dynamicSegments dot)]
          dynamicSegments := []
          dynamic := rest }
      else some { s with dynamicSegments := dynamicSegments }
    -- 動的な span の中では `dynamic` は終わりでない
    | [] => none

/-- `for (auto segment : absl::StrSplit(name, '.'))` の一回。 -/
def segmentStep (s : SegmentState) (segment : Bytes) : Option SegmentState :=
  let next := match s.dynamic with
    | (first, last) :: rest =>
      if first = s.segmentIndex then
        -- `ASSERT(dynamic_segments.empty())`
        if s.dynamicSegments.isEmpty then
          if last = s.segmentIndex then
            some { s with
              segments := s.segments ++ [SymbolTable.makeDynamicStorage segment]
              dynamic := rest }
          else some { s with dynamicSegments := [segment] }
        else none
      else addSegment s segment
    | [] => addSegment s segment
  next.map fun s' => { s' with segmentIndex := s'.segmentIndex + 1 }

/-- `makeDynamicStatName()`。作った名前と、`symbolic_pool_` の分だけ参照の増えた表。 -/
def makeDynamicStatName (t : SymbolTable) (name : Bytes) (map : DynamicsMap) : Option (StatName × SymbolTable) :=
  match map name with
  | none => some (t.encode name)
  | some dynamicSpans => do
    let s ← (strSplit name dot).foldlM segmentStep ⟨t, dynamicSpans, [], 0, []⟩
    -- `ASSERT(dynamic_segments.empty())` と `ASSERT(dynamic == dynamic_end)`
    if s.dynamicSegments.isEmpty ∧ s.dynamic.isEmpty then
      pure (SymbolTable.join s.segments, s.table)
    else none

/-- 空の symbol の区切りは `join()` で消える: `a..b` を `encode()` して動的な `c` とつないだ名前
（`toString()` は `a..b.c`、span は `(3, 3)`）を作り直すと、空の区切りの `encode()` が空の
`StatName` になって `join()` に落とされ、`toString()` は `a.b.c`、span は `(2, 2)` になる。 -/
theorem makeDynamicStatName_drops_empty_segment :
    (create.encode [97, 46, 46, 98]).2.toString
        (SymbolTable.join [(create.encode [97, 46, 46, 98]).1, SymbolTable.makeDynamicStorage [99]]) =
      some [97, 46, 46, 98, 46, 99] ∧
    getDynamicSpans (SymbolTable.join [(create.encode [97, 46, 46, 98]).1, SymbolTable.makeDynamicStorage [99]]) =
      [(3, 3)] ∧
    ((makeDynamicStatName (create.encode [97, 46, 46, 98]).2 [97, 46, 46, 98, 46, 99]
        fun n => if n = [97, 46, 46, 98, 46, 99] then some [(3, 3)] else none).map
      fun r => (r.2.toString r.1, getDynamicSpans r.1)) = some (some [97, 46, 98, 46, 99], [(2, 2)]) := by
  decide

end StatMerger

end Envoy.Stats
