import Envoy.Buffer.OwnedImpl

/-!
# `OwnedImpl::search`

`source/common/buffer/buffer_impl.cc` の `search(data, size, start, length)`。slice ごとに `memchr` で
needle の先頭の byte を探し、見つかれば残りの byte を、slice をまたいで比べる。比べた分は
`left_to_search` から引き、外れれば次の byte から探し直す前に、引く前の値に戻す。

`length == 0` のときの `length_ - start` は、source では `start > length_` で桁あふれするが、
そのときは全ての slice を `slice_size <= start` で読み飛ばして -1 を返す。ここでは自然数の引き算で 0 に
なり、周回に入らずに -1 を返す。
-/

namespace Envoy.Buffer

namespace OwnedImpl

/-- `memchr(haystack, c, limit)`: `d` の位置 `pos` から `limit` byte のうち、最初の `c` の位置。 -/
def memchr (d : Bytes) (pos limit : Nat) (c : UInt8) : Option Nat :=
  (((d.drop pos).take limit).findIdx? (· == c)).map (pos + ·)

theorem memchr_bounds {d : Bytes} {pos limit k : Nat} {c : UInt8} (h : memchr d pos limit c = some k) :
    pos ≤ k ∧ k < d.length ∧ k < pos + limit := by
  unfold memchr at h
  obtain ⟨j, hj, rfl⟩ := Option.map_eq_some_iff.mp h
  obtain ⟨hlt, -, -⟩ := List.findIdx?_eq_some_iff_getElem.mp hj
  simp only [List.length_take, List.length_drop] at hlt
  omega

/-- 一致を確かめる while 文。`cur` は今の slice の `match_next` から先、`rest` はその後の slice。
比べるごとに `left_to_search` を一つ減らす。終えた時の `i` を返す。 -/
def matchLoop (needle : Bytes) (cur : Bytes) (rest : List Slice) (i leftToSearch : Nat) : Nat :=
  if i < needle.length ∧ 0 < leftToSearch then
    match cur, rest with
    | [], [] => i  -- buffer の末尾
    | [], s :: rest => matchLoop needle s.dataBytes rest i leftToSearch
    | c :: cur, rest =>
      if c ≠ needle.getD i 0 then i else matchLoop needle cur rest (i + 1) (leftToSearch - 1)
  else i
termination_by (rest.length, cur.length)

/-- 一つの slice の中の走査の結果: 見つけた位置（slice の中の）か、走査を終えた後の `left_to_search`。 -/
inductive ScanResult where
  | found (index : Nat)
  | notFound (leftToSearch : Nat)
deriving DecidableEq, Repr

/-- `while (haystack < haystack_end)`。`pos` は `haystack` の slice の中の位置。 -/
def scanSlice (needle : Bytes) (d : Bytes) (rest : List Slice) (pos leftToSearch : Nat) : ScanResult :=
  if pos < d.length then
    let sliceSearchLimit := min (d.length - pos) leftToSearch
    match h : memchr d pos sliceSearchLimit (needle.getD 0 0) with
    | none => .notFound (leftToSearch - sliceSearchLimit)
    | some k =>
      let leftToSearch := leftToSearch - (k - pos + 1)
      if matchLoop needle (d.drop (k + 1)) rest 1 leftToSearch = needle.length then .found k
      -- 外れれば次の byte から。`left_to_search` は比べる前の値に戻る
      else scanSlice needle d rest (k + 1) leftToSearch
  else .notFound leftToSearch
termination_by d.length - pos
decreasing_by have := memchr_bounds h; omega

/-- slice を順に見る for 文。`offset` はこの slice の先頭の buffer の中の位置。 -/
def searchLoop (needle : Bytes) : List Slice → Nat → Nat → Nat → Int
  | [], _, _, _ => -1
  | s :: rest, start, offset, leftToSearch =>
    if leftToSearch = 0 then -1
    else if s.dataSize ≤ start then
      searchLoop needle rest (start - s.dataSize) (offset + s.dataSize) leftToSearch
    else
      match scanSlice needle s.dataBytes rest start leftToSearch with
      | .found k => offset + k
      | .notFound leftToSearch => searchLoop needle rest 0 (offset + s.dataSize) leftToSearch

/-- `search(data, size, start, length)`。`size` は `data` の長さ。 -/
def search (b : OwnedImpl) (data : Bytes) (start length : Nat) : Int :=
  if data.length = 0 then (if start ≤ b.length then start else -1)
  else
    let leftToSearch := if length = 0 then b.length - start else length
    searchLoop data b.slices start 0 leftToSearch

end OwnedImpl

end Envoy.Buffer
