import Envoy.Buffer.Slice

/-!
# `Buffer::OwnedImpl`

`source/common/buffer/buffer_impl.cc` の `OwnedImpl` の操作を、slice の列の上の関数として書く。
`SliceDeque` は列で表す（列としての振る舞いは `SliceDeque` の側で確かめる）。

`Slice` の構築、破棄、`callAndClearDrainTrackersAndCharges`、`maybeChargeAccount` が呼ぶ
`charge` と `credit` は、操作が返す `AccountOp` の列として順に記録する。buffer の中身は
これらに依らないので、中身の性質はこの列を読まない。

`addImpl` と `prepend` の while 文は周回の上限 `fuel` を取る。二周目からは新しい slice に
全部が入るので、`src.length + 1` 周で足りる（`Lemmas/OwnedImpl.lean` で確かめる）。
-/

namespace Envoy.Buffer

structure OwnedImpl where
  slices : List Slice
  /-- `length_`: 中身の長さの控え。 -/
  length : Nat
  account : Option Nat

namespace OwnedImpl

/-- `OwnedImpl()`: 空の buffer。 -/
def empty : OwnedImpl := ⟨[], 0, none⟩

/-- `bindAccount(account)`。source は slice が無いことを ASSERT する。 -/
def bindAccount (b : OwnedImpl) (account : Nat) : OwnedImpl := { b with account := some account }

/-- `getRawSlices()`: 中身のある slice の中身の列。 -/
def getRawSlices (b : OwnedImpl) : List Bytes :=
  (b.slices.filter (fun s => s.dataSize ≠ 0)).map Slice.dataBytes

/-- `toString()`: `getRawSlices()` を順につなぐ。 -/
def toString (b : OwnedImpl) : Bytes := b.getRawSlices.flatten

/-! ## 末尾への追加 -/

/-- 末尾の slice に `append` する。slice が無ければ何もしない。 -/
def appendToBack (slices : List Slice) (src : Bytes) : List Slice × Nat :=
  match slices.getLast? with
  | none => (slices, 0)
  | some back =>
    let r := back.append src
    (slices.dropLast ++ [r.1], r.2)

/-- `addImpl` の while 文。一周ごとに、必要なら新しい slice を足し、末尾へ写せるだけ写す。 -/
def addLoop : Nat → OwnedImpl → Bytes → Bool → OwnedImpl × List AccountOp
  | 0, b, _, _ => (b, [])
  | fuel + 1, b, src, newSliceNeeded =>
    if src = [] then (b, [])
    else
      let created := Slice.create src.length b.account
      let slices := if newSliceNeeded then b.slices ++ [created] else b.slices
      let ops := if newSliceNeeded then created.chargeOps else []
      let r := appendToBack slices src
      let next := addLoop fuel { b with slices := r.1, length := b.length + r.2 } (src.drop r.2) true
      (next.1, ops ++ next.2)

/-- `addImpl(data, size)`。 -/
def addImpl (b : OwnedImpl) (src : Bytes) : OwnedImpl × List AccountOp :=
  addLoop (src.length + 1) b src b.slices.isEmpty

/-- `add(const Instance&)`: 相手の中身のある slice を順に `add` する。 -/
def addBuffer (b : OwnedImpl) (other : OwnedImpl) : OwnedImpl × List AccountOp :=
  other.getRawSlices.foldl (fun acc s => let r := addImpl acc.1 s; (r.1, acc.2 ++ r.2)) (b, [])

/-- `addBufferFragment(fragment)`。 -/
def addBufferFragment (b : OwnedImpl) (fragment : Bytes) : OwnedImpl :=
  { b with length := b.length + fragment.length, slices := b.slices ++ [Slice.ofFragment fragment] }

/-- `addFragments` の内側の while 文: 予約に丸ごと入る先頭の fragment と、残り。 -/
def fitFragments (len : Nat) : List Bytes → Nat → List Bytes × List Bytes
  | [], _ => ([], [])
  | f :: fs, written =>
    if written + f.length ≤ len then
      let r := fitFragments len fs (written + f.length)
      (f :: r.1, r.2)
    else ([], f :: fs)

/-- 末尾の slice の予約に `w` を書いて `len` byte を commit する。 -/
def commitToBack (slices : List Slice) (w : Bytes) (len : Nat) : List Slice :=
  match slices.getLast? with
  | none => slices
  | some back => slices.dropLast ++ [(back.fillReservation w).commit len]

/-- `addFragments(fragments)`。 -/
def addFragments (b : OwnedImpl) (fragments : List Bytes) : (OwnedImpl × List AccountOp) × Nat :=
  let total := (fragments.map List.length).sum
  let created := Slice.create total b.account
  let b0 : OwnedImpl := if b.slices.isEmpty then { b with slices := [created] } else b
  let ops0 := if b.slices.isEmpty then created.chargeOps else []
  let reservationLen := match b0.slices.getLast? with
    | some back => back.reserve total
    | none => 0
  if reservationLen = total then
    -- 予約に全部が入る: そのまま書いて commit する
    (({ b0 with slices := commitToBack b0.slices fragments.flatten total,
                length := b0.length + total }, ops0), total)
  else
    let fit := fitFragments reservationLen fragments 0
    let written := (fit.1.map List.length).sum
    let b1 : OwnedImpl := if written > 0 then
        { b0 with slices := commitToBack b0.slices fit.1.flatten written,
                  length := b0.length + written }
      else b0
    if fit.2.isEmpty then ((b1, ops0), total)
    else
      -- 残りの fragment を一つの新しい slice にまとめる
      let remaining := (fit.2.map List.length).sum
      let fresh := Slice.create remaining b1.account
      let filled := (fresh.fillReservation fit.2.flatten).commit (fresh.reserve remaining)
      (({ b1 with slices := b1.slices ++ [filled], length := b1.length + remaining },
        ops0 ++ fresh.chargeOps), total)

/-! ## 先頭への追加 -/

/-- `prepend(string_view)` の while 文。`src` の末尾から先頭の slice へ写す。 -/
def prependLoop : Nat → OwnedImpl → Bytes → Bool → OwnedImpl × List AccountOp
  | 0, b, _, _ => (b, [])
  | fuel + 1, b, src, newSliceNeeded =>
    if src = [] then (b, [])
    else
      let created := Slice.create src.length b.account
      let slices := if newSliceNeeded then created :: b.slices else b.slices
      let ops := if newSliceNeeded then created.chargeOps else []
      match slices with
      | [] => (b, ops)
      | front :: rest =>
        let r := front.prepend src
        let next := prependLoop fuel
          { b with slices := r.1 :: rest, length := b.length + r.2 } (src.take (src.length - r.2)) true
        (next.1, ops ++ next.2)

/-- `prepend(string_view)`。 -/
def prepend (b : OwnedImpl) (src : Bytes) : OwnedImpl × List AccountOp :=
  prependLoop (src.length + 1) b src b.slices.isEmpty

/-- `prepend(Instance&)` の while 文: 相手の末尾の slice から順に、自分の先頭へ移す。
相手の slice の列を末尾から受け取り、移した byte 数を数える。 -/
def prependSlices (account : Option Nat) :
    List Slice → List Slice → Nat → List Slice × Nat × List AccountOp
  | acc, [], n => (acc, n, [])
  | acc, s :: rest, n =>
    let c := s.maybeChargeAccount account
    let r := prependSlices account (c.1 :: acc) rest (n + s.dataSize)
    (r.1, r.2.1, c.2 ++ r.2.2)

/-- `prepend(Instance& data)`: 自分と相手（空になる）を返す。 -/
def prependBuffer (b other : OwnedImpl) : OwnedImpl × OwnedImpl × List AccountOp :=
  let r := prependSlices b.account b.slices other.slices.reverse 0
  ({ b with slices := r.1, length := b.length + r.2.1 },
   { other with slices := [], length := other.length - r.2.1 }, r.2.2)

/-! ## 取り除く -/

/-- `drainImpl` の後半: 先頭の中身の無い slice を捨てる。 -/
def dropEmptyFront : List Slice → List Slice × List AccountOp
  | [] => ([], [])
  | s :: rest =>
    if s.dataSize = 0 then
      let r := dropEmptyFront rest
      (r.1, s.creditOps ++ r.2)
    else (s :: rest, [])

/-- `drainImpl` の前半の while 文。 -/
def drainLoop : List Slice → Nat → Nat → List Slice × Nat × List AccountOp
  | [], length, _ => ([], length, [])
  | s :: rest, length, size =>
    if size = 0 then (s :: rest, length, [])
    else if s.dataSize ≤ size then
      let r := drainLoop rest (length - s.dataSize) (size - s.dataSize)
      (r.1, r.2.1, s.creditOps ++ r.2.2)
    else (s.drain size :: rest, length - size, [])

/-- `drainImpl(size)`。 -/
def drainImpl (b : OwnedImpl) (size : Nat) : OwnedImpl × List AccountOp :=
  let r := drainLoop b.slices b.length size
  let e := dropEmptyFront r.1
  ({ b with slices := e.1, length := r.2.1 }, r.2.2 ++ e.2)

/-- `drain(size)`。 -/
def drain (b : OwnedImpl) (size : Nat) : OwnedImpl × List AccountOp := drainImpl b size

/-- `copyOut(start, size, data)` が書く byte 列。 -/
def copyOutLoop : List Slice → Nat → Nat → Bytes
  | [], _, _ => []
  | s :: rest, bytesToSkip, size =>
    if size = 0 then []
    else if s.dataSize ≤ bytesToSkip then copyOutLoop rest (bytesToSkip - s.dataSize) size
    else
      let copySize := min size (s.dataSize - bytesToSkip)
      (s.dataBytes.drop bytesToSkip).take copySize ++ copyOutLoop rest 0 (size - copySize)

def copyOut (b : OwnedImpl) (start size : Nat) : Bytes := copyOutLoop b.slices start size

/-- 書き込み先の `RawSlice`: 記憶域 `mem_` と、書いてよい長さ `len_`。記憶域は `len_` byte 以上ある。 -/
structure RawSlice where
  mem : Bytes
  len : Nat
  len_le : len ≤ mem.length

/-- `memcpy(mem_ + off, src, n)`: 記憶域の位置 `off` から書く。 -/
def RawSlice.write (d : RawSlice) (off : Nat) (src : Bytes) : RawSlice :=
  ⟨d.mem.writeAt off src, d.len, by rw [List.length_writeAt]; exact d.len_le⟩

/-- `copyOutToSlices` の while 文。元の slice と書き込み先の片は、読み終えたものを列の先頭から落とし、
書き終えた片は結果の前に積む。周回が `fuel` を越えたとき、また元の slice の先を読もうとしたとき
（`slices_[num_src_slices_read]` が範囲の外）は `none`。 -/
def copyOutToSlicesLoop (totalLengthToRead : Nat) :
    Nat → List Slice → Nat → List RawSlice → Nat → Nat → Option (List RawSlice × Nat)
  | _, _, _, [], _, numBytesRead => some ([], numBytesRead)
  | fuel, src, srcSliceOffset, dest :: dests, destSliceOffset, numBytesRead =>
    if numBytesRead < totalLengthToRead then
      match fuel, src with
      | 0, _ => none
      | _ + 1, [] => none
      | fuel + 1, s :: srcs =>
        let leftToRead := totalLengthToRead - numBytesRead
        let leftDataSizeInDstSlice := dest.len - destSliceOffset
        let leftDataSizeInSrcSlice := s.dataSize - srcSliceOffset
        let lengthToCopy := min leftDataSizeInSrcSlice (min leftDataSizeInDstSlice leftToRead)
        let written := dest.write destSliceOffset ((s.dataBytes.drop srcSliceOffset).take lengthToCopy)
        -- 読み終えた元の slice と、書き終えた片を進める
        let srcDone := srcSliceOffset + lengthToCopy = s.dataSize
        let src' := if srcDone then srcs else s :: srcs
        let srcSliceOffset' := if srcDone then 0 else srcSliceOffset + lengthToCopy
        if destSliceOffset + lengthToCopy = dest.len then
          (copyOutToSlicesLoop totalLengthToRead fuel src' srcSliceOffset' dests 0
            (numBytesRead + lengthToCopy)).map fun r => (written :: r.1, r.2)
        else
          copyOutToSlicesLoop totalLengthToRead fuel src' srcSliceOffset' (written :: dests)
            (destSliceOffset + lengthToCopy) (numBytesRead + lengthToCopy)
    else some (dest :: dests, numBytesRead)

/-- `copyOutToSlices(size, dest_slices, num_slice)`: 書いた後の書き込み先と、写した byte 数。
`const` な操作なので buffer は返さない。周回の上限は、どの周も元か先の片を一つ進めるか読み終えることから。 -/
def copyOutToSlices (b : OwnedImpl) (size : Nat) (destSlices : List RawSlice) : Option (List RawSlice × Nat) :=
  let totalLengthToRead := min size b.length
  copyOutToSlicesLoop totalLengthToRead (b.slices.length + destSlices.length + 1) b.slices 0 destSlices 0 0

/-- `startsWith(data)` の for 文。`pfx` は残りの `prefix`、その長さが `size`。 -/
def startsWithLoop : List Slice → Bytes → Bool
  | [], _ => false  -- IS_ENVOY_BUG: slice の中身が `length()` より短い
  | s :: rest, pfx =>
    if s.dataSize ≥ pfx.length then s.dataBytes.take pfx.length == pfx
    else if pfx.take s.dataSize != s.dataBytes then false
    else startsWithLoop rest (pfx.drop s.dataSize)

/-- `startsWith(data)`。 -/
def startsWith (b : OwnedImpl) (data : Bytes) : Bool :=
  if b.length < data.length then false
  else if data.isEmpty then true
  else startsWithLoop b.slices data

/-! ## 移動 -/

/-- `coalesceOrAddSlice(other_slice)`。写して済ませたときは、相手の枠に残る slice も返す
（呼び出し側の `pop_front` がそれを返金する）。 -/
def coalesceOrAddSlice (b : OwnedImpl) (other : Slice) :
    OwnedImpl × List AccountOp × Option Slice :=
  let sliceSize := other.dataSize
  let canCoalesce := match b.slices.getLast? with
    | some back => other.isMutable && sliceSize < 512 && decide (sliceSize ≤ back.reservableSize)
    | none => false
  if canCoalesce then
    let r := addImpl b other.dataBytes
    (r.1, r.2, some other)
  else
    let c := other.maybeChargeAccount b.account
    ({ b with slices := b.slices ++ [c.1], length := b.length + sliceSize }, c.2, none)

/-- 相手の枠に残った slice の返金。 -/
def leftoverOps : Option Slice → List AccountOp
  | some s => s.creditOps
  | none => []

/-- `move(Instance&)` の while 文。 -/
def moveLoop : OwnedImpl → List Slice → OwnedImpl × List AccountOp
  | b, [] => (b, [])
  | b, s :: rest =>
    let r := coalesceOrAddSlice b s
    let next := moveLoop r.1 rest
    (next.1, r.2.1 ++ leftoverOps r.2.2 ++ next.2)

/-- `move(Instance& rhs)`: 自分と相手（空になる）を返す。 -/
def move (b other : OwnedImpl) : OwnedImpl × OwnedImpl × List AccountOp :=
  let r := moveLoop b other.slices
  (r.1, { other with slices := [], length := other.length - (other.slices.map Slice.dataSize).sum },
   r.2)

/-- `move(Instance&, length, reset_drain_trackers_and_accounting)` の while 文。
自分、相手の残りの slice、相手から引いた長さ、課金の列を返す。 -/
def moveLengthLoop (reset : Bool) :
    OwnedImpl → List Slice → Nat → OwnedImpl × List Slice × Nat × List AccountOp
  | b, [], _ => (b, [], 0, [])
  | b, s :: rest, length =>
    if length = 0 then (b, s :: rest, 0, [])
    else
      let sliceSize := s.dataSize
      let copySize := min sliceSize length
      if copySize = 0 then
        let next := moveLengthLoop reset b rest length
        (next.1, next.2.1, next.2.2.1, s.creditOps ++ next.2.2.2)
      else if copySize < sliceSize then
        -- 一部だけ写す。この後 `length` は 0 になり、周回は終わる。
        let r := addImpl b (s.dataBytes.take copySize)
        (r.1, s.drain copySize :: rest, copySize, r.2)
      else
        let cleared := if reset then s.callAndClearDrainTrackersAndCharges else (s, [])
        let r := coalesceOrAddSlice b cleared.1
        let next := moveLengthLoop reset r.1 rest (length - copySize)
        (next.1, next.2.1, sliceSize + next.2.2.1,
          cleared.2 ++ r.2.1 ++ leftoverOps r.2.2 ++ next.2.2.2)

/-- `move(Instance& rhs, length, reset_drain_trackers_and_accounting)`。 -/
def moveLength (b other : OwnedImpl) (length : Nat) (reset : Bool) :
    OwnedImpl × OwnedImpl × List AccountOp :=
  let r := moveLengthLoop reset b other.slices length
  (r.1, { other with slices := r.2.1, length := other.length - r.2.2.1 }, r.2.2.2)

/-! ## 連続化 -/

/-- `linearize(size)`。source は `size <= length()` を RELEASE_ASSERT する。 -/
def linearize (b : OwnedImpl) (size : Nat) : OwnedImpl × List AccountOp :=
  match b.slices with
  | [] => (b, [])
  | front :: _ =>
    if front.dataSize < size then
      let created := Slice.create size b.account
      let newSlice := (created.fillReservation (b.copyOut 0 size)).commit (created.reserve size)
      let d := b.drainImpl size
      ({ d.1 with slices := newSlice :: d.1.slices, length := d.1.length + size },
        created.chargeOps ++ d.2)
    else (b, [])

/-! ## 予約と commit -/

/-- 予約の一片。`storage` が `none` なら末尾の slice の空きを指す。 -/
structure ReservationSlice where
  len : Nat
  storage : Option Bytes

/-- 末尾の、中身の無い slice を捨てる（`pop_back` が返金する）。 -/
def dropEmptyBack (slices : List Slice) : List Slice × List AccountOp :=
  let r := dropEmptyFront slices.reverse
  (r.1.reverse, r.2)

/-- `reserveWithMaxLength` の while 文。新しい記憶域は `default_slice_size_` の長さ。 -/
def reserveLoop : Nat → Nat → Nat → Nat → List ReservationSlice
  | 0, _, _, _ => []
  | fuel + 1, numSlices, bytesRemaining, reserved =>
    if bytesRemaining = 0 ∨ numSlices ≥ 8 then []
    else if Slice.defaultSliceSize > bytesRemaining ∧ reserved ≥ Slice.defaultSliceSize then []
    else
      ⟨Slice.defaultSliceSize, some (List.replicate Slice.defaultSliceSize 0)⟩ ::
        reserveLoop fuel (numSlices + 1) (bytesRemaining - min Slice.defaultSliceSize bytesRemaining)
          (reserved + Slice.defaultSliceSize)

/-- `reserveWithMaxLength(max_length)`: 予約の片の列と、予約の長さ。 -/
def reserveWithMaxLength (b : OwnedImpl) (maxLength : Nat) :
    (OwnedImpl × List AccountOp) × List ReservationSlice :=
  if maxLength = 0 then ((b, []), [])
  else
    let e := dropEmptyBack b.slices
    let b1 : OwnedImpl := { b with slices := e.1 }
    -- 末尾の slice に十分な空きがあれば、その空きを最初の片にする
    let first : List ReservationSlice := match e.1.getLast? with
      | some back =>
        if back.reservableSize ≥ maxLength ∨ back.reservableSize ≥ Slice.defaultSliceSize / 8 then
          [⟨back.reserve (min back.reservableSize maxLength), none⟩]
        else []
      | none => []
    let firstLen := (first.map ReservationSlice.len).sum
    ((b1, e.2), first ++ reserveLoop 8 first.length (maxLength - firstLen) firstLen)

/-- `Buffer::Reservation::MAX_SLICES_ * Slice::default_slice_size_`。 -/
def defaultReadReservationSize : Nat := 8 * Slice.defaultSliceSize

def reserveForRead (b : OwnedImpl) : (OwnedImpl × List AccountOp) × List ReservationSlice :=
  b.reserveWithMaxLength defaultReadReservationSize

/-- `reserveSingleSlice(length, separate_slice)`。 -/
def reserveSingleSlice (b : OwnedImpl) (length : Nat) (separateSlice : Bool) :
    (OwnedImpl × List AccountOp) × List ReservationSlice :=
  if length = 0 then ((b, []), [])
  else
    let e := dropEmptyBack b.slices
    let b1 : OwnedImpl := { b with slices := e.1 }
    let inPlace := match e.1.getLast? with
      | some back => if !separateSlice && back.reservableSize ≥ length then some (back.reserve length)
        else none
      | none => none
    match inPlace with
    | some len => ((b1, e.2), [⟨len, none⟩])
    | none => ((b1, e.2), [⟨length, some (List.replicate (Slice.sliceSize length) 0)⟩])

/-- 予約の長さ: 片の長さの和。 -/
def reservationLength (r : List ReservationSlice) : Nat := (r.map ReservationSlice.len).sum

/-- 呼び出し側が予約の記憶域に `w` を前から順に書く。末尾の slice の空きは buffer の中にある。 -/
def fillReservation (b : OwnedImpl) : List ReservationSlice → Bytes → OwnedImpl × List ReservationSlice
  | [], _ => (b, [])
  | r :: rs, w =>
    let part := w.take r.len
    let next := fillReservation
      (match r.storage with
        | none => { b with slices := match b.slices.getLast? with
            | some back => b.slices.dropLast ++ [back.fillReservation part]
            | none => b.slices }
        | some _ => b) rs (w.drop r.len)
    (next.1, { r with storage := r.storage.map (fun st => st.writeAt 0 part) } :: next.2)

/-- `commit(length, slices, slices_owner)` の for 文。 -/
def commitLoop : OwnedImpl → List ReservationSlice → Nat → OwnedImpl × List AccountOp
  | b, [], _ => (b, [])
  | b, r :: rs, bytesRemaining =>
    if bytesRemaining = 0 then (b, [])
    else
      let len := min r.len bytesRemaining
      match r.storage with
      | some st =>
        if h : len ≤ st.length then
          let s := Slice.ofStorage st len b.account h
          let next := commitLoop
            { b with slices := b.slices ++ [s], length := b.length + len } rs (bytesRemaining - len)
          (next.1, s.chargeOps ++ next.2)
        else (b, [])
      | none =>
        let slices := match b.slices.getLast? with
          | some back => b.slices.dropLast ++ [back.commit len]
          | none => b.slices
        commitLoop { b with slices := slices, length := b.length + len } rs (bytesRemaining - len)

/-- `commit(length, slices, slices_owner)`。 -/
def commit (b : OwnedImpl) (length : Nat) (r : List ReservationSlice) : OwnedImpl × List AccountOp :=
  if length = 0 then (b, []) else commitLoop b r length

/-- `Reservation::commit(length)`: 予約 `r` の記憶域に呼び出し側が `data` を書いた後、
`length` byte を commit する。 -/
def commitReservation (r : (OwnedImpl × List AccountOp) × List ReservationSlice) (data : Bytes)
    (length : Nat) : OwnedImpl :=
  let f := r.1.1.fillReservation r.2 data
  (f.1.commit length f.2).1

/-! ## 先頭の slice を取り出す -/

/-- `extractMutableFrontSlice()`: buffer と、取り出した（書き換えられる）slice を返す。
source は `length_ > 0` を RELEASE_ASSERT する。 -/
def extractMutableFrontSlice (b : OwnedImpl) : (OwnedImpl × List AccountOp) × Slice :=
  let e := dropEmptyFront b.slices
  match e.1 with
  | [] => (({ b with slices := [] }, e.2), Slice.empty)
  | s :: rest =>
    let b1 : OwnedImpl := { b with slices := rest, length := b.length - s.dataSize }
    if s.isMutable then
      let c := s.callAndClearDrainTrackersAndCharges
      ((b1, e.2 ++ c.2), c.1)
    else
      -- 書き換えられない slice は写してから渡す。元の slice はここで破棄される。
      let copy := (Slice.create s.dataSize none).append s.dataBytes
      ((b1, e.2 ++ s.creditOps), copy.1)

/-- buffer の破棄: 残りの slice をすべて返金する。 -/
def destroyOps (b : OwnedImpl) : List AccountOp := b.slices.flatMap Slice.creditOps

end OwnedImpl

end Envoy.Buffer
