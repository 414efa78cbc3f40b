import Envoy.Buffer.OwnedImpl

/-!
# `WatermarkBuffer`

`source/common/buffer/watermark_buffer.cc`。大きさを変える操作の後に閾値を調べ、
callback を呼ぶ。callback は呼び出しの記録 `Call` として、その時の長さと閾値と共に返す。

`OwnedImpl` の中で仮想関数として呼ばれる `add(data, size)` と `move(rhs, length, reset)` は
`WatermarkBuffer` の版に届くので、その閾値の確認も列に入れる。別の buffer がこの buffer から
移すときは、その buffer の `OwnedImpl` の操作がこの buffer を変え、`postProcess()` を呼ぶ。
-/

namespace Envoy.Buffer

inductive Callback where
  | belowLowWatermark
  | aboveHighWatermark
  | aboveOverflowWatermark
  deriving DecidableEq, Repr

/-- callback の呼び出しと、その時の `length()` と閾値。 -/
structure Call where
  callback : Callback
  length : Nat
  highWatermark : Nat
  lowWatermark : Nat
  overflowWatermark : Nat
  deriving DecidableEq, Repr

structure WatermarkBuffer where
  buffer : OwnedImpl
  highWatermark : UInt64
  lowWatermark : UInt64
  overflowWatermark : UInt64
  aboveHighWatermarkCalled : Bool
  aboveOverflowWatermarkCalled : Bool

/-- `IntUtil::roundUpToMultiple(val, multiple)`。 -/
def roundUpToMultiple (val multiple : Nat) : Nat := (val + multiple - 1) / multiple * multiple

namespace WatermarkBuffer

/-- 構築したばかりの buffer: 閾値はすべて 0 で、どの callback もまだ呼んでいない。 -/
def create : WatermarkBuffer := ⟨OwnedImpl.empty, 0, 0, 0, false, false⟩

/-- 今の状態で `callback` を呼んだ記録。 -/
def call (b : WatermarkBuffer) (callback : Callback) : Call :=
  ⟨callback, b.buffer.length, b.highWatermark.toNat, b.lowWatermark.toNat, b.overflowWatermark.toNat⟩

/-- 続けて `f` を施し、呼び出しの記録をつなぐ。 -/
def seq (r : WatermarkBuffer × List Call) (f : WatermarkBuffer → WatermarkBuffer × List Call) :
    WatermarkBuffer × List Call :=
  let r' := f r.1
  (r'.1, r.2 ++ r'.2)

/-- 中身だけを取り替える（`OwnedImpl` の操作）。callback は呼ばない。 -/
def withBuffer (b : WatermarkBuffer) (buffer : OwnedImpl) : WatermarkBuffer × List Call :=
  ({ b with buffer := buffer }, [])

def checkLowWatermark (b : WatermarkBuffer) : WatermarkBuffer × List Call :=
  if !b.aboveHighWatermarkCalled ∨ (b.highWatermark ≠ 0 ∧ b.buffer.length > b.lowWatermark.toNat) then
    (b, [])
  else ({ b with aboveHighWatermarkCalled := false }, [b.call .belowLowWatermark])

/-- `checkHighAndOverflowWatermarks` の後半: overflow の閾値を調べる。 -/
def checkOverflowWatermark (b : WatermarkBuffer) : WatermarkBuffer × List Call :=
  if b.overflowWatermark ≠ 0 ∧ !b.aboveOverflowWatermarkCalled ∧
      b.buffer.length > b.overflowWatermark.toNat then
    ({ b with aboveOverflowWatermarkCalled := true }, [b.call .aboveOverflowWatermark])
  else (b, [])

def checkHighAndOverflowWatermarks (b : WatermarkBuffer) : WatermarkBuffer × List Call :=
  if b.highWatermark = 0 ∨ b.buffer.length ≤ b.highWatermark.toNat then (b, [])
  else
    let high : WatermarkBuffer × List Call :=
      if !b.aboveHighWatermarkCalled then
        ({ b with aboveHighWatermarkCalled := true }, [b.call .aboveHighWatermark])
      else (b, [])
    seq high checkOverflowWatermark

/-- `std::numeric_limits<uint64_t>::max()`。 -/
def uint64Max : UInt64 := 18446744073709551615

def setWatermarks (b : WatermarkBuffer) (highWatermark : UInt64)
    (overflowWatermarkMultiplier : UInt32) : WatermarkBuffer × List Call :=
  let multiplier : UInt32 :=
    if overflowWatermarkMultiplier > 0 ∧
        highWatermark > uint64Max / overflowWatermarkMultiplier.toUInt64 then 0
    else overflowWatermarkMultiplier
  let b1 : WatermarkBuffer := { b with
    lowWatermark := highWatermark / 2
    highWatermark := highWatermark
    overflowWatermark := multiplier.toUInt64 * highWatermark }
  seq (checkHighAndOverflowWatermarks b1) checkLowWatermark

def postProcess (b : WatermarkBuffer) : WatermarkBuffer × List Call := b.checkLowWatermark

/-- `reserveForRead()`: 上の閾値までの空きに合わせて予約の長さを縮める。 -/
def reserveForRead (b : WatermarkBuffer) : (OwnedImpl × List AccountOp) × List OwnedImpl.ReservationSlice :=
  let preferredLength := OwnedImpl.defaultReadReservationSize
  let adjustedLength :=
    if b.highWatermark.toNat > 0 ∧ preferredLength > 0 then
      if b.buffer.length ≥ b.highWatermark.toNat then Slice.defaultSliceSize
      else min (roundUpToMultiple (b.highWatermark.toNat - b.buffer.length) Slice.defaultSliceSize)
        preferredLength
    else preferredLength
  b.buffer.reserveWithMaxLength adjustedLength

/-- `OwnedImpl::add(const Instance&)` の for 文。各 slice を仮想関数の `add(data, size)` で足す。 -/
def addRawSlices (b : WatermarkBuffer) : List Bytes → WatermarkBuffer × List Call
  | [] => (b, [])
  | s :: rest =>
    let r := seq (b.withBuffer (b.buffer.addImpl s).1) checkHighAndOverflowWatermarks
    seq r (addRawSlices · rest)

/-- `OwnedImpl::move(rhs, length, reset)` の while 文が、一部だけ写す枝で `add(data, size)` を呼ぶか。 -/
def moveLengthCallsAdd : List Slice → Nat → Bool
  | [], _ => false
  | s :: rest, length =>
    if length = 0 then false
    else if min s.dataSize length = 0 then moveLengthCallsAdd rest length
    else if min s.dataSize length < s.dataSize then true
    else moveLengthCallsAdd rest (length - min s.dataSize length)

/-- `move(rhs, length, reset_drain_trackers_and_accounting)`。 -/
def moveLength (b : WatermarkBuffer) (rhs : OwnedImpl) (length : Nat) (reset : Bool) :
    WatermarkBuffer × List Call :=
  let r := b.withBuffer (b.buffer.moveLength rhs length reset).1
  -- 一部だけ写した周の `add` は、移し終えた後の長さで閾値を調べる
  let r := if moveLengthCallsAdd rhs.slices length then seq r checkHighAndOverflowWatermarks else r
  seq r checkHighAndOverflowWatermarks

end WatermarkBuffer

/-- `WatermarkBuffer` への操作と、この buffer を相手に取る別の buffer の操作。 -/
inductive WatermarkOp where
  | add (data : Bytes)
  | addBuffer (data : OwnedImpl)
  | prepend (data : Bytes)
  | prependBuffer (data : OwnedImpl)
  | addFragments (fragments : List Bytes)
  /-- `reserveForRead()` の予約に `data` を書き、`length` byte を commit する。 -/
  | reserveForReadCommit (data : Bytes) (length : Nat)
  | reserveSingleSliceCommit (reserve : Nat) (separateSlice : Bool) (data : Bytes) (length : Nat)
  | drain (size : Nat)
  | move (rhs : OwnedImpl)
  /-- `move(rhs, length)` -/
  | moveLength (rhs : OwnedImpl) (length : Nat)
  /-- `move(rhs, length, reset_drain_trackers_and_accounting)` -/
  | moveLengthReset (rhs : OwnedImpl) (length : Nat) (reset : Bool)
  /-- 別の buffer `dst` の `move(*this)`。 -/
  | moveInto (dst : OwnedImpl)
  /-- 別の buffer `dst` の `move(*this, length, reset)`。 -/
  | moveLengthInto (dst : OwnedImpl) (length : Nat) (reset : Bool)
  /-- 別の buffer `dst` の `prepend(*this)`。 -/
  | prependInto (dst : OwnedImpl)
  | extractMutableFrontSlice
  | setWatermarks (highWatermark : UInt64) (overflowWatermarkMultiplier : UInt32)

namespace WatermarkBuffer

def step (b : WatermarkBuffer) : WatermarkOp → WatermarkBuffer × List Call
  | .add data => seq (b.withBuffer (b.buffer.addImpl data).1) checkHighAndOverflowWatermarks
  | .addBuffer data => seq (b.addRawSlices data.getRawSlices) checkHighAndOverflowWatermarks
  | .prepend data => seq (b.withBuffer (b.buffer.prepend data).1) checkHighAndOverflowWatermarks
  | .prependBuffer data =>
    seq (b.withBuffer (b.buffer.prependBuffer data).1) checkHighAndOverflowWatermarks
  | .addFragments fragments =>
    seq (b.withBuffer (b.buffer.addFragments fragments).1.1) checkHighAndOverflowWatermarks
  | .reserveForReadCommit data length =>
    seq (b.withBuffer (OwnedImpl.commitReservation b.reserveForRead data length))
      checkHighAndOverflowWatermarks
  | .reserveSingleSliceCommit reserve separateSlice data length =>
    seq (b.withBuffer
        (OwnedImpl.commitReservation (b.buffer.reserveSingleSlice reserve separateSlice) data length))
      checkHighAndOverflowWatermarks
  | .drain size => seq (b.withBuffer (b.buffer.drain size).1) checkLowWatermark
  | .move rhs => seq (b.withBuffer (b.buffer.move rhs).1) checkHighAndOverflowWatermarks
  -- `move(rhs, length)` は仮想関数の `move(rhs, length, false)` を呼んでから、もう一度調べる
  | .moveLength rhs length => seq (b.moveLength rhs length false) checkHighAndOverflowWatermarks
  | .moveLengthReset rhs length reset => b.moveLength rhs length reset
  | .moveInto dst => seq (b.withBuffer (dst.move b.buffer).2.1) postProcess
  | .moveLengthInto dst length reset =>
    seq (b.withBuffer (dst.moveLength b.buffer length reset).2.1) postProcess
  | .prependInto dst => seq (b.withBuffer (dst.prependBuffer b.buffer).2.1) postProcess
  | .extractMutableFrontSlice =>
    seq (b.withBuffer b.buffer.extractMutableFrontSlice.1.1) checkLowWatermark
  | .setWatermarks highWatermark multiplier => b.setWatermarks highWatermark multiplier

end WatermarkBuffer

/-- 大きくするだけの操作。 -/
def WatermarkOp.Grows : WatermarkOp → Prop
  | .drain _ | .moveInto _ | .moveLengthInto _ _ _ | .prependInto _ | .extractMutableFrontSlice
  | .setWatermarks _ _ => False
  | _ => True

end Envoy.Buffer
