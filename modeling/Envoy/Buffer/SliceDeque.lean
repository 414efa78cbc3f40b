import Mathlib.Data.List.Basic

/-!
# `Buffer::SliceDeque`

`source/common/buffer/buffer_impl.h` の `SliceDeque`。升目の輪 `ring_` の `start_` から `size_` 個が
中身で、位置は `capacity_` で一度だけ折り返す（`internalIndex`）。満ちた輪に足すときは `growRing` が
倍の長さの輪へ論理的な順に写し、`start_` を 0 に戻す。

`inline_ring_` と `external_ring_` の区別は、`ring_` がどちらを指すかだけなので持たず、`ring_` の指す
`capacity_` 個の升目を列で表す。升目の型は `Slice` に限らず、`Slice()` を `default` で表す。
`size_t` の桁あふれは、`capacity_` が 2^63 を越えない限り起きないので、自然数で表す。
-/

namespace Envoy.Buffer

structure SliceDeque (α : Type*) where
  ring : List α
  start : Nat
  size : Nat
  capacity : Nat
  deriving DecidableEq, Repr

namespace SliceDeque

variable {α : Type*} [Inhabited α]

def inlineRingCapacity : Nat := 8

/-- `SliceDeque()`: `inline_ring_` を指す、長さ 8 の空の輪。 -/
def create : SliceDeque α := ⟨List.replicate inlineRingCapacity default, 0, 0, inlineRingCapacity⟩

/-- 論理的な位置 `index` の升目の位置。`capacity_` を越えたら一度だけ引く。 -/
def internalIndex (d : SliceDeque α) (index : Nat) : Nat :=
  let internalIndex := d.start + index
  if internalIndex ≥ d.capacity then internalIndex - d.capacity else internalIndex

/-- `operator[](i)`。 -/
def get (d : SliceDeque α) (i : Nat) : α := d.ring.getD (d.internalIndex i) default

def front (d : SliceDeque α) : α := d.ring.getD d.start default

def back (d : SliceDeque α) : α := d.ring.getD (d.internalIndex (d.size - 1)) default

def empty (d : SliceDeque α) : Bool := d.size == 0

/-- `growRing` の for 文: 残り `n` 個を `ring_[src]` から `new_ring[dst]` へ写し、`src` は `capacity_` で
0 に戻る。 -/
def growRingLoop (ring : List α) (capacity : Nat) : Nat → Nat → Nat → List α → List α
  | 0, _, _, newRing => newRing
  | n + 1, src, dst, newRing =>
    let newRing := newRing.set dst (ring.getD src default)
    let src := src + 1
    let src := if src = capacity then 0 else src
    growRingLoop ring capacity n src (dst + 1) newRing

def growRing (d : SliceDeque α) : SliceDeque α :=
  if d.size < d.capacity then d
  else
    let newCapacity := d.capacity * 2
    let newRing := growRingLoop d.ring d.capacity d.size d.start 0 (List.replicate newCapacity default)
    { ring := newRing, start := 0, size := d.size, capacity := newCapacity }

def emplaceBack (d : SliceDeque α) (slice : α) : SliceDeque α :=
  let d := d.growRing
  let index := d.internalIndex d.size
  { d with ring := d.ring.set index slice, size := d.size + 1 }

def emplaceFront (d : SliceDeque α) (slice : α) : SliceDeque α :=
  let d := d.growRing
  let start := if d.start = 0 then d.capacity - 1 else d.start - 1
  { d with ring := d.ring.set start slice, start := start, size := d.size + 1 }

/-- `pop_front()`: 空なら何もしない。先頭の升目を `Slice()` にして `start_` を進める。 -/
def popFront (d : SliceDeque α) : SliceDeque α :=
  if d.size = 0 then d
  else
    let ring := d.ring.set d.start default
    let start := d.start + 1
    { d with ring := ring, size := d.size - 1, start := if start = d.capacity then 0 else start }

def popBack (d : SliceDeque α) : SliceDeque α :=
  if d.size = 0 then d
  else { d with ring := d.ring.set (d.internalIndex (d.size - 1)) default, size := d.size - 1 }

/-- `(*this)[0..size()-1]`: `begin()` から `end()` までの `ConstIterator` が読む列。 -/
def toList (d : SliceDeque α) : List α := (List.range d.size).map d.get

end SliceDeque

end Envoy.Buffer
