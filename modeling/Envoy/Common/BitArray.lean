import Envoy.Lib.LittleEndian

/-!
# `BitArray`

`source/common/common/bit_array.h` の `BitArray`。`array_start_` の指す `bytesNeeded(width, num_items)`
byte の記憶域に、幅 `bit_width_` の要素を隙間なく並べる。`get` と `set` は、要素の最初の bit を含む byte
から、揃っていなくても 64 bit の語を丸ごと読み書きする。`storeUnsignedWord` と `loadUnsignedWord` は
`htole64` / `le64toh` と `memcpy` なので、little endian の 8 byte の読み書きとして表す。

`uint64_t` の演算は、値が `2^32` 未満、ずらしが 7 以下で桁あふれしないので自然数で表し、`~` は
`2^64 - 1` との排他的論理和で表す。`RELEASE_ASSERT` で止まる呼び出しは `none` を返す。
-/

namespace Envoy

structure BitArray where
  arrayStart : List UInt8
  bitWidth : Nat
  mask : Nat
  numItems : Nat
  deriving DecidableEq, Repr

namespace BitArray

def maxBitWidth : Nat := 32

/-- `sizeof(uint8_t*)`: 64 bit の環境で 8。 -/
def wordSize : Nat := 8

def bytesNeeded (bitWidth numItems : Nat) : Nat :=
  let bytesRequired := (bitWidth * numItems + 7) >>> 3
  let padding := wordSize
  let minimumBytesRequiredWithoutPadding := wordSize
  max bytesRequired minimumBytesRequiredWithoutPadding + padding

def storeUnsignedWord (destination : List UInt8) (off : Nat) (value : Nat) : List UInt8 :=
  destination.writeAt off (LittleEndian.toBytes value wordSize)

def loadUnsignedWord (source : List UInt8) (off : Nat) : Nat :=
  LittleEndian.ofBytes ((source.drop off).take wordSize)

/-- `BitArray(width, num_items)`。`make_unique<uint8_t[]>` は 0 で埋め、末尾の一語にも 0 を書く。 -/
def create (width numItems : Nat) : Option BitArray :=
  let arrayStart : List UInt8 := List.replicate (bytesNeeded width numItems) 0
  let mask := ((1 <<< width) - 1) % 2 ^ 32
  if width ≤ maxBitWidth then
    let paddingStart := bytesNeeded width numItems - wordSize
    some ⟨storeUnsignedWord arrayStart paddingStart 0, width, mask, numItems⟩
  else none

def get (t : BitArray) (index : Nat) : Option UInt32 :=
  if index < t.numItems then
    let bit0Offset := index * t.bitWidth
    let byte0Offset := bit0Offset >>> 3
    let indexOf0thBit := bit0Offset &&& 0x7
    some (UInt32.ofNat ((loadUnsignedWord t.arrayStart byte0Offset >>> indexOf0thBit) &&& t.mask))
  else none

/-- `set(index, value)`: 範囲外なら `ENVOY_BUG` で何もしない。 -/
def set (t : BitArray) (index : Nat) (value : UInt32) : BitArray :=
  if index ≥ t.numItems then t
  else
    let bit0Offset := index * t.bitWidth
    let byte0Offset := bit0Offset >>> 3
    let indexOf0thBit := bit0Offset &&& 0x7
    let shiftedValue := value.toNat <<< indexOf0thBit
    let maskToWrite := ((1 <<< t.bitWidth) - 1) <<< indexOf0thBit
    let maskToPreserve := (2 ^ 64 - 1) ^^^ maskToWrite
    let valueToStore :=
      (loadUnsignedWord t.arrayStart byte0Offset &&& maskToPreserve) ||| (shiftedValue &&& maskToWrite)
    { t with arrayStart := storeUnsignedWord t.arrayStart byte0Offset valueToStore }

def size (t : BitArray) : Nat := t.numItems

end BitArray

end Envoy
