import Envoy.Buffer.OwnedImpl
import Envoy.Lib.Simulation

/-!
# `Grpc::Encoder` と `Grpc::Decoder`

`source/common/grpc/codec.cc`。gRPC の data frame は、flag の一 byte、big endian の長さの四 byte、
中身の順に並ぶ。`FrameInspector::inspect()` は入力の slice を順に読む状態機械で、状態と読みかけの
frame は `decode()` の呼び出しをまたいで残る。`Decoder` は `FrameInspector` の四つの仮想関数を
上書きするので、その上書きを直接書く。

`Frame::data_` の `OwnedImpl` は中身の byte 列で表す（その slice の並びを読む所は無い）。
`length_` と `length_as_bytes_` の union は二つの欄にする: `length_` は `FhLen3` が書くまで読まれない。
`inspect()` が返す増分 `delta` は `decode()` が読まないので持たない。
-/

namespace Envoy.Grpc

open Buffer

/-- `GRPC_FH_COMPRESSED`: flag の中で意味を持つ唯一の bit。 -/
def grpcFhCompressed : UInt8 := 1

/-- `GRPC_FRAME_HEADER_SIZE`。 -/
def grpcFrameHeaderSize : Nat := 5

/-- `absl::big_endian::Store32`: `uint32_t` に切り詰めた値の四 byte。 -/
def store32 (v : Nat) : Bytes :=
  [(v / 2 ^ 24).toUInt8, (v / 2 ^ 16).toUInt8, (v / 2 ^ 8).toUInt8, v.toUInt8]

/-- `absl::big_endian::Load32`。 -/
def load32 (b : Vector UInt8 4) : Nat :=
  ((b[0].toNat * 256 + b[1].toNat) * 256 + b[2].toNat) * 256 + b[3].toNat

/-- `Encoder::newFrame(flags, length, output)` が `output` に書く五 byte。 -/
def Encoder.newFrame (flags : UInt8) (length : Nat) : Bytes := flags :: store32 length

inductive State where
  | fhFlag
  | fhLen0
  | fhLen1
  | fhLen2
  | fhLen3
  | data
deriving DecidableEq, Repr

structure Frame where
  flags : UInt8
  length : Nat
  /-- `data_`。`nullptr` は `none`。 -/
  data : Option Bytes
deriving DecidableEq, Repr

/-- `frameDataEnd()` の後の `frame_`。`Decoder` の `frame_` の初めの値は不定だが、`frameStart()` と
`frameDataStart()` がすべての欄を書くまで読まれないので、これで表す。 -/
def Frame.reset : Frame := ⟨0, 0, none⟩

/-- `Decoder` とその基底の `FrameInspector` の欄。`output` は `output_` の指す列。 -/
structure Decoder where
  state : State
  lengthAsBytes : Vector UInt8 4
  length : Nat
  count : Nat
  maxFrameLength : Nat
  isFrameOversized : Bool
  frame : Frame
  output : List Frame
  decodingError : Bool
deriving DecidableEq, Repr

/-- `decode()` が返す `absl::Status`。 -/
inductive Status where
  | okStatus
  | internalError (message : String)
  | resourceExhaustedError (message : String)
deriving DecidableEq, Repr

namespace Decoder

/-- `Decoder()`。 -/
def create : Decoder :=
  ⟨.fhFlag, #v[0, 0, 0, 0], 0, 0, 0, false, Frame.reset, [], false⟩

def setMaxFrameLength (d : Decoder) (maxFrameLength : Nat) : Decoder :=
  { d with maxFrameLength := maxFrameLength }

def frameCount (d : Decoder) : Nat := d.count

def hasBufferedData (d : Decoder) : Bool := d.state != .fhFlag

/-! ## `Decoder` の上書きした仮想関数 -/

/-- `frameStart(flags)`: `GRPC_FH_COMPRESSED` 以外の bit があれば `decoding_error_` を立てて
`false` を返す。 -/
def frameStart (d : Decoder) (flags : UInt8) : Bool × Decoder :=
  if flags &&& ~~~grpcFhCompressed ≠ 0 then (false, { d with decodingError := true })
  else (true, { d with frame := { d.frame with flags := flags } })

def frameDataStart (d : Decoder) : Decoder :=
  { d with frame := { d.frame with length := d.length, data := some [] } }

/-- `frameData(mem, length)`: `data_->add(mem, length)`。 -/
def frameData (d : Decoder) (mem : Bytes) : Decoder :=
  { d with frame := { d.frame with data := d.frame.data.map (· ++ mem) } }

def frameDataEnd (d : Decoder) : Decoder :=
  { d with output := d.output ++ [d.frame], frame := Frame.reset }

/-! ## `FrameInspector::inspect()` -/

/-- `while (mem < end)` の一周。`mem` は slice の残りで、一周の後の残りと共に返す。
`.error` は `return delta` で、その時の欄を持つ。 -/
def inspectStep (d : Decoder) : Bytes → Except Decoder (Decoder × Bytes)
  | [] => .ok (d, [])
  | c :: rest =>
    match d.state with
    | .fhFlag =>
      let r := d.frameStart c
      if r.1 then .ok ({ r.2 with count := r.2.count + 1, state := .fhLen0 }, rest)
      else .error r.2
    | .fhLen0 => .ok ({ d with lengthAsBytes := d.lengthAsBytes.set 0 c, state := .fhLen1 }, rest)
    | .fhLen1 => .ok ({ d with lengthAsBytes := d.lengthAsBytes.set 1 c, state := .fhLen2 }, rest)
    | .fhLen2 => .ok ({ d with lengthAsBytes := d.lengthAsBytes.set 2 c, state := .fhLen3 }, rest)
    | .fhLen3 =>
      let lengthAsBytes := d.lengthAsBytes.set 3 c
      let length := load32 lengthAsBytes
      if d.maxFrameLength ≠ 0 ∧ length > d.maxFrameLength then
        .error { d with lengthAsBytes, length, isFrameOversized := true }
      else
        let d := frameDataStart { d with lengthAsBytes, length }
        if length = 0 then .ok ({ d.frameDataEnd with state := .fhFlag }, rest)
        else .ok ({ d with state := .data }, rest)
    | .data =>
      -- slice の残りを、frame の残りの長さまで一度に読む
      let remainInBuffer := (c :: rest).length
      let r : Decoder × Bytes :=
        if remainInBuffer ≤ d.length then
          ({ d.frameData (c :: rest) with length := d.length - remainInBuffer }, [])
        else ({ d.frameData ((c :: rest).take d.length) with length := 0 }, (c :: rest).drop d.length)
      if r.1.length = 0 then .ok ({ r.1.frameDataEnd with state := .fhFlag }, r.2)
      else .ok r

/-- 一つの slice の `while`。各周は一 byte 以上を読む（`Data` の間は frame の残りが正）ので、
slice の長さより一つ多い燃料で足りる。 -/
def inspectSlice : Nat → Decoder → Bytes → Except Decoder Decoder
  | 0, d, _ => .ok d
  | fuel + 1, d, mem =>
    if mem.isEmpty then .ok d
    else do
      let r ← inspectStep d mem
      inspectSlice fuel r.1 r.2

/-- `inspect(data)`: `getRawSlices()` の slice を順に読む。 -/
def inspect (d : Decoder) (data : OwnedImpl) : Decoder :=
  match data.getRawSlices.foldlM (fun d slice => inspectSlice (slice.length + 1) d slice) d with
  | .ok d => d
  | .error d => d

/-- `decode(input, output)`。返すのは状態、`decode()` の後の `input`、`output`、呼んだ後の欄。 -/
def decode (d : Decoder) (input : OwnedImpl) (output : List Frame) :
    Status × OwnedImpl × List Frame × Decoder :=
  let d := inspect { d with decodingError := false, isFrameOversized := false, output := output } input
  let r := { d with output := [] }
  if d.decodingError then (.internalError "Grpc decoding error", input, d.output, r)
  else if d.isFrameOversized then (.resourceExhaustedError "Grpc frame length exceeds limit", input, d.output, r)
  else (.okStatus, (input.drain input.length).1, d.output, r)

end Decoder

end Envoy.Grpc
