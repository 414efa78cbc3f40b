import Envoy.Grpc.Codec

/-!
# gRPC の frame の列と、その byte 列

復号が目指すもの。frame `(flags, 中身)` の列を、`Encoder::newFrame()` の五 byte と中身を順に
並べた byte 列にする。その途中のどこまでを読んでも、読み終えた frame が出ていて、読みかけの
frame が無いのは frame の境目（`IsBoundary`）で終わる時だけである。
-/

namespace Envoy.Grpc

open Buffer

/-- 一つの frame の byte 列。 -/
def encodeFrame (fr : UInt8 × Bytes) : Bytes := Encoder.newFrame fr.1 fr.2.length ++ fr.2

def encodeFrames (frames : List (UInt8 × Bytes)) : Bytes := frames.flatMap encodeFrame

/-- 読み終えた frame の `Frame`。 -/
def toFrame (fr : UInt8 × Bytes) : Frame := ⟨fr.1, fr.2.length, some fr.2⟩

/-- 復号できる frame: flag は `0` か `GRPC_FH_COMPRESSED`、中身の長さは `uint32_t` に入り、
上限 `m` が 0 でなければそれ以下。 -/
def ValidFrame (m : Nat) (fr : UInt8 × Bytes) : Prop :=
  (fr.1 = 0 ∨ fr.1 = grpcFhCompressed) ∧ fr.2.length < 2 ^ 32 ∧ (m ≠ 0 → fr.2.length ≤ m)

instance (m : Nat) (fr : UInt8 × Bytes) : Decidable (ValidFrame m fr) :=
  inferInstanceAs (Decidable (_ ∧ _))

/-- `w` は frame の境目で終わる。 -/
def IsBoundary (frames : List (UInt8 × Bytes)) (w : Bytes) : Prop :=
  ∃ j ≤ frames.length, w = encodeFrames (frames.take j)

@[simp] theorem encodeFrames_nil : encodeFrames [] = [] := rfl

@[simp] theorem encodeFrames_cons (fr : UInt8 × Bytes) (frames : List (UInt8 × Bytes)) :
    encodeFrames (fr :: frames) = encodeFrame fr ++ encodeFrames frames := rfl

theorem encodeFrame_eq (f : UInt8) (p : Bytes) :
    encodeFrame (f, p) = f :: (p.length / 2 ^ 24).toUInt8 :: (p.length / 2 ^ 16).toUInt8 ::
      (p.length / 2 ^ 8).toUInt8 :: p.length.toUInt8 :: p := rfl

@[simp] theorem length_encodeFrame (fr : UInt8 × Bytes) : (encodeFrame fr).length = fr.2.length + 5 := by
  simp [encodeFrame, Encoder.newFrame, store32]

/-- `0` と `GRPC_FH_COMPRESSED` には、`GRPC_FH_COMPRESSED` の外の bit が無い。 -/
theorem and_not_compressed {f : UInt8} (h : f = 0 ∨ f = grpcFhCompressed) : f &&& ~~~grpcFhCompressed = 0 := by
  rcases h with rfl | rfl <;> decide

theorem ValidFrame.flags (h : ValidFrame m fr) : fr.1 &&& ~~~grpcFhCompressed = 0 :=
  and_not_compressed h.1

/-- `Store32` で書いた四 byte は、`Load32` で同じ値に戻る。 -/
theorem load32_set_store32 (v : Vector UInt8 4) {n : Nat} (hn : n < 2 ^ 32) :
    load32 ((((v.set 0 (n / 2 ^ 24).toUInt8).set 1 (n / 2 ^ 16).toUInt8).set 2 (n / 2 ^ 8).toUInt8).set 3
      n.toUInt8) = n := by
  simp [load32, Nat.toUInt8]
  omega

/-! ## frame の境目 -/

theorem isBoundary_nil_left (frames : List (UInt8 × Bytes)) : IsBoundary frames [] :=
  ⟨0, Nat.zero_le _, rfl⟩

/-- 最初の frame を読み終えた後の境目は、残りの frame の境目である。 -/
theorem isBoundary_cons_append (fr : UInt8 × Bytes) (frames : List (UInt8 × Bytes)) (w : Bytes) :
    IsBoundary (fr :: frames) (encodeFrame fr ++ w) ↔ IsBoundary frames w := by
  constructor
  · rintro ⟨j, hj, hw⟩
    cases j with
    | zero =>
      have := congrArg List.length hw
      simp at this
    | succ j =>
      simp only [List.take_succ_cons, encodeFrames_cons, List.append_cancel_left_eq] at hw
      exact ⟨j, by simpa using hj, hw⟩
  · rintro ⟨j, hj, rfl⟩
    exact ⟨j + 1, by simpa using hj, by simp⟩

/-- 最初の frame の途中で終わる列は境目でない。 -/
theorem not_isBoundary_of_lt {fr : UInt8 × Bytes} {frames : List (UInt8 × Bytes)} {w : Bytes}
    (hw : w <+: encodeFrame fr) (hpos : 0 < w.length) (hlt : w.length < (encodeFrame fr).length) :
    ¬ IsBoundary (fr :: frames) w := by
  rintro ⟨j, _, rfl⟩
  cases j with
  | zero => simp at hpos
  | succ j =>
    have := hw.length_le
    simp only [List.take_succ_cons, encodeFrames_cons, List.length_append] at hlt
    omega

end Envoy.Grpc
