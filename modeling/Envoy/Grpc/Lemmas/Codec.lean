import Envoy.Grpc.Framing
import Envoy.Buffer.Lemmas.OwnedImpl

/-!
# `Grpc::Decoder` の一 byte ずつの読み

`inspect()` は、slice の並びに依らず、中身を一 byte ずつ読む `feedByte` を順に走らせたものに
等しい（`inspect_eq`）。`Data` の間に slice の残りをまとめて読む所は、同じ長さを一 byte ずつ
読むのに等しい（`inspectStep_data`）。その上で、`Encoder::newFrame()` で作った frame の列を読むと
`toFrame` を順に出力に足し（`foldlM_feedByte_encodeFrames`）、その途中のどこまでを読んでも、
`FhFlag` に居るのは frame の境目だけである（`foldlM_feedByte_prefix`）。
-/

namespace Envoy.Grpc

open Buffer

namespace Decoder

/-- 一 byte だけの slice の `while` の一周: `inspect()` を一 byte ずつ読む形。 -/
def feedByte (d : Decoder) (c : UInt8) : Except Decoder Decoder := (inspectStep d [c]).map Prod.fst

/-- `Data` の間は frame の残りの長さが正。`while` の各周が一 byte 以上を読む理由。 -/
def Inv (d : Decoder) : Prop := d.state = .data → 0 < d.length

variable {d : Decoder} {c : UInt8}

/-! ## 一 byte の読み -/

theorem feedByte_fhFlag (h : d.state = .fhFlag) :
    feedByte d c = if c &&& ~~~grpcFhCompressed ≠ 0 then .error { d with decodingError := true }
      else .ok { d with frame := { d.frame with flags := c }, count := d.count + 1, state := .fhLen0 } := by
  by_cases hc : c &&& ~~~grpcFhCompressed ≠ 0 <;> simp [feedByte, inspectStep, h, frameStart, hc, Except.map]

theorem feedByte_fhLen3 (h : d.state = .fhLen3) :
    feedByte d c =
      if d.maxFrameLength ≠ 0 ∧ load32 (d.lengthAsBytes.set 3 c (Nat.lt_succ_self 3)) > d.maxFrameLength then
        .error { d with lengthAsBytes := d.lengthAsBytes.set 3 c (Nat.lt_succ_self 3), isFrameOversized := true,
                        length := load32 (d.lengthAsBytes.set 3 c (Nat.lt_succ_self 3)) }
      else if load32 (d.lengthAsBytes.set 3 c (Nat.lt_succ_self 3)) = 0 then
        .ok { (frameDataStart { d with lengthAsBytes := d.lengthAsBytes.set 3 c (Nat.lt_succ_self 3), length := 0 }).frameDataEnd with
          state := .fhFlag }
      else .ok { frameDataStart { d with lengthAsBytes := d.lengthAsBytes.set 3 c (Nat.lt_succ_self 3),
                                         length := load32 (d.lengthAsBytes.set 3 c (Nat.lt_succ_self 3)) } with state := .data } := by
  simp only [feedByte, inspectStep, h]
  split
  · rfl
  · split
    · rename_i h0; simp [h0, Except.map]
    · rfl

theorem feedByte_data (h : d.state = .data) (hl : 0 < d.length) :
    feedByte d c =
      .ok (if d.length = 1 then { { d.frameData [c] with length := 0 }.frameDataEnd with state := .fhFlag }
        else { d.frameData [c] with length := d.length - 1 }) := by
  have h1 : [c].length ≤ d.length := hl
  simp only [feedByte, inspectStep, h, h1, if_true]
  by_cases hd : d.length = 1
  · simp [hd, frameData, Except.map]
  · have : d.length - 1 ≠ 0 := by omega
    simp [hd, this, frameData, Except.map]


theorem inspectStep_of_ne_data (h : d.state ≠ .data) (rest : Bytes) :
    inspectStep d (c :: rest) = (feedByte d c).map (·, rest) := by
  cases hs : d.state with
  | data => exact absurd hs h
  | fhLen3 =>
    simp only [feedByte, inspectStep, hs]
    split
    · rfl
    · split <;> rfl
  | fhFlag =>
    simp only [feedByte, inspectStep, hs]
    split <;> rfl
  | _ => simp only [feedByte, inspectStep, hs]; rfl

@[simp] theorem frameData_nil (d : Decoder) : d.frameData [] = d := by
  simp [frameData]

@[simp] theorem frameData_state (d : Decoder) (xs : Bytes) : (d.frameData xs).state = d.state := rfl
@[simp] theorem frameData_length (d : Decoder) (xs : Bytes) : (d.frameData xs).length = d.length := rfl

/-! ## `Data` の間の読み -/

/-- frame の残りより短い列を一 byte ずつ読むと、中身に足して残りを減らす。 -/
theorem foldlM_feedByte_data_lt {xs : Bytes} (h : d.state = .data) (hl : xs.length < d.length) :
    xs.foldlM feedByte d = .ok { d.frameData xs with length := d.length - xs.length } := by
  induction xs generalizing d with
  | nil => simp; rfl
  | cons c xs ih =>
    have h1 : d.length ≠ 1 := by simp at hl; omega
    rw [List.foldlM_cons, feedByte_data h (by omega), if_neg h1, Lts.except_ok_bind,
      ih (by simpa using h) (by simp at hl ⊢; omega)]
    simp only [frameData, Option.map_map, Function.comp_def, List.append_assoc, List.singleton_append,
      List.length_cons]
    rw [show d.length - 1 - xs.length = d.length - (xs.length + 1) by omega]


/-- frame の残りと同じ長さの列を一 byte ずつ読むと、frame を出力に足して `FhFlag` に戻る。 -/
theorem foldlM_feedByte_data_eq {xs : Bytes} (h : d.state = .data) (hl : xs.length = d.length)
    (hpos : 0 < d.length) :
    xs.foldlM feedByte d = .ok { { d.frameData xs with length := 0 }.frameDataEnd with state := .fhFlag } := by
  induction xs generalizing d with
  | nil => simp at hl; omega
  | cons c xs ih =>
    rw [List.foldlM_cons, feedByte_data h hpos]
    by_cases hx : xs = []
    · subst hx
      have h1 : d.length = 1 := by simp at hl; omega
      rw [if_pos h1]
      rfl
    · have h1 : d.length ≠ 1 := by
        have := List.length_pos_iff.mpr hx
        simp at hl; omega
      rw [if_neg h1, Lts.except_ok_bind, ih (by simpa using h) (by simp at hl ⊢; omega)
        (by simp; omega)]
      simp only [frameData, frameDataEnd, Option.map_map, Function.comp_def, List.append_assoc,
        List.singleton_append]

/-- `Data` の一周は、slice の残りから frame の残りの長さまでを一 byte ずつ読むのに等しい。 -/
theorem inspectStep_data {mem : Bytes} (h : d.state = .data) (hpos : 0 < d.length) (hmem : mem ≠ []) :
    inspectStep d mem = ((mem.take d.length).foldlM feedByte d).map (·, mem.drop d.length) := by
  obtain ⟨c, rest, rfl⟩ := List.exists_cons_of_ne_nil hmem
  simp only [inspectStep, h]
  by_cases hle : (c :: rest).length ≤ d.length
  · rw [if_pos hle, List.take_of_length_le hle, List.drop_of_length_le hle]
    rcases Nat.lt_or_eq_of_le hle with hlt | heq
    · rw [foldlM_feedByte_data_lt h hlt, if_neg (by dsimp only; omega)]
      rfl
    · rw [foldlM_feedByte_data_eq h heq hpos, if_pos (by simp only; omega)]
      simp only [← heq, Nat.sub_self]
      rfl
  · rw [if_neg hle]
    have hlen : (List.take d.length (c :: rest)).length = d.length := by
      simp only [List.length_take]; omega
    rw [foldlM_feedByte_data_eq h hlen hpos, if_pos rfl]
    rfl


/-! ## slice の並びに依らない読み -/

theorem Inv.feedByte {d' : Decoder} (hd : Inv d) (h : feedByte d c = .ok d') : Inv d' := by
  intro hs'
  cases hs : d.state with
  | fhFlag =>
    rw [feedByte_fhFlag hs] at h
    split at h
    · cases h
    · cases h; simp at hs'
  | fhLen0 | fhLen1 | fhLen2 =>
    simp only [Decoder.feedByte, inspectStep, hs, Except.map, Except.ok.injEq] at h
    subst h; simp at hs'
  | fhLen3 =>
    rw [feedByte_fhLen3 hs] at h
    split at h
    · cases h
    · split at h
      · cases h; simp at hs'
      · cases h; simp [frameDataStart]; omega
  | data =>
    rw [feedByte_data hs (hd hs), Except.ok.injEq] at h
    split at h
    · subst h; simp at hs'
    · rename_i h1
      have := hd hs
      subst h; simp; omega

theorem Inv.foldlM {xs : Bytes} {d' : Decoder} (hd : Inv d) (h : xs.foldlM Decoder.feedByte d = .ok d') :
    Inv d' :=
  Lts.foldlM_except_preserves (fun _ _ _ => Inv.feedByte) hd h

/-- 一つの slice の `while` は、その slice を一 byte ずつ読むのに等しい。 -/
theorem inspectSlice_eq_foldlM (fuel : Nat) (d : Decoder) (mem : Bytes) (hd : Inv d)
    (hfuel : mem.length < fuel) : inspectSlice fuel d mem = mem.foldlM feedByte d := by
  induction fuel generalizing d mem with
  | zero => omega
  | succ fuel ih =>
    rcases mem with _ | ⟨c, rest⟩
    · rfl
    · simp only [inspectSlice, List.isEmpty_cons, Bool.false_eq_true, if_false]
      by_cases hs : d.state = .data
      · -- frame の残りの長さだけ読んだ所で、一 byte ずつの読みを二つに分ける
        have hpos := hd hs
        rw [inspectStep_data hs hpos (List.cons_ne_nil c rest)]
        conv_rhs => rw [← List.take_append_drop d.length (c :: rest), List.foldlM_append]
        cases hf : (List.take d.length (c :: rest)).foldlM feedByte d with
        | error e => rfl
        | ok d' =>
          simp only [Except.map, Lts.except_ok_bind]
          exact ih d' _ (hd.foldlM hf) (by simp at hfuel ⊢; omega)
      · rw [inspectStep_of_ne_data hs, List.foldlM_cons]
        cases hf : feedByte d c with
        | error e => rfl
        | ok d' => exact ih d' rest (hd.feedByte hf) (by simp at hfuel; omega)

theorem foldlM_inspectSlice (slices : List Bytes) (hd : Inv d) :
    slices.foldlM (fun d slice => inspectSlice (slice.length + 1) d slice) d =
      slices.flatten.foldlM feedByte d := by
  induction slices generalizing d with
  | nil => rfl
  | cons s slices ih =>
    rw [List.foldlM_cons, List.flatten_cons, List.foldlM_append, inspectSlice_eq_foldlM _ _ _ hd (by omega)]
    cases hf : s.foldlM feedByte d with
    | error e => rfl
    | ok d' => exact ih (hd.foldlM hf)

/-- `inspect()` は、buffer の中身を一 byte ずつ読むのに等しい: slice の並びに依らない。 -/
theorem inspect_eq (hd : Inv d) (b : OwnedImpl) :
    d.inspect b = match b.toString.foldlM feedByte d with
      | .ok d => d
      | .error d => d := by
  rw [inspect, foldlM_inspectSlice _ hd]
  rfl


/-! ## frame の読み -/

/-- 成功した読みは、二つの誤りの印と上限を変えない。 -/
structure SameFlags (d d' : Decoder) : Prop where
  maxFrameLength : d'.maxFrameLength = d.maxFrameLength
  isFrameOversized : d'.isFrameOversized = d.isFrameOversized
  decodingError : d'.decodingError = d.decodingError

theorem frameStart_of_fst (h : (d.frameStart c).1 = true) :
    (d.frameStart c).2 = { d with frame := { d.frame with flags := c } } := by
  unfold frameStart at *
  split at h
  · cases h
  · rename_i hc; rw [if_neg hc]

theorem sameFlags_inspectStep {mem : Bytes} {r : Decoder × Bytes} (h : inspectStep d mem = .ok r) :
    SameFlags d r.1 := by
  cases mem with
  | nil => cases h; exact ⟨rfl, rfl, rfl⟩
  | cons c rest =>
    simp only [inspectStep] at h
    split at h
    · split at h
      · rename_i hst
        cases h
        rw [frameStart_of_fst hst]
        exact ⟨rfl, rfl, rfl⟩
      · cases h
    all_goals (repeat' split at h) <;> first | (cases h; done) | (cases h; exact ⟨rfl, rfl, rfl⟩)

theorem sameFlags_feedByte {d' : Decoder} (h : feedByte d c = .ok d') : SameFlags d d' := by
  unfold feedByte at h
  cases hr : inspectStep d [c] with
  | error e => rw [hr] at h; cases h
  | ok r =>
    rw [hr] at h
    cases h
    exact sameFlags_inspectStep hr

theorem sameFlags_foldlM {xs : Bytes} {d' : Decoder} (h : xs.foldlM feedByte d = .ok d') : SameFlags d d' :=
  Lts.foldlM_except_preserves (I := SameFlags d) (fun _ _ _ hs hstep =>
    let h' := sameFlags_feedByte hstep
    ⟨h'.maxFrameLength.trans hs.maxFrameLength, h'.isFrameOversized.trans hs.isFrameOversized,
      h'.decodingError.trans hs.decodingError⟩) ⟨rfl, rfl, rfl⟩ h

/-- frame の境目で、`d'` は `d` から `frames` を読み終えた欄を持つ。 -/
structure AfterFrames (d : Decoder) (frames : List Frame) (d' : Decoder) : Prop where
  state : d'.state = .fhFlag
  count : d'.count = d.count + frames.length
  output : d'.output = d.output ++ frames
  flags : SameFlags d d'

theorem AfterFrames.trans {d₁ d₂ : Decoder} {fs gs : List Frame} (h₁ : AfterFrames d fs d₁)
    (h₂ : AfterFrames d₁ gs d₂) : AfterFrames d (fs ++ gs) d₂ where
  state := h₂.state
  count := by rw [h₂.count, h₁.count, List.length_append]; omega
  output := by rw [h₂.output, h₁.output, List.append_assoc]
  flags := ⟨h₂.flags.maxFrameLength.trans h₁.flags.maxFrameLength,
    h₂.flags.isFrameOversized.trans h₁.flags.isFrameOversized, h₂.flags.decodingError.trans h₁.flags.decodingError⟩

/-- frame の頭の五 byte: flag と長さを読み、中身が空ならその場で frame を出す。 -/
theorem foldlM_feedByte_newFrame {f : UInt8} {n : Nat} (hd : d.state = .fhFlag)
    (hf : f &&& ~~~grpcFhCompressed = 0) (hn : n < 2 ^ 32) (hm : d.maxFrameLength ≠ 0 → n ≤ d.maxFrameLength) :
    ∃ v, (Encoder.newFrame f n).foldlM feedByte d =
      .ok (if n = 0 then
          { d with frame := Frame.reset, output := d.output ++ [⟨f, 0, some []⟩], count := d.count + 1,
                   lengthAsBytes := v, length := 0, state := .fhFlag }
        else { d with frame := ⟨f, n, some []⟩, count := d.count + 1, lengthAsBytes := v, length := n,
                      state := .data }) := by
  refine ⟨(((d.lengthAsBytes.set 0 (n / 2 ^ 24).toUInt8).set 1 (n / 2 ^ 16).toUInt8).set 2
    (n / 2 ^ 8).toUInt8).set 3 n.toUInt8, ?_⟩
  have hload := load32_set_store32 d.lengthAsBytes hn
  have hnot : ¬ (d.maxFrameLength ≠ 0 ∧ n > d.maxFrameLength) := fun h => by have := hm h.1; omega
  simp only [Encoder.newFrame, store32, List.foldlM_cons, List.foldlM_nil, feedByte_fhFlag hd, hf,
    ne_eq, not_true_eq_false, if_false, Lts.except_ok_bind]
  simp only [Decoder.feedByte, inspectStep, Except.map, Lts.except_ok_bind]
  rw [hload, if_neg hnot]
  by_cases h0 : n = 0
  · subst h0; simp [frameDataStart, frameDataEnd]
  · simp [h0, frameDataStart]


/-- 一つの frame を読み終えると、`toFrame` を出力に足して境目に戻る。 -/
theorem foldlM_feedByte_encodeFrame {fr : UInt8 × Bytes} (hd : d.state = .fhFlag)
    (hfr : ValidFrame d.maxFrameLength fr) :
    ∃ d', (encodeFrame fr).foldlM feedByte d = .ok d' ∧ AfterFrames d [toFrame fr] d' := by
  obtain ⟨f, p⟩ := fr
  obtain ⟨v, hv⟩ := foldlM_feedByte_newFrame hd hfr.flags hfr.2.1 hfr.2.2
  rw [encodeFrame, List.foldlM_append, hv]
  by_cases h0 : p.length = 0
  · obtain rfl : p = [] := List.length_eq_zero_iff.mp h0
    exact ⟨_, rfl, ⟨rfl, by simp, rfl, ⟨rfl, rfl, rfl⟩⟩⟩
  · rw [if_neg h0, Lts.except_ok_bind, foldlM_feedByte_data_eq rfl rfl (Nat.pos_of_ne_zero h0)]
    refine ⟨_, rfl, ⟨rfl, by simp [frameData, frameDataEnd], ?_, ⟨rfl, rfl, rfl⟩⟩⟩
    simp [frameData, frameDataEnd, toFrame]

/-- frame の列を読み終えると、その `toFrame` を順に出力に足して境目に戻る。 -/
theorem foldlM_feedByte_encodeFrames {frames : List (UInt8 × Bytes)} (hd : d.state = .fhFlag)
    (hfr : ∀ fr ∈ frames, ValidFrame d.maxFrameLength fr) :
    ∃ d', (encodeFrames frames).foldlM feedByte d = .ok d' ∧ AfterFrames d (frames.map toFrame) d' := by
  induction frames generalizing d with
  | nil => exact ⟨d, rfl, ⟨hd, by simp, by simp, ⟨rfl, rfl, rfl⟩⟩⟩
  | cons fr frames ih =>
    obtain ⟨d₁, h₁, ha₁⟩ := foldlM_feedByte_encodeFrame hd (hfr fr (List.mem_cons_self ..))
    obtain ⟨d₂, h₂, ha₂⟩ := ih ha₁.state fun fr' h' => by
      rw [ha₁.flags.maxFrameLength]; exact hfr fr' (List.mem_cons_of_mem _ h')
    refine ⟨d₂, ?_, ha₁.trans ha₂⟩
    rw [encodeFrames_cons, List.foldlM_append, h₁, Lts.except_ok_bind, h₂]

/-- frame の途中までを読むと、読みかけの frame が残る。 -/
theorem foldlM_feedByte_inside {fr : UInt8 × Bytes} {w : Bytes} (hd : d.state = .fhFlag)
    (hfr : ValidFrame d.maxFrameLength fr) (hw : w <+: encodeFrame fr) (hpos : 0 < w.length)
    (hlt : w.length < (encodeFrame fr).length) :
    ∃ d', w.foldlM feedByte d = .ok d' ∧ d'.state ≠ .fhFlag := by
  obtain ⟨f, p⟩ := fr
  have hf : f &&& ~~~grpcFhCompressed = 0 := hfr.flags
  rw [List.prefix_iff_eq_take] at hw
  rw [hw]
  simp only [length_encodeFrame] at hlt
  by_cases hk : 5 ≤ w.length
  · -- 頭の五 byte の後は `Data` に居て、中身の残りが正
    obtain ⟨v, hv⟩ := foldlM_feedByte_newFrame hd hf hfr.2.1 hfr.2.2
    have h0 : p.length ≠ 0 := by omega
    have hnf : ∀ a n, (Encoder.newFrame a n).length = 5 := fun _ _ => rfl
    rw [encodeFrame, List.take_append, hnf, List.take_of_length_le (by rw [hnf]; omega), List.foldlM_append, hv,
      if_neg h0, Lts.except_ok_bind, foldlM_feedByte_data_lt rfl (by simp; omega)]
    exact ⟨_, rfl, by simp⟩
  · generalize w.length = k at hpos hk
    interval_cases k <;>
      simp [encodeFrame_eq, hd, frameStart, hf, Decoder.feedByte, inspectStep, Except.map]


/-- frame の列の byte 列のどこまでを読んでも失敗せず、`FhFlag` に居るのは境目で終わる時だけである。 -/
theorem foldlM_feedByte_prefix {frames : List (UInt8 × Bytes)} {w : Bytes} (hd : d.state = .fhFlag)
    (hfr : ∀ fr ∈ frames, ValidFrame d.maxFrameLength fr) (hw : w <+: encodeFrames frames) :
    ∃ d', w.foldlM feedByte d = .ok d' ∧ (d'.state = .fhFlag ↔ IsBoundary frames w) := by
  induction frames generalizing d w with
  | nil =>
    obtain rfl := List.prefix_nil.mp hw
    exact ⟨d, rfl, by simp [hd, isBoundary_nil_left]⟩
  | cons fr frames ih =>
    have hfr₀ := hfr fr (List.mem_cons_self ..)
    rw [encodeFrames_cons] at hw
    -- 最初の frame を読み終えたか、その途中で終わるか
    rcases List.prefix_or_prefix_of_prefix hw (List.prefix_append _ _) with hin | hout
    · by_cases hlt : w.length < (encodeFrame fr).length
      · rcases Nat.eq_zero_or_pos w.length with h0 | hpos
        · obtain rfl := List.length_eq_zero_iff.mp h0
          exact ⟨d, rfl, by simp [hd, isBoundary_nil_left]⟩
        · obtain ⟨d', h', hs'⟩ := foldlM_feedByte_inside hd hfr₀ hin hpos hlt
          exact ⟨d', h', iff_of_false hs' (not_isBoundary_of_lt hin hpos hlt)⟩
      · have heq : w = encodeFrame fr := hin.eq_of_length (by have := hin.length_le; omega)
        subst heq
        obtain ⟨d₁, h₁, ha₁⟩ := foldlM_feedByte_encodeFrame hd hfr₀
        refine ⟨d₁, h₁, ?_⟩
        rw [← List.append_nil (encodeFrame fr), isBoundary_cons_append]
        simp [ha₁.state, isBoundary_nil_left]
    · obtain ⟨w', rfl⟩ := hout
      obtain ⟨d₁, h₁, ha₁⟩ := foldlM_feedByte_encodeFrame hd hfr₀
      obtain ⟨d', h', hs'⟩ := ih ha₁.state (fun fr' h'' => by
          rw [ha₁.flags.maxFrameLength]; exact hfr fr' (List.mem_cons_of_mem _ h''))
        ((List.prefix_append_right_inj _).mp hw)
      refine ⟨d', ?_, hs'.trans (isBoundary_cons_append fr frames w').symm⟩
      rw [List.foldlM_append, h₁, Lts.except_ok_bind, h']


/-! ## 出力の列 -/

/-- 出力の列の前に `o` を足す。 -/
def prependOutput (o : List Frame) (d : Decoder) : Decoder := { d with output := o ++ d.output }

/-- 一 byte の読みは出力の列に足すだけで、その前にある frame を読まない。 -/
theorem feedByte_prependOutput (o : List Frame) (d : Decoder) (c : UInt8) :
    feedByte (prependOutput o d) c = ((feedByte d c).map (prependOutput o)).mapError (prependOutput o) := by
  cases hs : d.state <;>
    simp [feedByte, inspectStep, prependOutput, hs, frameStart, frameDataStart, frameDataEnd, frameData,
      Except.map, Except.mapError] <;>
    split_ifs <;> simp


theorem foldlM_prependOutput (o : List Frame) (xs : Bytes) (d : Decoder) :
    xs.foldlM feedByte (prependOutput o d) =
      ((xs.foldlM feedByte d).map (prependOutput o)).mapError (prependOutput o) := by
  induction xs generalizing d with
  | nil => rfl
  | cons c xs ih =>
    rw [List.foldlM_cons, List.foldlM_cons, feedByte_prependOutput]
    cases feedByte d c with
    | error e => rfl
    | ok d' => exact ih d'

theorem prependOutput_output_nil (d : Decoder) : prependOutput d.output { d with output := [] } = d := by
  simp [prependOutput]

/-! ## `decode()` -/

/-- 読みが成功すれば、`decode()` は `OkStatus` を返して入力を捨てる。 -/
theorem decode_of_ok {b : OwnedImpl} {o : List Frame} {d' : Decoder} (hd : Inv d)
    (h : b.toString.foldlM feedByte { d with decodingError := false, isFrameOversized := false, output := o } =
      .ok d') :
    d.decode b o = (.okStatus, (b.drain b.length).1, d'.output, { d' with output := [] }) := by
  have hf := sameFlags_foldlM h
  simp only [decode]
  rw [inspect_eq (d := { d with decodingError := false, isFrameOversized := false, output := o }) hd, h]
  simp [hf.decodingError, hf.isFrameOversized]

/-- 読みが flag の誤りで止まれば、`decode()` は `InternalError` を返し、入力を残す。 -/
theorem decode_of_decodingError {b : OwnedImpl} {o : List Frame} {e : Decoder} (hd : Inv d)
    (h : b.toString.foldlM feedByte { d with decodingError := false, isFrameOversized := false, output := o } =
      .error e) (he : e.decodingError = true) :
    (d.decode b o).1 = .internalError "Grpc decoding error" ∧ (d.decode b o).2.1 = b := by
  simp only [decode]
  rw [inspect_eq (d := { d with decodingError := false, isFrameOversized := false, output := o }) hd, h]
  simp [he]

/-- 読みが長さの上限で止まれば、`decode()` は `ResourceExhaustedError` を返し、入力を残す。 -/
theorem decode_of_oversized {b : OwnedImpl} {o : List Frame} {e : Decoder} (hd : Inv d)
    (h : b.toString.foldlM feedByte { d with decodingError := false, isFrameOversized := false, output := o } =
      .error e) (he : e.decodingError = false) (ho : e.isFrameOversized = true) :
    (d.decode b o).1 = .resourceExhaustedError "Grpc frame length exceeds limit" ∧ (d.decode b o).2.1 = b := by
  simp only [decode]
  rw [inspect_eq (d := { d with decodingError := false, isFrameOversized := false, output := o }) hd, h]
  simp [he, ho]

end Decoder

end Envoy.Grpc
