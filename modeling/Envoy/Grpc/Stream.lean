import Envoy.Grpc.Lemmas.Codec
import Envoy.Lib.Chunks

/-!
# 任意の chunk に切った gRPC の入力

一つの `Decoder` に chunk を一つずつ `decode()` させる。各呼び出しの結果は、全体の byte 列を
一 byte ずつ読んだ時の、その chunk の分の読みで決まる（`exec_decodeStep_ok`）。出力の列を
前に持つ読みは、空の出力の列からの読みに、その列を前に足したものである（`foldlM_prependOutput`）。
-/

namespace Envoy.Grpc

open Buffer

namespace Decoder

variable {d : Decoder}

/-! ## chunk に切った入力 -/

/-- 一つの `Decoder` に、chunk を一つずつ空の出力の列と共に `decode()` させる一歩。返すのは
状態、`decode()` の後の chunk、足された frame、その後の `hasBufferedData()`。 -/
def decodeStep (d : Decoder) (input : OwnedImpl) : Decoder × (Status × OwnedImpl × List Frame × Bool) :=
  let r := d.decode input []
  (r.2.2.2, (r.1, r.2.1, r.2.2.1, r.2.2.2.hasBufferedData))

/-- 読み進められ、誤りの印が下りている。 -/
structure Ready (d : Decoder) : Prop where
  inv : Inv d
  decodingError : d.decodingError = false
  isFrameOversized : d.isFrameOversized = false

theorem Ready.foldlM {xs : Bytes} {d' : Decoder} (hr : Ready d) (h : xs.foldlM feedByte d = .ok d') : Ready d' :=
  ⟨hr.inv.foldlM h, (sameFlags_foldlM h).decodingError.trans hr.decodingError,
    (sameFlags_foldlM h).isFrameOversized.trans hr.isFrameOversized⟩

theorem Ready.reset (hr : Ready d) :
    { { d with output := [] } with decodingError := false, isFrameOversized := false, output := [] } =
      { d with output := [] } := by
  have h₁ := hr.decodingError
  have h₂ := hr.isFrameOversized
  cases d
  simp_all

/-- 出力の列を空にした欄から chunk を読むのは、もとの欄から読むのと同じ所へ行き、その間に足した
frame を返す。 -/
theorem decodeStep_of_ok {b : OwnedImpl} {d' : Decoder} (hr : Ready d) (h : b.toString.foldlM feedByte d = .ok d') :
    ∃ new, d'.output = d.output ++ new ∧
      decodeStep { d with output := [] } b =
        ({ d' with output := [] }, (.okStatus, (b.drain b.length).1, new, d'.hasBufferedData)) := by
  have hshift := foldlM_prependOutput d.output b.toString { d with output := [] }
  rw [prependOutput_output_nil, h] at hshift
  cases hc : b.toString.foldlM feedByte { d with output := [] } with
  | error e => rw [hc] at hshift; cases hshift
  | ok e =>
    rw [hc] at hshift
    have he : prependOutput d.output e = d' := by cases hshift; rfl
    refine ⟨e.output, by rw [← he]; rfl, ?_⟩
    have hdec := decode_of_ok (d := { d with output := [] }) (o := []) hr.inv (by rw [hr.reset]; exact hc)
    simp only [decodeStep, hdec, ← he, prependOutput, hasBufferedData]

/-- 読みが止まる chunk では、出力の列を空にした欄からの読みも同じ所で止まる。 -/
theorem foldlM_of_error {b : OwnedImpl} {E : Decoder} (h : b.toString.foldlM feedByte d = .error E) :
    ∃ E', b.toString.foldlM feedByte { d with output := [] } = .error E' ∧ E'.decodingError = E.decodingError ∧
      E'.isFrameOversized = E.isFrameOversized := by
  have hshift := foldlM_prependOutput d.output b.toString { d with output := [] }
  rw [prependOutput_output_nil, h] at hshift
  cases hc : b.toString.foldlM feedByte { d with output := [] } with
  | ok e => rw [hc] at hshift; cases hshift
  | error e =>
    rw [hc] at hshift
    cases hshift
    exact ⟨e, rfl, rfl, rfl⟩

/-- 成功する読みの列: chunk を一つずつ `decode()` させると、すべて `OkStatus` で捨てられ、
足された frame をつなぐと全体の読みの出力になる。 -/
theorem exec_decodeStep_ok {chunks : List OwnedImpl} {g : Decoder} (hr : Ready d)
    (h : (chunks.map OwnedImpl.toString).flatten.foldlM feedByte d = .ok g) :
    (Lts.exec decodeStep { d with output := [] } chunks).1 = { g with output := [] } ∧
    (∀ r ∈ (Lts.exec decodeStep { d with output := [] } chunks).2, r.1 = .okStatus) ∧
    (Lts.exec decodeStep { d with output := [] } chunks).2.map (·.2.1) =
      chunks.map (fun b => (b.drain b.length).1) ∧
    d.output ++ ((Lts.exec decodeStep { d with output := [] } chunks).2.map (·.2.2.1)).flatten = g.output ∧
    ∀ k (hk : k < (Lts.exec decodeStep { d with output := [] } chunks).2.length), ∃ e,
      ((chunks.take (k + 1)).map OwnedImpl.toString).flatten.foldlM feedByte d = .ok e ∧
      (Lts.exec decodeStep { d with output := [] } chunks).2[k].2.2.2 = e.hasBufferedData := by
  induction chunks generalizing d with
  | nil =>
    cases h
    exact ⟨rfl, by simp, rfl, by simp, by simp⟩
  | cons b chunks ih =>
    rw [List.map_cons, List.flatten_cons] at h
    obtain ⟨d₁, h₁, hrest⟩ := Lts.foldlM_append_eq_ok h
    obtain ⟨new, hnew, hstep⟩ := decodeStep_of_ok hr h₁
    obtain ⟨hfin, hok, hdrain, hout, hbuf⟩ := ih (hr.foldlM h₁) hrest
    simp only [Lts.exec_cons, hstep]
    refine ⟨hfin, ?_, by simp [hdrain], ?_, ?_⟩
    · intro r hmem
      rcases List.mem_cons.mp hmem with rfl | hmem
      · rfl
      · exact hok r hmem
    · simp only [List.map_cons, List.flatten_cons, ← List.append_assoc, ← hnew, hout]
    · intro k hk
      cases k with
      | zero => exact ⟨d₁, by simpa using h₁, rfl⟩
      | succ k =>
        obtain ⟨e, he, hb⟩ := hbuf k (by simpa using hk)
        refine ⟨e, ?_, by simpa using hb⟩
        rw [List.take_succ_cons, List.map_cons, List.flatten_cons, List.foldlM_append, h₁, Lts.except_ok_bind, he]


/-- 読みが止まるのは、flag の誤りか長さの上限の時だけである。 -/
theorem error_flags_inspectStep {mem : Bytes} {E : Decoder} (h : inspectStep d mem = .error E) :
    E.decodingError = true ∨ E.isFrameOversized = true := by
  cases mem with
  | nil => cases h
  | cons c rest =>
    simp only [inspectStep] at h
    split at h
    · split at h
      · cases h
      · cases h
        left
        unfold frameStart at *
        split at * <;> simp_all
    all_goals (repeat' split at h) <;> first | (cases h; done) | (cases h; right; rfl)

theorem error_flags {xs : Bytes} {E : Decoder} (h : xs.foldlM feedByte d = .error E) :
    E.decodingError = true ∨ E.isFrameOversized = true := by
  induction xs generalizing d with
  | nil => cases h
  | cons c xs ih =>
    rw [List.foldlM_cons] at h
    cases hc : feedByte d c with
    | ok d' => rw [hc, Lts.except_ok_bind] at h; exact ih h
    | error e =>
      rw [hc, Lts.except_error_bind] at h
      cases h
      unfold feedByte at hc
      cases hs : inspectStep d [c] with
      | error e' => rw [hs] at hc; cases hc; exact error_flags_inspectStep hs
      | ok r => rw [hs] at hc; cases hc

/-- 読みが止まる chunk までの `decode()`: その前の chunk はすべて `OkStatus` で、止まる chunk は
誤りを返して捨てられない。 -/
theorem exec_decodeStep_error {pre t : List OwnedImpl} {b : OwnedImpl} {e E : Decoder} (hr : Ready d)
    (hpre : (pre.map OwnedImpl.toString).flatten.foldlM feedByte d = .ok e)
    (hstop : b.toString.foldlM feedByte e = .error E) :
    ∃ rs r rs', (Lts.exec decodeStep { d with output := [] } (pre ++ b :: t)).2 = rs ++ r :: rs' ∧
      rs.length = pre.length ∧ (∀ x ∈ rs, x.1 = .okStatus) ∧ r.2.1 = b ∧
      (E.decodingError = true → r.1 = .internalError "Grpc decoding error") ∧
      (E.decodingError = false → E.isFrameOversized = true →
        r.1 = .resourceExhaustedError "Grpc frame length exceeds limit") := by
  obtain ⟨hfin, hok, -, -, -⟩ := exec_decodeStep_ok hr hpre
  have hre := hr.foldlM hpre
  obtain ⟨E', hE', hdec, hover⟩ := foldlM_of_error hstop
  have hreset := hre.reset
  rw [Lts.exec_append, hfin, Lts.exec_cons]
  refine ⟨_, _, _, rfl, by simp, hok, ?_, fun h => ?_, fun h ho => ?_⟩
  · simp only [decodeStep]
    by_cases h₁ : E'.decodingError = true
    · exact (decode_of_decodingError (d := { e with output := [] }) hre.inv (by rw [hreset]; exact hE') h₁).2
    · have h₂ : E'.isFrameOversized = true := (error_flags hE').resolve_left h₁
      exact (decode_of_oversized (d := { e with output := [] }) hre.inv (by rw [hreset]; exact hE')
        (by simpa using h₁) h₂).2
  · exact (decode_of_decodingError (d := { e with output := [] }) hre.inv (by rw [hreset]; exact hE')
      (hdec.trans h)).1
  · exact (decode_of_oversized (d := { e with output := [] }) hre.inv (by rw [hreset]; exact hE')
      (hdec.trans h) (hover.trans ho)).1


/-- 全体の列の位置 `n` より前の接頭辞の読みが成功し、`n` を越える接頭辞の読みが止まるなら、
`n` を含む chunk の `decode()` が最初の誤りを返し、その chunk を捨てない。 -/
theorem exec_decodeStep_stop {chunks : List OwnedImpl} {n : Nat} {Q : Decoder → Prop} (hr : Ready d)
    (hn : n < (chunks.map OwnedImpl.toString).flatten.length)
    (hok : ∀ w, w <+: (chunks.map OwnedImpl.toString).flatten → w.length ≤ n → ∃ e, w.foldlM feedByte d = .ok e)
    (hstop : ∀ w, w <+: (chunks.map OwnedImpl.toString).flatten → n < w.length →
      ∃ E, w.foldlM feedByte d = .error E ∧ Q E) :
    ∃ rs r rs' E, (Lts.exec decodeStep { d with output := [] } chunks).2 = rs ++ r :: rs' ∧
      (∀ x ∈ rs, x.1 = .okStatus) ∧ chunks[rs.length]? = some r.2.1 ∧ Q E ∧
      (E.decodingError = true → r.1 = .internalError "Grpc decoding error") ∧
      (E.decodingError = false → E.isFrameOversized = true →
        r.1 = .resourceExhaustedError "Grpc frame length exceeds limit") := by
  obtain ⟨pre, b, post, rfl, hle, hlt⟩ := List.exists_chunk_of_lt_length hn
  have hwhole : (pre ++ b :: post).map OwnedImpl.toString =
      pre.map OwnedImpl.toString ++ b.toString :: post.map OwnedImpl.toString := by simp
  have hpre : (pre.map OwnedImpl.toString).flatten <+: ((pre ++ b :: post).map OwnedImpl.toString).flatten := by
    rw [hwhole, List.flatten_append]; exact List.prefix_append _ _
  have hpreb : (pre.map OwnedImpl.toString).flatten ++ b.toString <+:
      ((pre ++ b :: post).map OwnedImpl.toString).flatten := by
    rw [hwhole, List.flatten_append, List.flatten_cons, ← List.append_assoc]; exact List.prefix_append _ _
  obtain ⟨e, he⟩ := hok _ hpre hle
  obtain ⟨E, hE, hQ⟩ := hstop _ hpreb (by simpa using hlt)
  rw [List.foldlM_append, he, Lts.except_ok_bind] at hE
  obtain ⟨rs, r, rs', hrun, hlen, hok', hb, hdec, hover⟩ := exec_decodeStep_error (t := post) hr he hE
  refine ⟨rs, r, rs', E, hrun, hok', ?_, hQ, hdec, hover⟩
  rw [hlen, List.getElem?_append_right (Nat.le_refl _), Nat.sub_self, hb]
  rfl

/-- flag が正しければ、頭の四 byte までは止まらない。 -/
theorem foldlM_feedByte_header_prefix {f : UInt8} {n : Nat} {q : Bytes} (hd : d.state = .fhFlag)
    (hf : f &&& ~~~grpcFhCompressed = 0) (hq : q <+: (Encoder.newFrame f n).take 4) :
    ∃ d', q.foldlM feedByte d = .ok d' := by
  have hlen : q.length ≤ 4 := by simpa [Encoder.newFrame, store32] using hq.length_le
  rw [List.prefix_iff_eq_take] at hq
  rw [hq]
  generalize q.length = k at hlen
  interval_cases k
  · exact ⟨d, rfl⟩
  all_goals simp [Encoder.newFrame, store32, hd, frameStart, hf, Decoder.feedByte, inspectStep, Except.map]

/-- 長さが上限を超える frame の頭の五 byte は、`is_frame_oversized_` を立てて止まる。 -/
theorem foldlM_feedByte_newFrame_oversized {f : UInt8} {n : Nat} (hd : d.state = .fhFlag)
    (hf : f &&& ~~~grpcFhCompressed = 0) (hn : n < 2 ^ 32) (hm : d.maxFrameLength ≠ 0)
    (hover : d.maxFrameLength < n) :
    ∃ E, (Encoder.newFrame f n).foldlM feedByte d = .error E ∧ E.decodingError = d.decodingError ∧
      E.isFrameOversized = true := by
  have hload := load32_set_store32 d.lengthAsBytes hn
  simp only [Encoder.newFrame, store32, List.foldlM_cons, List.foldlM_nil, feedByte_fhFlag hd, hf,
    ne_eq, not_true_eq_false, if_false, Lts.except_ok_bind]
  simp only [Decoder.feedByte, inspectStep, Except.map, Lts.except_ok_bind]
  rw [hload, if_pos ⟨hm, hover⟩]
  exact ⟨_, rfl, rfl, rfl⟩

theorem drain_toString {b : OwnedImpl} (hb : b.LengthOk) : (b.drain b.length).1.toString = [] := by
  rw [OwnedImpl.toString_eq, OwnedImpl.drain, (OwnedImpl.drainImpl_spec b hb b.length).1, hb, List.drop_length]


/-! ## 新しい `Decoder` に、任意に切った chunk を渡す -/

theorem ready_create (m : Nat) : Ready (create.setMaxFrameLength m) := ⟨fun h => (nomatch h), rfl, rfl⟩

/-- 空の出力の列を持つ `create` は、出力の列を空にしても同じ。 -/
theorem create_output_nil (m : Nat) : { create.setMaxFrameLength m with output := [] } = create.setMaxFrameLength m :=
  rfl

/-- 正しい frame の列を任意に切って渡すと、すべて `OkStatus` で捨てられ、足された frame は
もとの frame の列で、読みかけが無いのは境目で切った時だけである。 -/
theorem exec_decodeStep_frames (m : Nat) {frames : List (UInt8 × Bytes)} {chunks : List OwnedImpl}
    (hfr : ∀ fr ∈ frames, ValidFrame m fr) (hlen : ∀ b ∈ chunks, b.LengthOk)
    (hw : (chunks.map OwnedImpl.toString).flatten = encodeFrames frames) :
    (∀ r ∈ (Lts.exec decodeStep (create.setMaxFrameLength m) chunks).2, r.1 = .okStatus ∧ r.2.1.toString = []) ∧
    ((Lts.exec decodeStep (create.setMaxFrameLength m) chunks).2.map (·.2.2.1)).flatten = frames.map toFrame ∧
    (Lts.exec decodeStep (create.setMaxFrameLength m) chunks).1.frameCount = frames.length ∧
    ∀ k (hk : k < (Lts.exec decodeStep (create.setMaxFrameLength m) chunks).2.length),
      ((Lts.exec decodeStep (create.setMaxFrameLength m) chunks).2[k].2.2.2 = false ↔
        IsBoundary frames ((chunks.take (k + 1)).map OwnedImpl.toString).flatten) := by
  obtain ⟨g, hg, hag⟩ := foldlM_feedByte_encodeFrames (d := create.setMaxFrameLength m) rfl hfr
  rw [← hw] at hg
  obtain ⟨hfin, hok, hdrain, hout, hbuf⟩ := exec_decodeStep_ok (ready_create m) hg
  rw [create_output_nil] at hfin hok hdrain hout hbuf
  have h0 : (create.setMaxFrameLength m).output = [] := rfl
  refine ⟨fun r hr => ⟨hok r hr, ?_⟩, ?_, ?_, fun k hk => ?_⟩
  · -- `decode()` の後の chunk は、どれも中身を捨てた chunk
    have hmem : r.2.1 ∈ chunks.map (fun b => (b.drain b.length).1) := hdrain ▸ List.mem_map_of_mem hr
    obtain ⟨b, hb, hbr⟩ := List.mem_map.mp hmem
    rw [← hbr]
    exact drain_toString (hlen b hb)
  · rw [h0, List.nil_append, hag.output, h0, List.nil_append] at hout
    exact hout
  · rw [hfin]
    show g.count = _
    rw [hag.count, List.length_map]
    exact Nat.zero_add _
  · obtain ⟨e, he, hb⟩ := hbuf k hk
    obtain ⟨e', he', hs'⟩ := foldlM_feedByte_prefix (d := create.setMaxFrameLength m) rfl hfr
      (hw ▸ List.flatten_map_take_prefix OwnedImpl.toString chunks (k + 1))
    rw [he] at he'
    cases he'
    rw [hb, ← hs']
    simp [hasBufferedData]

/-- 正しい frame の後の flag の byte に `GRPC_FH_COMPRESSED` の外の bit があれば、その byte を含む
chunk の `decode()` が最初の誤りの `InternalError` を返し、その chunk を捨てない。 -/
theorem exec_decodeStep_bad_flags (m : Nat) {frames : List (UInt8 × Bytes)} {f : UInt8} {rest : Bytes}
    {chunks : List OwnedImpl} (hfr : ∀ fr ∈ frames, ValidFrame m fr) (hf : f &&& ~~~grpcFhCompressed ≠ 0)
    (hw : (chunks.map OwnedImpl.toString).flatten = encodeFrames frames ++ f :: rest) :
    ∃ rs r rs', (Lts.exec decodeStep (create.setMaxFrameLength m) chunks).2 = rs ++ r :: rs' ∧
      (∀ x ∈ rs, x.1 = .okStatus) ∧ r.1 = .internalError "Grpc decoding error" ∧ chunks[rs.length]? = some r.2.1 := by
  obtain ⟨g, hg, hag⟩ := foldlM_feedByte_encodeFrames (d := create.setMaxFrameLength m) rfl hfr
  obtain ⟨rs, r, rs', E, hrun, hok, hb, hQ, hdec, -⟩ :=
    exec_decodeStep_stop (n := (encodeFrames frames).length) (Q := fun E => E.decodingError = true)
      (ready_create m) (by rw [hw]; simp)
      (fun w hw' hle => by
        -- flag の byte の前までは、正しい frame の列の接頭辞
        have hp : w <+: encodeFrames frames :=
          List.prefix_of_prefix_length_le (hw ▸ hw') (List.prefix_append _ _) hle
        obtain ⟨e, he, -⟩ := foldlM_feedByte_prefix (d := create.setMaxFrameLength m) rfl hfr hp
        exact ⟨e, he⟩)
      (fun w hw' hlt => by
        have hp : encodeFrames frames ++ [f] <+: w :=
          List.prefix_of_prefix_length_le (by simp) (hw ▸ hw') (by simp; omega)
        obtain ⟨t, rfl⟩ := hp
        refine ⟨{ g with decodingError := true }, ?_, rfl⟩
        rw [List.append_assoc, List.foldlM_append, hg, Lts.except_ok_bind, List.singleton_append, List.foldlM_cons,
          feedByte_fhFlag hag.state, if_pos hf]
        rfl)
  rw [create_output_nil] at hrun
  exact ⟨rs, r, rs', hrun, hok, hdec hQ, hb⟩

/-- 正しい frame の後の frame の長さが上限を超えれば、その長さの最後の byte を含む chunk の
`decode()` が最初の誤りの `ResourceExhaustedError` を返し、その chunk を捨てない。 -/
theorem exec_decodeStep_oversized (m : Nat) {frames : List (UInt8 × Bytes)} {f : UInt8} {n : Nat} {rest : Bytes}
    {chunks : List OwnedImpl} (hfr : ∀ fr ∈ frames, ValidFrame m fr) (hf : f = 0 ∨ f = grpcFhCompressed)
    (hn : n < 2 ^ 32) (hm : m ≠ 0) (hover : m < n)
    (hw : (chunks.map OwnedImpl.toString).flatten = encodeFrames frames ++ Encoder.newFrame f n ++ rest) :
    ∃ rs r rs', (Lts.exec decodeStep (create.setMaxFrameLength m) chunks).2 = rs ++ r :: rs' ∧
      (∀ x ∈ rs, x.1 = .okStatus) ∧ r.1 = .resourceExhaustedError "Grpc frame length exceeds limit" ∧
      chunks[rs.length]? = some r.2.1 := by
  obtain ⟨g, hg, hag⟩ := foldlM_feedByte_encodeFrames (d := create.setMaxFrameLength m) rfl hfr
  have hnf : ∀ a k, (Encoder.newFrame a k).length = 5 := fun _ _ => rfl
  obtain ⟨rs, r, rs', E, hrun, hok, hb, hQ, -, hover'⟩ :=
    exec_decodeStep_stop (n := (encodeFrames frames).length + 4)
      (Q := fun E => E.decodingError = false ∧ E.isFrameOversized = true)
      (ready_create m) (by rw [hw]; simp [hnf]; omega)
      (fun w hw' hle => by
        rw [hw] at hw'
        rcases List.prefix_or_prefix_of_prefix hw' (List.prefix_append_of_prefix (List.prefix_append _ _))
          with hp | ⟨q, rfl⟩
        · obtain ⟨e, he, -⟩ := foldlM_feedByte_prefix (d := create.setMaxFrameLength m) rfl hfr hp
          exact ⟨e, he⟩
        · -- 正しい frame の列の後は、長すぎる frame の頭の四 byte まで
          rw [List.append_assoc, List.prefix_append_right_inj] at hw'
          have hq : q <+: (Encoder.newFrame f n).take 4 :=
            List.prefix_of_prefix_length_le hw'
              (List.prefix_append_of_prefix (List.take_prefix 4 _)) (by simp [hnf] at hle ⊢; omega)
          obtain ⟨e, he⟩ := foldlM_feedByte_header_prefix hag.state (and_not_compressed hf) hq
          exact ⟨e, by rw [List.foldlM_append, hg, Lts.except_ok_bind, he]⟩)
      (fun w hw' hlt => by
        have hp : encodeFrames frames ++ Encoder.newFrame f n <+: w :=
          List.prefix_of_prefix_length_le (List.prefix_append _ _) (hw ▸ hw')
            (by simp [hnf]; omega)
        obtain ⟨t, rfl⟩ := hp
        obtain ⟨E, hE, hdec, hovr⟩ := foldlM_feedByte_newFrame_oversized hag.state (and_not_compressed hf) hn
          (by rw [hag.flags.maxFrameLength]; exact hm) (by rw [hag.flags.maxFrameLength]; exact hover)
        refine ⟨E, ?_, ⟨by rw [hdec, hag.flags.decodingError]; rfl, hovr⟩⟩
        rw [List.foldlM_append, List.foldlM_append, hg, Lts.except_ok_bind, hE]
        rfl)
  rw [create_output_nil] at hrun
  exact ⟨rs, r, rs', hrun, hok, hover' hQ.1 hQ.2, hb⟩

end Decoder

open Decoder

/-- gRPC の frame の符号は chunk の切り方に依らずに復号される。正しい frame の列の byte 列を
どう chunk に切り、各 chunk をどんな slice の並びの `OwnedImpl` に入れて新しい `Decoder` に順に
渡しても、どの `decode()` も `OkStatus` を返して chunk を捨て、足された frame はもとの frame の列で、
`frameCount()` は frame の数、`hasBufferedData()` が偽なのは frame の境目で切った時だけである。
frame の境目の flag の byte に `GRPC_FH_COMPRESSED` の外の bit があるか、長さが上限 `m ≠ 0` を
超えれば、そこを含む chunk の `decode()` が最初の誤りを返し、その chunk を捨てない。 -/
theorem decode_frames_any_chunking :
    (∀ (m : Nat) (frames : List (UInt8 × Bytes)) (chunks : List OwnedImpl),
      (∀ fr ∈ frames, ValidFrame m fr) → (∀ b ∈ chunks, b.LengthOk) →
      (chunks.map OwnedImpl.toString).flatten = encodeFrames frames →
      (∀ r ∈ (Lts.exec decodeStep (create.setMaxFrameLength m) chunks).2, r.1 = .okStatus ∧ r.2.1.toString = []) ∧
      ((Lts.exec decodeStep (create.setMaxFrameLength m) chunks).2.map (·.2.2.1)).flatten = frames.map toFrame ∧
      (Lts.exec decodeStep (create.setMaxFrameLength m) chunks).1.frameCount = frames.length ∧
      ∀ k (hk : k < (Lts.exec decodeStep (create.setMaxFrameLength m) chunks).2.length),
        ((Lts.exec decodeStep (create.setMaxFrameLength m) chunks).2[k].2.2.2 = false ↔
          IsBoundary frames ((chunks.take (k + 1)).map OwnedImpl.toString).flatten)) ∧
    (∀ (m : Nat) (frames : List (UInt8 × Bytes)) (f : UInt8) (rest : Bytes) (chunks : List OwnedImpl),
      (∀ fr ∈ frames, ValidFrame m fr) → f &&& ~~~grpcFhCompressed ≠ 0 →
      (chunks.map OwnedImpl.toString).flatten = encodeFrames frames ++ f :: rest →
      ∃ rs r rs', (Lts.exec decodeStep (create.setMaxFrameLength m) chunks).2 = rs ++ r :: rs' ∧
        (∀ x ∈ rs, x.1 = .okStatus) ∧ r.1 = .internalError "Grpc decoding error" ∧
        chunks[rs.length]? = some r.2.1) ∧
    (∀ (m : Nat) (frames : List (UInt8 × Bytes)) (f : UInt8) (n : Nat) (rest : Bytes) (chunks : List OwnedImpl),
      (∀ fr ∈ frames, ValidFrame m fr) → (f = 0 ∨ f = grpcFhCompressed) → n < 2 ^ 32 → m ≠ 0 → m < n →
      (chunks.map OwnedImpl.toString).flatten = encodeFrames frames ++ Encoder.newFrame f n ++ rest →
      ∃ rs r rs', (Lts.exec decodeStep (create.setMaxFrameLength m) chunks).2 = rs ++ r :: rs' ∧
        (∀ x ∈ rs, x.1 = .okStatus) ∧ r.1 = .resourceExhaustedError "Grpc frame length exceeds limit" ∧
        chunks[rs.length]? = some r.2.1) :=
  ⟨fun m _ _ hfr hlen hw => exec_decodeStep_frames m hfr hlen hw,
    fun m _ _ _ _ hfr hf hw => exec_decodeStep_bad_flags m hfr hf hw,
    fun m _ _ _ _ _ hfr hf hn hm hover hw => exec_decodeStep_oversized m hfr hf hn hm hover hw⟩

/-- 一つの frame を二つの chunk に切って渡すと、長さの途中で切った一つ目の後は読みかけが残り、
二つ目の後に frame が出る。flag の誤りと長さの上限の誤りは、一つの chunk で返る。 -/
theorem decode_frames_two_chunks :
    ((∀ r ∈ (Lts.exec decodeStep (create.setMaxFrameLength 0)
        [OwnedImpl.empty.addBufferFragment [1, 0, 0], OwnedImpl.empty.addBufferFragment [0, 1, 7]]).2,
        r.1 = .okStatus ∧ r.2.1.toString = []) ∧
      ((Lts.exec decodeStep (create.setMaxFrameLength 0)
        [OwnedImpl.empty.addBufferFragment [1, 0, 0], OwnedImpl.empty.addBufferFragment [0, 1, 7]]).2.map
          (·.2.2.1)).flatten = [(1, [7])].map toFrame ∧
      (Lts.exec decodeStep (create.setMaxFrameLength 0)
        [OwnedImpl.empty.addBufferFragment [1, 0, 0], OwnedImpl.empty.addBufferFragment [0, 1, 7]]).1.frameCount =
        1 ∧
      (∀ k (hk : k < (Lts.exec decodeStep (create.setMaxFrameLength 0)
          [OwnedImpl.empty.addBufferFragment [1, 0, 0], OwnedImpl.empty.addBufferFragment [0, 1, 7]]).2.length),
        ((Lts.exec decodeStep (create.setMaxFrameLength 0)
          [OwnedImpl.empty.addBufferFragment [1, 0, 0], OwnedImpl.empty.addBufferFragment [0, 1, 7]]).2[k].2.2.2 =
            false ↔
          IsBoundary [(1, [7])] (([OwnedImpl.empty.addBufferFragment [1, 0, 0],
            OwnedImpl.empty.addBufferFragment [0, 1, 7]].take (k + 1)).map OwnedImpl.toString).flatten))) ∧
    (∃ rs r rs', (Lts.exec decodeStep (create.setMaxFrameLength 0) [OwnedImpl.empty.addBufferFragment [2]]).2 =
        rs ++ r :: rs' ∧ (∀ x ∈ rs, x.1 = .okStatus) ∧ r.1 = .internalError "Grpc decoding error" ∧
        [OwnedImpl.empty.addBufferFragment [2]][rs.length]? = some r.2.1) ∧
    (∃ rs r rs', (Lts.exec decodeStep (create.setMaxFrameLength 1)
        [OwnedImpl.empty.addBufferFragment [0, 0, 0, 0, 2, 9, 9]]).2 = rs ++ r :: rs' ∧
        (∀ x ∈ rs, x.1 = .okStatus) ∧ r.1 = .resourceExhaustedError "Grpc frame length exceeds limit" ∧
        [OwnedImpl.empty.addBufferFragment [0, 0, 0, 0, 2, 9, 9]][rs.length]? = some r.2.1) :=
  ⟨decode_frames_any_chunking.1 0 [(1, [7])]
      [OwnedImpl.empty.addBufferFragment [1, 0, 0], OwnedImpl.empty.addBufferFragment [0, 1, 7]] (by decide)
      (by intro b hb; simp only [List.mem_cons, List.not_mem_nil, or_false] at hb; rcases hb with rfl | rfl <;> rfl)
      (by decide),
    decode_frames_any_chunking.2.1 0 [] 2 [] [OwnedImpl.empty.addBufferFragment [2]] (by decide) (by decide) (by decide),
    decode_frames_any_chunking.2.2 1 [] 0 2 [9, 9] [OwnedImpl.empty.addBufferFragment [0, 0, 0, 0, 2, 9, 9]]
      (by decide) (by decide) (by decide) (by decide) (by decide)
      (by decide)⟩

end Envoy.Grpc
