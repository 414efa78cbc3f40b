import Mathlib
import Envoy.Buffer.Watermark
import Envoy.Lib.Simulation

/-!
# `WatermarkBuffer` の callback の列

どの操作も、中身の取り替えと三つの確認 `checkLowWatermark`、`checkHighAndOverflowWatermarks`、
`setWatermarks` の組み合わせである。その各々が呼び出しの記録の不変条件 `TraceOk` を保つことから、
操作の列全体で保たれることを得る。
-/

namespace Envoy.Buffer

/-- `above_high` と `below_low` が `above_high` から交互に呼ばれる列を読む DFA。状態は
`above_high_watermark_called_` に当たり、`none` は読めなかった列。 -/
def alternation : DFA Callback (Option Bool) where
  step q c := match q, c with
    | some false, .aboveHighWatermark => some true
    | some true, .belowLowWatermark => some false
    | some q, .aboveOverflowWatermark => some q
    | _, _ => none
  start := some false
  accept := {q | q.isSome}

/-- 呼び出しの時の長さと閾値が、その callback を呼んでよい条件を満たす。 -/
def Call.Sound (c : Call) : Prop :=
  c.lowWatermark = c.highWatermark / 2 ∧
    (c.callback = .aboveHighWatermark → c.highWatermark ≠ 0 ∧ c.highWatermark < c.length) ∧
    (c.callback = .belowLowWatermark → c.length ≤ c.lowWatermark ∨ c.highWatermark = 0) ∧
    (c.callback = .aboveOverflowWatermark → c.overflowWatermark ≠ 0 ∧ c.overflowWatermark < c.length)

namespace WatermarkBuffer

@[simp] theorem call_callback (b : WatermarkBuffer) (c : Callback) : (b.call c).callback = c := rfl
@[simp] theorem call_length (b : WatermarkBuffer) (c : Callback) :
    (b.call c).length = b.buffer.length := rfl
@[simp] theorem call_highWatermark (b : WatermarkBuffer) (c : Callback) :
    (b.call c).highWatermark = b.highWatermark.toNat := rfl
@[simp] theorem call_lowWatermark (b : WatermarkBuffer) (c : Callback) :
    (b.call c).lowWatermark = b.lowWatermark.toNat := rfl
@[simp] theorem call_overflowWatermark (b : WatermarkBuffer) (c : Callback) :
    (b.call c).overflowWatermark = b.overflowWatermark.toNat := rfl

@[simp] theorem seq_fst (r : WatermarkBuffer × List Call) (f : WatermarkBuffer → WatermarkBuffer × List Call) :
    (seq r f).1 = (f r.1).1 := rfl

/-- 確認は旗のほかを変えない。 -/
structure SameExceptFlags (b b' : WatermarkBuffer) : Prop where
  buffer : b'.buffer = b.buffer
  highWatermark : b'.highWatermark = b.highWatermark
  lowWatermark : b'.lowWatermark = b.lowWatermark
  overflowWatermark : b'.overflowWatermark = b.overflowWatermark

theorem SameExceptFlags.trans {b b' b'' : WatermarkBuffer} (h : SameExceptFlags b b')
    (h' : SameExceptFlags b' b'') : SameExceptFlags b b'' :=
  ⟨h'.buffer.trans h.buffer, h'.highWatermark.trans h.highWatermark,
    h'.lowWatermark.trans h.lowWatermark, h'.overflowWatermark.trans h.overflowWatermark⟩

theorem checkLowWatermark_frame (b : WatermarkBuffer) : SameExceptFlags b (b.checkLowWatermark).1 := by
  unfold checkLowWatermark; split <;> exact ⟨rfl, rfl, rfl, rfl⟩

theorem checkOverflowWatermark_frame (b : WatermarkBuffer) :
    SameExceptFlags b (b.checkOverflowWatermark).1 := by
  unfold checkOverflowWatermark; split <;> exact ⟨rfl, rfl, rfl, rfl⟩

theorem checkOverflowWatermark_aboveHighWatermarkCalled (b : WatermarkBuffer) :
    (b.checkOverflowWatermark).1.aboveHighWatermarkCalled = b.aboveHighWatermarkCalled := by
  unfold checkOverflowWatermark; split <;> rfl

theorem checkHighAndOverflowWatermarks_frame (b : WatermarkBuffer) :
    SameExceptFlags b (b.checkHighAndOverflowWatermarks).1 := by
  unfold checkHighAndOverflowWatermarks
  split
  · exact ⟨rfl, rfl, rfl, rfl⟩
  · rw [seq_fst]
    refine SameExceptFlags.trans ?_ (checkOverflowWatermark_frame _)
    split <;> exact ⟨rfl, rfl, rfl, rfl⟩

/-- 上の閾値を越えていれば、確認の後は旗が立っている。 -/
theorem checkHighAndOverflowWatermarks_triggered (b : WatermarkBuffer) (hz : b.highWatermark ≠ 0)
    (hlt : b.highWatermark.toNat < b.buffer.length) :
    (b.checkHighAndOverflowWatermarks).1.aboveHighWatermarkCalled := by
  unfold checkHighAndOverflowWatermarks
  rw [if_neg (fun h => h.elim hz (Nat.not_le.mpr hlt)), seq_fst,
    checkOverflowWatermark_aboveHighWatermarkCalled]
  split
  · rfl
  · rename_i hn; simpa using hn

/-- 呼び出しの記録 `calls` を残した後の状態 `b` の不変条件。 -/
structure TraceOk (b : WatermarkBuffer) (calls : List Call) : Prop where
  low : b.lowWatermark.toNat = b.highWatermark.toNat / 2
  alternates : alternation.evalFrom (some false) (calls.map Call.callback) =
    some b.aboveHighWatermarkCalled
  overflowOnce : calls.countP (·.callback = .aboveOverflowWatermark) =
    if b.aboveOverflowWatermarkCalled then 1 else 0
  sound : ∀ c ∈ calls, c.Sound

theorem traceOk_create : TraceOk create [] where
  low := rfl
  alternates := rfl
  overflowOnce := rfl
  sound := by simp

/-- `f` は不変条件を保つ。 -/
def Preserves (f : WatermarkBuffer → WatermarkBuffer × List Call) : Prop :=
  ∀ b calls, TraceOk b calls → TraceOk (f b).1 (calls ++ (f b).2)

theorem Preserves.seq {f g : WatermarkBuffer → WatermarkBuffer × List Call} (hf : Preserves f)
    (hg : Preserves g) : Preserves (fun b => WatermarkBuffer.seq (f b) g) := by
  intro b calls h
  have := hg _ _ (hf b calls h)
  simpa [WatermarkBuffer.seq, List.append_assoc] using this

theorem preserves_withBuffer (buffer : WatermarkBuffer → OwnedImpl) :
    Preserves (fun b => b.withBuffer (buffer b)) := by
  intro b calls h
  simpa [withBuffer] using (⟨h.low, h.alternates, h.overflowOnce, h.sound⟩ :
    TraceOk { b with buffer := buffer b } calls)

/-- 記録を一つ足す: 新しい呼び出しが条件を満たし、DFA と overflow の数が旗の変化に合う。 -/
theorem TraceOk.snoc {b : WatermarkBuffer} {calls : List Call} (h : TraceOk b calls)
    {b' : WatermarkBuffer} {c : Call} (hlow : b'.lowWatermark.toNat = b'.highWatermark.toNat / 2)
    (hstep : alternation.step (some b.aboveHighWatermarkCalled) c.callback =
      some b'.aboveHighWatermarkCalled)
    (hcount : (if b.aboveOverflowWatermarkCalled then 1 else 0) +
      (if c.callback = .aboveOverflowWatermark then 1 else 0) =
        if b'.aboveOverflowWatermarkCalled then 1 else 0)
    (hc : c.Sound) : TraceOk b' (calls ++ [c]) where
  low := hlow
  alternates := by
    rw [List.map_append, DFA.evalFrom_of_append, h.alternates, List.map_singleton,
      DFA.evalFrom_singleton, hstep]
  overflowOnce := by
    rw [List.countP_append, h.overflowOnce, ← hcount, List.countP_singleton]
    simp
  sound := by
    intro c' hc'
    rcases List.mem_append.mp hc' with hc' | hc'
    · exact h.sound c' hc'
    · rw [List.mem_singleton.mp hc']; exact hc

/-! ## 三つの確認 -/

theorem preserves_checkLowWatermark : Preserves checkLowWatermark := by
  intro b calls h
  unfold checkLowWatermark
  split
  · simpa using h
  · rename_i hc
    simp only [not_or, not_and, not_lt, Bool.not_eq_true', Bool.not_eq_false] at hc
    refine h.snoc h.low ?_ (by simp) ⟨h.low, by simp [call], ?_, by simp [call]⟩
    · simp [alternation, hc.1]
    · intro _
      by_cases hz : b.highWatermark = 0
      · right; simp [call, hz]
      · left; exact hc.2 hz

theorem preserves_checkOverflowWatermark : Preserves checkOverflowWatermark := by
  intro b calls h
  unfold checkOverflowWatermark
  split
  · rename_i hc
    obtain ⟨hz, hnot, hlt⟩ := hc
    simp only [Bool.not_eq_true'] at hnot
    refine h.snoc h.low ?_ ?_ ⟨h.low, by simp [call], by simp [call], ?_⟩
    · cases b.aboveHighWatermarkCalled <;> rfl
    · simp [hnot]
    · intro _
      exact ⟨by simpa [call, ← UInt64.toNat_inj] using hz, hlt⟩
  · simpa using h

theorem preserves_checkHighAndOverflowWatermarks : Preserves checkHighAndOverflowWatermarks := by
  intro b calls h
  unfold checkHighAndOverflowWatermarks
  split
  · simpa using h
  · rename_i hc
    simp only [not_or, not_le] at hc
    -- `above_high` の確認の後に overflow の確認が続く
    have hhigh : TraceOk
        (if !b.aboveHighWatermarkCalled then
          (({ b with aboveHighWatermarkCalled := true }, [b.call .aboveHighWatermark]) :
            WatermarkBuffer × List Call)
        else (b, [])).1
        (calls ++ (if !b.aboveHighWatermarkCalled then
          (({ b with aboveHighWatermarkCalled := true }, [b.call .aboveHighWatermark]) :
            WatermarkBuffer × List Call)
        else (b, [])).2) := by
      split
      · rename_i hn
        simp only [Bool.not_eq_true'] at hn
        refine h.snoc h.low (by simp [alternation, hn]) (by simp [call])
          ⟨h.low, fun _ => ⟨by simpa [call, ← UInt64.toNat_inj] using hc.1, hc.2⟩,
            by simp [call], by simp [call]⟩
      · simpa using h
    have := preserves_checkOverflowWatermark _ _ hhigh
    simpa [seq, List.append_assoc] using this

/-- `setWatermarks` は下の閾値を上の閾値の半分にする。 -/
theorem preserves_setWatermarks (high : UInt64) (multiplier : UInt32) :
    Preserves (fun b => b.setWatermarks high multiplier) := by
  intro b calls h
  unfold setWatermarks
  dsimp only
  refine (Preserves.seq preserves_checkHighAndOverflowWatermarks preserves_checkLowWatermark) _ _ ?_
  exact ⟨by simp [UInt64.toNat_div], h.alternates, h.overflowOnce, h.sound⟩

theorem preserves_addRawSlices (raw : List Bytes) : Preserves (fun b => b.addRawSlices raw) := by
  induction raw with
  | nil => intro b calls h; simpa [addRawSlices] using h
  | cons s raw ih =>
    have hfirst := Preserves.seq (preserves_withBuffer (fun b => (b.buffer.addImpl s).1))
      preserves_checkHighAndOverflowWatermarks
    exact Preserves.seq hfirst ih

theorem preserves_moveLength (rhs : OwnedImpl) (length : Nat) (reset : Bool) :
    Preserves (fun b => b.moveLength rhs length reset) := by
  have hmove := preserves_withBuffer (fun b => (b.buffer.moveLength rhs length reset).1)
  unfold moveLength
  split
  · exact Preserves.seq (Preserves.seq hmove preserves_checkHighAndOverflowWatermarks)
      preserves_checkHighAndOverflowWatermarks
  · exact Preserves.seq hmove preserves_checkHighAndOverflowWatermarks

/-- どの操作も不変条件を保つ。 -/
theorem preserves_step (op : WatermarkOp) : Preserves (fun b => b.step op) := by
  have hHigh := preserves_checkHighAndOverflowWatermarks
  have hLow := preserves_checkLowWatermark
  cases op with
  | addBuffer data => exact Preserves.seq (preserves_addRawSlices _) hHigh
  | moveLength rhs length => exact Preserves.seq (preserves_moveLength rhs length false) hHigh
  | moveLengthReset rhs length reset => exact preserves_moveLength rhs length reset
  | setWatermarks high multiplier => exact preserves_setWatermarks high multiplier
  | drain size => exact Preserves.seq (preserves_withBuffer _) hLow
  | moveInto dst => exact Preserves.seq (preserves_withBuffer _) hLow
  | moveLengthInto dst length reset => exact Preserves.seq (preserves_withBuffer _) hLow
  | prependInto dst => exact Preserves.seq (preserves_withBuffer _) hLow
  | extractMutableFrontSlice => exact Preserves.seq (preserves_withBuffer _) hLow
  | add data => exact Preserves.seq (preserves_withBuffer _) hHigh
  | prepend data => exact Preserves.seq (preserves_withBuffer _) hHigh
  | prependBuffer data => exact Preserves.seq (preserves_withBuffer _) hHigh
  | addFragments fragments => exact Preserves.seq (preserves_withBuffer _) hHigh
  | reserveForReadCommit data length => exact Preserves.seq (preserves_withBuffer _) hHigh
  | reserveSingleSliceCommit r sep data length => exact Preserves.seq (preserves_withBuffer _) hHigh
  | move rhs => exact Preserves.seq (preserves_withBuffer _) hHigh

/-- 操作の列の後も不変条件が成り立つ。 -/
theorem traceOk_exec (ops : List WatermarkOp) :
    TraceOk (Lts.exec step create ops).1 (Lts.exec step create ops).2.flatten := by
  have := Lts.exec_invariant (I := fun b outs => TraceOk b outs.flatten)
    (fun b outs op h _ => by simpa using preserves_step op b outs.flatten h)
    (show TraceOk create ([] : List (List Call)).flatten from traceOk_create) (Lts.allowed_true step create ops)
  simpa using this

/-! ## 大きくする操作の後 -/

/-- 大きくするだけの操作は `checkHighAndOverflowWatermarks` で終わる。 -/
theorem step_of_grows {op : WatermarkOp} (hg : op.Grows) (b : WatermarkBuffer) :
    ∃ r, b.step op = seq r checkHighAndOverflowWatermarks := by
  cases op with
  | moveLengthReset rhs length reset =>
    unfold step moveLength
    exact ⟨_, rfl⟩
  | drain | moveInto | moveLengthInto | prependInto | extractMutableFrontSlice | setWatermarks =>
    exact absurd hg id
  | _ => exact ⟨_, rfl⟩

/-! ## overflow の閾値 -/

/-- 積が 64 bit に収まらないときに限り、倍率を 0 にする。 -/
theorem setWatermarks_overflowWatermark (b : WatermarkBuffer) (high : UInt64) (multiplier : UInt32) :
    (b.setWatermarks high multiplier).1.overflowWatermark.toNat =
      if multiplier.toNat * high.toNat < 2 ^ 64 then multiplier.toNat * high.toNat else 0 := by
  unfold setWatermarks
  dsimp only
  rw [seq_fst, (checkLowWatermark_frame _).overflowWatermark,
    (checkHighAndOverflowWatermarks_frame _).overflowWatermark]
  have hmax : uint64Max.toNat = 2 ^ 64 - 1 := rfl
  split
  · -- 積が溢れる: 倍率は 0
    rename_i hc
    obtain ⟨hpos, hgt⟩ := hc
    have hpos' : 0 < multiplier.toNat := UInt32.lt_iff_toNat_lt.mp hpos
    have hgt' := UInt64.lt_iff_toNat_lt.mp hgt
    rw [UInt64.toNat_div, UInt32.toNat_toUInt64, hmax] at hgt'
    have : 2 ^ 64 ≤ multiplier.toNat * high.toNat := by
      have := (Nat.div_lt_iff_lt_mul hpos').mp hgt'
      rw [Nat.mul_comm]; omega
    rw [if_neg (Nat.not_lt.mpr this)]
    simp
  · rename_i hc
    have hfit : multiplier.toNat * high.toNat < 2 ^ 64 := by
      by_cases hpos : 0 < multiplier
      · have hle : high ≤ uint64Max / multiplier.toUInt64 := by
          simpa using fun h => hc ⟨hpos, h⟩
        have hle' := UInt64.le_iff_toNat_le.mp hle
        rw [UInt64.toNat_div, UInt32.toNat_toUInt64, hmax] at hle'
        have := Nat.mul_le_of_le_div _ _ _ hle'
        rw [Nat.mul_comm]; omega
      · have : multiplier.toNat = 0 := by
          have h0 : ¬0 < multiplier.toNat := fun h => hpos (UInt32.lt_iff_toNat_lt.mpr (by simpa using h))
          omega
        simp [this]
    rw [UInt64.toNat_mul, UInt32.toNat_toUInt64, Nat.mod_eq_of_lt hfit, if_pos hfit]

end WatermarkBuffer

/-- `WatermarkBuffer` の callback の規則: 作ってからどの操作の列の後でも、`above_high` と
`below_low` は `above_high` から交互に呼ばれ（DFA `alternation` が読み切り、その状態が
`highWatermarkTriggered()` に等しい）、どの呼び出しもその時の長さと閾値が条件を満たし、
`above_overflow` は高々一度である。大きくするだけの操作の後は、上の閾値を越えていれば旗が立っている。
overflow の閾値は倍率と上の閾値の積で、積が 64 bit に収まらなければ 0 である。 -/
theorem watermark_callbacks (ops : List WatermarkOp) :
    alternation.evalFrom (some false)
        ((Lts.exec WatermarkBuffer.step WatermarkBuffer.create ops).2.flatten.map Call.callback) =
      some (Lts.exec WatermarkBuffer.step WatermarkBuffer.create ops).1.aboveHighWatermarkCalled ∧
    (∀ c ∈ (Lts.exec WatermarkBuffer.step WatermarkBuffer.create ops).2.flatten, c.Sound) ∧
    (Lts.exec WatermarkBuffer.step WatermarkBuffer.create ops).2.flatten.countP
      (·.callback = .aboveOverflowWatermark) ≤ 1 ∧
    (∀ (b : WatermarkBuffer) (op : WatermarkOp), op.Grows → (b.step op).1.highWatermark ≠ 0 →
      (b.step op).1.highWatermark.toNat < (b.step op).1.buffer.length →
      (b.step op).1.aboveHighWatermarkCalled) ∧
    (∀ (b : WatermarkBuffer) (high : UInt64) (multiplier : UInt32),
      (b.setWatermarks high multiplier).1.overflowWatermark.toNat =
        if multiplier.toNat * high.toNat < 2 ^ 64 then multiplier.toNat * high.toNat else 0) := by
  have h := WatermarkBuffer.traceOk_exec ops
  refine ⟨h.alternates, h.sound, ?_, ?_, WatermarkBuffer.setWatermarks_overflowWatermark⟩
  · rw [h.overflowOnce]; split <;> omega
  · intro b op hg hz hlt
    obtain ⟨r, hr⟩ := WatermarkBuffer.step_of_grows hg b
    have hframe := WatermarkBuffer.checkHighAndOverflowWatermarks_frame r.1
    rw [hr, WatermarkBuffer.seq_fst] at hz hlt ⊢
    rw [hframe.highWatermark] at hz hlt
    rw [hframe.buffer] at hlt
    exact WatermarkBuffer.checkHighAndOverflowWatermarks_triggered r.1 hz hlt

end Envoy.Buffer
