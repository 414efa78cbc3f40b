import Envoy.Common.AtomicTokenBucket
import Envoy.Lib.RateLimit

/-!
# `AtomicTokenBucketImpl` の一歩と走り

`cb` の値の範囲、起こりうる一歩の場合分け、一歩が保つ不変条件と、それを走り全体へ延ばしたもの。
成功した `compare_exchange_weak` は、仮想時刻 `time_in_seconds_` を `RateLimit.Advance` の形で
進める。どの thread の load と一周がどう入り混じっても、走りの不変条件は `RateLimit.Bounded` である。
-/

namespace Envoy

variable {α : Type _} [Field α] [LinearOrder α]

/-! ## 状態の更新 -/

namespace System

variable {ι : Type _} [DecidableEq ι]

@[simp] theorem setPhase_bucket (s : System ι α) (i : ι) (p : Phase α) : (s.setPhase i p).bucket = s.bucket :=
  rfl

@[simp] theorem setPhase_threads_self (s : System ι α) (i : ι) (p : Phase α) : (s.setPhase i p).threads i = p := by
  simp [setPhase]

theorem setPhase_threads_of_ne (s : System ι α) {i j : ι} (p : Phase α) (h : j ≠ i) :
    (s.setPhase i p).threads j = s.threads j := by
  simp [setPhase, Function.update_of_ne h]

/-- 今の進み具合に戻すのは何もしないこと。 -/
theorem setPhase_self (s : System ι α) (i : ι) : s.setPhase i (s.threads i) = s := by
  simp [setPhase, Function.update_eq_self]

@[simp] theorem store_maxTokens (b : AtomicTokenBucketImpl α) (t : α) : (b.store t).maxTokens = b.maxTokens := rfl

@[simp] theorem store_fillRate (b : AtomicTokenBucketImpl α) (t : α) : (b.store t).fillRate = b.fillRate := rfl

@[simp] theorem store_timeInSeconds (b : AtomicTokenBucketImpl α) (t : α) : (b.store t).timeInSeconds = t := rfl

end System

variable [FloorRing α]

/-! ## 一歩の場合分け -/

namespace System

variable {ι : Type _} [DecidableEq ι]

/-- loop の一周がすること: 零を返すか、`compare_exchange_weak` が成功して返すか、失敗して
`time_old` に今の値を入れる。 -/
theorem iterate_cases (s : System ι α) (i : ι) (cb : ConsumedCb) (timeNow timeOld : α) (spurious : Bool) :
    (cb.apply (s.bucket.tokensAt timeNow timeOld) = 0 ∧
      s.iterate i cb timeNow timeOld spurious = (s.setPhase i .idle, .returned i cb timeNow 0)) ∨
    (cb.apply (s.bucket.tokensAt timeNow timeOld) ≠ 0 ∧ timeOld = s.bucket.timeInSeconds ∧ spurious = false ∧
      s.iterate i cb timeNow timeOld spurious =
        ({ s.setPhase i .idle with
            bucket := s.bucket.store (timeNow - (s.bucket.tokensAt timeNow timeOld -
              cb.apply (s.bucket.tokensAt timeNow timeOld)) / s.bucket.fillRate) },
          .returned i cb timeNow (cb.apply (s.bucket.tokensAt timeNow timeOld)))) ∨
    (cb.apply (s.bucket.tokensAt timeNow timeOld) ≠ 0 ∧ ¬ (timeOld = s.bucket.timeInSeconds ∧ spurious = false) ∧
      s.iterate i cb timeNow timeOld spurious =
        (s.setPhase i (.looping cb timeNow s.bucket.timeInSeconds),
          .casFailed i (decide (timeOld = s.bucket.timeInSeconds)))) := by
  by_cases h0 : cb.apply (s.bucket.tokensAt timeNow timeOld) = 0
  · exact .inl ⟨h0, by simp [iterate, h0]⟩
  · by_cases hcas : timeOld = s.bucket.timeInSeconds ∧ spurious = false
    · obtain ⟨rfl, rfl⟩ := hcas
      exact .inr (.inl ⟨h0, rfl, rfl, by simp [iterate, h0]⟩)
    · exact .inr (.inr ⟨h0, hcas, by simp [iterate, h0, hcas]⟩)

/-- 起こりうる一歩がすること。 -/
theorem step_cases {s : System ι α} {e : Event ι α} (he : s.Enabled e) :
    (∃ i cb now, e = .call i cb now ∧ s.threads i = .idle ∧ s.clock ≤ now ∧
      s.step e = ({ s.setPhase i (.clockRead cb now) with clock := now }, .silent)) ∨
    (∃ i cb timeNow, e = .load i ∧ s.threads i = .clockRead cb timeNow ∧
      s.step e = (s.setPhase i (.looping cb timeNow s.bucket.timeInSeconds), .silent)) ∨
    (∃ i spurious cb timeNow timeOld, e = .attempt i spurious ∧ s.threads i = .looping cb timeNow timeOld ∧
      s.step e = s.iterate i cb timeNow timeOld spurious) := by
  cases e with
  | call i cb now => exact .inl ⟨i, cb, now, rfl, he.1, he.2, rfl⟩
  | load i =>
    simp only [Enabled] at he
    cases h : s.threads i with
    | clockRead cb timeNow => exact .inr (.inl ⟨i, cb, timeNow, rfl, h, by simp [step, h]⟩)
    | idle => simp [h, Phase.isClockRead] at he
    | looping _ _ _ => simp [h, Phase.isClockRead] at he
  | attempt i spurious =>
    simp only [Enabled] at he
    cases h : s.threads i with
    | looping cb timeNow timeOld => exact .inr (.inr ⟨i, spurious, cb, timeNow, timeOld, rfl, h, by simp [step, h]⟩)
    | idle => simp [h, Phase.isLooping] at he
    | clockRead _ _ => simp [h, Phase.isLooping] at he

/-- 出力はその動作の thread のもの。 -/
theorem step_returned_thread {s : System ι α} {e : Event ι α} (he : s.Enabled e) {j : ι} {cb : ConsumedCb}
    {t c : α} (h : (s.step e).2 = .returned j cb t c) : j = e.thread := by
  rcases step_cases he with ⟨i, cb', now, rfl, -, -, hs⟩ | ⟨i, cb', timeNow, rfl, -, hs⟩ |
      ⟨i, spurious, cb', timeNow, timeOld, rfl, -, hs⟩
  · rw [hs] at h; cases h
  · rw [hs] at h; cases h
  · rw [hs] at h
    rcases iterate_cases s i cb' timeNow timeOld spurious with ⟨-, hi⟩ | ⟨-, -, -, hi⟩ | ⟨-, -, hi⟩ <;>
      rw [hi] at h <;> cases h <;> rfl

/-- 動作は、その thread の他の進み具合を変えない。 -/
theorem step_threads_of_ne {s : System ι α} {e : Event ι α} (he : s.Enabled e) {j : ι} (hj : j ≠ e.thread) :
    (s.step e).1.threads j = s.threads j := by
  rcases step_cases he with ⟨i, cb, now, rfl, -, -, hs⟩ | ⟨i, cb, timeNow, rfl, -, hs⟩ |
      ⟨i, spurious, cb, timeNow, timeOld, rfl, -, hs⟩
  · rw [hs]; exact setPhase_threads_of_ne s _ hj
  · rw [hs]; exact setPhase_threads_of_ne s _ hj
  · rw [hs]
    rcases iterate_cases s i cb timeNow timeOld spurious with ⟨-, hi⟩ | ⟨-, -, -, hi⟩ | ⟨-, -, hi⟩ <;>
      rw [hi] <;> exact setPhase_threads_of_ne s _ hj

/-- 零でない値を返す出力が無ければ、`time_in_seconds_` は変わらない。 -/
theorem step_bucket_of_no_success {s : System ι α} {e : Event ι α} (he : s.Enabled e)
    (h : ∀ j cb t c, (s.step e).2 = .returned j cb t c → c = 0) : (s.step e).1.bucket = s.bucket := by
  rcases step_cases he with ⟨i, cb, now, rfl, -, -, hs⟩ | ⟨i, cb, timeNow, rfl, -, hs⟩ |
      ⟨i, spurious, cb, timeNow, timeOld, rfl, -, hs⟩
  · rw [hs]; rfl
  · rw [hs]; rfl
  · rw [hs] at h ⊢
    rcases iterate_cases s i cb timeNow timeOld spurious with ⟨-, hi⟩ | ⟨h0, -, -, hi⟩ | ⟨-, -, hi⟩
    · rw [hi]; rfl
    · rw [hi] at h ⊢
      exact absurd (h _ _ _ _ rfl) h0
    · rw [hi]; rfl

/-! ## 他の thread が成功しない間の進み -/

/-- 他の thread が成功せず、spurious にも失敗しない間に、thread `i` が返るまでに要る `i` の動作の数。
load の前と、`time_old` が古い時は二つ、`time_old` が今の値なら一つ。 -/
def need (s : System ι α) (i : ι) : Nat :=
  match s.threads i with
  | .idle => 0
  | .clockRead .. => 2
  | .looping _ _ timeOld => if timeOld = s.bucket.timeInSeconds then 1 else 2

omit [FloorRing α] [DecidableEq ι] in
theorem need_pos {s : System ι α} {i : ι} (h : s.threads i ≠ .idle) : 0 < s.need i := by
  cases hs : s.threads i with
  | idle => exact absurd hs h
  | clockRead _ _ => simp [need, hs]
  | looping _ _ timeOld => simp only [need, hs]; split_ifs <;> decide

omit [FloorRing α] [DecidableEq ι] in
theorem need_le_two (s : System ι α) (i : ι) : s.need i ≤ 2 := by
  unfold need
  split
  · decide
  · decide
  · split_ifs <;> decide

/-- 他の thread の、成功でない動作は、`i` の進み具合と要る数を変えない。 -/
theorem need_step_of_ne {s : System ι α} {e : Event ι α} (he : s.Enabled e) {i : ι} (hi : i ≠ e.thread)
    (h : ∀ j cb t c, (s.step e).2 = .returned j cb t c → c = 0) :
    (s.step e).1.threads i = s.threads i ∧ (s.step e).1.need i = s.need i := by
  have ht := step_threads_of_ne he hi
  have hb := step_bucket_of_no_success he h
  exact ⟨ht, by simp only [need, ht, hb]⟩

/-- 呼び出し中の `i` 自身の動作は、spurious に失敗しなければ、返すか要る数を一つ減らす。 -/
theorem need_step_self {s : System ι α} {e : Event ι α} (he : s.Enabled e) {i : ι} (hi : e.thread = i)
    (hbusy : s.threads i ≠ .idle) (hsp : (s.step e).2 ≠ .casFailed i true) :
    (∃ cb t c, (s.step e).2 = .returned i cb t c) ∨
      ((s.step e).1.threads i ≠ .idle ∧ (s.step e).1.need i + 1 = s.need i) := by
  rcases step_cases he with ⟨j, cb, now, rfl, hidle, -, hs⟩ | ⟨j, cb, timeNow, rfl, hph, hs⟩ |
      ⟨j, spurious, cb, timeNow, timeOld, rfl, hph, hs⟩
  · -- 呼び出し中の thread は呼ばない
    simp only [Event.thread] at hi
    subst hi
    exact absurd hidle hbusy
  · -- load の後の `time_old` は今の値
    simp only [Event.thread] at hi
    subst hi
    rw [hs]
    exact .inr ⟨by simp, by simp [need, hph]⟩
  · simp only [Event.thread] at hi
    subst hi
    rw [hs] at hsp ⊢
    rcases iterate_cases s j cb timeNow timeOld spurious with ⟨-, hit⟩ | ⟨-, -, -, hit⟩ | ⟨-, -, hit⟩
    · exact .inl ⟨cb, timeNow, 0, by rw [hit]⟩
    · exact .inl ⟨cb, timeNow, _, by rw [hit]⟩
    · -- spurious でない失敗では、`time_old` が今の値と違っていた
      rw [hit] at hsp ⊢
      have hne : timeOld ≠ s.bucket.timeInSeconds := fun heq => hsp (by simp [heq])
      exact .inr ⟨by simp, by simp [need, hph, hne]⟩

/-- 他の thread が成功せず、`i` が spurious に失敗しなければ、呼び出し中の `i` は、要る数だけ動けば
返る。帰納法は動作の列の上で、`i` の動作ごとに要る数が減り、他の動作では変わらない。 -/
theorem returns_of_need_le {s : System ι α} {i : ι} {evs : List (Event ι α)} (hbusy : s.threads i ≠ .idle)
    (hv : Lts.Allowed Enabled System.step s evs)
    (hothers : ∀ j cb t c, Output.returned j cb t c ∈ (Lts.exec System.step s evs).2 → j ≠ i → c = 0)
    (hsp : Output.casFailed i true ∉ (Lts.exec System.step s evs).2)
    (hn : s.need i ≤ (evs.filter fun e => e.thread = i).length) :
    ∃ cb t c, Output.returned i cb t c ∈ (Lts.exec System.step s evs).2 := by
  induction evs generalizing s with
  | nil =>
    have := need_pos hbusy
    simp at hn
    omega
  | cons e evs ih =>
    obtain ⟨he, hrest⟩ := hv
    rw [Lts.exec_cons] at hothers hsp ⊢
    have hothers' : ∀ j cb t c, Output.returned j cb t c ∈ (Lts.exec System.step (s.step e).1 evs).2 →
        j ≠ i → c = 0 := fun j cb t c hm hj => hothers j cb t c (List.mem_cons_of_mem _ hm) hj
    have hsp' : Output.casFailed i true ∉ (Lts.exec System.step (s.step e).1 evs).2 :=
      fun hm => hsp (List.mem_cons_of_mem _ hm)
    by_cases hei : e.thread = i
    · rcases need_step_self he hei hbusy (fun h => hsp (h ▸ List.mem_cons_self ..)) with
        ⟨cb, t, c, hr⟩ | ⟨hbusy', hneed⟩
      · exact ⟨cb, t, c, hr ▸ List.mem_cons_self ..⟩
      · have hn' : (s.step e).1.need i ≤ (evs.filter fun e => e.thread = i).length := by
          simp only [List.filter_cons, hei, decide_true, if_true, List.length_cons] at hn
          omega
        obtain ⟨cb, t, c, hm⟩ := ih hbusy' hrest hothers' hsp' hn'
        exact ⟨cb, t, c, List.mem_cons_of_mem _ hm⟩
    · -- 他の thread の出力は成功でない
      have hno : ∀ j cb t c, (s.step e).2 = .returned j cb t c → c = 0 := by
        intro j cb t c hr
        refine hothers j cb t c (hr ▸ List.mem_cons_self ..) ?_
        rw [step_returned_thread he hr]
        exact hei
      obtain ⟨hth, hneed⟩ := need_step_of_ne he (fun h => hei h.symm) hno
      have hn' : (s.step e).1.need i ≤ (evs.filter fun e => e.thread = i).length := by
        simp only [List.filter_cons, hei, decide_false, Bool.false_eq_true, if_false] at hn
        omega
      obtain ⟨cb, t, c, hm⟩ := ih (hth ▸ hbusy) hrest hothers' hsp' hn'
      exact ⟨cb, t, c, List.mem_cons_of_mem _ hm⟩

/-- `time_old` が今の値で `cb` が零でない時、spurious な失敗は系を変えない: 何度でも続けられる。 -/
theorem exec_attempt_spurious {s : System ι α} {i : ι} {cb : ConsumedCb} {timeNow : α}
    (hph : s.threads i = .looping cb timeNow s.bucket.timeInSeconds)
    (h0 : cb.apply (s.bucket.tokensAt timeNow s.bucket.timeInSeconds) ≠ 0) (n : Nat) :
    Lts.Allowed Enabled System.step s (List.replicate n (.attempt i true)) ∧
      Lts.exec System.step s (List.replicate n (.attempt i true)) = (s, List.replicate n (.casFailed i true)) := by
  have hstep : s.step (.attempt i true) = (s, .casFailed i true) := by
    rcases iterate_cases s i cb timeNow s.bucket.timeInSeconds true with ⟨h, -⟩ | ⟨-, -, h, -⟩ | ⟨-, -, hit⟩
    · exact absurd h h0
    · cases h
    · simp only [step, hph, hit, decide_true]
      rw [← hph, setPhase_self]
  induction n with
  | zero => exact ⟨trivial, rfl⟩
  | succ n ih =>
    refine ⟨⟨by simp [Enabled, hph, Phase.isLooping], ?_⟩, ?_⟩
    · rw [hstep]; exact ih.1
    · rw [List.replicate_succ, Lts.exec_cons, hstep, ih.2]
      rfl

end System

variable [IsStrictOrderedRing α]

/-! ## `cb` の値 -/

namespace ConsumedCb

theorem apply_nonneg (cb : ConsumedCb) (totalTokens : α) : 0 ≤ cb.apply totalTokens := by
  cases cb with
  | consumeOne => simp only [apply]; split_ifs <;> norm_num
  | consumeTokens tokens allowPartial => simp only [apply]; split_ifs <;> simp

omit [IsStrictOrderedRing α] in
/-- 零でない値は、取れる数を越えない。 -/
theorem apply_le_of_ne_zero (cb : ConsumedCb) {totalTokens : α} (h : cb.apply totalTokens ≠ 0) :
    cb.apply totalTokens ≤ totalTokens := by
  cases cb with
  | consumeOne =>
    simp only [apply] at h ⊢
    split_ifs at h ⊢ with h1
    · exact h1
    · exact absurd rfl h
  | consumeTokens tokens allowPartial =>
    simp only [apply] at h ⊢
    split_ifs at h ⊢ with h1
    · exact h1
    · -- 足りない時の `floor` は、正の時だけ零でない
      rcases le_total (⌊totalTokens⌋ : α) 0 with h3 | h3
      · rw [max_eq_left h3] at h; exact absurd rfl h
      · rw [max_eq_right h3]; exact Int.floor_le _
    · exact absurd rfl h

theorem apply_consumeTokens_le (tokens : Nat) (allowPartial : Bool) (totalTokens : α) :
    (consumeTokens tokens allowPartial).apply totalTokens ≤ tokens := by
  simp only [apply]
  split_ifs with h1
  · exact le_rfl
  · exact max_le (Nat.cast_nonneg _) ((Int.floor_le _).trans (not_le.mp h1).le)
  · exact Nat.cast_nonneg _

theorem max_zero_floor (t : α) : max 0 (⌊t⌋ : α) = ((⌊t⌋.toNat : Nat) : α) := by
  rw [← Int.cast_natCast, Int.toNat_eq_max, Int.cast_max, Int.cast_zero, max_comm]

/-- 呼び出しが返す整数は、`consume(cb)` の返す `double` そのもの: `cb` の値は零以上の整数である。 -/
theorem result_apply (cb : ConsumedCb) (totalTokens : α) :
    ((cb.result (cb.apply totalTokens) : Nat) : α) = cb.apply totalTokens := by
  cases cb with
  | consumeOne => simp only [apply, result]; split_ifs <;> simp_all
  | consumeTokens tokens allowPartial =>
    simp only [apply, result]
    split_ifs
    · rw [Nat.floor_natCast]
    · rw [max_zero_floor, Nat.floor_natCast]
    · simp

@[simp] theorem result_zero (cb : ConsumedCb) : cb.result (0 : α) = 0 := by
  cases cb <;> simp [result]

/-- `consume(tokens, false)` は零か `tokens` を返す。 -/
theorem result_not_partial (tokens : Nat) (totalTokens : α) :
    (consumeTokens tokens false).result ((consumeTokens tokens false).apply totalTokens) = 0 ∨
      (consumeTokens tokens false).result ((consumeTokens tokens false).apply totalTokens) = tokens := by
  simp only [apply, result, Bool.false_eq_true, if_false]
  split_ifs
  · exact .inr (Nat.floor_natCast _)
  · exact .inl Nat.floor_zero

theorem result_le (tokens : Nat) (allowPartial : Bool) (totalTokens : α) :
    (consumeTokens tokens allowPartial).result ((consumeTokens tokens allowPartial).apply totalTokens) ≤
      tokens := by
  have h := result_apply (consumeTokens tokens allowPartial) totalTokens
  have hle := apply_consumeTokens_le tokens allowPartial totalTokens
  rw [← h] at hle
  exact_mod_cast hle

end ConsumedCb

/-! ## 成功した `compare_exchange_weak` -/

/-- 零以上で取れる数を越えない値を取り、`time_new` を書くことは、仮想時刻の一つの前進である。 -/
theorem AtomicTokenBucketImpl.advance_timeNew (b : AtomicTokenBucketImpl α) {timeNow consumed : α}
    (h0 : 0 ≤ consumed) (hle : consumed ≤ b.tokensAt timeNow b.timeInSeconds) :
    RateLimit.Advance b.maxTokens b.fillRate b.timeInSeconds timeNow consumed
      (timeNow - (b.tokensAt timeNow b.timeInSeconds - consumed) / b.fillRate) := by
  have hr := b.fillRate_pos
  have hcancel : b.fillRate * ((b.tokensAt timeNow b.timeInSeconds - consumed) / b.fillRate) =
      b.tokensAt timeNow b.timeInSeconds - consumed := mul_div_cancel₀ _ hr.ne'
  have hrate : b.tokensAt timeNow b.timeInSeconds ≤ b.fillRate * (timeNow - b.timeInSeconds) := by
    rw [mul_comm]; exact min_le_right _ _
  have hmax : b.tokensAt timeNow b.timeInSeconds ≤ b.maxTokens := min_le_left _ _
  refine ⟨h0, ?_, ?_, ?_⟩
  · rw [show timeNow - (b.tokensAt timeNow b.timeInSeconds - consumed) / b.fillRate - b.timeInSeconds =
        (timeNow - b.timeInSeconds) - (b.tokensAt timeNow b.timeInSeconds - consumed) / b.fillRate by ring,
      mul_sub, hcancel]
    linarith
  · have : 0 ≤ (b.tokensAt timeNow b.timeInSeconds - consumed) / b.fillRate :=
      div_nonneg (sub_nonneg.mpr hle) hr.le
    linarith
  · rw [show timeNow - (b.tokensAt timeNow b.timeInSeconds - consumed) / b.fillRate - timeNow =
        -((b.tokensAt timeNow b.timeInSeconds - consumed) / b.fillRate) by ring, mul_neg, hcancel]
    linarith

/-! ## 走りの不変条件 -/

namespace Output

variable {ι : Type _}

/-- 返した値は、ある `total_tokens` での `cb` の値である。 -/
def Applied : Output ι α → Prop
  | .returned _ cb _ consumed => ∃ totalTokens, consumed = cb.apply totalTokens
  | _ => True

/-- 返した呼び出しの、時刻と返した値。 -/
def consumption : Output ι α → Option (α × α)
  | .returned _ cb timeNow consumed => some (timeNow, (cb.result consumed : α))
  | _ => none

end Output

namespace System

variable {ι : Type _} [DecidableEq ι] {M r : α}

/-- 走りの不変条件: bucket の const の欄、返した値の形、返した値の記録と仮想時刻の
`RateLimit.Bounded`。 -/
structure RunInv (M r : α) (s : System ι α) (os : List (Output ι α)) : Prop where
  maxTokens : s.bucket.maxTokens = M
  fillRate : s.bucket.fillRate = r
  applied : ∀ o ∈ os, o.Applied
  bounded : RateLimit.Bounded M r s.bucket.timeInSeconds (os.filterMap Output.consumption)

omit [IsStrictOrderedRing α] [DecidableEq ι] in
/-- bucket を変えず、何も返さない一歩は不変条件を保つ。 -/
theorem RunInv.of_bucket_eq {s s' : System ι α} {os : List (Output ι α)} {o : Output ι α} (h : RunInv M r s os)
    (hb : s'.bucket = s.bucket) (ho : o.consumption = none) (ha : o.Applied) : RunInv M r s' (os ++ [o]) where
  maxTokens := hb ▸ h.maxTokens
  fillRate := hb ▸ h.fillRate
  applied o' ho' := by
    rcases List.mem_append.mp ho' with ho' | ho'
    · exact h.applied o' ho'
    · rw [List.mem_singleton.mp ho']; exact ha
  bounded := by
    rw [hb, List.filterMap_append, List.filterMap_cons_none ho, List.filterMap_nil, List.append_nil]
    exact h.bounded

/-- 一歩は不変条件を保つ。成功した `compare_exchange_weak` だけが仮想時刻を進め、その時
`time_old` は今の `time_in_seconds_` に等しい。 -/
theorem RunInv.step {s : System ι α} {os : List (Output ι α)} {e : Event ι α} (h : RunInv M r s os)
    (he : s.Enabled e) : RunInv M r (s.step e).1 (os ++ [(s.step e).2]) := by
  obtain ⟨hM, hr⟩ := And.intro h.maxTokens h.fillRate
  subst hM hr
  rcases step_cases he with ⟨i, cb, now, rfl, -, -, hs⟩ | ⟨i, cb, timeNow, rfl, -, hs⟩ |
      ⟨i, spurious, cb, timeNow, timeOld, rfl, -, hs⟩
  · rw [hs]; exact h.of_bucket_eq rfl rfl trivial
  · rw [hs]; exact h.of_bucket_eq rfl rfl trivial
  · rw [hs]
    rcases iterate_cases s i cb timeNow timeOld spurious with ⟨h0, hi⟩ | ⟨h0, rfl, -, hi⟩ | ⟨-, -, hi⟩
    · -- `return 0`: 零の消費を記録に足す
      rw [hi]
      refine ⟨rfl, rfl, ?_, ?_⟩
      · intro o ho
        rcases List.mem_append.mp ho with ho | ho
        · exact h.applied o ho
        · rw [List.mem_singleton.mp ho]; exact ⟨_, h0.symm⟩
      · have hlog : ([Output.returned i cb timeNow (0 : α)] : List (Output ι α)).filterMap Output.consumption =
            [(timeNow, 0)] := by simp [Output.consumption]
        rw [List.filterMap_append, hlog]
        exact h.bounded.append_zero timeNow
    · -- 成功: `time_new` を書く
      rw [hi]
      have hadv := s.bucket.advance_timeNew (ConsumedCb.apply_nonneg cb _) (ConsumedCb.apply_le_of_ne_zero cb h0)
      refine ⟨rfl, rfl, ?_, ?_⟩
      · intro o ho
        rcases List.mem_append.mp ho with ho | ho
        · exact h.applied o ho
        · rw [List.mem_singleton.mp ho]; exact ⟨_, rfl⟩
      · have hlog : ([Output.returned i cb timeNow (cb.apply (s.bucket.tokensAt timeNow s.bucket.timeInSeconds))] :
            List (Output ι α)).filterMap Output.consumption =
            [(timeNow, cb.apply (s.bucket.tokensAt timeNow s.bucket.timeInSeconds))] := by
          simp [Output.consumption, ConsumedCb.result_apply]
        rw [List.filterMap_append, hlog]
        exact h.bounded.advance s.bucket.fillRate_pos.le hadv
    · rw [hi]; exact h.of_bucket_eq rfl rfl trivial

/-- 走りの全体で、不変条件は保たれる。 -/
theorem RunInv.exec {s : System ι α} {os : List (Output ι α)} (h : RunInv M r s os) {evs : List (Event ι α)}
    (hv : Lts.Allowed Enabled System.step s evs) :
    RunInv M r (Lts.exec System.step s evs).1 (os ++ (Lts.exec System.step s evs).2) :=
  Lts.exec_invariant (fun _ _ _ hi he => hi.step he) h hv

omit [DecidableEq ι] in
/-- 作った時の系は不変条件を満たす。どの `initial_tokens` でも、記録は空である。 -/
theorem runInv_create (maxTokens : Nat) (now fillRate : α) (initialTokens : Nat) :
    RunInv (maxTokens : α) (max |fillRate| kMinFillRate)
      (System.create (ι := ι) (AtomicTokenBucketImpl.create maxTokens now fillRate initialTokens) now) [] where
  maxTokens := rfl
  fillRate := rfl
  applied := by simp
  bounded := RateLimit.bounded_nil (Nat.cast_nonneg _) (max_abs_kMinFillRate_pos fillRate).le

end System

/-! ## どの interleaving でも -/

/-- 作った bucket をどの thread がどう入り混じって呼んでも、`consume(tokens, false)` は零か
`tokens` を、`consume(tokens, true)` は `tokens` 以下を返し、時刻の読みが `[a, b]` にある呼び出しが
返した値の和は `max_tokens + fill_rate_ * (b - a)` 以下である。呼び出し中の thread は、他の thread が
成功せず自身が spurious に失敗しなければ、自身の二つの動作で返る。 -/
theorem consume_rate_limited_under_interleaving {ι : Type _} [DecidableEq ι] (maxTokens : Nat)
    (now fillRate : α) (initialTokens : Nat) (evs : List (Event ι α))
    (hv : Lts.Allowed System.Enabled System.step
      (System.create (AtomicTokenBucketImpl.create maxTokens now fillRate initialTokens) now) evs) :
    let run := Lts.exec System.step
      (System.create (AtomicTokenBucketImpl.create maxTokens now fillRate initialTokens) now) evs
    (∀ i tokens t c, Output.returned i (.consumeTokens tokens false) t c ∈ run.2 →
      (ConsumedCb.consumeTokens tokens false).result c = 0 ∨
        (ConsumedCb.consumeTokens tokens false).result c = tokens) ∧
    (∀ i tokens t c, Output.returned i (.consumeTokens tokens true) t c ∈ run.2 →
      (ConsumedCb.consumeTokens tokens true).result c ≤ tokens) ∧
    (∀ a b, a ≤ b → RateLimit.windowSum (run.2.filterMap Output.consumption) a b ≤
      maxTokens + max |fillRate| kMinFillRate * (b - a)) ∧
    (∀ i, run.1.threads i ≠ .idle → ∀ more : List (Event ι α),
      Lts.Allowed System.Enabled System.step run.1 more →
      (∀ j cb t c, Output.returned j cb t c ∈ (Lts.exec System.step run.1 more).2 → j ≠ i → c = 0) →
      Output.casFailed i true ∉ (Lts.exec System.step run.1 more).2 →
      2 ≤ (more.filter fun e => e.thread = i).length →
      ∃ cb t c, Output.returned i cb t c ∈ (Lts.exec System.step run.1 more).2) := by
  intro run
  have hinv := (System.runInv_create (ι := ι) maxTokens now fillRate initialTokens).exec hv
  rw [List.nil_append] at hinv
  refine ⟨?_, ?_, hinv.bounded.window, ?_⟩
  · intro i tokens t c hm
    obtain ⟨totalTokens, rfl⟩ := hinv.applied _ hm
    exact ConsumedCb.result_not_partial tokens totalTokens
  · intro i tokens t c hm
    obtain ⟨totalTokens, rfl⟩ := hinv.applied _ hm
    exact ConsumedCb.result_le tokens true totalTokens
  · intro i hbusy more hmore hothers hsp hcount
    exact System.returns_of_need_le hbusy hmore hothers hsp ((System.need_le_two _ i).trans hcount)

/-- 二つの thread が入り混じる走り: `max_tokens = 2`、`fill_rate = 1`、`initial_tokens = 2` で時刻 0 に作り、
両方の thread が時刻 0 に `consume(1, false)` を呼んで同じ `time_old` を load する。先の thread の
`compare_exchange_weak` が成功すると、後の thread のものは値が変わっていて失敗し、読み直した `time_old` で
もう一周して成功する。区間 `[0, 0]` の和 2 は上限 2 に等しい。 -/
theorem consume_rate_limited_after_failed_cas :
    Lts.Allowed System.Enabled System.step
      (System.create (ι := Bool) (AtomicTokenBucketImpl.create (α := ℝ) 2 0 1 2) 0)
      [.call true (.consumeTokens 1 false) 0, .call false (.consumeTokens 1 false) 0, .load true, .load false,
        .attempt true false, .attempt false false, .attempt false false] ∧
    Output.casFailed false false ∈ (Lts.exec System.step
      (System.create (ι := Bool) (AtomicTokenBucketImpl.create (α := ℝ) 2 0 1 2) 0)
      [.call true (.consumeTokens 1 false) 0, .call false (.consumeTokens 1 false) 0, .load true, .load false,
        .attempt true false, .attempt false false, .attempt false false]).2 ∧
    RateLimit.windowSum ((Lts.exec System.step
      (System.create (ι := Bool) (AtomicTokenBucketImpl.create (α := ℝ) 2 0 1 2) 0)
      [.call true (.consumeTokens 1 false) 0, .call false (.consumeTokens 1 false) 0, .load true, .load false,
        .attempt true false, .attempt false false, .attempt false false]).2.filterMap Output.consumption) 0 0 ≤
      ((2 : Nat) : ℝ) + max |(1 : ℝ)| kMinFillRate * (0 - 0) := by
  obtain ⟨hT, hF, hM⟩ : (AtomicTokenBucketImpl.create (α := ℝ) 2 0 1 2).timeInSeconds = -2 ∧
      (AtomicTokenBucketImpl.create (α := ℝ) 2 0 1 2).fillRate = 1 ∧
      (AtomicTokenBucketImpl.create (α := ℝ) 2 0 1 2).maxTokens = 2 := by
    norm_num [AtomicTokenBucketImpl.create, kMinFillRate]
  have hv : Lts.Allowed System.Enabled System.step
      (System.create (ι := Bool) (AtomicTokenBucketImpl.create (α := ℝ) 2 0 1 2) 0)
      [.call true (.consumeTokens 1 false) 0, .call false (.consumeTokens 1 false) 0, .load true, .load false,
        .attempt true false, .attempt false false, .attempt false false] := by
    norm_num [System.Enabled, System.step, System.create, System.setPhase, Phase.isClockRead, Phase.isLooping,
      System.iterate, AtomicTokenBucketImpl.tokensAt, AtomicTokenBucketImpl.store, ConsumedCb.apply, hT, hF, hM]
  refine ⟨hv, ?_, (consume_rate_limited_under_interleaving 2 0 1 2 _ hv).2.2.1 0 0 le_rfl⟩
  -- 後の thread の一周目: 先の thread が `time_in_seconds_` を -2 から -1 に進めたので、比べが外れる
  norm_num [Lts.exec, System.step, System.create, System.setPhase, System.iterate, AtomicTokenBucketImpl.tokensAt,
    AtomicTokenBucketImpl.store, ConsumedCb.apply, hT, hF, hM]

/-- `compare_exchange_weak` が spurious に失敗し続ければ、他の thread が一つも無くても、呼び出しは
返らない: `max_tokens = 1`、`fill_rate = 1`、`initial_tokens = 1` で時刻 0 に作り、`consume(1, false)` を
呼んで load する。その後の spurious な失敗は、系を load の直後と同じ状態に戻し、何も返さない。
thread はまだ loop の中にいるので、同じ失敗がいつまでも続けられる。 -/
theorem consume_spins_on_spurious_failures :
    Lts.Allowed System.Enabled System.step
      (System.create (ι := Unit) (AtomicTokenBucketImpl.create (α := ℝ) 1 0 1 1) 0)
      [.call () (.consumeTokens 1 false) 0, .load (), .attempt () true] ∧
    Lts.exec System.step (System.create (ι := Unit) (AtomicTokenBucketImpl.create (α := ℝ) 1 0 1 1) 0)
      [.call () (.consumeTokens 1 false) 0, .load (), .attempt () true] =
      ((Lts.exec System.step (System.create (ι := Unit) (AtomicTokenBucketImpl.create (α := ℝ) 1 0 1 1) 0)
        [.call () (.consumeTokens 1 false) 0, .load ()]).1, [.silent, .silent, .casFailed () true]) ∧
    (Lts.exec System.step (System.create (ι := Unit) (AtomicTokenBucketImpl.create (α := ℝ) 1 0 1 1) 0)
      [.call () (.consumeTokens 1 false) 0, .load ()]).1.threads () ≠ .idle := by
  -- load の後の系: `time_old` は作った時の `time_in_seconds_` で、取れる数は 1
  set s₀ := System.create (ι := Unit) (AtomicTokenBucketImpl.create (α := ℝ) 1 0 1 1) 0 with hs₀
  set s₂ := (Lts.exec System.step s₀ [.call () (.consumeTokens 1 false) 0, .load ()]).1 with hs₂
  have hph : s₂.threads () = .looping (.consumeTokens 1 false) 0 s₂.bucket.timeInSeconds := by
    simp [hs₂, hs₀, System.step, System.create, System.setPhase]
  have h0 : (ConsumedCb.consumeTokens 1 false).apply (s₂.bucket.tokensAt 0 s₂.bucket.timeInSeconds) ≠ 0 := by
    simp only [hs₂, hs₀, Lts.exec_cons, Lts.exec_nil, System.step, System.create, System.setPhase,
      Function.update_self]
    norm_num [ConsumedCb.apply, AtomicTokenBucketImpl.tokensAt, AtomicTokenBucketImpl.create, kMinFillRate]
  obtain ⟨hall, hexec⟩ := System.exec_attempt_spurious hph h0 1
  have hpre : Lts.Allowed System.Enabled System.step s₀ [.call () (.consumeTokens 1 false) 0, .load ()] := by
    simp [hs₀, System.Enabled, System.step, System.create, System.setPhase, Phase.isClockRead]
  have hout : (Lts.exec System.step s₀ [.call () (.consumeTokens 1 false) 0, .load ()]).2 =
      [.silent, .silent] := by
    simp [hs₀, System.step, System.create, System.setPhase]
  have hsplit : ([.call () (.consumeTokens 1 false) 0, .load (), .attempt () true] : List (Event Unit ℝ)) =
      [.call () (.consumeTokens 1 false) 0, .load ()] ++ List.replicate 1 (.attempt () true) := rfl
  rw [hsplit, Lts.exec_append, ← hs₂, hexec, hout]
  exact ⟨(Lts.allowed_append _ _ _ _ _).mpr ⟨hpre, hall⟩, rfl, by simp [hph]⟩

end Envoy
