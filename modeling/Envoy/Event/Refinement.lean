import Envoy.Event.Lemmas.ScaledRangeTimerManager
import Envoy.Lib.Simulation

/-!
# `ScaledRangeTimerManagerImpl` は約束を守る

実装の一歩は、不変条件 `Inv` の下で、約束の側の一歩 `Spec.Step` に写る。callback は約束の時刻を過ぎた
timer にだけ呼ばれ、時刻は約束の時刻を過ぎる瞬間を越えない。ただし callback の中で、処理している
queue を空にした後に `setScaleFactor` を呼ぶと、空の queue に `resetQueueTimer` が `ASSERT` を落とす。
この一つの場合を除いた動作の列について、列全体の模倣を得る。
-/

namespace Envoy.ScaledTimer

variable {ι α : Type _} [DecidableEq ι] [Field α] [LinearOrder α] [IsStrictOrderedRing α]

namespace TimerSystem

/-- `setScaleFactor` が空の queue に出会う。処理の途中の queue は、callback がその item を全て外すと
空のまま残る。 -/
def ScalesEmptyQueue (s : TimerSystem ι α) : Event ι α → Prop
  | .setScaleFactor _ => ∃ q ∈ s.queues, q.rangeTimers = []
  | _ => False

/-- 考える動作: 起こりうり、空の queue に `setScaleFactor` を呼ばない。 -/
def Valid (s : TimerSystem ι α) (e : Event ι α) : Prop := s.Enabled e ∧ ¬ s.ScalesEmptyQueue e

variable {s s' : TimerSystem ι α}

/-! ## 約束の側への写し -/

omit [IsStrictOrderedRing α] in
/-- 時刻、scale factor と各 timer の `ScaledTimerMinimum` が同じなら、写しは約束だけが違う。 -/
theorem toSpec_eq (hnow : s'.now = s.now) (hsf : s'.scaleFactor = s.scaleFactor)
    (hmin : ∀ k, (s'.timers k).map (·.minimum) = (s.timers k).map (·.minimum)) :
    toSpec s' = { toSpec s with pending := s'.pending } := by
  simp only [toSpec, hnow, hsf, hmin]

omit [IsStrictOrderedRing α] in
theorem pending_eq_update {j : ι} {v : Option (ScaledDeadline α)} (hj : s'.pending j = v)
    (hk : ∀ k, k ≠ j → s'.pending k = s.pending k) : s'.pending = Function.update s.pending j v := by
  funext k
  by_cases hkj : k = j
  · subst hkj; simp [hj]
  · rw [Function.update_of_ne hkj, hk k hkj]

omit [IsStrictOrderedRing α] in
/-- 有効な timer の約束は、`RangeTimerImpl::enabled()` の間だけある。 -/
theorem Inv.enabled_iff (h : Inv s) (j : ι) : s.enabled j = true ↔ s.pending j ≠ none := by
  unfold enabled pending
  cases htj : s.timers j with
  | none => simp
  | some t =>
    cases hst : t.state with
    | inactive => simp [hst]
    | waitingForMin sd =>
      obtain ⟨dl, hdl⟩ := Option.isSome_iff_exists.mp ((h.minTimer j t htj).mp ⟨sd, hst⟩)
      simp [hst, hdl]
    | scalingMax d =>
      obtain ⟨it, hit⟩ := Option.ne_none_iff_exists'.mp (h.itemOf_ne_none htj hst)
      simp [hst, hit]

/-! ## 一歩の模倣 -/

omit [IsStrictOrderedRing α] in
/-- dispatcher の文脈は約束に現れない。 -/
@[simp] theorem toSpec_context (c : Context α) : toSpec { s with context := c } = toSpec s := rfl

omit [IsStrictOrderedRing α] in
/-- `onQueueTimerFired` の loop の一回は、callback を呼べば時刻を過ぎた約束を消し、loop を抜ければ
何も変えない。`s₀` は loop に入った状態で、約束の上では `s` と同じ。 -/
theorem afterProcessing_refines {s₀ : TimerSystem ι α} {d : α} {e : Event ι α}
    (h₀ : Inv { s₀ with context := .queueCallback d }) (hnow : s₀.now = s.now)
    (hsf : s₀.scaleFactor = s.scaleFactor)
    (hmin : ∀ k, (s₀.timers k).map (·.minimum) = (s.timers k).map (·.minimum))
    (hpend : ∀ k, s₀.pending k = s.pending k) (hsilent : Spec.Step (toSpec s) e .silent (toSpec s)) :
    Inv (s.afterProcessing d (s₀.processQueue d)).1 ∧
      Spec.Step (toSpec s) e (s.afterProcessing d (s₀.processQueue d)).2
        (toSpec (s.afterProcessing d (s₀.processQueue d)).1) := by
  obtain ⟨⟨s', o⟩, hrun, hnow', hsf', hmin', hcase⟩ := processQueue_spec h₀
  rw [hrun]
  dsimp only at hnow' hsf' hmin' hcase
  have hspec : toSpec s' = { toSpec s with pending := s'.pending } :=
    toSpec_eq (by rw [hnow', hnow]) (by rw [hsf', hsf]) fun k => by rw [hmin', hmin]
  rcases hcase with ⟨j, rfl, h', ⟨p, hp, hdue⟩, hj, hk⟩ | ⟨rfl, h', hk⟩
  · -- `trigger()` した timer の callback の中へ
    have hp' : (toSpec s).pending j = some p := (hpend j).symm.trans hp
    have hdue' : p.Due (toSpec s).scaleFactor (toSpec s).now := by
      simpa only [toSpec, ← hnow, ← hsf] using hdue
    refine ⟨h', ⟨p, hp', hdue'⟩, ?_⟩
    simp only [afterProcessing, toSpec_context]
    rw [hspec, pending_eq_update (s := s) hj fun k hkj => (hk k hkj).trans (hpend k)]
    rfl
  · -- loop を抜けて外へ
    refine ⟨h', ?_⟩
    have hp : s'.pending = s.pending := funext fun k => (hk k).trans (hpend k)
    simp only [afterProcessing, toSpec_context]
    rw [hspec, hp]
    exact hsilent

/-- 一歩の模倣: 不変条件の下で、考える動作の一歩は不変条件を保ち、約束の側の一歩に写る。 -/
theorem step_refines (h : Inv s) {e : Event ι α} (hv : s.Valid e) :
    Inv (s.step e).1 ∧ Spec.Step (toSpec s) e (s.step e).2 (toSpec (s.step e).1) := by
  obtain ⟨he, hempty⟩ := hv
  cases e with
  | createTimer i minimum =>
    have hi : s.timers i = none := he
    refine ⟨createTimer_inv h hi minimum, by simp [toSpec, hi], ?_⟩
    have hp : (s.createTimer i minimum).pending = Function.update s.pending i none :=
      pending_eq_update (by simp [createTimer_pending]) fun k hk => by simp [createTimer_pending, hk]
    simp only [step, toSpec, hp]
    congr 1
    funext k
    by_cases hk : k = i
    · subst hk; simp [createTimer]
    · simp [createTimer, Function.update_of_ne hk]
  | enableTimer i maxMs =>
    obtain ⟨t, ht⟩ := Option.isSome_iff_exists.mp he
    obtain ⟨s', hs', h', hnow, -, hsf, hmin, hj, hk⟩ := enableTimer_inv h ht maxMs
    simp only [step, hs', complete]
    refine ⟨h', ⟨t.minimum, by simp [toSpec, ht], ?_⟩⟩
    rw [toSpec_eq hnow hsf hmin, pending_eq_update hj hk]
    rfl
  | disableTimer i =>
    obtain ⟨t, ht⟩ := Option.isSome_iff_exists.mp he
    obtain ⟨s', hs', h', hti, hnow, -, hsf, hother, hk⟩ := disableTimer_inv h ht
    simp only [step, hs', complete]
    refine ⟨h', ?_⟩
    have hmin : ∀ k, (s'.timers k).map (·.minimum) = (s.timers k).map (·.minimum) := fun k => by
      by_cases hki : k = i
      · subst hki; simp [hti, ht]
      · rw [hother k hki]
    rw [toSpec_eq hnow hsf hmin, pending_eq_update (v := none) (by simp [pending, hti]) hk]
    rfl
  | destroyTimer i =>
    obtain ⟨t, ht⟩ := Option.isSome_iff_exists.mp he
    obtain ⟨s', hs', h', hnow, -, hsf, hti, hother, hk⟩ := destroyTimer_inv h ht
    simp only [step, hs', complete]
    refine ⟨h', ?_⟩
    have hp := pending_eq_update (s := s) (v := none) (by simp [pending, hti]) hk
    simp only [Spec.Step, toSpec, hnow, hsf, hp]
    congr 1
    funext k
    by_cases hki : k = i
    · subst hki; simp [hti]
    · simp [Function.update_of_ne hki, hother k hki]
  | setScaleFactor scaleFactor =>
    -- 空の queue が無いので `resetQueueTimer` は落ちない
    have hne : ∀ q ∈ s.queues, q.rangeTimers ≠ [] := fun q hq hnil => hempty ⟨q, hq, hnil⟩
    obtain ⟨s', hs', h', hnow, -, hsf, htimers, hk⟩ := setScaleFactor_inv h hne scaleFactor
    simp only [step, hs', complete]
    refine ⟨h', ?_⟩
    have hp : s'.pending = s.pending := funext hk
    simp only [Spec.Step, toSpec, hnow, hsf, htimers, hp]
  | advance t =>
    refine ⟨advance_inv h he, he.2.1, fun j p hp t' hle hlt => advance_not_due h he hp hle hlt, rfl⟩
  | fireMinTimer i =>
    obtain ⟨hctx, t, ht, hdl⟩ := he
    obtain ⟨sd, hp, s', b, hrun, hnow, hsf, hmin, hk, htrue, hfalse⟩ := fireMinTimer_spec h hctx ht hdl
    have hspec := toSpec_eq hnow hsf hmin
    cases b with
    | true =>
      -- 残りが負: 約束の時刻は今
      obtain ⟨hneg, h', hi⟩ := htrue rfl
      simp only [step, hrun]
      refine ⟨h', ⟨⟨⟨s.now, sd⟩, hp, le_rfl, ?_⟩, ?_⟩⟩
      · have : sd * s.scaleFactor.value ≤ 0 := mul_nonpos_of_nonpos_of_nonneg hneg.le s.scaleFactor.zero_le
        simpa [toSpec] using this
      · rw [toSpec_context, hspec, pending_eq_update hi hk]
        rfl
    | false =>
      obtain ⟨h', hi⟩ := hfalse rfl
      simp only [step, hrun]
      refine ⟨h', ?_⟩
      have hp' : s'.pending = s.pending := funext fun k => by
        by_cases hki : k = i
        · subst hki; exact hi
        · exact hk k hki
      show toSpec s' = toSpec s
      rw [hspec, hp']
      rfl
  | fireQueueTimer d =>
    obtain ⟨hctx, q, hq, -⟩ := he
    have hQ := h.queue d q hq
    have hd := findQueue_duration hq
    have hproc : q.processingTimers = false := by
      cases hpq : q.processingTimers
      · rfl
      · exact absurd (hQ.processing.mp hpq) (by simp [hctx])
    -- 鳴った `timer_` を外し、`processing_timers_` を立てて loop に入る
    let q₂ : Queue ι α := { q with timer := none, processingTimers := true }
    have hfire : (s.disarmQueueTimer d).onQueueTimerFired d = (s.putQueue q₂).processQueue d := by
      have hne : q.rangeTimers ≠ [] := h.nonempty d q hq hproc
      have hdisarm : s.disarmQueueTimer d = s.putQueue { q with timer := none } := by
        simp [disarmQueueTimer, hq]
      have hfind : (s.putQueue { q with timer := none }).findQueue d = some { q with timer := none } := by
        simp [hd]
      rw [hdisarm, onQueueTimerFired, hfind]
      dsimp only
      rw [if_neg hne, putQueue_putQueue s (show ({ q with timer := none } : Queue ι α).duration = q₂.duration from rfl)]
    have hc : ∀ d', d' ≠ d → ((Context.queueCallback d : Context α) = .queueCallback d' ↔
        s.context = .queueCallback d') := fun d' hd' => by simp [hctx, Ne.symm hd']
    have h₂ : Inv { s.putQueue q₂ with context := .queueCallback d } :=
      h.replaceQueue hq q₂ hd rfl _ hc (by simp [q₂]) (by simp [q₂]) (by simp [q₂])
    simp only [step, hfire]
    exact afterProcessing_refines h₂ rfl rfl (fun _ => rfl)
      (fun k => pending_congr rfl fun d' => itemOf_replaceQueue hq q₂ hd rfl d' k) rfl
  | returnCallback =>
    cases hctx : s.context with
    | idle => exact absurd hctx he
    | minTimerCallback =>
      simp only [step, hctx]
      exact ⟨h.withContext _ (by simp [hctx]), rfl⟩
    | queueCallback d =>
      simp only [step, hctx]
      have h₀ : Inv { s with context := .queueCallback d } := hctx ▸ h
      exact afterProcessing_refines h₀ rfl rfl (fun _ => rfl) (fun _ => rfl) rfl

/-- 列の模倣: 作った直後から考える動作だけの列では、不変条件が保たれ、実装の出力の列を約束の側の
列が出す。 -/
theorem exec_refines (h : Inv s) {as : List (Event ι α)} (hv : Lts.Allowed Valid step s as) :
    Inv (Lts.exec step s as).1 ∧ Lts.Steps Spec.Step (toSpec s) as (Lts.exec step s as).2 (toSpec (Lts.exec step s as).1) := by
  obtain ⟨a, hsteps, hinv, rfl⟩ := Lts.simulation (R := fun s a => Inv s ∧ a = toSpec s)
    (fun s a e ⟨hs, ha⟩ hv => ⟨_, ha ▸ (step_refines hs hv).2, (step_refines hs hv).1, rfl⟩) ⟨h, rfl⟩ hv
  exact ⟨hinv, hsteps⟩

/-! ## `ASSERT` が落ちる場合 -/

/-- 起こりうる動作が `ASSERT` を落とすのは、空の queue に `setScaleFactor` を呼ぶ時、その時だけである。 -/
theorem step_assertFailed_iff (h : Inv s) {e : Event ι α} (he : s.Enabled e) :
    (s.step e).2 = .assertFailed ↔ s.ScalesEmptyQueue e := by
  constructor
  · intro hfail
    by_contra hne
    have hspec := (step_refines h ⟨he, hne⟩).2
    rw [hfail] at hspec
    exact hspec
  · intro hempty
    cases e with
    | setScaleFactor scaleFactor =>
      obtain ⟨q, hq, hnil⟩ := hempty
      have hnone : s.setScaleFactor scaleFactor = none := by
        rw [setScaleFactor, Option.map_eq_none_iff, KeyedList.mapM_eq_none]
        exact ⟨q, hq, resetQueueTimer_eq_none.mpr hnil⟩
      simp [step, hnone, complete]
    | _ => exact absurd hempty id

/-- callback の中で、処理している queue の最後の timer を `trigger()` した後に `setScaleFactor` を呼ぶと、
`ASSERT` が落ちる。 -/
theorem step_assertFailed_iff_in_callback :
    Inv (Lts.exec step (create 0 : TimerSystem ℕ ℚ)
        [.createTimer 0 (.absoluteMinimum 0), .enableTimer 0 0, .fireQueueTimer 0]).1 ∧
      (Lts.exec step (create 0 : TimerSystem ℕ ℚ)
        [.createTimer 0 (.absoluteMinimum 0), .enableTimer 0 0, .fireQueueTimer 0]).2 =
        [.silent, .silent, .callback 0] ∧
      (Lts.exec step (create 0 : TimerSystem ℕ ℚ)
        [.createTimer 0 (.absoluteMinimum 0), .enableTimer 0 0, .fireQueueTimer 0]).1.Enabled (.setScaleFactor .one) ∧
      (Lts.exec step (create 0 : TimerSystem ℕ ℚ)
        [.createTimer 0 (.absoluteMinimum 0), .enableTimer 0 0, .fireQueueTimer 0]).1.ScalesEmptyQueue
          (.setScaleFactor .one) ∧
      ((Lts.exec step (create 0 : TimerSystem ℕ ℚ)
        [.createTimer 0 (.absoluteMinimum 0), .enableTimer 0 0, .fireQueueTimer 0]).1.step
          (.setScaleFactor .one)).2 = .assertFailed := by
  have hrun : Lts.Allowed Valid step (create 0 : TimerSystem ℕ ℚ)
      [.createTimer 0 (.absoluteMinimum 0), .enableTimer 0 0, .fireQueueTimer 0] := by
    simp [Lts.allowed_cons, Valid, Enabled, ScalesEmptyQueue, step, createTimer, create, complete, enableTimer,
      disableTimer, activateTimer, findQueue, ScaledTimerMinimum.computeMinimum, resetQueueTimer, setTimer,
      putQueue, computeTriggerTime, dispatcherEnableTimer]
  have hinv := (exec_refines (inv_create 0) hrun).1
  have hempty : (Lts.exec step (create 0 : TimerSystem ℕ ℚ)
      [.createTimer 0 (.absoluteMinimum 0), .enableTimer 0 0, .fireQueueTimer 0]).1.ScalesEmptyQueue
        (.setScaleFactor .one) := by
    simp [ScalesEmptyQueue, step, createTimer, create, complete, enableTimer, disableTimer, activateTimer,
      findQueue, ScaledTimerMinimum.computeMinimum, resetQueueTimer, setTimer, putQueue, computeTriggerTime,
      dispatcherEnableTimer, disarmQueueTimer, onQueueTimerFired, processQueue, afterProcessing, trigger]
  refine ⟨hinv, ?_, trivial, hempty, (step_assertFailed_iff hinv (e := .setScaleFactor .one) trivial).mpr hempty⟩
  simp [step, createTimer, create, complete, enableTimer, disableTimer, activateTimer, findQueue,
    ScaledTimerMinimum.computeMinimum, resetQueueTimer, setTimer, putQueue, computeTriggerTime,
    dispatcherEnableTimer, disarmQueueTimer, onQueueTimerFired, processQueue, afterProcessing, trigger]

/-! ## timer は約束の時刻を過ぎた最初の瞬間に鳴る -/

/-- 作った manager の上の、考える動作の列で、時刻 `s.now` に `enableTimer(max_ms)` した timer `i` を、後で
止めも有効にし直しも壊しもしないとする。約束を `p = ofEnable`（`min_ms` を零で抑えたもの）とする。
すると、その後のどの動作 `e` についても、`e` が `i` の callback を呼ぶのは、まだ一度も呼んでおらず、
`p` が今の scale factor で時刻を過ぎている時だけである。時刻を進める動作は、まだ呼んでいない限り、
`p` が時刻を過ぎるどの瞬間も越えない。そして `enabled()` は、callback を呼ぶまでの間だけ成り立つ。 -/
theorem scaledTimer_fires_at_deadline (t₀ : α) (pre mid : List (Event ι α)) (i : ι) (maxMs : α)
    (e : Event ι α) (hrun : Lts.Allowed Valid step (create t₀) (pre ++ .enableTimer i maxMs :: (mid ++ [e])))
    (huntouched : ∀ e' ∈ mid ++ [e], ¬ e'.Touches i) :
    ∃ minimum, ((Lts.exec step (create t₀) pre).1.timers i).map (·.minimum) = some minimum ∧
      ∀ s₁ os, Lts.exec step ((Lts.exec step (create t₀) pre).1.step (.enableTimer i maxMs)).1 mid = (s₁, os) →
        let p := ScaledDeadline.ofEnable minimum (Lts.exec step (create t₀) pre).1.now maxMs
        ((s₁.step e).2 = .callback i → Output.callback i ∉ os ∧ p.Due s₁.scaleFactor.value s₁.now) ∧
        (∀ t, e = .advance t → Output.callback i ∉ os →
          ∀ t', s₁.now ≤ t' → t' < t → ¬ p.Due s₁.scaleFactor.value t') ∧
        (s₁.enabled i = true ↔ Output.callback i ∉ os) := by
  rw [Lts.allowed_append] at hrun
  obtain ⟨hpre, ⟨hen, -⟩, hrest⟩ := hrun
  set s := (Lts.exec step (create t₀) pre).1
  have hs : Inv s := (exec_refines (inv_create t₀) hpre).1
  obtain ⟨t, ht⟩ := Option.isSome_iff_exists.mp hen
  obtain ⟨s', hs', h', hnow, -, hsf, hmin, hj, -⟩ := enableTimer_inv hs ht maxMs
  have hstep : s.step (.enableTimer i maxMs) = (s', .silent) := by simp [step, hs', complete]
  refine ⟨t.minimum, by simp [ht], fun s₁ os hexec => ?_⟩
  rw [hstep] at hrest hexec
  rw [Lts.allowed_append, hexec] at hrest
  obtain ⟨hmid, ⟨hv, -⟩⟩ := hrest
  have hinv := exec_refines h' hmid
  rw [hexec] at hinv
  obtain ⟨hinv₁, hsteps⟩ := hinv
  -- 約束の側: `mid` の間、`i` の約束は変わらないか、callback で消える
  have halive : (toSpec s').minimum i ≠ none := by simp [toSpec, hmin i, ht]
  obtain ⟨-, -, hkeep, hcb⟩ := Spec.steps_untouched hsteps
    (fun e' he' => huntouched e' (List.mem_append_left _ he')) halive
  set p := ScaledDeadline.ofEnable t.minimum s.now maxMs
  have hpend : Output.callback i ∉ os → s₁.pending i = some p := fun hnot => (hkeep hnot).trans hj
  have hlast := (step_refines hinv₁ hv).2
  refine ⟨fun hcall => ?_, fun t' he hnot t'' hle hlt => ?_, ?_⟩
  · -- callback: まだ呼んでおらず、約束の時刻を過ぎている
    rw [hcall] at hlast
    obtain ⟨⟨p', hp', hdue⟩, -⟩ := hlast
    have hnot : Output.callback i ∉ os := fun hmem => by
      rw [show (toSpec s₁).pending i = none from (hcb hmem).2] at hp'
      cases hp'
    have hpp : p' = p := Option.some.inj (hp'.symm.trans (hpend hnot))
    exact ⟨hnot, hpp ▸ hdue⟩
  · -- 時刻を進める: 約束の時刻を過ぎる瞬間を越えない
    subst he
    exact hlast.2.1 i p (hpend hnot) t'' hle hlt
  · rw [hinv₁.enabled_iff i]
    constructor
    · intro hen hmem
      exact hen (hcb hmem).2
    · intro hnot
      rw [hpend hnot]
      exact Option.some_ne_none p

/-- 時刻が進んで鳴る列: `AbsoluteMinimum(2)` の timer を作り、scale factor を `1/2` にして時刻 0 に
`enableTimer(10)` する。時刻 2 に `min_duration_timer_` が鳴って残りの 8 の queue に入り、その queue の
`timer_` は `2 + 8 * 1/2 = 6` に合う。時刻 6 まで進むと queue の `timer_` が鳴って callback を呼び、
その時刻は約束 `0 + 2 + (10 - 2) * 1/2` を過ぎている。 -/
theorem scaledTimer_fires_at_deadline_after_min_timer :
    Lts.Allowed Valid step (create 0 : TimerSystem ℕ ℚ)
        (([.createTimer 0 (.absoluteMinimum 2), .setScaleFactor ⟨1 / 2, one_half_pos.le, one_half_lt_one.le⟩] :
          List (Event ℕ ℚ)) ++
          Event.enableTimer 0 10 ::
            (([.advance 2, .fireMinTimer 0, .advance 6] : List (Event ℕ ℚ)) ++ [Event.fireQueueTimer 8])) ∧
      (∀ e' : Event ℕ ℚ, e' ∈ ([.advance 2, .fireMinTimer 0, .advance 6] : List (Event ℕ ℚ)) ++
        [Event.fireQueueTimer 8] → ¬ e'.Touches 0) ∧
      ∃ minimum, ((Lts.exec step (create 0 : TimerSystem ℕ ℚ)
          [.createTimer 0 (.absoluteMinimum 2), .setScaleFactor ⟨1 / 2, one_half_pos.le, one_half_lt_one.le⟩]).1.timers
            0).map (·.minimum) = some minimum ∧
        ∀ s₁ os, Lts.exec step ((Lts.exec step (create 0 : TimerSystem ℕ ℚ)
            [.createTimer 0 (.absoluteMinimum 2), .setScaleFactor ⟨1 / 2, one_half_pos.le, one_half_lt_one.le⟩]).1.step
              (.enableTimer 0 10)).1 [.advance 2, .fireMinTimer 0, .advance 6] = (s₁, os) →
          (s₁.step (.fireQueueTimer 8)).2 = .callback 0 ∧ Output.callback 0 ∉ os ∧
            (ScaledDeadline.ofEnable minimum (Lts.exec step (create 0 : TimerSystem ℕ ℚ)
              [.createTimer 0 (.absoluteMinimum 2), .setScaleFactor ⟨1 / 2, one_half_pos.le, one_half_lt_one.le⟩]).1.now
              10).Due s₁.scaleFactor.value s₁.now := by
  have hrun : Lts.Allowed Valid step (create 0 : TimerSystem ℕ ℚ)
      (([.createTimer 0 (.absoluteMinimum 2), .setScaleFactor ⟨1 / 2, one_half_pos.le, one_half_lt_one.le⟩] :
          List (Event ℕ ℚ)) ++
        Event.enableTimer 0 10 ::
          (([.advance 2, .fireMinTimer 0, .advance 6] : List (Event ℕ ℚ)) ++ [Event.fireQueueTimer 8])) := by
    norm_num [Lts.allowed_cons, Valid, Enabled, ScalesEmptyQueue, step, createTimer, create, complete, setScaleFactor,
      enableTimer, disableTimer, activateTimer, findQueue, ScaledTimerMinimum.computeMinimum, resetQueueTimer,
      setTimer, putQueue, computeTriggerTime, dispatcherEnableTimer, disarmMinTimer, onMinTimerComplete,
      Function.update_apply]
    -- timer 0 の `min_duration_timer_` は時刻 2 に合わせてあり、鳴った後は外れている
    refine ⟨?_, ?_⟩ <;> rintro j tj dl - rfl hdl <;> cases hdl
    norm_num
  have huntouched : ∀ e' : Event ℕ ℚ, e' ∈ ([.advance 2, .fireMinTimer 0, .advance 6] : List (Event ℕ ℚ)) ++
      [Event.fireQueueTimer 8] → ¬ e'.Touches 0 := by
    simp [Event.Touches]
  obtain ⟨minimum, hmin, hfire⟩ := scaledTimer_fires_at_deadline 0 _ _ 0 10 _ hrun huntouched
  refine ⟨hrun, huntouched, minimum, hmin, fun s₁ os hexec => ?_⟩
  -- 時刻 6 に `duration = 8` の queue の `timer_` が鳴り、先頭の timer 0 の callback を呼ぶ
  have hcall : (s₁.step (.fireQueueTimer 8)).2 = .callback 0 := by
    obtain ⟨rfl, -⟩ := Prod.ext_iff.mp hexec
    norm_num [Lts.exec, step, createTimer, create, complete, setScaleFactor, enableTimer, disableTimer, activateTimer,
      findQueue, ScaledTimerMinimum.computeMinimum, resetQueueTimer, setTimer, putQueue, computeTriggerTime,
      dispatcherEnableTimer, disarmMinTimer, onMinTimerComplete, disarmQueueTimer, onQueueTimerFired, processQueue,
      afterProcessing, trigger, Function.update_apply]
    simp
  obtain ⟨hnot, hdue⟩ := (hfire s₁ os hexec).1 hcall
  exact ⟨hcall, hnot, hdue⟩

/-- 負の `AbsoluteMinimum` では、`min_ms = min(computeMinimum(max), max)` の式の時刻より後に鳴る。
`AbsoluteMinimum(-10)`、scale factor `1/2` の下、時刻 0 に `enableTimer(10)` すると、式の時刻
`0 + m + (10 - m) * 1/2` は `m = -10` で 0 である。しかし `min_ms ≤ 0` なので `activateTimer(10)` で
`max` 全体の queue に入り、時刻 5 まで進んでから鳴る。 -/
theorem scaledTimer_negative_minimum_fires_late :
    Lts.Allowed Valid step (create 0 : TimerSystem ℕ ℚ)
        [.createTimer 0 (.absoluteMinimum (-10)), .setScaleFactor ⟨1 / 2, by norm_num, by norm_num⟩,
          .enableTimer 0 10, .advance 5, .fireQueueTimer 10] ∧
      (0 : ℚ) + min ((ScaledTimerMinimum.absoluteMinimum (-10) : ScaledTimerMinimum ℚ).computeMinimum 10) 10 ≤ 0 ∧
      (0 : ℚ) + min ((ScaledTimerMinimum.absoluteMinimum (-10) : ScaledTimerMinimum ℚ).computeMinimum 10) 10 +
          (10 - min ((ScaledTimerMinimum.absoluteMinimum (-10) : ScaledTimerMinimum ℚ).computeMinimum 10) 10) *
            (1 / 2) ≤ 0 ∧
      (Lts.exec step (create 0 : TimerSystem ℕ ℚ)
        [.createTimer 0 (.absoluteMinimum (-10)), .setScaleFactor ⟨1 / 2, by norm_num, by norm_num⟩,
          .enableTimer 0 10, .advance 5, .fireQueueTimer 10]).2 =
        [.silent, .silent, .silent, .silent, .callback 0] := by
  refine ⟨?_, by norm_num [ScaledTimerMinimum.computeMinimum], by norm_num [ScaledTimerMinimum.computeMinimum], ?_⟩
  · simp [Lts.allowed_cons, Valid, Enabled, ScalesEmptyQueue, step, createTimer, create, complete, setScaleFactor,
      enableTimer, disableTimer, activateTimer, findQueue, ScaledTimerMinimum.computeMinimum, resetQueueTimer,
      setTimer, putQueue, computeTriggerTime, dispatcherEnableTimer]
    norm_num
    -- timer 0 は `min_duration_timer_` を合わせずに queue へ入った
    intro j tj dl hj hdl
    by_cases hj0 : j = 0
    · subst hj0; simp at hj; subst hj; simp at hdl
    · simp [Function.update_of_ne hj0] at hj
  · simp [step, createTimer, create, complete, setScaleFactor, enableTimer, disableTimer, activateTimer, findQueue,
      ScaledTimerMinimum.computeMinimum, resetQueueTimer, setTimer, putQueue, computeTriggerTime,
      dispatcherEnableTimer, disarmQueueTimer, onQueueTimerFired, processQueue, afterProcessing, trigger]
    norm_num

end TimerSystem

end Envoy.ScaledTimer
