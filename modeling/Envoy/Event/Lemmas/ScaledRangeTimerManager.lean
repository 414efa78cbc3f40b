import Envoy.Event.ScaledTimerSpec
import Envoy.Lib.KeyedList

/-!
# `ScaledRangeTimerManagerImpl` の不変条件

queue の集まり `queues_` は duration を鍵とする `KeyedList`、queue の中の item は timer を鍵とする
`KeyedList` である。不変条件 `Inv` は、queue ごとの性質 `QueueInv` と、timer と queue を結ぶ性質からなる。

- queue の item は `active_time_` の順に並び、どれも今より前で、同じ timer は二度現れない。
- queue の item の timer は、その queue の duration の `ScalingMax` にある。逆に `ScalingMax` の timer は、
  その duration の queue に item を持つ（handle が生きている）。
- 処理の途中の queue は、callback の中で処理している queue ちょうど一つである。そうでない queue は
  空でなく、`timer_` が今から先頭の item の時刻までの間に合わせてある。
- `min_duration_timer_` を合わせてあるのは `WaitingForMin` の timer ちょうどで、その時刻は今より後。

各操作がこれを保つこと、そして約束 `pending` への写し方がどう変わるかを、操作ごとに一つの補題で示す。
-/

namespace Envoy.ScaledTimer

variable {ι α : Type _} [DecidableEq ι] [Field α] [LinearOrder α] [IsStrictOrderedRing α]

omit [IsStrictOrderedRing α] in
/-- dispatcher の timer を、過ぎていれば零で、そうでなければ `triggerTime` の時刻に合わせる。 -/
theorem dispatcherEnableTimer_eq_max (now triggerTime : α) :
    dispatcherEnableTimer now (if triggerTime < now then 0 else triggerTime - now) =
      some (max now triggerTime) := by
  simp only [dispatcherEnableTimer, Option.some.injEq]
  split_ifs with h
  · rw [add_zero, max_eq_left h.le]
  · rw [add_sub_cancel, max_eq_right (not_lt.mp h)]

omit [DecidableEq ι] [IsStrictOrderedRing α] in
/-- `resetQueueTimer` は空でない queue の `timer_` を先頭の item の時刻（過ぎていれば今）に合わせる。 -/
theorem resetQueueTimer_of_cons {scaleFactor : UnitFloat α} {queue : Queue ι α} {now : α}
    {front : Item ι α} {rest : List (Item ι α)} (h : queue.rangeTimers = front :: rest) :
    resetQueueTimer scaleFactor queue now =
      some { queue with timer := some (max now (computeTriggerTime front queue.duration scaleFactor)) } := by
  simp only [resetQueueTimer, h, dispatcherEnableTimer_eq_max]

omit [DecidableEq ι] [IsStrictOrderedRing α] in
theorem resetQueueTimer_eq_none {scaleFactor : UnitFloat α} {queue : Queue ι α} {now : α} :
    resetQueueTimer scaleFactor queue now = none ↔ queue.rangeTimers = [] := by
  cases h : queue.rangeTimers with
  | nil => simp [resetQueueTimer, h]
  | cons front rest => simp [resetQueueTimer_of_cons h]

omit [DecidableEq ι] [IsStrictOrderedRing α] in
theorem resetQueueTimer_duration {scaleFactor : UnitFloat α} {queue queue' : Queue ι α} {now : α}
    (h : resetQueueTimer scaleFactor queue now = some queue') : queue'.duration = queue.duration := by
  cases hq : queue.rangeTimers with
  | nil => rw [← resetQueueTimer_eq_none] at hq; rw [hq] at h; cases h
  | cons front rest => rw [resetQueueTimer_of_cons hq] at h; cases h; rfl

namespace TimerSystem

/-! ## 状態の更新 -/

section Update

variable (s : TimerSystem ι α)

omit [DecidableEq ι] [IsStrictOrderedRing α]

@[simp] theorem findQueue_putQueue (queue : Queue ι α) (duration : α) :
    (s.putQueue queue).findQueue duration =
      if queue.duration = duration then some queue else s.findQueue duration :=
  KeyedList.lookup_put _ _ _

@[simp] theorem findQueue_eraseQueue (duration' duration : α) :
    (s.eraseQueue duration').findQueue duration =
      if duration' = duration then none else s.findQueue duration :=
  KeyedList.lookup_erase _ _ _

@[simp] theorem putQueue_now (q : Queue ι α) : (s.putQueue q).now = s.now := rfl
@[simp] theorem putQueue_context (q : Queue ι α) : (s.putQueue q).context = s.context := rfl
@[simp] theorem putQueue_scaleFactor (q : Queue ι α) : (s.putQueue q).scaleFactor = s.scaleFactor := rfl
@[simp] theorem putQueue_timers (q : Queue ι α) : (s.putQueue q).timers = s.timers := rfl
@[simp] theorem eraseQueue_now (d : α) : (s.eraseQueue d).now = s.now := rfl
@[simp] theorem eraseQueue_context (d : α) : (s.eraseQueue d).context = s.context := rfl
@[simp] theorem eraseQueue_scaleFactor (d : α) : (s.eraseQueue d).scaleFactor = s.scaleFactor := rfl
@[simp] theorem eraseQueue_timers (d : α) : (s.eraseQueue d).timers = s.timers := rfl

end Update

section Timers

variable (s : TimerSystem ι α)

omit [IsStrictOrderedRing α]

@[simp] theorem setTimer_now (i : ι) (t : RangeTimerImpl α) : (s.setTimer i t).now = s.now := rfl
@[simp] theorem setTimer_context (i : ι) (t : RangeTimerImpl α) : (s.setTimer i t).context = s.context := rfl
@[simp] theorem setTimer_scaleFactor (i : ι) (t : RangeTimerImpl α) :
    (s.setTimer i t).scaleFactor = s.scaleFactor := rfl
@[simp] theorem findQueue_setTimer (i : ι) (t : RangeTimerImpl α) (d : α) :
    (s.setTimer i t).findQueue d = s.findQueue d := rfl
@[simp] theorem setTimer_queues (i : ι) (t : RangeTimerImpl α) : (s.setTimer i t).queues = s.queues := rfl

@[simp] theorem setTimer_timers_self (i : ι) (t : RangeTimerImpl α) : (s.setTimer i t).timers i = some t := by
  simp [setTimer]

theorem setTimer_timers_of_ne {i j : ι} (t : RangeTimerImpl α) (h : j ≠ i) :
    (s.setTimer i t).timers j = s.timers j := by
  simp [setTimer, Function.update_of_ne h]

end Timers

/-! ## 不変条件 -/

/-- duration `d` の queue `q` について成り立つこと。 -/
structure QueueInv (s : TimerSystem ι α) (d : α) (q : Queue ι α) : Prop where
  sorted : q.rangeTimers.Pairwise fun x y => x.activeTime ≤ y.activeTime
  activeTime_le : ∀ it ∈ q.rangeTimers, it.activeTime ≤ s.now
  nodup : (q.rangeTimers.map (·.timer)).Nodup
  scalingMax : ∀ it ∈ q.rangeTimers, ∃ t, s.timers it.timer = some t ∧ t.state = .scalingMax d
  processing : q.processingTimers = true ↔ s.context = .queueCallback d
  armed : q.processingTimers = false → ∀ front rest, q.rangeTimers = front :: rest →
    ∃ D, q.timer = some D ∧ s.now ≤ D ∧ D ≤ max s.now (computeTriggerTime front d s.scaleFactor)

/-- manager 全体の不変条件。 -/
structure Inv (s : TimerSystem ι α) : Prop where
  nodup : (s.queues.map (·.duration)).Nodup
  queue : ∀ d q, s.findQueue d = some q → QueueInv s d q
  nonempty : ∀ d q, s.findQueue d = some q → q.processingTimers = false → q.rangeTimers ≠ []
  handle : ∀ j t d, s.timers j = some t → t.state = .scalingMax d →
    ∃ q, s.findQueue d = some q ∧ KeyedList.lookup Item.timer q.rangeTimers j ≠ none
  minTimer : ∀ j t, s.timers j = some t → ((∃ sd, t.state = .waitingForMin sd) ↔ t.minDurationTimer.isSome)
  minTimer_le : ∀ j t dl, s.timers j = some t → t.minDurationTimer = some dl → s.now ≤ dl
  context : ∀ d, s.context = .queueCallback d → (s.findQueue d).isSome

theorem inv_create (now : α) : Inv (create now : TimerSystem ι α) where
  nodup := List.nodup_nil
  queue d q h := by cases h
  nonempty d q h := by cases h
  handle j t d h := by cases h
  minTimer j t h := by cases h
  minTimer_le j t dl h := by cases h
  context d h := by cases h

/-! ## 約束への写し方 -/

/-- `ScalingMax` の timer `j` の item: handle の指す先。 -/
def itemOf (s : TimerSystem ι α) (d : α) (j : ι) : Option (Item ι α) :=
  (s.findQueue d).bind fun q => KeyedList.lookup Item.timer q.rangeTimers j

/-- timer `j` の約束。`WaitingForMin` なら `min_duration_timer_` の時刻から `scalable_duration_`、
`ScalingMax` なら item の `active_time_` から queue の duration。 -/
def pending (s : TimerSystem ι α) (j : ι) : Option (ScaledDeadline α) :=
  match s.timers j with
  | none => none
  | some t =>
    match t.state with
    | .inactive => none
    | .waitingForMin scalableDuration => t.minDurationTimer.map (⟨·, scalableDuration⟩)
    | .scalingMax d => (s.itemOf d j).map (⟨·.activeTime, d⟩)

omit [IsStrictOrderedRing α] in
@[simp] theorem itemOf_setTimer (s : TimerSystem ι α) (i : ι) (t : RangeTimerImpl α) (d : α) (j : ι) :
    (s.setTimer i t).itemOf d j = s.itemOf d j := rfl

/-- 実装の状態を約束の側へ写す。 -/
def toSpec (s : TimerSystem ι α) : Spec ι α :=
  ⟨s.now, s.scaleFactor.value, fun j => (s.timers j).map (·.minimum), s.pending⟩

/-! ## 不変条件の部品 -/

variable {s s' : TimerSystem ι α}

omit [DecidableEq ι] [IsStrictOrderedRing α] in
theorem findQueue_duration {d : α} {q : Queue ι α} (h : s.findQueue d = some q) : q.duration = d :=
  KeyedList.key_of_lookup h

omit [DecidableEq ι] [IsStrictOrderedRing α] in
/-- 時刻、文脈、scale factor と item の timer が同じなら、queue の性質は同じ。 -/
theorem QueueInv.frame {d : α} {q : Queue ι α} (h : QueueInv s d q) (hnow : s'.now = s.now)
    (hctx : s'.context = s.context) (hsf : s'.scaleFactor = s.scaleFactor)
    (htimers : ∀ it ∈ q.rangeTimers, s'.timers it.timer = s.timers it.timer) : QueueInv s' d q where
  sorted := h.sorted
  activeTime_le it hit := hnow ▸ h.activeTime_le it hit
  nodup := h.nodup
  scalingMax it hit := htimers it hit ▸ h.scalingMax it hit
  processing := hctx ▸ h.processing
  armed hp := hnow ▸ hsf ▸ h.armed hp

omit [IsStrictOrderedRing α] in
/-- queue の item の timer は、その duration の `ScalingMax` にある。 -/
theorem Inv.scalingMax_of_mem (h : Inv s) {d : α} {q : Queue ι α} (hq : s.findQueue d = some q)
    {it : Item ι α} (hit : it ∈ q.rangeTimers) :
    ∃ t, s.timers it.timer = some t ∧ t.state = .scalingMax d :=
  (h.queue d q hq).scalingMax it hit

omit [IsStrictOrderedRing α] in
/-- duration `d` の `ScalingMax` に無い timer は、その queue に item を持たない。 -/
theorem Inv.timer_ne_of_mem (h : Inv s) {d : α} {q : Queue ι α} (hq : s.findQueue d = some q)
    {it : Item ι α} (hit : it ∈ q.rangeTimers) {j : ι}
    (hj : ∀ t, s.timers j = some t → t.state ≠ .scalingMax d) : it.timer ≠ j := by
  rintro rfl
  obtain ⟨t, ht, hst⟩ := h.scalingMax_of_mem hq hit
  exact hj t ht hst

omit [IsStrictOrderedRing α] in
/-- 時刻を持たない `min_duration_timer_` は、`WaitingForMin` に無い timer のもの。 -/
theorem Inv.minDurationTimer_eq_none (h : Inv s) {j : ι} {t : RangeTimerImpl α} (ht : s.timers j = some t)
    (hst : ∀ sd, t.state ≠ .waitingForMin sd) : t.minDurationTimer = none := by
  have := h.minTimer j t ht
  simp only [hst, exists_false, false_iff, Option.isSome_iff_ne_none, not_not] at this
  exact this

omit [IsStrictOrderedRing α] in
/-- 約束は、timer とその item が同じなら同じ。 -/
theorem pending_congr {j : ι} (htimers : s'.timers j = s.timers j) (hitem : ∀ d, s'.itemOf d j = s.itemOf d j) :
    s'.pending j = s.pending j := by
  simp only [pending, htimers, hitem]

omit [IsStrictOrderedRing α] in
theorem itemOf_putQueue (q : Queue ι α) (d : α) (j : ι) :
    (s.putQueue q).itemOf d j =
      if q.duration = d then KeyedList.lookup Item.timer q.rangeTimers j else s.itemOf d j := by
  unfold itemOf
  split_ifs with h <;> simp [h]

omit [IsStrictOrderedRing α] in
theorem itemOf_eraseQueue (d' d : α) (j : ι) :
    (s.eraseQueue d').itemOf d j = if d' = d then none else s.itemOf d j := by
  unfold itemOf
  split_ifs with h <;> simp [h]

/-! ## `createTimer` と時刻 -/

omit [IsStrictOrderedRing α] in
theorem createTimer_inv (h : Inv s) {i : ι} (hi : s.timers i = none) (minimum : ScaledTimerMinimum α) :
    Inv (s.createTimer i minimum) where
  nodup := h.nodup
  queue d q hq := by
    refine (h.queue d q hq).frame rfl rfl rfl fun it hit => ?_
    have hne : it.timer ≠ i := h.timer_ne_of_mem hq hit (by simp [hi])
    simp [createTimer, Function.update_of_ne hne]
  nonempty := h.nonempty
  handle j t d ht hst := by
    by_cases hji : j = i
    · subst hji; simp [createTimer] at ht; subst ht; cases hst
    · simp only [createTimer, Function.update_of_ne hji] at ht
      exact h.handle j t d ht hst
  minTimer j t ht := by
    by_cases hji : j = i
    · subst hji; simp [createTimer] at ht; subst ht; simp
    · simp only [createTimer, Function.update_of_ne hji] at ht
      exact h.minTimer j t ht
  minTimer_le j t dl ht hdl := by
    by_cases hji : j = i
    · subst hji; simp [createTimer] at ht; subst ht; cases hdl
    · simp only [createTimer, Function.update_of_ne hji] at ht
      exact h.minTimer_le j t dl ht hdl
  context d hd := h.context d hd

omit [IsStrictOrderedRing α] in
theorem createTimer_pending {i : ι} (minimum : ScaledTimerMinimum α) (j : ι) :
    (s.createTimer i minimum).pending j = if j = i then none else s.pending j := by
  split_ifs with hji
  · subst hji; simp [pending, createTimer]
  · exact pending_congr (by simp [createTimer, Function.update_of_ne hji]) fun _ => rfl

omit [IsStrictOrderedRing α] in
/-- 時刻は、合わせてあるどの dispatcher timer も越えずに進む。 -/
theorem advance_inv (h : Inv s) {t : α} (ht : s.Enabled (.advance t)) : Inv { s with now := t } := by
  obtain ⟨-, hle, hmin, hqueues⟩ := ht
  refine ⟨h.nodup, fun d q hq => ?_, h.nonempty, h.handle, h.minTimer,
    fun j tj dl hj hdl => hmin j tj dl hj hdl, h.context⟩
  have hQ := h.queue d q hq
  refine ⟨hQ.sorted, fun it hit => (hQ.activeTime_le it hit).trans hle, hQ.nodup, hQ.scalingMax,
    hQ.processing, fun hp front rest hfront => ?_⟩
  obtain ⟨D, hD, -, hDle⟩ := hQ.armed hp front rest hfront
  exact ⟨D, hD, hqueues q (KeyedList.mem_of_lookup hq) D hD, hDle.trans (max_le_max_right _ hle)⟩

/-! ## item を一つ外す -/

section RemoveItem

variable {d : α} {j : ι} {q : Queue ι α} {t : RangeTimerImpl α}

omit [IsStrictOrderedRing α] in
/-- duration `d` の queue から `ScalingMax` の timer `j` の item を外し、`j` を `Inactive` にしても、
不変条件は保たれる。外した後の queue の `timer_` の条件は、呼ぶ側が与える。 -/
theorem Inv.removeItem (h : Inv s) (hq : s.findQueue d = some q) (ht : s.timers j = some t)
    (hst : t.state = .scalingMax d) (q' : Queue ι α) (hd : q'.duration = d)
    (hitems : q'.rangeTimers = KeyedList.erase Item.timer q.rangeTimers j)
    (hproc : q'.processingTimers = q.processingTimers)
    (hne : q'.processingTimers = false → q'.rangeTimers ≠ [])
    (harmed : q'.processingTimers = false → ∀ front rest, q'.rangeTimers = front :: rest →
      ∃ D, q'.timer = some D ∧ s.now ≤ D ∧ D ≤ max s.now (computeTriggerTime front d s.scaleFactor)) :
    Inv ((s.putQueue q').setTimer j { t with state := .inactive }) := by
  have hQ := h.queue d q hq
  have hsub : q'.rangeTimers.Sublist q.rangeTimers := hitems ▸ List.filter_sublist
  have hnone : t.minDurationTimer = none := h.minDurationTimer_eq_none ht (by simp [hst])
  -- `j` 以外の timer は元のまま
  have hother : ∀ k, k ≠ j → ((s.putQueue q').setTimer j { t with state := .inactive }).timers k = s.timers k :=
    fun k hk => setTimer_timers_of_ne _ _ hk
  refine ⟨KeyedList.nodup_put h.nodup q', fun d'' q'' hq'' => ?_, fun d'' q'' hq'' => ?_,
    fun k tk d' hk hstk => ?_, fun k tk hk => ?_, fun k tk dl hk hdl => ?_, fun d' hd' => ?_⟩
  · simp only [findQueue_setTimer, findQueue_putQueue, hd] at hq''
    split_ifs at hq'' with hdd
    · -- 外した queue
      cases hq''; subst hdd
      refine ⟨hQ.sorted.sublist hsub, fun it hit => hQ.activeTime_le it (hsub.subset hit),
        (hsub.map _).nodup hQ.nodup, fun it hit => ?_, by simpa [hproc] using hQ.processing, by simpa using harmed⟩
      obtain ⟨hmem, hne⟩ := KeyedList.mem_erase.mp (hitems ▸ hit)
      rw [hother _ hne]
      exact hQ.scalingMax it hmem
    · -- 他の queue: その item の timer は `j` ではない
      refine (h.queue d'' q'' hq'').frame rfl rfl rfl fun it hit => hother _ ?_
      exact h.timer_ne_of_mem hq'' hit fun t' ht' => by
        rw [ht] at ht'; cases ht'; rw [hst]; exact fun e => hdd (by cases e; rfl)
  · simp only [findQueue_setTimer, findQueue_putQueue, hd] at hq''
    split_ifs at hq'' with hdd
    · cases hq''; exact hne
    · exact h.nonempty d'' q'' hq''
  · by_cases hkj : k = j
    · subst hkj; simp at hk; subst hk; cases hstk
    · rw [hother k hkj] at hk
      obtain ⟨q₀, hq₀, hlk⟩ := h.handle k tk d' hk hstk
      simp only [findQueue_setTimer, findQueue_putQueue, hd]
      split_ifs with hdd
      · subst hdd
        rw [hq] at hq₀; cases hq₀
        refine ⟨q', rfl, ?_⟩
        rwa [hitems, KeyedList.lookup_erase, if_neg (Ne.symm hkj)]
      · exact ⟨q₀, hq₀, hlk⟩
  · by_cases hkj : k = j
    · subst hkj; simp at hk; subst hk; simp [hnone]
    · rw [hother k hkj] at hk; exact h.minTimer k tk hk
  · by_cases hkj : k = j
    · subst hkj; simp at hk; subst hk; simp [hnone] at hdl
    · rw [hother k hkj] at hk; exact h.minTimer_le k tk dl hk hdl
  · simp only [findQueue_setTimer, findQueue_putQueue, hd]
    split_ifs <;> simp [h.context d' hd']

omit [IsStrictOrderedRing α] in
/-- 最後の item を外した、処理の途中でない queue は消す。 -/
theorem Inv.removeLastItem (h : Inv s) (hq : s.findQueue d = some q) (ht : s.timers j = some t)
    (hst : t.state = .scalingMax d) (hempty : KeyedList.erase Item.timer q.rangeTimers j = [])
    (hproc : q.processingTimers = false) :
    Inv ((s.eraseQueue d).setTimer j { t with state := .inactive }) := by
  have hQ := h.queue d q hq
  have hnone : t.minDurationTimer = none := h.minDurationTimer_eq_none ht (by simp [hst])
  have hother : ∀ k, k ≠ j → ((s.eraseQueue d).setTimer j { t with state := .inactive }).timers k = s.timers k :=
    fun k hk => setTimer_timers_of_ne _ _ hk
  refine ⟨KeyedList.nodup_erase h.nodup d, fun d'' q'' hq'' => ?_, fun d'' q'' hq'' => ?_,
    fun k tk d' hk hstk => ?_, fun k tk hk => ?_, fun k tk dl hk hdl => ?_, fun d' hd' => ?_⟩
  · simp only [findQueue_setTimer, findQueue_eraseQueue] at hq''
    split_ifs at hq'' with hdd
    refine (h.queue d'' q'' hq'').frame rfl rfl rfl fun it hit => hother _ ?_
    exact h.timer_ne_of_mem hq'' hit fun t' ht' => by
      rw [ht] at ht'; cases ht'; rw [hst]; exact fun e => hdd (by cases e; rfl)
  · simp only [findQueue_setTimer, findQueue_eraseQueue] at hq''
    split_ifs at hq'' with hdd
    exact h.nonempty d'' q'' hq''
  · by_cases hkj : k = j
    · subst hkj; simp at hk; subst hk; cases hstk
    · rw [hother k hkj] at hk
      obtain ⟨q₀, hq₀, hlk⟩ := h.handle k tk d' hk hstk
      simp only [findQueue_setTimer, findQueue_eraseQueue]
      split_ifs with hdd
      · -- 消した queue に `k` の item は残っていない
        subst hdd
        rw [hq] at hq₀; cases hq₀
        have := @KeyedList.lookup_erase _ _ _ Item.timer q.rangeTimers j k
        rw [hempty, if_neg (Ne.symm hkj)] at this
        exact absurd (this.symm.trans (KeyedList.lookup_nil k)) hlk
      · exact ⟨q₀, hq₀, hlk⟩
  · by_cases hkj : k = j
    · subst hkj; simp at hk; subst hk; simp [hnone]
    · rw [hother k hkj] at hk; exact h.minTimer k tk hk
  · by_cases hkj : k = j
    · subst hkj; simp at hk; subst hk; simp [hnone] at hdl
    · rw [hother k hkj] at hk; exact h.minTimer_le k tk dl hk hdl
  · simp only [findQueue_setTimer, findQueue_eraseQueue]
    split_ifs with hdd
    · -- 処理の途中でない queue は、callback の中で処理している queue ではない
      subst hdd
      exact absurd (hQ.processing.mpr hd') (by simp [hproc])
    · exact h.context d' hd'

omit [IsStrictOrderedRing α] in
/-- item を外しても、他の timer の item は同じ。 -/
theorem itemOf_removeItem (hq : s.findQueue d = some q) (q' : Queue ι α) (hd : q'.duration = d)
    (hitems : q'.rangeTimers = KeyedList.erase Item.timer q.rangeTimers j) {k : ι} (hkj : k ≠ j)
    (d' : α) : (s.putQueue q').itemOf d' k = s.itemOf d' k := by
  rw [itemOf_putQueue, hd]
  split_ifs with hdd
  · subst hdd
    simp [itemOf, hq, hitems, KeyedList.lookup_erase, Ne.symm hkj]
  · rfl

omit [IsStrictOrderedRing α] in
theorem itemOf_removeLastItem (hq : s.findQueue d = some q)
    (hempty : KeyedList.erase Item.timer q.rangeTimers j = []) {k : ι} (hkj : k ≠ j) (d' : α) :
    (s.eraseQueue d).itemOf d' k = s.itemOf d' k := by
  rw [itemOf_eraseQueue]
  split_ifs with hdd
  · subst hdd
    have := @KeyedList.lookup_erase _ _ _ Item.timer q.rangeTimers j k
    rw [hempty, if_neg (Ne.symm hkj)] at this
    simp [itemOf, hq, ← this]
  · rfl

end RemoveItem

/-! ## `removeTimer` -/

omit [IsStrictOrderedRing α] in
/-- `removeTimer`: handle の指す item を外す。四つの場合のどれでも、不変条件と他の timer の item は
保たれる。 -/
theorem removeTimer_inv (h : Inv s) {j : ι} {t : RangeTimerImpl α} {d : α} (ht : s.timers j = some t)
    (hst : t.state = .scalingMax d) :
    ∃ s', s.removeTimer d j = some s' ∧ Inv (s'.setTimer j { t with state := .inactive }) ∧
      s'.now = s.now ∧ s'.context = s.context ∧ s'.scaleFactor = s.scaleFactor ∧ s'.timers = s.timers ∧
      ∀ k, k ≠ j → ∀ d', s'.itemOf d' k = s.itemOf d' k := by
  obtain ⟨q, hq, -⟩ := h.handle j t d ht hst
  have hQ := h.queue d q hq
  have hd := findQueue_duration hq
  unfold removeTimer
  rw [hq]
  dsimp only
  rw [KeyedList.eraseP_eq_erase hQ.nodup j]
  set rest := KeyedList.erase Item.timer q.rangeTimers j with hrest
  by_cases hempty : rest = []
  · cases hproc : q.processingTimers
    · -- 最後の item: queue を消す
      refine ⟨_, by simp [hempty], h.removeLastItem hq ht hst hempty hproc, rfl, rfl, rfl, rfl,
        fun k hkj d' => itemOf_removeLastItem hq hempty hkj d'⟩
    · -- 処理の途中の queue は、空のまま残す
      let q' : Queue ι α := { q with rangeTimers := rest }
      refine ⟨s.putQueue q', by simp [q', hempty, hproc],
        h.removeItem hq ht hst q' hd rfl rfl (by simp [q', hproc]) (by simp [q', hproc]),
        rfl, rfl, rfl, rfl, fun k hkj d' => itemOf_removeItem hq q' hd rfl hkj d'⟩
  · by_cases hfront : q.rangeTimers.head?.map (·.timer) = some j
    · -- 先頭を外した: 新しい先頭に合わせ直す
      obtain ⟨front, more, hfm⟩ := List.exists_cons_of_ne_nil hempty
      let q' : Queue ι α :=
        { q with rangeTimers := rest, timer := some (max s.now (computeTriggerTime front q.duration s.scaleFactor)) }
      have hreset : resetQueueTimer s.scaleFactor { q with rangeTimers := rest } s.now = some q' :=
        resetQueueTimer_of_cons (show ({ q with rangeTimers := rest } : Queue ι α).rangeTimers = front :: more from hfm)
      refine ⟨s.putQueue q', by simp [hempty, hfront, hreset],
        h.removeItem hq ht hst q' hd rfl rfl (fun _ => hempty) ?_,
        rfl, rfl, rfl, rfl, fun k hkj d' => itemOf_removeItem hq q' hd rfl hkj d'⟩
      intro _ f r hfr
      obtain ⟨rfl, -⟩ := List.cons_eq_cons.mp (hfr.symm.trans hfm)
      exact ⟨_, rfl, le_max_left _ _, by rw [hd]⟩
    · -- 先頭は残る: `timer_` はそのまま
      let q' : Queue ι α := { q with rangeTimers := rest }
      refine ⟨s.putQueue q', by simp [q', hempty, hfront],
        h.removeItem hq ht hst q' hd rfl rfl (fun _ => hempty) ?_, rfl, rfl, rfl,
        rfl, fun k hkj d' => itemOf_removeItem hq q' hd rfl hkj d'⟩
      intro hp f r hfr
      obtain ⟨g, r', hg⟩ := List.exists_cons_of_ne_nil (h.nonempty d q hq hp)
      have hgj : g.timer ≠ j := fun e => hfront (by simp [hg, e])
      -- 外したのは先頭ではないので、先頭は `g` のまま
      have hfg : f = g := by
        have : rest = g :: KeyedList.erase Item.timer r' j := by simp [hrest, hg, KeyedList.erase, hgj]
        exact (List.cons_eq_cons.mp (hfr.symm.trans this)).1
      subst hfg
      exact hQ.armed hp f r' hg

/-! ## timer の状態の置き換え -/

omit [IsStrictOrderedRing α] in
/-- `ScalingMax` に無い timer が `j` の item を持たないので、`j` を置き換えても、その `ScalingMax` の
外の状態の間なら queue は変わらない。 -/
theorem Inv.setTimer_of_not_scalingMax (h : Inv s) {j : ι} (t' : RangeTimerImpl α)
    (hold : ∀ t d, s.timers j = some t → t.state ≠ .scalingMax d) (hnew : ∀ d, t'.state ≠ .scalingMax d)
    (hmin : (∃ sd, t'.state = .waitingForMin sd) ↔ t'.minDurationTimer.isSome)
    (hle : ∀ dl, t'.minDurationTimer = some dl → s.now ≤ dl) : Inv (s.setTimer j t') where
  nodup := h.nodup
  queue d q hq := (h.queue d q hq).frame rfl rfl rfl fun it hit =>
    setTimer_timers_of_ne _ _ (h.timer_ne_of_mem hq hit fun t ht => hold t d ht)
  nonempty := h.nonempty
  handle k tk d hk hstk := by
    by_cases hkj : k = j
    · subst hkj; simp at hk; subst hk; exact absurd hstk (hnew d)
    · rw [setTimer_timers_of_ne _ _ hkj] at hk; exact h.handle k tk d hk hstk
  minTimer k tk hk := by
    by_cases hkj : k = j
    · subst hkj; simp at hk; subst hk; exact hmin
    · rw [setTimer_timers_of_ne _ _ hkj] at hk; exact h.minTimer k tk hk
  minTimer_le k tk dl hk hdl := by
    by_cases hkj : k = j
    · subst hkj; simp at hk; subst hk; exact hle dl hdl
    · rw [setTimer_timers_of_ne _ _ hkj] at hk; exact h.minTimer_le k tk dl hk hdl
  context := h.context

omit [IsStrictOrderedRing α] in
theorem setTimer_pending_of_ne {j k : ι} (t' : RangeTimerImpl α) (hkj : k ≠ j) :
    (s.setTimer j t').pending k = s.pending k :=
  pending_congr (setTimer_timers_of_ne _ _ hkj) fun _ => rfl

/-! ## `disableTimer` -/

omit [IsStrictOrderedRing α] in
/-- `disableTimer`: `j` は `Inactive` になり、`min_duration_timer_` も外れる。他の timer とその約束は
変わらない。 -/
theorem disableTimer_inv (h : Inv s) {j : ι} {t : RangeTimerImpl α} (ht : s.timers j = some t) :
    ∃ s', s.disableTimer j = some s' ∧ Inv s' ∧
      s'.timers j = some { t with state := .inactive, minDurationTimer := none } ∧
      s'.now = s.now ∧ s'.context = s.context ∧ s'.scaleFactor = s.scaleFactor ∧
      (∀ k, k ≠ j → s'.timers k = s.timers k) ∧ ∀ k, k ≠ j → s'.pending k = s.pending k := by
  cases hst : t.state with
  | inactive =>
    have hnone := h.minDurationTimer_eq_none ht (by simp [hst])
    refine ⟨s, by simp [disableTimer, ht, hst], h, ?_, rfl, rfl, rfl, fun _ _ => rfl, fun _ _ => rfl⟩
    rw [ht]
    cases t
    simp_all
  | waitingForMin sd =>
    refine ⟨_, by simp [disableTimer, ht, hst],
      h.setTimer_of_not_scalingMax { t with state := .inactive, minDurationTimer := none } ?_ (by simp) (by simp)
        (by simp),
      by simp, rfl, rfl, rfl, fun k hk => setTimer_timers_of_ne _ _ hk, fun k hk => setTimer_pending_of_ne _ hk⟩
    intro t₀ d h₀
    rw [ht] at h₀; cases h₀; rw [hst]; exact nofun
  | scalingMax d =>
    have hnone := h.minDurationTimer_eq_none ht (by simp [hst])
    obtain ⟨s₁, hs₁, hinv, hnow, hctx, hsf, htimers, hitem⟩ := removeTimer_inv h ht hst
    refine ⟨s₁.setTimer j { t with state := .inactive }, by simp [disableTimer, ht, hst, hs₁], hinv,
      by simp [hnone], by simp [hnow], by simp [hctx], by simp [hsf], fun k hk => ?_, fun k hk => ?_⟩
    · rw [setTimer_timers_of_ne _ _ hk, htimers]
    · rw [setTimer_pending_of_ne _ hk]
      exact pending_congr (by rw [htimers]) (hitem k hk)

/-! ## item を一つ入れる -/

omit [IsStrictOrderedRing α] in
/-- `ScalingMax` の timer は、その item を持つ。 -/
theorem Inv.itemOf_ne_none (h : Inv s) {k : ι} {tk : RangeTimerImpl α} {d : α} (hk : s.timers k = some tk)
    (hst : tk.state = .scalingMax d) : s.itemOf d k ≠ none := by
  obtain ⟨q, hq, hlk⟩ := h.handle k tk d hk hst
  simpa [itemOf, hq] using hlk

omit [IsStrictOrderedRing α] in
/-- duration `d` の queue を、`j` の item を加えた `q'` に置き換え、`j` を `ScalingMax` にしても、
不変条件は保たれる。`q'` の性質と、`q'` で引いた item が元と `j` の item であることは、呼ぶ側が与える。 -/
theorem Inv.addItem (h : Inv s) {j : ι} {t : RangeTimerImpl α} {d : α} (ht : s.timers j = some t)
    (hst : ∀ d, t.state ≠ .scalingMax d) (hnone : t.minDurationTimer = none) (q' : Queue ι α)
    (hd : q'.duration = d) (hQ' : QueueInv ((s.putQueue q').setTimer j { t with state := .scalingMax d }) d q')
    (hne : q'.rangeTimers ≠ [])
    (hlookup : ∀ k, KeyedList.lookup Item.timer q'.rangeTimers k = if k = j then some ⟨j, s.now⟩ else s.itemOf d k) :
    Inv ((s.putQueue q').setTimer j { t with state := .scalingMax d }) := by
  have hother : ∀ k, k ≠ j → ((s.putQueue q').setTimer j { t with state := .scalingMax d }).timers k = s.timers k :=
    fun k hk => setTimer_timers_of_ne _ _ hk
  refine ⟨KeyedList.nodup_put h.nodup q', fun d'' q'' hq'' => ?_, fun d'' q'' hq'' => ?_,
    fun k tk d' hk hstk => ?_, fun k tk hk => ?_, fun k tk dl hk hdl => ?_, fun d' hd' => ?_⟩
  · simp only [findQueue_setTimer, findQueue_putQueue, hd] at hq''
    split_ifs at hq'' with hdd
    · cases hq''; subst hdd; exact hQ'
    · refine (h.queue d'' q'' hq'').frame rfl rfl rfl fun it hit => hother _ ?_
      exact h.timer_ne_of_mem hq'' hit fun t' ht' => by rw [ht] at ht'; cases ht'; exact hst d''
  · simp only [findQueue_setTimer, findQueue_putQueue, hd] at hq''
    split_ifs at hq'' with hdd
    · cases hq''; exact fun _ => hne
    · exact h.nonempty d'' q'' hq''
  · simp only [findQueue_setTimer, findQueue_putQueue, hd]
    by_cases hkj : k = j
    · subst hkj; simp at hk; subst hk; cases hstk
      exact ⟨q', by simp, by simp [hlookup]⟩
    · rw [hother k hkj] at hk
      split_ifs with hdd
      · subst hdd
        exact ⟨q', rfl, by rw [hlookup, if_neg hkj]; exact h.itemOf_ne_none hk hstk⟩
      · exact h.handle k tk d' hk hstk
  · by_cases hkj : k = j
    · subst hkj; simp at hk; subst hk; simp [hnone]
    · rw [hother k hkj] at hk; exact h.minTimer k tk hk
  · by_cases hkj : k = j
    · subst hkj; simp at hk; subst hk; simp [hnone] at hdl
    · rw [hother k hkj] at hk; exact h.minTimer_le k tk dl hk hdl
  · simp only [findQueue_setTimer, findQueue_putQueue, hd]
    split_ifs <;> simp [h.context d' hd']

omit [IsStrictOrderedRing α] in
/-- `activateTimer` が item を入れる queue: あればそれ、無ければ空の新しい queue。どちらも queue の性質を
持ち、その item は元の item である。 -/
theorem Inv.queueInv_getD (h : Inv s) (d : α) :
    let q₀ := (s.findQueue d).getD ⟨d, [], none, false⟩
    q₀.duration = d ∧ QueueInv s d q₀ ∧ ∀ k, s.itemOf d k = KeyedList.lookup Item.timer q₀.rangeTimers k := by
  cases hfind : s.findQueue d with
  | none =>
    have hctx : s.context ≠ .queueCallback d := fun e => by simpa [hfind] using h.context d e
    refine ⟨rfl, ⟨List.Pairwise.nil, by simp, List.nodup_nil, by simp, by simpa using hctx, by simp⟩,
      fun k => by simp [itemOf, hfind]⟩
  | some q => exact ⟨findQueue_duration hfind, h.queue d q hfind, fun k => by simp [itemOf, hfind]⟩

omit [IsStrictOrderedRing α] in
/-- `activateTimer`: `j` の item を今の時刻で queue の後ろに入れる。 -/
theorem activateTimer_inv (h : Inv s) {j : ι} {t : RangeTimerImpl α} (ht : s.timers j = some t)
    (hst : ∀ d, t.state ≠ .scalingMax d) (hnone : t.minDurationTimer = none) (d : α) :
    ∃ s', s.activateTimer d j = some s' ∧ Inv (s'.setTimer j { t with state := .scalingMax d }) ∧
      s'.now = s.now ∧ s'.context = s.context ∧ s'.scaleFactor = s.scaleFactor ∧ s'.timers = s.timers ∧
      s'.itemOf d j = some ⟨j, s.now⟩ ∧ ∀ k, k ≠ j → ∀ d', s'.itemOf d' k = s.itemOf d' k := by
  obtain ⟨hd₀, hQ₀, hlk₀⟩ := h.queueInv_getD d
  set q₀ := (s.findQueue d).getD ⟨d, [], none, false⟩
  -- 入れる前の queue に `j` の item は無い
  have hj₀ : ∀ it ∈ q₀.rangeTimers, it.timer ≠ j := by
    intro it hit e
    obtain ⟨t', ht', hst'⟩ := hQ₀.scalingMax it hit
    rw [e, ht] at ht'; cases ht'; exact hst d hst'
  let q₁ : Queue ι α := { q₀ with rangeTimers := q₀.rangeTimers ++ [⟨j, s.now⟩] }
  let q' : Queue ι α := if q₀.rangeTimers = [] then
      { q₁ with timer := some (max s.now (computeTriggerTime ⟨j, s.now⟩ d s.scaleFactor)) }
    else q₁
  have hq' : s.activateTimer d j = some (s.putQueue q') := by
    by_cases hnil : q₀.rangeTimers = []
    · have hlen : q₁.rangeTimers.length = 1 := by simp [q₁, hnil]
      have hcons : q₁.rangeTimers = ⟨j, s.now⟩ :: [] := by simp [q₁, hnil]
      show (if q₁.rangeTimers.length = 1 then (resetQueueTimer s.scaleFactor q₁ s.now).map s.putQueue
        else some (s.putQueue q₁)) = _
      rw [if_pos hlen, resetQueueTimer_of_cons hcons]
      simp [q', hnil, q₁, hd₀]
    · have hlen : (q₀.rangeTimers ++ [(⟨j, s.now⟩ : Item ι α)]).length ≠ 1 := by
        simpa using hnil
      simp only [activateTimer, q', hnil, if_false]
      rw [if_neg hlen]
  have hitems : q'.rangeTimers = q₀.rangeTimers ++ [⟨j, s.now⟩] := by
    simp only [q']; split_ifs <;> rfl
  have hd' : q'.duration = d := by simp only [q']; split_ifs <;> exact hd₀
  have hlookup : ∀ k, KeyedList.lookup Item.timer q'.rangeTimers k =
      if k = j then some ⟨j, s.now⟩ else s.itemOf d k := by
    intro k
    rw [hitems, KeyedList.lookup_append_singleton, hlk₀]
    by_cases hkj : k = j
    · subst hkj
      rw [KeyedList.lookup_eq_none.mpr hj₀]
      simp
    · simp [hkj, Ne.symm hkj]
  have hproc' : q'.processingTimers = q₀.processingTimers := by simp only [q']; split_ifs <;> rfl
  -- 新しい queue の性質
  have hQ' : QueueInv ((s.putQueue q').setTimer j { t with state := .scalingMax d }) d q' := by
    refine ⟨?_, ?_, ?_, ?_, ?_, ?_⟩
    · rw [hitems]
      refine List.pairwise_append.mpr ⟨hQ₀.sorted, List.pairwise_singleton _ _, ?_⟩
      intro a ha b hb
      rw [List.mem_singleton] at hb; subst hb
      exact hQ₀.activeTime_le a ha
    · intro it hit
      rw [hitems, List.mem_append, List.mem_singleton] at hit
      rcases hit with hit | rfl
      · simpa using hQ₀.activeTime_le it hit
      · simp
    · rw [hitems, List.map_append]
      refine List.nodup_append.mpr ⟨hQ₀.nodup, List.nodup_singleton _, ?_⟩
      intro a ha b hb
      simp only [List.map_cons, List.map_nil, List.mem_singleton] at hb
      subst hb
      obtain ⟨it, hit, rfl⟩ := List.mem_map.mp ha
      exact hj₀ it hit
    · intro it hit
      rw [hitems, List.mem_append, List.mem_singleton] at hit
      rcases hit with hit | rfl
      · rw [setTimer_timers_of_ne _ _ (hj₀ it hit)]
        exact hQ₀.scalingMax it hit
      · exact ⟨{ t with state := .scalingMax d }, by simp, rfl⟩
    · simpa [hproc'] using hQ₀.processing
    · intro hp front rest hfr
      have hp₀ : q₀.processingTimers = false := hproc' ▸ hp
      by_cases hnil : q₀.rangeTimers = []
      · -- 一つ目の item: `timer_` をそれに合わせた
        rw [hitems, hnil] at hfr
        obtain ⟨rfl, -⟩ := List.cons_eq_cons.mp hfr
        refine ⟨max s.now (computeTriggerTime ⟨j, s.now⟩ d s.scaleFactor), by simp [q', hnil], by simp, by simp⟩
      · -- 先頭は元の queue の先頭
        obtain ⟨g, r, hg⟩ := List.exists_cons_of_ne_nil hnil
        rw [hitems, hg, List.cons_append] at hfr
        obtain ⟨rfl, -⟩ := List.cons_eq_cons.mp hfr
        obtain ⟨D, hD, hnow, hDle⟩ := hQ₀.armed hp₀ _ r hg
        exact ⟨D, by simp [q', hnil, q₁, hD], by simpa using hnow, by simpa using hDle⟩
  refine ⟨s.putQueue q', hq', h.addItem ht hst hnone q' hd' hQ' (by simp [hitems]) hlookup, rfl, rfl, rfl, rfl,
    ?_, fun k hkj d'' => ?_⟩
  · rw [itemOf_putQueue, if_pos hd', hlookup, if_pos rfl]
  · rw [itemOf_putQueue]
    split_ifs with hdd
    · subst hdd; rw [hlookup, if_neg hkj, hd']
    · rfl

/-! ## `enableTimer` -/

omit [IsStrictOrderedRing α] in
/-- `enableTimer` の後の timer は、元の `ScaledTimerMinimum` を持つ。 -/
theorem minimum_setTimer {j : ι} (t' : RangeTimerImpl α) {t : RangeTimerImpl α}
    (ht : s.timers j = some t) (hmin : t'.minimum = t.minimum) (k : ι) :
    ((s.setTimer j t').timers k).map (·.minimum) = (s.timers k).map (·.minimum) := by
  by_cases hkj : k = j
  · subst hkj; simp [ht, hmin]
  · rw [setTimer_timers_of_ne _ _ hkj]

/-- `enableTimer(max_ms)`: `j` の約束は `ofEnable` になり、他の timer の約束は変わらない。 -/
theorem enableTimer_inv (h : Inv s) {j : ι} {t : RangeTimerImpl α} (ht : s.timers j = some t) (maxMs : α) :
    ∃ s', s.enableTimer j maxMs = some s' ∧ Inv s' ∧ s'.now = s.now ∧ s'.context = s.context ∧
      s'.scaleFactor = s.scaleFactor ∧ (∀ k, (s'.timers k).map (·.minimum) = (s.timers k).map (·.minimum)) ∧
      s'.pending j = some (ScaledDeadline.ofEnable t.minimum s.now maxMs) ∧
      ∀ k, k ≠ j → s'.pending k = s.pending k := by
  obtain ⟨s₁, hs₁, h₁, ht₁, hnow, hctx, hsf, htimers, hpend⟩ := disableTimer_inv h ht
  set t₁ : RangeTimerImpl α := { t with state := .inactive, minDurationTimer := none }
  have hmin₁ : ∀ k, (s₁.timers k).map (·.minimum) = (s.timers k).map (·.minimum) := by
    intro k
    by_cases hkj : k = j
    · subst hkj; simp [ht₁, ht, t₁]
    · rw [htimers k hkj]
  set minMs := min (t.minimum.computeMinimum maxMs) maxMs with hminMs
  have hle : minMs ≤ maxMs := min_le_right _ _
  let t₂ : RangeTimerImpl α :=
    { t₁ with state := .waitingForMin (maxMs - minMs), minDurationTimer := dispatcherEnableTimer s₁.now (min maxMs minMs) }
  have hunfold : s.enableTimer j maxMs =
      if minMs ≤ 0 then (s₁.activateTimer maxMs j).map (·.setTimer j { t₁ with state := .scalingMax maxMs })
      else some (s₁.setTimer j t₂) := by
    simp [enableTimer, hs₁, ht₁, t₁, t₂, hminMs]
  by_cases hpos : minMs ≤ 0
  · -- すぐに `ScalingMax` へ: 約束は今から `max_ms`
    obtain ⟨s₂, hs₂, h₂, hnow₂, hctx₂, hsf₂, htimers₂, hitem₂, hother₂⟩ :=
      activateTimer_inv h₁ ht₁ (fun d => by simp [t₁]) rfl maxMs
    refine ⟨_, by rw [hunfold, if_pos hpos, hs₂]; rfl, h₂, by simp [hnow₂, hnow], by simp [hctx₂, hctx],
      by simp [hsf₂, hsf], fun k => ?_, ?_, fun k hk => ?_⟩
    · rw [minimum_setTimer (s := s₂) { t₁ with state := .scalingMax maxMs } (t := t₁) (by rw [htimers₂]; exact ht₁) rfl,
        htimers₂, hmin₁]
    · have hzero : max 0 minMs = 0 := max_eq_left hpos
      simp [pending, hitem₂, ScaledDeadline.ofEnable, ← hminMs, hzero, hnow]
    · rw [setTimer_pending_of_ne _ hk, pending_congr (by rw [htimers₂]) (hother₂ k hk), hpend k hk]
  · -- `min_duration_timer_` を `min_ms` 後に合わせて `WaitingForMin` へ
    have hlt : 0 < minMs := lt_of_not_ge hpos
    have hminEq : min maxMs minMs = minMs := min_eq_right hle
    have ht₂ : t₂ = { t₁ with state := .waitingForMin (maxMs - minMs), minDurationTimer := some (s.now + minMs) } := by
      simp [t₂, dispatcherEnableTimer, hminEq, hnow]
    refine ⟨_, by rw [hunfold, if_neg hpos], ?_, by simp [hnow], by simp [hctx], by simp [hsf],
      fun k => ?_, ?_, fun k hk => ?_⟩
    · refine h₁.setTimer_of_not_scalingMax _ (fun t' d ht' => ?_) (by simp [ht₂]) (by simp [ht₂])
        (fun dl hdl => ?_)
      · rw [ht₁] at ht'; cases ht'; exact nofun
      · rw [ht₂, Option.some.injEq] at hdl
        rw [← hdl, hnow]
        exact le_add_of_nonneg_right hlt.le
    · rw [minimum_setTimer t₂ ht₁ rfl, hmin₁]
    · have hmax : max 0 minMs = minMs := max_eq_right hlt.le
      simp [pending, ht₂, ScaledDeadline.ofEnable, ← hminMs, hmax]
    · rw [setTimer_pending_of_ne _ hk, hpend k hk]

/-! ## `~RangeTimerImpl()` -/

omit [IsStrictOrderedRing α] in
/-- `Inactive` で `min_duration_timer_` も無い timer は、どの queue にも item を持たないので、消しても
不変条件は保たれる。 -/
theorem Inv.eraseTimer (h : Inv s) {j : ι} {t : RangeTimerImpl α} (ht : s.timers j = some t)
    (hst : t.state = .inactive) : Inv { s with timers := Function.update s.timers j none } where
  nodup := h.nodup
  queue d q hq := (h.queue d q hq).frame rfl rfl rfl fun it hit => by
    have hne : it.timer ≠ j := h.timer_ne_of_mem hq hit fun t' ht' => by
      rw [ht] at ht'; cases ht'; rw [hst]; exact nofun
    simp [Function.update_of_ne hne]
  nonempty := h.nonempty
  handle k tk d hk hstk := by
    by_cases hkj : k = j
    · subst hkj; simp at hk
    · simp only [Function.update_of_ne hkj] at hk; exact h.handle k tk d hk hstk
  minTimer k tk hk := by
    by_cases hkj : k = j
    · subst hkj; simp at hk
    · simp only [Function.update_of_ne hkj] at hk; exact h.minTimer k tk hk
  minTimer_le k tk dl hk hdl := by
    by_cases hkj : k = j
    · subst hkj; simp at hk
    · simp only [Function.update_of_ne hkj] at hk; exact h.minTimer_le k tk dl hk hdl
  context := h.context

omit [IsStrictOrderedRing α] in
/-- timer を壊すと、その約束も `ScaledTimerMinimum` も無くなる。他の timer は変わらない。 -/
theorem destroyTimer_inv (h : Inv s) {j : ι} {t : RangeTimerImpl α} (ht : s.timers j = some t) :
    ∃ s', s.destroyTimer j = some s' ∧ Inv s' ∧ s'.now = s.now ∧ s'.context = s.context ∧
      s'.scaleFactor = s.scaleFactor ∧ s'.timers j = none ∧ (∀ k, k ≠ j → s'.timers k = s.timers k) ∧
      ∀ k, k ≠ j → s'.pending k = s.pending k := by
  obtain ⟨s₁, hs₁, h₁, ht₁, hnow, hctx, hsf, htimers, hpend⟩ := disableTimer_inv h ht
  refine ⟨_, by simp [destroyTimer, hs₁], h₁.eraseTimer ht₁ rfl, hnow, hctx, hsf, by simp,
    fun k hk => by simp [Function.update_of_ne hk, htimers k hk], fun k hk => ?_⟩
  rw [← hpend k hk]
  exact pending_congr (by simp [Function.update_of_ne hk]) fun _ => rfl

/-! ## queue の置き換え -/

section ReplaceQueue

variable {d : α} {q : Queue ι α}

omit [IsStrictOrderedRing α] in
/-- duration `d` の queue を、同じ item の `q'` に置き換え、文脈を `c` にしても、不変条件は保たれる。
`c` は `d` の外の queue について元の文脈と同じ処理の途中を言い、`q'` の `processing_timers_` と
`timer_` の条件は呼ぶ側が与える。 -/
theorem Inv.replaceQueue (h : Inv s) (hq : s.findQueue d = some q) (q' : Queue ι α) (hd : q'.duration = d)
    (hitems : q'.rangeTimers = q.rangeTimers) (c : Context α)
    (hc : ∀ d', d' ≠ d → (c = .queueCallback d' ↔ s.context = .queueCallback d'))
    (hproc : q'.processingTimers = true ↔ c = .queueCallback d)
    (hne : q'.processingTimers = false → q'.rangeTimers ≠ [])
    (harmed : q'.processingTimers = false → ∀ front rest, q'.rangeTimers = front :: rest →
      ∃ D, q'.timer = some D ∧ s.now ≤ D ∧ D ≤ max s.now (computeTriggerTime front d s.scaleFactor)) :
    Inv { s.putQueue q' with context := c } := by
  have hQ := h.queue d q hq
  have hfind : ∀ d', ({ s.putQueue q' with context := c } : TimerSystem ι α).findQueue d' =
      if d = d' then some q' else s.findQueue d' := fun d' => by
    rw [← hd]; exact findQueue_putQueue s q' d'
  refine ⟨KeyedList.nodup_put h.nodup q', fun d'' q'' hq'' => ?_, fun d'' q'' hq'' => ?_,
    fun k tk d' hk hstk => ?_, h.minTimer, h.minTimer_le, fun d' hd' => ?_⟩
  · rw [hfind] at hq''
    split_ifs at hq'' with hdd
    · cases hq''; subst hdd
      exact ⟨hitems ▸ hQ.sorted, hitems ▸ hQ.activeTime_le, hitems ▸ hQ.nodup, hitems ▸ hQ.scalingMax,
        hproc, harmed⟩
    · -- 他の queue: 文脈の違いは、その queue の処理の途中に関わらない
      have hQ'' := h.queue d'' q'' hq''
      exact ⟨hQ''.sorted, hQ''.activeTime_le, hQ''.nodup, hQ''.scalingMax,
        hQ''.processing.trans (hc d'' (Ne.symm hdd)).symm, hQ''.armed⟩
  · rw [hfind] at hq''
    split_ifs at hq'' with hdd
    · cases hq''; exact hne
    · exact h.nonempty d'' q'' hq''
  · obtain ⟨q₀, hq₀, hlk⟩ := h.handle k tk d' hk hstk
    rw [hfind]
    split_ifs with hdd
    · subst hdd; rw [hq] at hq₀; cases hq₀
      exact ⟨q', rfl, hitems ▸ hlk⟩
    · exact ⟨q₀, hq₀, hlk⟩
  · rw [hfind]
    split_ifs with hdd
    · rfl
    · exact h.context d' ((hc d' (Ne.symm hdd)).mp hd')

omit [IsStrictOrderedRing α] in
/-- 空になった queue を消し、文脈を `c` にしても、不変条件は保たれる。 -/
theorem Inv.eraseEmptyQueue (h : Inv s) (hq : s.findQueue d = some q) (hempty : q.rangeTimers = [])
    (c : Context α) (hc : ∀ d', d' ≠ d → (c = .queueCallback d' ↔ s.context = .queueCallback d'))
    (hcd : c ≠ .queueCallback d) : Inv { s.eraseQueue d with context := c } := by
  have hfind : ∀ d', ({ s.eraseQueue d with context := c } : TimerSystem ι α).findQueue d' =
      if d = d' then none else s.findQueue d' := findQueue_eraseQueue s d
  refine ⟨KeyedList.nodup_erase h.nodup d, fun d'' q'' hq'' => ?_, fun d'' q'' hq'' => ?_,
    fun k tk d' hk hstk => ?_, h.minTimer, h.minTimer_le, fun d' hd' => ?_⟩
  · rw [hfind] at hq''
    split_ifs at hq'' with hdd
    have hQ'' := h.queue d'' q'' hq''
    exact ⟨hQ''.sorted, hQ''.activeTime_le, hQ''.nodup, hQ''.scalingMax,
      hQ''.processing.trans (hc d'' (Ne.symm hdd)).symm, hQ''.armed⟩
  · rw [hfind] at hq''
    split_ifs at hq'' with hdd
    exact h.nonempty d'' q'' hq''
  · obtain ⟨q₀, hq₀, hlk⟩ := h.handle k tk d' hk hstk
    rw [hfind]
    split_ifs with hdd
    · -- 消した queue は空だった
      subst hdd; rw [hq] at hq₀; cases hq₀
      simp [hempty] at hlk
    · exact ⟨q₀, hq₀, hlk⟩
  · rw [hfind]
    split_ifs with hdd
    · subst hdd; exact absurd hd' hcd
    · exact h.context d' ((hc d' (Ne.symm hdd)).mp hd')

omit [IsStrictOrderedRing α] in
theorem itemOf_replaceQueue (hq : s.findQueue d = some q) (q' : Queue ι α) (hd : q'.duration = d)
    (hitems : q'.rangeTimers = q.rangeTimers) (d' : α) (k : ι) : (s.putQueue q').itemOf d' k = s.itemOf d' k := by
  rw [itemOf_putQueue, hd]
  split_ifs with hdd
  · subst hdd; simp [itemOf, hq, hitems]
  · rfl

omit [IsStrictOrderedRing α] in
theorem itemOf_eraseEmptyQueue (hq : s.findQueue d = some q) (hempty : q.rangeTimers = []) (d' : α) (k : ι) :
    (s.eraseQueue d).itemOf d' k = s.itemOf d' k := by
  rw [itemOf_eraseQueue]
  split_ifs with hdd
  · subst hdd; simp [itemOf, hq, hempty]
  · rfl

end ReplaceQueue

/-! ## `onQueueTimerFired` の loop -/

section Processing

variable {d : α} {q : Queue ι α}

omit [DecidableEq ι] [IsStrictOrderedRing α] in
/-- 同じ duration の queue を二度置けば、後の一つを置いたのと同じ。 -/
theorem putQueue_putQueue (s : TimerSystem ι α) {q₁ q₂ : Queue ι α} (h : q₁.duration = q₂.duration) :
    (s.putQueue q₁).putQueue q₂ = s.putQueue q₂ := by
  simp only [putQueue, List.filter_append, List.filter_filter, h]
  simp [h]

omit [IsStrictOrderedRing α] in
/-- loop を抜ける: 空なら queue を消し、そうでなければ先頭の時刻に `timer_` を合わせる。外へ戻った
状態で不変条件が保たれ、約束は変わらない。 -/
theorem finishProcessing_inv (h : Inv { s with context := .queueCallback d }) (hq : s.findQueue d = some q) :
    ∃ s', s.finishProcessing q = some s' ∧ Inv { s' with context := .idle } ∧ s'.now = s.now ∧
      s'.scaleFactor = s.scaleFactor ∧ s'.timers = s.timers ∧ ∀ d' k, s'.itemOf d' k = s.itemOf d' k := by
  have hd := findQueue_duration hq
  -- 外へ戻っても、`d` の外の queue の処理の途中は変わらない
  have hc : ∀ d', d' ≠ d → ((.idle : Context α) = .queueCallback d' ↔
      ({ s with context := .queueCallback d } : TimerSystem ι α).context = .queueCallback d') := by
    intro d' hd'
    simp only [reduceCtorEq, false_iff, Context.queueCallback.injEq]
    exact Ne.symm hd'
  cases hitems : q.rangeTimers with
  | nil =>
    refine ⟨s.eraseQueue d, by simp [finishProcessing, hitems, hd], ?_, rfl, rfl, rfl,
      fun d' k => itemOf_eraseEmptyQueue hq hitems d' k⟩
    exact h.eraseEmptyQueue hq hitems .idle hc (by simp)
  | cons front rest =>
    let q' : Queue ι α :=
      { q with processingTimers := false, timer := some (max s.now (computeTriggerTime front d s.scaleFactor)) }
    have hreset : resetQueueTimer s.scaleFactor { q with processingTimers := false } s.now = some q' := by
      rw [resetQueueTimer_of_cons (show ({ q with processingTimers := false } : Queue ι α).rangeTimers = _ from hitems)]
      simp [q', hd]
    have hfin : s.finishProcessing q = some (s.putQueue q') := by
      simp only [finishProcessing]
      rw [if_neg (by simp [hitems]), hreset]
      rfl
    refine ⟨s.putQueue q', hfin, ?_, rfl, rfl, rfl,
      fun d' k => itemOf_replaceQueue hq q' hd rfl d' k⟩
    refine h.replaceQueue hq q' hd rfl .idle hc (by simp [q']) (by simp [q', hitems]) ?_
    intro _ f r hfr
    rw [hitems] at hfr
    obtain ⟨rfl, -⟩ := List.cons_eq_cons.mp hfr
    exact ⟨_, rfl, le_max_left _ _, le_rfl⟩

omit [IsStrictOrderedRing α] in
/-- loop の一回。先頭の時刻が過ぎていれば、その timer の約束は時刻を過ぎており、取り出して
`trigger()` すると約束が消え、callback の中へ入る。そうでなければ外へ戻る。どちらでも不変条件が
保たれ、他の約束は変わらない。 -/
theorem processQueue_spec (h : Inv { s with context := .queueCallback d }) :
    ∃ r, s.processQueue d = some r ∧ r.1.now = s.now ∧ r.1.scaleFactor = s.scaleFactor ∧
      (∀ k, (r.1.timers k).map (·.minimum) = (s.timers k).map (·.minimum)) ∧
      ((∃ j, r.2 = some j ∧ Inv { r.1 with context := .queueCallback d } ∧
          (∃ p, s.pending j = some p ∧ p.Due s.scaleFactor.value s.now) ∧ r.1.pending j = none ∧
          ∀ k, k ≠ j → r.1.pending k = s.pending k) ∨
        (r.2 = none ∧ Inv { r.1 with context := .idle } ∧ ∀ k, r.1.pending k = s.pending k)) := by
  obtain ⟨q, hq⟩ := Option.isSome_iff_exists.mp (h.context d rfl)
  have hQ := h.queue d q hq
  have hd := findQueue_duration hq
  -- loop を抜ける場合
  have hexit : ∃ s', s.finishProcessing q = some s' ∧ Inv { s' with context := .idle } ∧ s'.now = s.now ∧
      s'.scaleFactor = s.scaleFactor ∧ s'.timers = s.timers ∧ ∀ k, s'.pending k = s.pending k := by
    obtain ⟨s', hs', h', hnow, hsf, htimers, hitem⟩ := finishProcessing_inv h hq
    exact ⟨s', hs', h', hnow, hsf, htimers, fun k => pending_congr (by rw [htimers]) fun d' => hitem d' k⟩
  have hq' : s.findQueue d = some q := hq
  cases hitems : q.rangeTimers with
  | nil =>
    obtain ⟨s', hs', h', hnow, hsf, htimers, hpend⟩ := hexit
    have hrun : s.processQueue d = (s.finishProcessing q).map (·, none) := by
      simp only [processQueue, hq', hitems]
    refine ⟨(s', none), by simp [hrun, hs'], hnow, hsf, by simp [htimers], .inr ⟨rfl, h', hpend⟩⟩
  | cons item rest =>
    have hrun : s.processQueue d =
        if computeTriggerTime item q.duration s.scaleFactor ≤ s.now then
          ((s.putQueue { q with rangeTimers := rest }).trigger item.timer).map (·, some item.timer)
        else (s.finishProcessing q).map (·, none) := by
      simp only [processQueue, hq', hitems]
    by_cases hdue : computeTriggerTime item q.duration s.scaleFactor ≤ s.now
    · -- 先頭を取り出して `trigger()` する
      obtain ⟨t, ht, hst⟩ := hQ.scalingMax item (by simp [hitems])
      let q' : Queue ι α := { q with rangeTimers := rest }
      have hrest : q'.rangeTimers = KeyedList.erase Item.timer q.rangeTimers item.timer := by
        rw [hitems, KeyedList.erase_cons_self (hitems ▸ hQ.nodup)]
      have hproc : q.processingTimers = true := hQ.processing.mpr rfl
      have htrig : (s.putQueue q').trigger item.timer =
          some ((s.putQueue q').setTimer item.timer { t with state := .inactive }) := by
        have hne : t.state ≠ .inactive := by rw [hst]; exact nofun
        simp [trigger, show s.timers item.timer = some t from ht, hne]
      have h' := h.removeItem hq ht hst q' hd hrest rfl (by simp [q', hproc]) (by simp [q', hproc])
      refine ⟨_, by rw [hrun, if_pos hdue, htrig]; rfl, rfl, rfl,
        minimum_setTimer (s := s.putQueue q') { t with state := .inactive } (t := t) ht rfl, .inl ⟨item.timer, rfl, h', ?_, ?_, fun k hk => ?_⟩⟩
      · -- 約束は `active_time_` から duration で、時刻を過ぎている
        have hlk : s.itemOf d item.timer = some item := by
          simp [itemOf, hq', hitems, KeyedList.lookup_cons]
        refine ⟨⟨item.activeTime, d⟩, by simp [pending, show s.timers item.timer = some t from ht, hst, hlk], ?_, ?_⟩
        · exact hQ.activeTime_le item (by simp [hitems])
        · simpa [computeTriggerTime, hd] using hdue
      · simp [pending]
      · rw [setTimer_pending_of_ne _ hk]
        exact pending_congr rfl fun d' => itemOf_removeItem hq q' hd hrest hk d'
    · obtain ⟨s', hs', h', hnow, hsf, htimers, hpend⟩ := hexit
      refine ⟨(s', none), by rw [hrun, if_neg hdue]; simp [hs'], hnow, hsf, by simp [htimers],
        .inr ⟨rfl, h', hpend⟩⟩

end Processing

/-! ## `setScaleFactor` -/

omit [DecidableEq ι] [IsStrictOrderedRing α] in
/-- `resetQueueTimer` の結果: item も処理の途中も元のまま、`timer_` だけが先頭に合う。 -/
theorem resetQueueTimer_eq_some {scaleFactor : UnitFloat α} {queue queue' : Queue ι α} {now : α}
    (h : resetQueueTimer scaleFactor queue now = some queue') :
    ∃ front rest, queue.rangeTimers = front :: rest ∧
      queue' = { queue with timer := some (max now (computeTriggerTime front queue.duration scaleFactor)) } := by
  have hne : queue.rangeTimers ≠ [] := fun he => by rw [resetQueueTimer_eq_none.mpr he] at h; cases h
  obtain ⟨front, rest, hq⟩ := List.exists_cons_of_ne_nil hne
  rw [resetQueueTimer_of_cons hq] at h
  exact ⟨front, rest, hq, (Option.some.inj h).symm⟩

omit [IsStrictOrderedRing α] in
/-- `setScaleFactor`: どの queue も空でなければ、全ての `timer_` を新しい scale factor で先頭に合わせ
直す。不変条件は保たれ、約束は変わらない。 -/
theorem setScaleFactor_inv (h : Inv s) (hne : ∀ q ∈ s.queues, q.rangeTimers ≠ []) (scaleFactor : UnitFloat α) :
    ∃ s', s.setScaleFactor scaleFactor = some s' ∧ Inv s' ∧ s'.now = s.now ∧ s'.context = s.context ∧
      s'.scaleFactor = scaleFactor ∧ s'.timers = s.timers ∧ ∀ k, s'.pending k = s.pending k := by
  have hkey : ∀ q q' : Queue ι α, resetQueueTimer scaleFactor q s.now = some q' → q'.duration = q.duration :=
    fun _ _ hr => resetQueueTimer_duration hr
  have hreset : ∀ q ∈ s.queues, ∃ q', resetQueueTimer scaleFactor q s.now = some q' := fun q hq =>
    Option.ne_none_iff_exists'.mp fun hr => hne q hq (resetQueueTimer_eq_none.mp hr)
  obtain ⟨queues, hqs⟩ : ∃ queues, s.queues.mapM (fun q => resetQueueTimer scaleFactor q s.now) = some queues := by
    refine Option.ne_none_iff_exists'.mp fun hnone => ?_
    obtain ⟨q, hq, hr⟩ := KeyedList.mapM_eq_none.mp hnone
    exact hne q hq (resetQueueTimer_eq_none.mp hr)
  let s' : TimerSystem ι α := { s with scaleFactor := scaleFactor, queues := queues }
  -- 新しい queue は、元の queue を合わせ直したもの
  have hfind : ∀ d, s'.findQueue d = (s.findQueue d).bind fun q => resetQueueTimer scaleFactor q s.now :=
    KeyedList.lookup_of_mapM hkey hqs
  have hfind' : ∀ d q', s'.findQueue d = some q' → ∃ q, s.findQueue d = some q ∧ ∃ front rest,
      q.rangeTimers = front :: rest ∧
        q' = { q with timer := some (max s.now (computeTriggerTime front q.duration scaleFactor)) } := by
    intro d q' hq'
    rw [hfind, Option.bind_eq_some_iff] at hq'
    obtain ⟨q, hq, hr⟩ := hq'
    exact ⟨q, hq, resetQueueTimer_eq_some hr⟩
  have hsome : ∀ d q, s.findQueue d = some q → ∃ q', s'.findQueue d = some q' ∧ q'.rangeTimers = q.rangeTimers := by
    intro d q hq
    obtain ⟨q', hr⟩ := hreset q (KeyedList.mem_of_lookup hq)
    obtain ⟨front, rest, -, hq'⟩ := resetQueueTimer_eq_some hr
    exact ⟨q', by rw [hfind, hq, Option.bind_some, hr], by rw [hq']⟩
  have hitem : ∀ d k, s'.itemOf d k = s.itemOf d k := by
    intro d k
    cases hq : s.findQueue d with
    | none => simp only [itemOf, hfind, hq, Option.bind_none]
    | some q =>
      obtain ⟨q', hq', hitems⟩ := hsome d q hq
      simp only [itemOf, hq', hq, Option.bind_some, hitems]
  refine ⟨s', by simp [setScaleFactor, hqs, s'], ⟨?_, fun d q' hq' => ?_, fun d q' hq' => ?_,
    fun k tk d hk hstk => ?_, h.minTimer, h.minTimer_le, fun d hd => ?_⟩, rfl, rfl, rfl, rfl,
    fun k => pending_congr rfl fun d => hitem d k⟩
  · show (queues.map (·.duration)).Nodup
    rw [KeyedList.map_key_of_mapM hkey hqs]
    exact h.nodup
  · obtain ⟨q, hq, front, rest, hfr, rfl⟩ := hfind' d q' hq'
    have hQ := h.queue d q hq
    refine ⟨hQ.sorted, hQ.activeTime_le, hQ.nodup, hQ.scalingMax, hQ.processing, fun _ f r hf => ?_⟩
    rw [hfr] at hf
    obtain ⟨rfl, -⟩ := List.cons_eq_cons.mp hf
    exact ⟨_, rfl, le_max_left _ _, by rw [findQueue_duration hq]⟩
  · obtain ⟨q, hq, front, rest, hfr, rfl⟩ := hfind' d q' hq'
    exact fun _ => by simp [hfr]
  · obtain ⟨q, hq, hlk⟩ := h.handle k tk d hk hstk
    obtain ⟨q', hq', hitems⟩ := hsome d q hq
    exact ⟨q', hq', hitems ▸ hlk⟩
  · obtain ⟨q, hq⟩ := Option.isSome_iff_exists.mp (h.context d hd)
    obtain ⟨q', hq', -⟩ := hsome d q hq
    simp [hq']

/-! ## `min_duration_timer_` が鳴る -/

section MinTimer

variable {i : ι} {t : RangeTimerImpl α}

omit [IsStrictOrderedRing α] in
theorem setTimer_setTimer (s : TimerSystem ι α) (i : ι) (x y : RangeTimerImpl α) :
    (s.setTimer i x).setTimer i y = s.setTimer i y := by
  simp [setTimer]

omit [IsStrictOrderedRing α] in
/-- `activateTimer` は timer を読まないので、timer の置き換えと入れ替えられる。 -/
theorem activateTimer_setTimer (s : TimerSystem ι α) (j : ι) (x : RangeTimerImpl α) (d : α) (i : ι) :
    (s.setTimer j x).activateTimer d i = (s.activateTimer d i).map (·.setTimer j x) := by
  unfold activateTimer
  dsimp only
  -- 両辺の `if` は同じ条件を読む
  split
  · split
    · simp only [Option.map_map]
      rfl
    · rename_i h₁ h₂; exact absurd h₁ h₂
  · split
    · rename_i h₁ h₂; exact absurd h₂ h₁
    · rfl

omit [IsStrictOrderedRing α] in
/-- どの queue の処理の途中でもない文脈どうしなら、文脈を替えても不変条件は保たれる。 -/
theorem Inv.withContext (h : Inv s) (c : Context α) (hc : ∀ d, c = .queueCallback d ↔ s.context = .queueCallback d) :
    Inv { s with context := c } where
  nodup := h.nodup
  queue d q hq := by
    have hQ := h.queue d q hq
    exact ⟨hQ.sorted, hQ.activeTime_le, hQ.nodup, hQ.scalingMax, hQ.processing.trans (hc d).symm, hQ.armed⟩
  nonempty := h.nonempty
  handle := h.handle
  minTimer := h.minTimer
  minTimer_le := h.minTimer_le
  context d hd := h.context d ((hc d).mp hd)

omit [IsStrictOrderedRing α] in
/-- 今鳴った `min_duration_timer_` の timer は `WaitingForMin` にあり、約束は今から `scalable_duration_`。
残りが負なら `trigger()` して callback の中へ入り、約束が消える。そうでなければ今の時刻で queue に入り、
約束は変わらない。 -/
theorem fireMinTimer_spec (h : Inv s) (hctx : s.context = .idle) (ht : s.timers i = some t)
    (hdl : t.minDurationTimer = some s.now) :
    ∃ sd, s.pending i = some ⟨s.now, sd⟩ ∧ ∃ s' b, (s.disarmMinTimer i).onMinTimerComplete i = some (s', b) ∧
      s'.now = s.now ∧ s'.scaleFactor = s.scaleFactor ∧
      (∀ k, (s'.timers k).map (·.minimum) = (s.timers k).map (·.minimum)) ∧
      (∀ k, k ≠ i → s'.pending k = s.pending k) ∧
      (b = true → sd < 0 ∧ Inv { s' with context := .minTimerCallback } ∧ s'.pending i = none) ∧
      (b = false → Inv s' ∧ s'.pending i = s.pending i) := by
  obtain ⟨sd, hst⟩ := (h.minTimer i t ht).mpr (by simp [hdl])
  set t₀ : RangeTimerImpl α := { t with state := .inactive, minDurationTimer := none } with ht₀
  have h₀ : Inv (s.setTimer i t₀) := by
    refine h.setTimer_of_not_scalingMax t₀ (fun t' d ht' => ?_) (by simp [t₀]) (by simp [t₀]) (by simp [t₀])
    rw [ht] at ht'; cases ht'; rw [hst]; exact nofun
  have hdisarm : s.disarmMinTimer i = s.setTimer i { t with minDurationTimer := none } := by
    simp [disarmMinTimer, ht]
  have hmin₀ : ∀ x : RangeTimerImpl α, x.minimum = t.minimum → ∀ k,
      ((s.setTimer i x).timers k).map (·.minimum) = (s.timers k).map (·.minimum) :=
    fun x hx k => minimum_setTimer x ht hx k
  refine ⟨sd, by simp [pending, ht, hst, hdl], ?_⟩
  by_cases hneg : sd < 0
  · -- 残りが負: すぐに `trigger()`
    refine ⟨s.setTimer i t₀, true, ?_, rfl, rfl, hmin₀ t₀ rfl, fun k hk => setTimer_pending_of_ne _ hk,
      fun _ => ⟨hneg, h₀.withContext _ (by simp [hctx]), by simp [pending, t₀]⟩, nofun⟩
    simp [onMinTimerComplete, hdisarm, hst, hneg, trigger, setTimer_setTimer, t₀]
  · -- 残りの時間の queue に、今の時刻で入る
    obtain ⟨s₂, hs₂, h₂, hnow₂, hctx₂, hsf₂, htimers₂, hitem₂, hother₂⟩ :=
      activateTimer_inv h₀ (setTimer_timers_self s i t₀) (fun d => by rw [ht₀]; exact nofun) rfl sd
    have hrun : (s.disarmMinTimer i).onMinTimerComplete i =
        some (s₂.setTimer i { t₀ with state := .scalingMax sd }, false) := by
      have hact : ∀ st, (s.setTimer i { t with state := st, minDurationTimer := none }).activateTimer sd i =
          some (s₂.setTimer i { t with state := st, minDurationTimer := none }) := by
        intro st
        rw [← setTimer_setTimer s i t₀, activateTimer_setTimer, hs₂]; rfl
      rw [hdisarm]
      unfold onMinTimerComplete
      rw [setTimer_timers_self]
      dsimp only
      rw [hst]
      dsimp only
      rw [if_neg hneg, hact]
      simp [setTimer_setTimer, t₀]
    have hmin₂ : ∀ k, ((s₂.setTimer i { t₀ with state := .scalingMax sd }).timers k).map (·.minimum) =
        (s.timers k).map (·.minimum) := by
      intro k
      rw [minimum_setTimer (s := s₂) { t₀ with state := .scalingMax sd } (t := t₀)
        (by rw [htimers₂]; simp) rfl, htimers₂, hmin₀ t₀ rfl]
    have hother : ∀ k, k ≠ i → (s₂.setTimer i { t₀ with state := .scalingMax sd }).pending k = s.pending k := by
      intro k hk
      rw [setTimer_pending_of_ne _ hk, pending_congr (by rw [htimers₂]) (hother₂ k hk), setTimer_pending_of_ne _ hk]
    refine ⟨_, false, hrun, by simp [hnow₂], by simp [hsf₂], hmin₂, hother, nofun, fun _ => ⟨h₂, ?_⟩⟩
    simp [pending, t₀, hitem₂, ht, hst, hdl]

end MinTimer

/-! ## 時刻は約束の時刻を越えない -/

/-- 時刻を `t` まで進めてよいなら、今から `t` の手前までのどの瞬間にも、約束の時刻を過ぎた timer は無い。
`WaitingForMin` の約束は `min_duration_timer_` の時刻から、`ScalingMax` の約束は、queue の `timer_` が
追う先頭の item より後に入った item の時刻からである。 -/
theorem advance_not_due (h : Inv s) {t : α} (ht : s.Enabled (.advance t)) {j : ι} {p : ScaledDeadline α}
    (hp : s.pending j = some p) {t' : α} (hle : s.now ≤ t') (hlt : t' < t) : ¬ p.Due s.scaleFactor.value t' := by
  obtain ⟨hctx, -, hmin, hqueues⟩ := ht
  rintro ⟨hbase, hspread⟩
  unfold pending at hp
  cases htj : s.timers j with
  | none => simp [htj] at hp
  | some tj =>
    simp only [htj] at hp
    cases hst : tj.state with
    | inactive => simp [hst] at hp
    | waitingForMin sd =>
      -- `min_duration_timer_` の時刻まで
      simp only [hst] at hp
      obtain ⟨dl, hdl, rfl⟩ := Option.map_eq_some_iff.mp hp
      exact absurd (hmin j tj dl htj hdl) (not_le.mpr (lt_of_le_of_lt hbase hlt))
    | scalingMax d =>
      simp only [hst] at hp
      obtain ⟨it, hit, rfl⟩ := Option.map_eq_some_iff.mp hp
      obtain ⟨q, hq, hlk⟩ := Option.bind_eq_some_iff.mp hit
      have hQ := h.queue d q hq
      have hmem : it ∈ q.rangeTimers := KeyedList.mem_of_lookup hlk
      -- 外で処理の途中の queue は無い
      have hproc : q.processingTimers = false := by
        cases hpq : q.processingTimers
        · rfl
        · exact absurd (hQ.processing.mp hpq) (by simp [hctx])
      obtain ⟨front, rest, hfr⟩ := List.exists_cons_of_ne_nil (List.ne_nil_of_mem hmem)
      obtain ⟨D, hD, -, hDle⟩ := hQ.armed hproc front rest hfr
      -- 先頭は一番早く入った
      have hfront : front.activeTime ≤ it.activeTime := by
        have hsorted := hQ.sorted
        rw [hfr] at hmem hsorted
        rcases List.mem_cons.mp hmem with rfl | hmem
        · exact le_rfl
        · exact List.rel_of_pairwise_cons hsorted hmem
      have htrig : computeTriggerTime front d s.scaleFactor ≤ t' := by
        unfold computeTriggerTime
        exact le_trans (by simpa using hfront) hspread
      have htD : t ≤ D := hqueues q (KeyedList.mem_of_lookup hq) D hD
      exact absurd (lt_of_lt_of_le hlt (htD.trans hDle)) (not_lt.mpr (max_le hle htrig))

end TimerSystem

end Envoy.ScaledTimer
