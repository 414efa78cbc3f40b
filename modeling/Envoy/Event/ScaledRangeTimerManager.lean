import Envoy.Lib.Simulation

/-!
# `ScaledRangeTimerManagerImpl`

`source/common/event/scaled_range_timer_manager_impl.cc` と `envoy/event/scaled_timer.h`。
有効にした timer は、まず最小の時間 `min` を自分の dispatcher timer で待ち（`WaitingForMin`）、
それから残りの `max - min` ごとの queue に入る（`ScalingMax`）。queue の dispatcher timer は先頭の
item だけを追い、鳴ると、時刻を過ぎた item を先頭から取り出して `trigger()` する。
`setScaleFactor` は全ての queue の timer を合わせ直す。

時刻は順序体 `α` の値とし、duration の変換は厳密とする。dispatcher も系の一部として持つ。
今の時刻 `now`（`approximateMonotonicTime()`）と、今どの callback の中にいるか、である。
dispatcher の timer は合わせた時刻ちょうどに、走っている callback が戻った後に鳴る。時刻は、
合わせてあるどの timer の時刻も越えない。操作は、callback の外からも scaled timer の callback の
中からも来る。`ASSERT` が落ちる所（空の list の `front()` など）は `none` とする。
-/

namespace Envoy.ScaledTimer

/-- `UnitFloat`: `[0, 1]` の値。 -/
structure UnitFloat (α : Type _) [Field α] [LinearOrder α] where
  value : α
  zero_le : 0 ≤ value
  le_one : value ≤ 1

/-- `ScaledTimerMinimum`: `max` に掛ける割合（`ScaledMinimum`）か、決まった長さ（`AbsoluteMinimum`）。 -/
inductive ScaledTimerMinimum (α : Type _) [Field α] [LinearOrder α] where
  | scaledMinimum (scaleFactor : UnitFloat α)
  | absoluteMinimum (value : α)

/-- `RangeTimerImpl` の三つの状態。`ScalingMax` の handle は、`duration` の queue の中の、この timer の
item を指す。 -/
inductive RangeTimerState (α : Type _) where
  | inactive
  | waitingForMin (scalableDuration : α)
  | scalingMax (duration : α)
deriving DecidableEq, Repr

structure RangeTimerImpl (α : Type _) [Field α] [LinearOrder α] where
  minimum : ScaledTimerMinimum α
  state : RangeTimerState α
  /-- `min_duration_timer_` が鳴る時刻。合わせていなければ `none`。 -/
  minDurationTimer : Option α

/-- `Queue::Item`: timer と、それが `ScalingMax` に入った時刻 `active_time_`。 -/
structure Item (ι α : Type _) where
  timer : ι
  activeTime : α
deriving DecidableEq, Repr

/-- `Queue`: 同じ `max - min` の timer の列と、その先頭を追う dispatcher timer `timer_`。 -/
structure Queue (ι α : Type _) where
  duration : α
  rangeTimers : List (Item ι α)
  /-- `timer_` が鳴る時刻。 -/
  timer : Option α
  processingTimers : Bool
deriving DecidableEq, Repr

/-- dispatcher が今どこにいるか。 -/
inductive Context (α : Type _) where
  | idle
  /-- `onMinTimerComplete()` から `trigger()` した callback の中。 -/
  | minTimerCallback
  /-- `onQueueTimerFired(queue)` の loop から `trigger()` した callback の中。 -/
  | queueCallback (duration : α)
deriving DecidableEq, Repr

/-- manager、manager が作った timer、dispatcher の時刻と文脈。 -/
structure TimerSystem (ι α : Type _) [Field α] [LinearOrder α] where
  now : α
  context : Context α
  scaleFactor : UnitFloat α
  timers : ι → Option (RangeTimerImpl α)
  queues : List (Queue ι α)

/-- 外から、callback の中から、dispatcher から来る動作。 -/
inductive Event (ι α : Type _) [Field α] [LinearOrder α] where
  | createTimer (i : ι) (minimum : ScaledTimerMinimum α)
  | enableTimer (i : ι) (maxMs : α)
  | disableTimer (i : ι)
  /-- `~RangeTimerImpl()`。 -/
  | destroyTimer (i : ι)
  | setScaleFactor (scaleFactor : UnitFloat α)
  /-- dispatcher の時刻が `t` に進む。 -/
  | advance (t : α)
  /-- dispatcher が `min_duration_timer_` の callback を走らせる。 -/
  | fireMinTimer (i : ι)
  /-- dispatcher が queue の `timer_` の callback を走らせる。 -/
  | fireQueueTimer (duration : α)
  /-- 走っている scaled timer の callback が戻る。 -/
  | returnCallback

/-- `callback i` は timer `i` の `callback_()` を今の時刻に呼んだこと、`assertFailed` は `ASSERT` が
落ちたこと。 -/
inductive Output (ι : Type _) where
  | callback (i : ι)
  | silent
  | assertFailed
deriving DecidableEq, Repr

variable {ι α : Type _} [DecidableEq ι] [Field α] [LinearOrder α] [IsStrictOrderedRing α]

theorem unitFloat_one_mem : (0 : α) ≤ 1 ∧ (1 : α) ≤ 1 := ⟨zero_le_one, le_rfl⟩

/-- `scale_factor_(1.0)`。 -/
def UnitFloat.one : UnitFloat α := ⟨1, unitFloat_one_mem.1, unitFloat_one_mem.2⟩

/-- `computeMinimum(maximum)`: `ScaledMinimum` なら `maximum` に割合を掛け、`AbsoluteMinimum` なら
その長さ。 -/
def ScaledTimerMinimum.computeMinimum : ScaledTimerMinimum α → α → α
  | .scaledMinimum scaleFactor, maximum => scaleFactor.value * maximum
  | .absoluteMinimum value, _ => value

/-- dispatcher の `Timer::enableTimer(d)`: 今から `d` 後に鳴る。 -/
def dispatcherEnableTimer (now d : α) : Option α := some (now + d)

/-- `computeTriggerTime(item, duration, scale_factor)`。 -/
def computeTriggerTime (item : Item ι α) (duration : α) (scaleFactor : UnitFloat α) : α :=
  item.activeTime + duration * scaleFactor.value

/-- `resetQueueTimer(queue, now)`: 先頭の item の時刻に `timer_` を合わせる。過ぎていれば零。空の
queue では `ASSERT(!queue.range_timers_.empty())` が落ち、`front()` は定まらない。 -/
def resetQueueTimer (scaleFactor : UnitFloat α) (queue : Queue ι α) (now : α) : Option (Queue ι α) :=
  match queue.rangeTimers with
  | [] => none
  | front :: _ =>
    let triggerTime := computeTriggerTime front queue.duration scaleFactor
    some { queue with
      timer := dispatcherEnableTimer now (if triggerTime < now then 0 else triggerTime - now) }

namespace TimerSystem

/-- `ScaledRangeTimerManagerImpl(dispatcher)`: queue も timer も無く、scale factor は 1。 -/
def create (now : α) : TimerSystem ι α := ⟨now, .idle, UnitFloat.one, fun _ => none, []⟩

/-- `queues_.find(duration)`。 -/
def findQueue (s : TimerSystem ι α) (duration : α) : Option (Queue ι α) :=
  s.queues.find? (·.duration = duration)

/-- `queues_` に `queue` を置く。同じ duration の queue があれば置き換える。 -/
def putQueue (s : TimerSystem ι α) (queue : Queue ι α) : TimerSystem ι α :=
  { s with queues := s.queues.filter (·.duration ≠ queue.duration) ++ [queue] }

/-- `queues_.erase(queue)`: queue とその `timer_` が無くなる。 -/
def eraseQueue (s : TimerSystem ι α) (duration : α) : TimerSystem ι α :=
  { s with queues := s.queues.filter (·.duration ≠ duration) }

def setTimer (s : TimerSystem ι α) (i : ι) (t : RangeTimerImpl α) : TimerSystem ι α :=
  { s with timers := Function.update s.timers i (some t) }

/-- `createTimer(minimum, callback)`: `Inactive` の timer。 -/
def createTimer (s : TimerSystem ι α) (i : ι) (minimum : ScaledTimerMinimum α) : TimerSystem ι α :=
  { s with timers := Function.update s.timers i (some ⟨minimum, .inactive, none⟩) }

/-- `activateTimer(duration, timer)`: `duration` の queue（無ければ作る）の後ろに、今の時刻で入れる。
一つ目なら queue の `timer_` を合わせる。 -/
def activateTimer (s : TimerSystem ι α) (duration : α) (i : ι) : Option (TimerSystem ι α) :=
  let queue := (s.findQueue duration).getD ⟨duration, [], none, false⟩
  let queue := { queue with rangeTimers := queue.rangeTimers ++ [⟨i, s.now⟩] }
  if queue.rangeTimers.length = 1 then (resetQueueTimer s.scaleFactor queue s.now).map s.putQueue
  else some (s.putQueue queue)

/-- `removeTimer(handle)`: handle の queue から `i` の item を外す。空になれば、処理の途中でない限り
queue を消す。外したのが先頭なら合わせ直す。 -/
def removeTimer (s : TimerSystem ι α) (duration : α) (i : ι) : Option (TimerSystem ι α) :=
  match s.findQueue duration with
  | none => none
  | some queue =>
    let wasFront := queue.rangeTimers.head?.map (·.timer) = some i
    let queue := { queue with rangeTimers := queue.rangeTimers.eraseP (·.timer = i) }
    if queue.rangeTimers = [] then
      if queue.processingTimers then some (s.putQueue queue) else some (s.eraseQueue duration)
    else if wasFront then (resetQueueTimer s.scaleFactor queue s.now).map s.putQueue
    else some (s.putQueue queue)

/-- `RangeTimerImpl::disableTimer()`: 今の状態から抜けて `Inactive` になる。 -/
def disableTimer (s : TimerSystem ι α) (i : ι) : Option (TimerSystem ι α) :=
  match s.timers i with
  | none => none
  | some t =>
    match t.state with
    | .inactive => some s
    | .waitingForMin _ => some (s.setTimer i { t with state := .inactive, minDurationTimer := none })
    | .scalingMax duration => (s.removeTimer duration i).map (·.setTimer i { t with state := .inactive })

/-- `RangeTimerImpl::enableTimer(max_ms)`: `min_ms` が正でなければすぐに `ScalingMax` へ、そうでなければ
`min_duration_timer_` を合わせて `WaitingForMin` へ。 -/
def enableTimer (s : TimerSystem ι α) (i : ι) (maxMs : α) : Option (TimerSystem ι α) := do
  let s ← s.disableTimer i
  let t ← s.timers i
  let minMs := min (t.minimum.computeMinimum maxMs) maxMs
  if minMs ≤ 0 then
    (s.activateTimer maxMs i).map (·.setTimer i { t with state := .scalingMax maxMs })
  else
    let timer := dispatcherEnableTimer s.now (min maxMs minMs)
    some (s.setTimer i { t with state := .waitingForMin (maxMs - minMs), minDurationTimer := timer })

/-- `~RangeTimerImpl()`: `disableTimer()` の後、timer は `min_duration_timer_` と共に無くなる。 -/
def destroyTimer (s : TimerSystem ι α) (i : ι) : Option (TimerSystem ι α) :=
  (s.disableTimer i).map fun s => { s with timers := Function.update s.timers i none }

/-- `RangeTimerImpl::enabled()`。 -/
def enabled (s : TimerSystem ι α) (i : ι) : Bool :=
  match s.timers i with
  | some t => t.state != .inactive
  | none => false

/-- `trigger()`: `Inactive` にしてから callback を呼ぶ。`Inactive` の timer では `ASSERT` が落ちる。 -/
def trigger (s : TimerSystem ι α) (i : ι) : Option (TimerSystem ι α) :=
  match s.timers i with
  | none => none
  | some t => if t.state = .inactive then none else some (s.setTimer i { t with state := .inactive })

/-- `onMinTimerComplete()`: 残りの時間の queue に入る。残りが負なら `trigger()` する（`true`）。 -/
def onMinTimerComplete (s : TimerSystem ι α) (i : ι) : Option (TimerSystem ι α × Bool) :=
  match s.timers i with
  | none => none
  | some t =>
    match t.state with
    | .waitingForMin scalableDuration =>
      if scalableDuration < 0 then (s.trigger i).map (·, true)
      else (s.activateTimer scalableDuration i).map fun s =>
        (s.setTimer i { t with state := .scalingMax scalableDuration }, false)
    | _ => none

/-- `setScaleFactor(scale_factor)`: 新しい scale factor で全ての queue の `timer_` を合わせ直す。 -/
def setScaleFactor (s : TimerSystem ι α) (scaleFactor : UnitFloat α) : Option (TimerSystem ι α) :=
  (s.queues.mapM fun queue => resetQueueTimer scaleFactor queue s.now).map fun queues =>
    { s with scaleFactor := scaleFactor, queues := queues }

/-- `onQueueTimerFired` の loop の後: `processing_timers_` を戻し、空なら queue を消し、そうでなければ
`timer_` を合わせ直す。 -/
def finishProcessing (s : TimerSystem ι α) (queue : Queue ι α) : Option (TimerSystem ι α) :=
  let queue := { queue with processingTimers := false }
  if queue.rangeTimers = [] then some (s.eraseQueue queue.duration)
  else (resetQueueTimer s.scaleFactor queue s.now).map s.putQueue

/-- `onQueueTimerFired` の loop の一回: 先頭の時刻が過ぎていれば取り出して `trigger()` し、その timer を
返す。そうでなければ loop を抜ける。 -/
def processQueue (s : TimerSystem ι α) (duration : α) : Option (TimerSystem ι α × Option ι) :=
  match s.findQueue duration with
  | none => none
  | some queue =>
    match queue.rangeTimers with
    | item :: rest =>
      if computeTriggerTime item queue.duration s.scaleFactor ≤ s.now then
        ((s.putQueue { queue with rangeTimers := rest }).trigger item.timer).map (·, some item.timer)
      else (s.finishProcessing queue).map (·, none)
    | [] => (s.finishProcessing queue).map (·, none)

/-- `onQueueTimerFired(queue)` の始め: `processing_timers_` を立てて loop に入る。 -/
def onQueueTimerFired (s : TimerSystem ι α) (duration : α) : Option (TimerSystem ι α × Option ι) :=
  match s.findQueue duration with
  | none => none
  | some queue =>
    if queue.rangeTimers = [] then none
    else (s.putQueue { queue with processingTimers := true }).processQueue duration

/-- 鳴った dispatcher timer は外れる。 -/
def disarmMinTimer (s : TimerSystem ι α) (i : ι) : TimerSystem ι α :=
  match s.timers i with
  | some t => s.setTimer i { t with minDurationTimer := none }
  | none => s

def disarmQueueTimer (s : TimerSystem ι α) (duration : α) : TimerSystem ι α :=
  match s.findQueue duration with
  | some queue => s.putQueue { queue with timer := none }
  | none => s

/-- 操作の結果。`ASSERT` が落ちれば、それを出力にする。 -/
def complete (s : TimerSystem ι α) : Option (TimerSystem ι α) → TimerSystem ι α × Output ι
  | some s' => (s', .silent)
  | none => (s, .assertFailed)

/-- loop の一回の結果: timer を `trigger()` すればその callback の中へ、loop を抜ければ外へ。 -/
def afterProcessing (s : TimerSystem ι α) (duration : α) :
    Option (TimerSystem ι α × Option ι) → TimerSystem ι α × Output ι
  | some (s', some i) => ({ s' with context := .queueCallback duration }, .callback i)
  | some (s', none) => ({ s' with context := .idle }, .silent)
  | none => (s, .assertFailed)

def step (s : TimerSystem ι α) : Event ι α → TimerSystem ι α × Output ι
  | .createTimer i minimum => (s.createTimer i minimum, .silent)
  | .enableTimer i maxMs => s.complete (s.enableTimer i maxMs)
  | .disableTimer i => s.complete (s.disableTimer i)
  | .destroyTimer i => s.complete (s.destroyTimer i)
  | .setScaleFactor scaleFactor => s.complete (s.setScaleFactor scaleFactor)
  | .advance t => ({ s with now := t }, .silent)
  | .fireMinTimer i =>
    match (s.disarmMinTimer i).onMinTimerComplete i with
    | some (s', true) => ({ s' with context := .minTimerCallback }, .callback i)
    | some (s', false) => (s', .silent)
    | none => (s, .assertFailed)
  | .fireQueueTimer duration =>
    s.afterProcessing duration ((s.disarmQueueTimer duration).onQueueTimerFired duration)
  | .returnCallback =>
    match s.context with
    | .idle => (s, .silent)
    | .minTimerCallback => ({ s with context := .idle }, .silent)
    | .queueCallback duration => s.afterProcessing duration (s.processQueue duration)

/-- 動作が起こりうる。timer の操作は生きている timer に来る。時刻は戻らず、合わせてあるどの
dispatcher timer の時刻も越えない。dispatcher の timer は callback の外で、合わせた時刻に鳴る。 -/
def Enabled (s : TimerSystem ι α) : Event ι α → Prop
  | .createTimer i _ => s.timers i = none
  | .enableTimer i _ => (s.timers i).isSome
  | .disableTimer i => (s.timers i).isSome
  | .destroyTimer i => (s.timers i).isSome
  | .setScaleFactor _ => True
  | .advance t =>
    s.context = .idle ∧ s.now ≤ t ∧
      (∀ j tj dl, s.timers j = some tj → tj.minDurationTimer = some dl → t ≤ dl) ∧
      ∀ q ∈ s.queues, ∀ dl, q.timer = some dl → t ≤ dl
  | .fireMinTimer i => s.context = .idle ∧ ∃ t, s.timers i = some t ∧ t.minDurationTimer = some s.now
  | .fireQueueTimer duration =>
    s.context = .idle ∧ ∃ q, s.findQueue duration = some q ∧ q.timer = some s.now
  | .returnCallback => s.context ≠ .idle

end TimerSystem

end Envoy.ScaledTimer
