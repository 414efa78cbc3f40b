import Envoy.Common.TokenBucket

/-!
# `AtomicTokenBucketImpl`

`source/common/common/token_bucket_impl.h` と `token_bucket_impl.cc`。bucket は一つの atomic な
`double` `time_in_seconds_` で表す。取れる数は、今の時刻との差に `fill_rate_` を掛けて
`max_tokens_` で抑えたものである。`consume(cb)` は時刻を一度読み、`time_in_seconds_` を load する。
その後は、`cb` が零を返すか `compare_exchange_weak` が成功するまで回る。

多くの thread が同時に呼ぶので、thread ごとの `consume(cb)` の進み具合（`Phase`）を持つ系を作る。
系は、時刻を読む、load する、loop を一周する、の三つの動作の interleaving で動く。
`compare_exchange_weak` は値が等しくても失敗しうる（spurious）。一周の動作が、それを選ぶ。
`double` の計算は、`TokenBucketImpl` と同じく順序体 `α` の上の厳密な計算とする。
-/

namespace Envoy

/-- `max_tokens_` と `fill_rate_` は const で、constructor が `fill_rate_` を正にする。 -/
structure AtomicTokenBucketImpl (α : Type _) [Field α] [LinearOrder α] where
  maxTokens : α
  fillRate : α
  timeInSeconds : α
  fillRate_pos : 0 < fillRate

/-- `consume(cb)` に渡す `cb`: `consume()` の `consumed_cb` と、`consume(tokens, allow_partial)` の
`consumed_cb`。 -/
inductive ConsumedCb where
  | consumeOne
  | consumeTokens (tokens : Nat) (allowPartial : Bool)
deriving DecidableEq, Repr

/-- 一つの thread の `consume(cb)` の進み具合。 -/
inductive Phase (α : Type _) where
  | idle
  /-- `time_now` を読み、まだ load していない。 -/
  | clockRead (cb : ConsumedCb) (timeNow : α)
  /-- `time_old` を持って `do` の頭にいる。 -/
  | looping (cb : ConsumedCb) (timeNow timeOld : α)
deriving DecidableEq, Repr

/-- bucket、最後に読まれた `monotonicTime()`、thread ごとの進み具合。 -/
structure System (ι α : Type _) [Field α] [LinearOrder α] where
  bucket : AtomicTokenBucketImpl α
  clock : α
  threads : ι → Phase α

/-- thread `i` の動作。 -/
inductive Event (ι α : Type _) where
  /-- `consume(cb)` を呼び、`timeNowInSeconds()` が `now` を読む。 -/
  | call (i : ι) (cb : ConsumedCb) (now : α)
  /-- `time_in_seconds_.load()`。 -/
  | load (i : ι)
  /-- `do { ... } while (!compare_exchange_weak(...))` の一周。`spurious` なら、値が等しくても
  `compare_exchange_weak` が失敗する。 -/
  | attempt (i : ι) (spurious : Bool)

/-- 動作の出力。`returned` は `consume(cb)` が `consumed` を返したこと、`casFailed` は
`compare_exchange_weak` の失敗（`spurious` は値が等しかったこと）。 -/
inductive Output (ι α : Type _) where
  | returned (i : ι) (cb : ConsumedCb) (timeNow consumed : α)
  | casFailed (i : ι) (spurious : Bool)
  | silent

variable {α : Type _} [Field α] [LinearOrder α] [IsStrictOrderedRing α] [FloorRing α]

theorem kMinFillRate_pos : (0 : α) < kMinFillRate := by
  norm_num [kMinFillRate]

/-- constructor の `fill_rate_` の式は正。 -/
theorem max_abs_kMinFillRate_pos (fillRate : α) : 0 < max |fillRate| kMinFillRate :=
  lt_max_of_lt_right kMinFillRate_pos

namespace AtomicTokenBucketImpl

/-- `AtomicTokenBucketImpl(max_tokens, time_source, fill_rate, initial_tokens)`: 時刻 `now` に作り、
`initial_tokens` の分だけ `time_in_seconds_` を戻す。 -/
def create (maxTokens : Nat) (now fillRate : α) (initialTokens : Nat) : AtomicTokenBucketImpl α :=
  let fillRate := max |fillRate| kMinFillRate
  ⟨maxTokens, fillRate, if initialTokens ≠ 0 then now - initialTokens / fillRate else now,
    max_abs_kMinFillRate_pos _⟩

/-- `AtomicTokenBucketImpl(max_tokens, time_source, fill_rate, init_fill)`。 -/
def createInitFill (maxTokens : Nat) (now fillRate : α) (initFill : Bool) : AtomicTokenBucketImpl α :=
  create maxTokens now fillRate (if initFill then maxTokens else 0)

/-- `std::min(max_tokens_, (time_now - time_old) * fill_rate_)`。`consume(cb)` の `total_tokens` と
`remainingTokens()` が同じ式で計算する。 -/
def tokensAt (b : AtomicTokenBucketImpl α) (timeNow timeOld : α) : α :=
  min b.maxTokens ((timeNow - timeOld) * b.fillRate)

def remainingTokens (b : AtomicTokenBucketImpl α) (timeNow : α) : α :=
  b.tokensAt timeNow b.timeInSeconds

/-- `nextTokenAvailable()`: 次の一つまでの見込みの milli 秒。 -/
def nextTokenAvailable (b : AtomicTokenBucketImpl α) (timeNow : α) : Nat :=
  let remainingTokens := b.remainingTokens timeNow
  if remainingTokens ≥ 1 then 0 else ⌊(1 - remainingTokens) / b.fillRate * (1000 : Nat)⌋₊

/-- `time_in_seconds_` に書く。 -/
def store (b : AtomicTokenBucketImpl α) (timeInSeconds : α) : AtomicTokenBucketImpl α :=
  { b with timeInSeconds := timeInSeconds }

end AtomicTokenBucketImpl

namespace ConsumedCb

/-- `cb(total_tokens)`。 -/
def apply : ConsumedCb → α → α
  | .consumeOne, totalTokens => if totalTokens ≥ 1 then 1 else 0
  | .consumeTokens tokens allowPartial, totalTokens =>
    let consumed : α := tokens
    if totalTokens ≥ consumed then consumed
    else if allowPartial then max 0 (⌊totalTokens⌋ : α) else 0

/-- 呼び出しが返す値: `consume()` は `consume(consumed_cb) == 1`（`true` を一つと数える）、
`consume(tokens, allow_partial)` は `static_cast<uint64_t>(consume(consumed_cb))`。 -/
def result : ConsumedCb → α → Nat
  | .consumeOne, consumed => if consumed = 1 then 1 else 0
  | .consumeTokens .., consumed => ⌊consumed⌋₊

end ConsumedCb

namespace Phase

def isClockRead : Phase α → Bool
  | .clockRead .. => true
  | _ => false

def isLooping : Phase α → Bool
  | .looping .. => true
  | _ => false

end Phase

def Event.thread {ι : Type _} : Event ι α → ι
  | .call i _ _ => i
  | .load i => i
  | .attempt i _ => i

namespace System

variable {ι : Type _} [DecidableEq ι]

def create (b : AtomicTokenBucketImpl α) (now : α) : System ι α := ⟨b, now, fun _ => .idle⟩

def setPhase (s : System ι α) (i : ι) (p : Phase α) : System ι α :=
  { s with threads := Function.update s.threads i p }

/-- 動作が、その thread の今の進み具合で起こりうる。時刻は戻らない。 -/
def Enabled (s : System ι α) : Event ι α → Prop
  | .call i _ now => s.threads i = .idle ∧ s.clock ≤ now
  | .load i => (s.threads i).isClockRead = true
  | .attempt i _ => (s.threads i).isLooping = true

instance (s : System ι α) (e : Event ι α) : Decidable (s.Enabled e) :=
  match e with
  | .call _ _ _ => inferInstanceAs (Decidable (_ ∧ _))
  | .load _ => inferInstanceAs (Decidable (_ = true))
  | .attempt _ _ => inferInstanceAs (Decidable (_ = true))

/-- loop の一周: `total_tokens` と `cb` の値を計算し、零なら返す。そうでなければ
`time_in_seconds_` を `time_old` から `time_new` に `compare_exchange_weak` し、失敗すれば
`time_old` に今の値が入る。 -/
def iterate (s : System ι α) (i : ι) (cb : ConsumedCb) (timeNow timeOld : α) (spurious : Bool) :
    System ι α × Output ι α :=
  let totalTokens := s.bucket.tokensAt timeNow timeOld
  let consumed := cb.apply totalTokens
  if consumed = 0 then (s.setPhase i .idle, .returned i cb timeNow 0)
  else
    let totalTokensNew := totalTokens - consumed
    let timeNew := timeNow - totalTokensNew / s.bucket.fillRate
    if timeOld = s.bucket.timeInSeconds ∧ spurious = false then
      ({ s.setPhase i .idle with bucket := s.bucket.store timeNew }, .returned i cb timeNow consumed)
    else
      (s.setPhase i (.looping cb timeNow s.bucket.timeInSeconds),
        .casFailed i (decide (timeOld = s.bucket.timeInSeconds)))

def step (s : System ι α) : Event ι α → System ι α × Output ι α
  | .call i cb now => ({ s.setPhase i (.clockRead cb now) with clock := now }, .silent)
  | .load i =>
    match s.threads i with
    | .clockRead cb timeNow => (s.setPhase i (.looping cb timeNow s.bucket.timeInSeconds), .silent)
    | _ => (s, .silent)
  | .attempt i spurious =>
    match s.threads i with
    | .looping cb timeNow timeOld => s.iterate i cb timeNow timeOld spurious
    | _ => (s, .silent)

end System

end Envoy
