import Envoy.Lib.Simulation

/-!
# `TokenBucketImpl` と `SharedTokenBucketImpl`

`source/common/common/token_bucket_impl.cc`。`double` の計算は順序体 `α` の上の厳密な計算とし、
時刻は `monotonicTime()` を秒で読んだ値 `now` として各呼び出しに渡す。`consume()` は
`tokens_ < max_tokens_` の時だけ、最後に足した時刻 `last_fill_` からの経過に比例して足し、
`last_fill_` を進める。`SharedTokenBucketImpl` は同じ操作を mutex の下で順に行い、
`maybeReset()` を一度だけ通す。
-/

namespace Envoy

variable {α : Type _} [Field α] [LinearOrder α] [FloorSemiring α]

/-- `kMinFillRate`: 一年に一つ。 -/
def kMinFillRate : α := 1 / (365 * 24 * 60 * 60)

structure TokenBucketImpl (α : Type _) where
  maxTokens : α
  fillRate : α
  tokens : α
  lastFill : α

namespace TokenBucketImpl

/-- `TokenBucketImpl(max_tokens, time_source, fill_rate)`: 満ちた bucket。 -/
def create (maxTokens : Nat) (now fillRate : α) : TokenBucketImpl α :=
  ⟨maxTokens, max |fillRate| kMinFillRate, maxTokens, now⟩

/-- `consume()` の前半: 満ちていなければ、`last_fill_` からの経過の分を足して `last_fill_` を進める。 -/
def refill (b : TokenBucketImpl α) (now : α) : TokenBucketImpl α :=
  if b.tokens < b.maxTokens then
    { b with tokens := min ((now - b.lastFill) * b.fillRate + b.tokens) b.maxTokens, lastFill := now }
  else b

/-- `consume(tokens, allow_partial)`。返すのは取れた数と、呼び出しの後の bucket。 -/
def consume (b : TokenBucketImpl α) (now : α) (tokens : Nat) (allowPartial : Bool) : Nat × TokenBucketImpl α :=
  let b := b.refill now
  let tokens := if allowPartial then min tokens ⌊b.tokens⌋₊ else tokens
  if b.tokens < tokens then (0, b) else (tokens, { b with tokens := b.tokens - tokens })

/-- `nextTokenAvailable()`: 次の一つまでの見込みの milli 秒。 -/
def nextTokenAvailable (b : TokenBucketImpl α) : Nat :=
  if 1 ≤ b.tokens then 0 else ⌈1 / b.fillRate * 1000⌉₊

/-- `maybeReset(num_tokens)`。source は `num_tokens <= max_tokens_` を ASSERT する。 -/
def maybeReset (b : TokenBucketImpl α) (now : α) (numTokens : Nat) : TokenBucketImpl α :=
  { b with tokens := numTokens, lastFill := now }

end TokenBucketImpl

/-- token bucket への呼び出し。`now` は呼び出しの中で読む `monotonicTime()`。 -/
inductive TokenBucketOp (α : Type _) where
  | consume (now : α) (tokens : Nat) (allowPartial : Bool)
  | maybeReset (now : α) (numTokens : Nat)

namespace TokenBucketImpl

/-- 一つの呼び出しと、`consume()` が返した数（`maybeReset()` は `none`）。 -/
def step (b : TokenBucketImpl α) : TokenBucketOp α → TokenBucketImpl α × Option Nat
  | .consume now tokens allowPartial =>
    let r := b.consume now tokens allowPartial
    (r.2, some r.1)
  | .maybeReset now numTokens => (b.maybeReset now numTokens, none)

end TokenBucketImpl

structure SharedTokenBucketImpl (α : Type _) where
  impl : TokenBucketImpl α
  resetOnce : Bool

namespace SharedTokenBucketImpl

def create (maxTokens : Nat) (now fillRate : α) : SharedTokenBucketImpl α :=
  ⟨TokenBucketImpl.create maxTokens now fillRate, false⟩

/-- mutex の下の一つの呼び出し。`maybeReset()` は最初の一回だけ `impl_` に届く。 -/
def step (b : SharedTokenBucketImpl α) : TokenBucketOp α → SharedTokenBucketImpl α × Option Nat
  | .consume now tokens allowPartial =>
    let r := b.impl.consume now tokens allowPartial
    ({ b with impl := r.2 }, some r.1)
  | .maybeReset now numTokens =>
    if b.resetOnce then (b, none) else (⟨b.impl.maybeReset now numTokens, true⟩, none)

end SharedTokenBucketImpl

/-- 満ちた bucket を呼ぶ `consume()` は `last_fill_` を進めないので、長く満ちていた後の二回目の
呼び出しは、その間の経過をすべて足し直す: `max_tokens = 1`、`fill_rate = 1` で時刻 0 に作り、
時刻 10 に一つずつ二回求めると、どちらも取れる。同じ時刻の区間 `[10, 10]` で取れた数の和 2 は、
`max_tokens + fill_rate * 0 = 1` を超える。`SharedTokenBucketImpl` も同じ。 -/
theorem consume_after_idle_full_bucket :
    (Lts.exec TokenBucketImpl.step (TokenBucketImpl.create (α := ℝ) 1 0 1)
      [.consume 10 1 false, .consume 10 1 false]).2 = [some 1, some 1] ∧
    (Lts.exec SharedTokenBucketImpl.step (SharedTokenBucketImpl.create (α := ℝ) 1 0 1)
      [.consume 10 1 false, .consume 10 1 false]).2 = [some 1, some 1] ∧
    (1 : ℝ) + max |1| kMinFillRate * (10 - 10) < 1 + 1 := by
  refine ⟨?_, ?_, by norm_num⟩ <;>
    norm_num [TokenBucketImpl.step, SharedTokenBucketImpl.step, SharedTokenBucketImpl.create,
      TokenBucketImpl.consume, TokenBucketImpl.refill, TokenBucketImpl.create, kMinFillRate]

end Envoy
