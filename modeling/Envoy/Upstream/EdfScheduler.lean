import Mathlib

/-!
# EDF scheduler

`source/common/upstream/edf_scheduler.h` の `EdfScheduler` の `add()`、`popEntry()`、`peekAgain()`、
`pickAndAdd()`。締め切りの型 `D` は `double` の代わりの全順序の型で、`1.0 / weight` と `+` を持つ
（weight は正なので NaN は現れない）。

`std::priority_queue<EdfEntry>` は `EdfEntry::operator<` の向きを反転した min queue で、ここでは鍵
（締め切り、同じなら `order_offset_`）の順に並べた列とし、先頭が `top()`。entry は `weak_ptr` で持つので、
呼び出しの時に生きている entry を `alive` で与え、`lock()` はそれを見る。
-/

namespace Envoy.Upstream

/-- `EdfEntry`。 -/
structure EdfEntry (C D : Type _) where
  deadline : D
  orderOffset : Nat
  entry : C

variable {C D : Type _}

/-- 優先度の鍵: 締め切りの早い方、同じなら `order_offset_` の小さい方が先。 -/
def EdfEntry.key [LinearOrder D] (e : EdfEntry C D) : D ×ₗ Nat := toLex (e.deadline, e.orderOffset)

/-- `EdfScheduler` の状態。 -/
structure EdfScheduler (C D : Type _) where
  currentTime : D
  orderOffset : Nat
  queue : List (EdfEntry C D)
  prepickList : List C

namespace EdfScheduler

/-- `lock()` の loop の形: 先頭から `ok` でないものを捨て、最初に `ok` なものを取り出す。 -/
def popFirst {α : Type _} (ok : α → Bool) : List α → Option α × List α
  | [] => (none, [])
  | a :: rest => if ok a then (some a, rest) else popFirst ok rest

variable [LinearOrder D] [Add D] [One D] [Div D]

/-- `queue_.push()`: 鍵の順の位置に入れる。 -/
def push (queue : List (EdfEntry C D)) (e : EdfEntry C D) : List (EdfEntry C D) :=
  queue.orderedInsert (fun a b => a.key ≤ b.key) e

/-- `popEntry()` の loop: 先頭から、`lock()` できない entry を捨て、最初に `lock()` できた entry を取り出す。 -/
def popQueue (alive : C → Bool) (queue : List (EdfEntry C D)) : Option (EdfEntry C D) × List (EdfEntry C D) :=
  popFirst (fun e => alive e.entry) queue

/-- `popEntry()`: 取り出した entry の締め切りを `current_time_` にする。 -/
def popEntry (alive : C → Bool) (s : EdfScheduler C D) : Option C × EdfScheduler C D :=
  match popQueue alive s.queue with
  | (none, queue) => (none, { s with queue })
  | (some e, queue) => (some e.entry, { s with currentTime := e.deadline, queue })

/-- `add()`: 締め切り `current_time_ + 1.0 / weight`、`order_offset_++` で入れる。 -/
def add (weight : D) (entry : C) (s : EdfScheduler C D) : EdfScheduler C D :=
  { s with
    queue := push s.queue ⟨s.currentTime + 1 / weight, s.orderOffset, entry⟩
    orderOffset := s.orderOffset + 1 }

/-- `peekAgain()`: 取り出した entry を `prepick_list_` の後ろに置き、入れ直す。 -/
def peekAgain (alive : C → Bool) (calculateWeight : C → D) (s : EdfScheduler C D) : Option C × EdfScheduler C D :=
  match popEntry alive s with
  | (none, s') => (none, s')
  | (some ret, s') => (some ret, add (calculateWeight ret) ret { s' with prepickList := s'.prepickList ++ [ret] })

/-- `pickAndAdd()` の `prepick_list_` の loop: 先頭から `lock()` し、できた最初の entry を返す。 -/
def popPrepick (alive : C → Bool) (prepickList : List C) : Option C × List C :=
  popFirst alive prepickList

/-- `pickAndAdd()`: `prepick_list_` に生きている entry があればそれを返し（`peekAgain` で入れ直してある）、
無ければ取り出して入れ直す。 -/
def pickAndAdd (alive : C → Bool) (calculateWeight : C → D) (s : EdfScheduler C D) : Option C × EdfScheduler C D :=
  match popPrepick alive s.prepickList with
  | (some ret, rest) => (some ret, { s with prepickList := rest })
  | (none, rest) =>
    match popEntry alive { s with prepickList := rest } with
    | (none, s') => (none, s')
    | (some ret, s') => (some ret, add (calculateWeight ret) ret s')

end EdfScheduler

end Envoy.Upstream
