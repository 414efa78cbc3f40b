import Envoy.Upstream.EdfScheduler

/-!
# `EdfScheduler::createWithPicks`

`source/common/upstream/edf_scheduler.h` の `createWithPicks()`。`picks` 回の取り出しを、entry ごとに取り出した
回数 `floor_picks[i]` を決めて締め切りを直接置くことで真似し、残りの回数だけ `pickAndAdd()` を行う。締め切りの
型 `D` は `double` の代わりの全順序の体で、`static_cast<uint32_t>` は切り捨て `⌊·⌋₊`。重みには `1e-13` を
足したものを使い、残りの `pickAndAdd()` には足さない重みを使う。
-/

namespace Envoy.Upstream

namespace EdfScheduler

variable {C D : Type _} [Field D] [LinearOrder D] [FloorSemiring D]

/-- `floor_picks[i]`: `weight * picks / weights_sum` の切り捨て。それを重みで割った時刻が
`picks / weights_sum` に届けば一つ減らす。 -/
def floorPicks (picks : Nat) (weightsSum weight : D) : Nat :=
  let floorPick := ⌊weight * picks / weightsSum⌋₊
  if 0 < floorPick ∧ (picks : D) / weightsSum ≤ floorPick / weight then floorPick - 1 else floorPick

/-- loop が積む `scheduler_entries`、`max_pick_time`、`picks_so_far`。 -/
structure CreateState (C D : Type _) where
  entries : List (EdfEntry C D)
  maxPickTime : D
  picksSoFar : Nat

/-- loop の一回: `i` 番目の entry を、`floor_picks[i]` 回取り出した後の締め切りと `order_offset_` `i` で置く。 -/
def createStep (picks : Nat) (weightsSum : D) (acc : CreateState C D) (x : (C × D) × Nat) : CreateState C D :=
  let floorPick := floorPicks picks weightsSum x.1.2
  { entries := acc.entries ++ [⟨((floorPick + 1 : Nat) : D) / x.1.2, x.2, x.1.1⟩]
    maxPickTime := max acc.maxPickTime ((floorPick : D) / x.1.2)
    picksSoFar := acc.picksSoFar + floorPick }

/-- `createWithPicks()`。`priority_queue` を範囲から作ることは、鍵の順に並べること。生きている entry は
全て（`entries` が持つ）。 -/
def createWithPicks (entries : List C) (calculateWeight : C → D) (picks : Nat) : EdfScheduler C D :=
  let picks := picks % 429496729
  if entries.isEmpty then ⟨0, 0, [], []⟩
  else
    let weights := entries.map fun entry => calculateWeight entry + 1 / 10 ^ 13
    let weightsSum := weights.foldl (· + ·) 0
    let acc := ((entries.zip weights).zipIdx).foldl (createStep picks weightsSum) ⟨[], 0, 0⟩
    let scheduler : EdfScheduler C D := ⟨acc.maxPickTime, entries.length, acc.entries.foldl push [], []⟩
    (fun s => (pickAndAdd (fun _ => true) calculateWeight s).2)^[picks - acc.picksSoFar] scheduler

example : (createWithPicks ["a", "b"] (fun c => if c = "a" then (3 : ℚ) else 1) 5).queue.map (·.entry) = ["a", "b"] := by
  decide +kernel

end EdfScheduler

end Envoy.Upstream
