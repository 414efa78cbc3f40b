import Envoy.Upstream.Lemmas.LoadBalancerBase

/-!
# priority の load は 100 の剰余の分け方か

`LoadBalancerBase` を作ってからどの更新の後でも、load はどれも 100 以下である。今の host set の
normalized total availability が正なら、healthy と degraded の load の和は 100 で、`choosePriority` は
`IS_ENVOY_BUG` に至らず、100 の剰余のうち `(p, Healthy)` を選ぶのは `healthy[p]` 個、`(p, Degraded)` を
選ぶのは `degraded[p]` 個である。

availability が 0 なら `recalculatePerPriorityState` は load を計算せず、前の load が残る。panic threshold が
0 の時も host が一つも無い時も、healthy の priority 0 を 100 にするだけなので、和は 100 にならない。
panic にならない host set（overprovisioning factor が小さい時）では、load は計算されないまま残る。
-/

namespace Envoy.Upstream

/-- priority set の normalized total availability: 各 host set の health と degraded の和を 100 で抑える。 -/
def normalizedTotalAvailability (prioritySet : List HostSet) : Nat :=
  calculateNormalizedTotalAvailability (prioritySet.map (·.availability.1)) (prioritySet.map (·.availability.2))

/-- 作ってからどの更新の後でも、load はどれも 100 以下。normalized total availability が正なら、load の和は
100 で、`choosePriority` は 100 の剰余を load の数ずつ priority に分ける。 -/
theorem priorityLoad_partitions_hundred (prioritySet : List HostSet) (panicThreshold : Nat) (events : List Event)
    (hrun : Lts.Allowed System.Valid System.step (System.create prioritySet panicThreshold) events) :
    let s := (Lts.exec System.step (System.create prioritySet panicThreshold) events).1
    let healthy := s.lb.perPriorityLoad.healthyPriorityLoad
    let degraded := s.lb.perPriorityLoad.degradedPriorityLoad
    (∀ x ∈ healthy ++ degraded, x ≤ 100) ∧
      (0 < normalizedTotalAvailability s.prioritySet →
        healthy.sum + degraded.sum = 100 ∧ (∀ hash, (choosePriority hash healthy degraded).isSome) ∧
        (∀ p (hp : p < healthy.length),
          ((Finset.range 100).filter fun r => choosePriority r healthy degraded = some (p, .healthy)).card =
            healthy[p]) ∧
        ∀ p (hp : p < degraded.length),
          ((Finset.range 100).filter fun r => choosePriority r healthy degraded = some (p, .degraded)).card =
            degraded[p]) := by
  intro s healthy degraded
  have hinv : Inv s := inv_exec prioritySet panicThreshold hrun
  refine ⟨hinv.bounded, fun havail => ?_⟩
  -- health と degraded は今の host set のものなので、availability は load balancer の見るもの
  have hpos : 0 < calculateNormalizedTotalAvailability s.lb.perPriorityHealth s.lb.perPriorityDegraded := by
    rw [hinv.health, hinv.degraded]
    exact havail
  have hsum : healthy.sum + degraded.sum = 100 := hinv.sum hpos
  exact ⟨hsum, choosePriority_isSome hsum, fun p hp => card_choosePriority_healthy hsum hp,
    fun p hp => card_choosePriority_degraded hsum hp⟩

/-- weight 1 の host。 -/
def unitHost : Host := ⟨1, Nat.one_pos⟩

/-- degraded も excluded も無く、weight で health を計らない host set。 -/
def hostSetOf (hosts healthyHosts : List Host) (overprovisioningFactor : Nat) : HostSet :=
  ⟨hosts, healthyHosts, [], [], false, overprovisioningFactor, List.nil_sublist _⟩

/-- 二つの priority の host set を二度更新する走り: priority 0 の二つの host のうち一つが unhealthy になり
（health 70）、priority 1 の host が degraded になる。load は healthy `[70, 0]`、degraded `[0, 30]` になり、
100 の剰余のうち `(1, Degraded)` を選ぶのは 30 個である。 -/
theorem priorityLoad_partitions_hundred_after_updates :
    Lts.Allowed System.Valid System.step
        (System.create [hostSetOf [unitHost, unitHost] [unitHost, unitHost] 140, hostSetOf [unitHost] [unitHost] 140] 50)
        [.update [(0, hostSetOf [unitHost, unitHost] [unitHost] 140)] 50,
          .update [(1, ⟨[unitHost], [], [unitHost], [], false, 140, List.nil_sublist _⟩)] 50] ∧
      (Lts.exec System.step
        (System.create [hostSetOf [unitHost, unitHost] [unitHost, unitHost] 140, hostSetOf [unitHost] [unitHost] 140] 50)
        [.update [(0, hostSetOf [unitHost, unitHost] [unitHost] 140)] 50,
          .update [(1, ⟨[unitHost], [], [unitHost], [], false, 140, List.nil_sublist _⟩)] 50]).1.lb.perPriorityLoad =
        ⟨[70, 0], [0, 30]⟩ ∧
      ((Finset.range 100).filter fun r => choosePriority r [70, 0] [0, 30] = some (1, .degraded)).card = 30 := by
  have hrun : Lts.Allowed System.Valid System.step
      (System.create [hostSetOf [unitHost, unitHost] [unitHost, unitHost] 140, hostSetOf [unitHost] [unitHost] 140] 50)
      [.update [(0, hostSetOf [unitHost, unitHost] [unitHost] 140)] 50,
        .update [(1, ⟨[unitHost], [], [unitHost], [], false, 140, List.nil_sublist _⟩)] 50] := by
    simp [System.Valid, System.step, System.create, applyChanges]
  have hload : (Lts.exec System.step
      (System.create [hostSetOf [unitHost, unitHost] [unitHost, unitHost] 140, hostSetOf [unitHost] [unitHost] 140] 50)
      [.update [(0, hostSetOf [unitHost, unitHost] [unitHost] 140)] 50,
        .update [(1, ⟨[unitHost], [], [unitHost], [], false, 140, List.nil_sublist _⟩)] 50]).1.lb.perPriorityLoad =
      ⟨[70, 0], [0, 30]⟩ := by
    decide +kernel
  have havail : 0 < normalizedTotalAvailability (Lts.exec System.step
      (System.create [hostSetOf [unitHost, unitHost] [unitHost, unitHost] 140, hostSetOf [unitHost] [unitHost] 140] 50)
      [.update [(0, hostSetOf [unitHost, unitHost] [unitHost] 140)] 50,
        .update [(1, ⟨[unitHost], [], [unitHost], [], false, 140, List.nil_sublist _⟩)] 50]).1.prioritySet := by
    decide +kernel
  have hshare := ((priorityLoad_partitions_hundred _ 50 _ hrun).2 havail).2.2.2 1 (by rw [hload]; decide)
  simp only [hload] at hshare
  exact ⟨hrun, hload, hshare⟩

/-- availability が 0 になると load の和は 100 にならない。host を一つ持つ priority 1 が host を失うと、
既定の panic threshold 50 の下で load は `[100, 100]` になる。overprovisioning factor 1 の、二つのうち
一つが healthy な priority だけでは、load は `[0]` のままで、`choosePriority` は `IS_ENVOY_BUG` に至る。 -/
theorem priorityLoad_stale_without_availability :
    ((System.create [hostSetOf [] [] 140, hostSetOf [unitHost] [unitHost] 140] 50).step
        (.update [(1, hostSetOf [] [] 140)] 50)).1.lb.perPriorityLoad = ⟨[100, 100], [0, 0]⟩ ∧
      (System.create [hostSetOf [unitHost, unitHost] [unitHost] 1] 50).lb.perPriorityLoad = ⟨[0], [0]⟩ ∧
      choosePriority 0 [0] [0] = none := by
  refine ⟨by decide +kernel, by decide +kernel, by decide⟩

end Envoy.Upstream
