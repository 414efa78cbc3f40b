import Envoy.Lib.Cumulative

/-!
# `LoadBalancerBase` の priority ごとの load

`source/extensions/load_balancing_policies/common/load_balancer_impl.cc` の `distributeLoad`、
`choosePriority`、`recalculatePerPriorityState`、`recalculatePerPriorityPanic`、
`recalculateLoadInTotalPanic`、`isHostSetInPanic` と、constructor と更新の callback
（`processDirtyPriorities`）。`uint32_t` と `size_t` の値は `Nat` とする: load と health は 100 以下で、
足すのは priority の数だけである。`isHostSetInPanic` の `double` の割合は有理数で計算する。
`total_healthy_hosts_` は load の計算に使わないので持たない。
-/

namespace Envoy.Upstream

/-- `Host`: weight は `HostImplBase::weight` が 1 以上に直す。 -/
structure Host where
  weight : Nat
  weight_pos : 0 < weight
deriving DecidableEq

/-- `HostSet`: 一つの priority の host と、その healthy、degraded、excluded の部分。excluded は hosts から
選んだもの。 -/
structure HostSet where
  hosts : List Host
  healthyHosts : List Host
  degradedHosts : List Host
  excludedHosts : List Host
  weightedPriorityHealth : Bool
  overprovisioningFactor : Nat
  excluded_sublist : excludedHosts.Sublist hosts

/-- host の weight の和。 -/
def totalWeight (hosts : List Host) : Nat := (hosts.map (·.weight)).sum

/-- `LoadBalancerBase::HostAvailability`。 -/
inductive HostAvailability where
  | healthy
  | degraded
deriving DecidableEq, Repr

/-- `HealthyAndDegradedLoad`。 -/
structure HealthyAndDegradedLoad where
  healthyPriorityLoad : List Nat
  degradedPriorityLoad : List Nat
deriving DecidableEq, Repr

/-- `std::vector::resize(n)`: 長ければ切り、短ければ `a` で埋める。 -/
def resize {α : Type _} (l : List α) (n : Nat) (a : α) : List α :=
  l.take n ++ List.replicate (n - l.length) a

/-! ## `distributeLoad` と `choosePriority` -/

/-- `distributeLoad` の loop: `total_load` を前の priority から availability の割合で割り当て、割り当てた
load と残りの `total_load`。 -/
def distributeLoadLoop (normalizedTotalAvailability : Nat) : Nat → List Nat → List Nat × Nat
  | totalLoad, [] => ([], totalLoad)
  | totalLoad, availability :: rest =>
    let load := min totalLoad (availability * 100 / normalizedTotalAvailability)
    let r := distributeLoadLoop normalizedTotalAvailability (totalLoad - load) rest
    (load :: r.1, r.2)

/-- `distributeLoad(per_priority_load, per_priority_availability, total_load, normalized_total_availability)`。
`per_priority_load` は availability と同じ長さに resize してあるので、すべて書き換わる。返すのは書いた
load、availability の正な最初の priority（無ければ `-1` の代わりに `none`）、残りの load。 -/
def distributeLoad (perPriorityAvailability : List Nat) (totalLoad normalizedTotalAvailability : Nat) :
    List Nat × Option Nat × Nat :=
  let r := distributeLoadLoop normalizedTotalAvailability totalLoad perPriorityAvailability
  (r.1, perPriorityAvailability.findIdx? (0 < ·), r.2)

/-- `choosePriority(hash, healthy_per_priority_load, degraded_per_priority_load)`: `hash % 100 + 1` に
`aggregate_percentage_load` が届いた priority。healthy の load で届かなければ degraded の load を足して
続ける。`none` は `IS_ENVOY_BUG("unexpected load error")` に至ること（その後 `{0, Healthy}` を返す）。 -/
def choosePriority (hash : Nat) (healthyPerPriorityLoad degradedPerPriorityLoad : List Nat) :
    Option (Nat × HostAvailability) :=
  let hash := hash % 100 + 1
  match Cumulative.find hash 0 0 healthyPerPriorityLoad with
  | .inr priority => some (priority, .healthy)
  | .inl aggregatePercentageLoad =>
    match Cumulative.find hash aggregatePercentageLoad 0 degradedPerPriorityLoad with
    | .inr priority => some (priority, .degraded)
    | .inl _ => none

/-! ## load の計算 -/

/-- `LoadBalancerBase` の load の状態。 -/
structure LoadBalancerBase where
  perPriorityLoad : HealthyAndDegradedLoad
  perPriorityHealth : List Nat
  perPriorityDegraded : List Nat
  perPriorityPanic : List Bool
deriving DecidableEq, Repr

/-- `calculateNormalizedTotalAvailability`: health と degraded の和を 100 で抑える。 -/
def calculateNormalizedTotalAvailability (perPriorityHealth perPriorityDegraded : List Nat) : Nat :=
  min (perPriorityHealth.sum + perPriorityDegraded.sum) 100

/-- `recalculatePerPriorityState` が一つの priority について計算する health と degraded: healthy と
degraded の（`weighted_priority_health` なら weight の）割合に overprovisioning factor を掛け、100 で
抑える。積と商は `uint64_t` で、`std::min<uint32_t>` が商を `uint32_t` に変えてから比べる。excluded を
除いた host が無ければ 0。 -/
def HostSet.availability (hostSet : HostSet) : Nat × Nat :=
  let hostCount := hostSet.hosts.length - hostSet.excludedHosts.length
  if 0 < hostCount then
    let weights : Nat × Nat × Nat :=
      if hostSet.weightedPriorityHealth then
        (totalWeight hostSet.healthyHosts, totalWeight hostSet.degradedHosts,
          totalWeight hostSet.hosts - totalWeight hostSet.excludedHosts)
      else (hostSet.healthyHosts.length, hostSet.degradedHosts.length, hostCount)
    (min 100 (hostSet.overprovisioningFactor * weights.1 % 2 ^ 64 / weights.2.2 % 2 ^ 32),
      min 100 (hostSet.overprovisioningFactor * weights.2.1 % 2 ^ 64 / weights.2.2 % 2 ^ 32))
  else (0, 0)

/-- 余りの load を、最初の healthy の priority に、無ければ最初の degraded の priority に足す。両方無い
ことは `ASSERT` で除かれる。 -/
def addRemainingLoad (load : HealthyAndDegradedLoad) (firstHealthy firstDegraded : Option Nat)
    (remainingLoad : Nat) : HealthyAndDegradedLoad :=
  if remainingLoad ≠ 0 then
    match firstHealthy, firstDegraded with
    | some i, _ => { load with healthyPriorityLoad := load.healthyPriorityLoad.modify i (· + remainingLoad) }
    | none, some j => { load with degradedPriorityLoad := load.degradedPriorityLoad.modify j (· + remainingLoad) }
    | none, none => load
  else load

/-- normalized total availability が正な時の load: healthy の availability、degraded の availability の順に
100 を割り当て、余りを足す。 -/
def distributeAllLoad (perPriorityHealth perPriorityDegraded : List Nat) (normalizedTotalAvailability : Nat) :
    HealthyAndDegradedLoad :=
  let healthy := distributeLoad perPriorityHealth 100 normalizedTotalAvailability
  let degraded := distributeLoad perPriorityDegraded healthy.2.2 normalizedTotalAvailability
  addRemainingLoad ⟨healthy.1, degraded.1⟩ healthy.2.1 degraded.2.1 degraded.2.2

/-- `recalculatePerPriorityState(priority, priority_set, ...)`: 変わった priority の health を計算し直し、
normalized total availability が正なら、すべての priority の load を計算し直す。0 なら load は
resize するだけで、前の値が残る。`priority` は priority set の中の値で呼ばれる。 -/
def recalculatePerPriorityState (priority : Nat) (prioritySet : List HostSet) (lb : LoadBalancerBase) :
    LoadBalancerBase :=
  let n := prioritySet.length
  let availability := (prioritySet[priority]?.map HostSet.availability).getD (0, 0)
  let perPriorityHealth := (resize lb.perPriorityHealth n 0).set priority availability.1
  let perPriorityDegraded := (resize lb.perPriorityDegraded n 0).set priority availability.2
  let normalizedTotalAvailability := calculateNormalizedTotalAvailability perPriorityHealth perPriorityDegraded
  { lb with
    perPriorityLoad :=
      if normalizedTotalAvailability = 0 then
        ⟨resize lb.perPriorityLoad.healthyPriorityLoad n 0, resize lb.perPriorityLoad.degradedPriorityLoad n 0⟩
      else distributeAllLoad perPriorityHealth perPriorityDegraded normalizedTotalAvailability,
    perPriorityHealth, perPriorityDegraded }

/-- `isHostSetInPanic(host_set)`: excluded を除いた host のうち healthy と degraded の割合（百分率）が
panic threshold に届かない。`panicThreshold` は runtime の `RuntimePanicThreshold` の値。 -/
def isHostSetInPanic (panicThreshold : Nat) (hostSet : HostSet) : Bool :=
  let globalPanicThreshold := min 100 panicThreshold
  let hostCount := hostSet.hosts.length - hostSet.excludedHosts.length
  let healthyPercent : ℚ := if hostCount = 0 then 0 else 100 * hostSet.healthyHosts.length / hostCount
  let degradedPercent : ℚ := if hostCount = 0 then 0 else 100 * hostSet.degradedHosts.length / hostCount
  decide (healthyPercent + degradedPercent < globalPanicThreshold)

/-- `recalculateLoadInTotalPanic()`: すべての priority が panic なら、health を見ずに host の数の割合で
load を決め、余りを host のある最初の priority に足す。host が一つも無ければ healthy の priority 0 を
100 にするだけで、他の load は残る。 -/
def recalculateLoadInTotalPanic (prioritySet : List HostSet) (lb : LoadBalancerBase) : LoadBalancerBase :=
  let totalHostsCount := (prioritySet.map (·.hosts.length)).sum
  if totalHostsCount = 0 then
    { lb with perPriorityLoad :=
        { lb.perPriorityLoad with healthyPriorityLoad := lb.perPriorityLoad.healthyPriorityLoad.set 0 100 } }
  else
    let priorityLoad := prioritySet.map fun hostSet => 100 * hostSet.hosts.length / totalHostsCount
    let firstNoempty := prioritySet.findIdx? (·.hosts.length ≠ 0)
    let totalLoad := 100 - priorityLoad.sum
    { lb with perPriorityLoad :=
        ⟨priorityLoad.modify (firstNoempty.getD 0) (· + totalLoad), List.replicate prioritySet.length 0⟩ }

/-- `recalculatePerPriorityPanic` の loop が決める各 priority の panic: normalized total availability が 100
なら panic にしない。 -/
def perPriorityPanicOf (prioritySet : List HostSet) (panicThreshold normalizedTotalAvailability : Nat) : List Bool :=
  prioritySet.map fun hostSet =>
    if normalizedTotalAvailability = 100 then false else isHostSetInPanic panicThreshold hostSet

/-- `recalculatePerPriorityPanic()`: panic threshold が 0 で availability も 0 なら、healthy の priority 0 を
100 にするだけ。そうでなければ各 priority の panic を決め、すべて panic なら
`recalculateLoadInTotalPanic`。 -/
def recalculatePerPriorityPanic (prioritySet : List HostSet) (panicThreshold : Nat) (lb : LoadBalancerBase) :
    LoadBalancerBase :=
  let normalizedTotalAvailability := calculateNormalizedTotalAvailability lb.perPriorityHealth lb.perPriorityDegraded
  if min 100 panicThreshold = 0 ∧ normalizedTotalAvailability = 0 then
    { lb with
      perPriorityPanic := resize lb.perPriorityPanic prioritySet.length false,
      perPriorityLoad :=
        { lb.perPriorityLoad with healthyPriorityLoad := lb.perPriorityLoad.healthyPriorityLoad.set 0 100 } }
  else
    let perPriorityPanic := perPriorityPanicOf prioritySet panicThreshold normalizedTotalAvailability
    let lb := { lb with perPriorityPanic }
    if perPriorityPanic.all id then recalculateLoadInTotalPanic prioritySet lb else lb

/-- 空の `LoadBalancerBase`。 -/
def LoadBalancerBase.empty : LoadBalancerBase := ⟨⟨[], []⟩, [], [], []⟩

/-- constructor: すべての priority の state を順に計算し、panic を計算する。 -/
def LoadBalancerBase.create (prioritySet : List HostSet) (panicThreshold : Nat) : LoadBalancerBase :=
  recalculatePerPriorityPanic prioritySet panicThreshold
    ((List.range prioritySet.length).foldl (fun lb priority => recalculatePerPriorityState priority prioritySet lb)
      LoadBalancerBase.empty)

/-- `processDirtyPriorities()`: 変わった priority の state を計算し直し、panic を計算する。変わった
priority が無ければ何もしない。更新ごとの callback は、一つの priority についての呼び出しである。 -/
def processDirtyPriorities (dirtyPriorities : List Nat) (prioritySet : List HostSet) (panicThreshold : Nat)
    (lb : LoadBalancerBase) : LoadBalancerBase :=
  if dirtyPriorities = [] then lb
  else
    recalculatePerPriorityPanic prioritySet panicThreshold
      (dirtyPriorities.foldl (fun lb priority => recalculatePerPriorityState priority prioritySet lb) lb)

/-! ## priority set と load balancer -/

/-- priority set と、それを見る load balancer。 -/
structure System where
  prioritySet : List HostSet
  lb : LoadBalancerBase

/-- 起こること: 幾つかの priority の host set の更新と、その後の load の計算（runtime の panic threshold
の下）、または host を選ぶ時の `choosePriority`。 -/
inductive Event where
  | update (changes : List (Nat × HostSet)) (panicThreshold : Nat)
  | choose (hash : Nat)

/-- 返すもの。 -/
inductive Output where
  | updated
  | chosen (result : Option (Nat × HostAvailability))
deriving DecidableEq, Repr

/-- host set を順に置き換える。 -/
def applyChanges (prioritySet : List HostSet) (changes : List (Nat × HostSet)) : List HostSet :=
  changes.foldl (fun ps c => ps.set c.1 c.2) prioritySet

/-- 一歩。 -/
def System.step (s : System) : Event → System × Output
  | .update changes panicThreshold =>
    let prioritySet := applyChanges s.prioritySet changes
    ({ prioritySet, lb := processDirtyPriorities (changes.map (·.1)) prioritySet panicThreshold s.lb }, .updated)
  | .choose hash =>
    (s, .chosen (choosePriority hash s.lb.perPriorityLoad.healthyPriorityLoad s.lb.perPriorityLoad.degradedPriorityLoad))

/-- 更新は priority set の中の priority だけ（priority の数は変わらない）。 -/
def System.Valid (s : System) : Event → Prop
  | .update changes _ => ∀ c ∈ changes, c.1 < s.prioritySet.length
  | .choose _ => True

/-- 作った直後の system。 -/
def System.create (prioritySet : List HostSet) (panicThreshold : Nat) : System :=
  ⟨prioritySet, LoadBalancerBase.create prioritySet panicThreshold⟩

end Envoy.Upstream
