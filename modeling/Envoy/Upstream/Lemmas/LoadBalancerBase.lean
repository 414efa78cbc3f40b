import Envoy.Upstream.LoadBalancerBase
import Envoy.Lib.Simulation

/-!
# priority の load の性質

`distributeLoad` は残りの load を超えて割り当てないので、割り当てた load と残りの和は初めの load に
等しい。余りを availability のある最初の priority に足すので、normalized total availability が正なら
healthy と degraded の load の和はちょうど 100 になる。`choosePriority` は load の累積の和で選ぶので、
和が 100 なら 100 の剰余のうち priority `p` を選ぶのはちょうど `load[p]` 個である。
-/

namespace Envoy.Upstream

open Cumulative

/-! ## list の補題 -/

theorem length_resize {α : Type _} (l : List α) (n : Nat) (a : α) : (resize l n a).length = n := by
  simp only [resize, List.length_append, List.length_take, List.length_replicate]
  omega

theorem mem_resize {α : Type _} {l : List α} {n : Nat} {a x : α} (hx : x ∈ resize l n a) : x ∈ l ∨ x = a := by
  rcases List.mem_append.mp hx with h | h
  · exact .inl (List.mem_of_mem_take h)
  · exact .inr (List.eq_of_mem_replicate h)

theorem getElem?_resize {α : Type _} (l : List α) {n i : Nat} (hi : i < n) (a : α) :
    (resize l n a)[i]? = some (l[i]?.getD a) := by
  by_cases hl : i < l.length
  · rw [resize, List.getElem?_append_left (by simp; omega), List.getElem?_take_of_lt hi,
      List.getElem?_eq_getElem hl]
    rfl
  · have htake : (l.take n).length = l.length := by simp; omega
    rw [resize, List.getElem?_append_right (by omega), htake, List.getElem?_replicate_of_lt (by omega),
      List.getElem?_eq_none (by omega)]
    rfl

theorem sum_modify_add {l : List Nat} {i : Nat} (hi : i < l.length) (r : Nat) :
    (l.modify i (· + r)).sum = l.sum + r := by
  induction l generalizing i with
  | nil => cases hi
  | cons x l ih =>
    cases i with
    | zero => simp only [List.modify_zero_cons, List.sum_cons]; omega
    | succ i =>
      simp only [List.modify_succ_cons, List.sum_cons, ih (by simpa using hi)]
      omega

theorem le_of_mem_of_sum_le {l : List Nat} {x n : Nat} (hx : x ∈ l) (hl : l.sum ≤ n) : x ≤ n :=
  le_trans (List.le_sum_of_mem hx) hl

/-- 位置が見つかるなら、その位置は列の中。 -/
theorem lt_length_of_findIdx? {α : Type _} {p : α → Bool} {l : List α} {i : Nat}
    (h : l.findIdx? p = some i) : i < l.length :=
  (List.findIdx?_eq_some_iff_findIdx_eq.mp h).1

/-! ## `distributeLoad` -/

section DistributeLoad

variable (norm : Nat)

theorem length_distributeLoadLoop (totalLoad : Nat) (availability : List Nat) :
    (distributeLoadLoop norm totalLoad availability).1.length = availability.length := by
  induction availability generalizing totalLoad with
  | nil => rfl
  | cons a rest ih => simp [distributeLoadLoop, ih]

/-- 割り当てた load と残りの和は、初めの `total_load`。 -/
theorem sum_distributeLoadLoop (totalLoad : Nat) (availability : List Nat) :
    (distributeLoadLoop norm totalLoad availability).1.sum + (distributeLoadLoop norm totalLoad availability).2 =
      totalLoad := by
  induction availability generalizing totalLoad with
  | nil => simp [distributeLoadLoop]
  | cons a rest ih =>
    have hrest := ih (totalLoad - min totalLoad (a * 100 / norm))
    simp only [distributeLoadLoop, List.sum_cons]
    omega

/-- 割り当ては `total_load` を超えない。 -/
theorem distributeLoad_sum (availability : List Nat) (totalLoad : Nat) :
    (distributeLoad availability totalLoad norm).1.sum + (distributeLoad availability totalLoad norm).2.2 =
      totalLoad :=
  sum_distributeLoadLoop norm totalLoad availability

theorem length_distributeLoad (availability : List Nat) (totalLoad : Nat) :
    (distributeLoad availability totalLoad norm).1.length = availability.length :=
  length_distributeLoadLoop norm totalLoad availability

/-- 見つけた最初の priority は、availability が正な priority である。 -/
theorem distributeLoad_first_lt {availability : List Nat} {totalLoad i : Nat}
    (h : (distributeLoad availability totalLoad norm).2.1 = some i) : i < availability.length :=
  lt_length_of_findIdx? h

/-- availability の和が正なら、最初の priority が見つかる。 -/
theorem distributeLoad_first_isSome {availability : List Nat} (totalLoad : Nat) (h : 0 < availability.sum) :
    (distributeLoad availability totalLoad norm).2.1.isSome := by
  obtain ⟨x, hx, hpos⟩ := List.sum_pos_iff_exists_pos_nat.mp h
  simp only [distributeLoad, List.findIdx?_isSome, List.any_eq_true, decide_eq_true_eq]
  exact ⟨x, hx, hpos⟩

end DistributeLoad

/-! ## 余りの load -/

/-- 余りを足すと、和は余りだけ増える（余りを受ける priority がある時）。 -/
theorem sum_addRemainingLoad {load : HealthyAndDegradedLoad} {firstHealthy firstDegraded : Option Nat}
    {remainingLoad : Nat} (hfirst : remainingLoad ≠ 0 → firstHealthy.isSome ∨ firstDegraded.isSome)
    (hh : ∀ i ∈ firstHealthy, i < load.healthyPriorityLoad.length)
    (hd : ∀ j ∈ firstDegraded, j < load.degradedPriorityLoad.length) :
    (addRemainingLoad load firstHealthy firstDegraded remainingLoad).healthyPriorityLoad.sum +
        (addRemainingLoad load firstHealthy firstDegraded remainingLoad).degradedPriorityLoad.sum =
      load.healthyPriorityLoad.sum + load.degradedPriorityLoad.sum + remainingLoad := by
  unfold addRemainingLoad
  by_cases hr : remainingLoad = 0
  · simp [hr]
  · rw [if_pos hr]
    rcases firstHealthy with _ | i
    · rcases firstDegraded with _ | j
      · simp only [Option.isSome_none, Bool.false_eq_true, or_self, imp_false, not_not] at hfirst
        exact absurd hfirst hr
      · simp only [sum_modify_add (hd j rfl)]
        omega
    · simp only [sum_modify_add (hh i rfl)]
      omega

theorem length_addRemainingLoad (load : HealthyAndDegradedLoad) (firstHealthy firstDegraded : Option Nat)
    (remainingLoad : Nat) :
    (addRemainingLoad load firstHealthy firstDegraded remainingLoad).healthyPriorityLoad.length =
        load.healthyPriorityLoad.length ∧
      (addRemainingLoad load firstHealthy firstDegraded remainingLoad).degradedPriorityLoad.length =
        load.degradedPriorityLoad.length := by
  unfold addRemainingLoad
  split
  · split <;> simp
  · exact ⟨rfl, rfl⟩

/-- normalized total availability が正なら、割り当てた load の和は 100。 -/
theorem sum_distributeAllLoad {health degraded : List Nat}
    (h : 0 < calculateNormalizedTotalAvailability health degraded) :
    (distributeAllLoad health degraded (calculateNormalizedTotalAvailability health degraded)).healthyPriorityLoad.sum +
        (distributeAllLoad health degraded
          (calculateNormalizedTotalAvailability health degraded)).degradedPriorityLoad.sum = 100 := by
  set norm := calculateNormalizedTotalAvailability health degraded with hnorm
  have hH := distributeLoad_sum norm health 100
  have hD := distributeLoad_sum norm degraded (distributeLoad health 100 norm).2.2
  -- availability の和が正なので、余りを受ける priority がある
  have hfirst : (distributeLoad degraded (distributeLoad health 100 norm).2.2 norm).2.2 ≠ 0 →
      (distributeLoad health 100 norm).2.1.isSome ∨
        (distributeLoad degraded (distributeLoad health 100 norm).2.2 norm).2.1.isSome := by
    intro _
    have hpos : 0 < health.sum ∨ 0 < degraded.sum := by
      simp only [hnorm, calculateNormalizedTotalAvailability] at h
      omega
    rcases hpos with hpos | hpos
    · exact .inl (distributeLoad_first_isSome norm 100 hpos)
    · exact .inr (distributeLoad_first_isSome norm _ hpos)
  rw [distributeAllLoad, sum_addRemainingLoad hfirst
    (fun i hi => (length_distributeLoad norm health 100).symm ▸ distributeLoad_first_lt norm hi)
    (fun j hj => (length_distributeLoad norm degraded _).symm ▸ distributeLoad_first_lt norm hj)]
  dsimp only
  omega

theorem length_distributeAllLoad (health degraded : List Nat) (norm : Nat) :
    (distributeAllLoad health degraded norm).healthyPriorityLoad.length = health.length ∧
      (distributeAllLoad health degraded norm).degradedPriorityLoad.length = degraded.length := by
  rw [distributeAllLoad, (length_addRemainingLoad _ _ _ _).1, (length_addRemainingLoad _ _ _ _).2]
  exact ⟨length_distributeLoad norm health 100, length_distributeLoad norm degraded _⟩

/-! ## `recalculatePerPriorityState` -/

section Recalculate

variable (priority : Nat) (prioritySet : List HostSet) (lb : LoadBalancerBase)

/-- 計算し直した priority の availability。 -/
def recalculatedAvailability : Nat × Nat := (prioritySet[priority]?.map HostSet.availability).getD (0, 0)

@[simp] theorem perPriorityHealth_recalculate :
    (recalculatePerPriorityState priority prioritySet lb).perPriorityHealth =
      (resize lb.perPriorityHealth prioritySet.length 0).set priority
        (recalculatedAvailability priority prioritySet).1 := rfl

@[simp] theorem perPriorityDegraded_recalculate :
    (recalculatePerPriorityState priority prioritySet lb).perPriorityDegraded =
      (resize lb.perPriorityDegraded prioritySet.length 0).set priority
        (recalculatedAvailability priority prioritySet).2 := rfl

@[simp] theorem perPriorityPanic_recalculate :
    (recalculatePerPriorityState priority prioritySet lb).perPriorityPanic = lb.perPriorityPanic := rfl

/-- 計算し直した load: normalized total availability が 0 なら resize した前の load。 -/
theorem perPriorityLoad_recalculate :
    (recalculatePerPriorityState priority prioritySet lb).perPriorityLoad =
      let lb' := recalculatePerPriorityState priority prioritySet lb
      if calculateNormalizedTotalAvailability lb'.perPriorityHealth lb'.perPriorityDegraded = 0 then
        ⟨resize lb.perPriorityLoad.healthyPriorityLoad prioritySet.length 0,
          resize lb.perPriorityLoad.degradedPriorityLoad prioritySet.length 0⟩
      else distributeAllLoad lb'.perPriorityHealth lb'.perPriorityDegraded
        (calculateNormalizedTotalAvailability lb'.perPriorityHealth lb'.perPriorityDegraded) := rfl

/-- 計算し直した後の availability が正なら、load の和は 100。 -/
theorem sum_recalculate
    (h : 0 < calculateNormalizedTotalAvailability (recalculatePerPriorityState priority prioritySet lb).perPriorityHealth
      (recalculatePerPriorityState priority prioritySet lb).perPriorityDegraded) :
    (recalculatePerPriorityState priority prioritySet lb).perPriorityLoad.healthyPriorityLoad.sum +
      (recalculatePerPriorityState priority prioritySet lb).perPriorityLoad.degradedPriorityLoad.sum = 100 := by
  rw [perPriorityLoad_recalculate]
  dsimp only
  rw [if_neg (Nat.pos_iff_ne_zero.mp h)]
  exact sum_distributeAllLoad h

/-- 計算し直した load の長さは priority の数。 -/
theorem length_recalculate :
    (recalculatePerPriorityState priority prioritySet lb).perPriorityLoad.healthyPriorityLoad.length =
        prioritySet.length ∧
      (recalculatePerPriorityState priority prioritySet lb).perPriorityLoad.degradedPriorityLoad.length =
        prioritySet.length ∧
      (recalculatePerPriorityState priority prioritySet lb).perPriorityHealth.length = prioritySet.length ∧
      (recalculatePerPriorityState priority prioritySet lb).perPriorityDegraded.length = prioritySet.length := by
  refine ⟨?_, ?_, by simp [length_resize], by simp [length_resize]⟩ <;>
  · rw [perPriorityLoad_recalculate]
    dsimp only
    split
    · simp [length_resize]
    · simp [length_distributeAllLoad, length_resize]

theorem recalculatedAvailability_of_lt {priority : Nat} {prioritySet : List HostSet}
    (h : priority < prioritySet.length) :
    recalculatedAvailability priority prioritySet = prioritySet[priority].availability := by
  simp [recalculatedAvailability, List.getElem?_eq_getElem h]

/-- 計算し直した priority の health と degraded はその host set のもの、他の priority は前の値
（無ければ 0）。 -/
theorem getElem?_recalculate {i : Nat} (hi : i < prioritySet.length) :
    (recalculatePerPriorityState priority prioritySet lb).perPriorityHealth[i]? =
        some (if i = priority then prioritySet[i].availability.1 else lb.perPriorityHealth[i]?.getD 0) ∧
      (recalculatePerPriorityState priority prioritySet lb).perPriorityDegraded[i]? =
        some (if i = priority then prioritySet[i].availability.2 else lb.perPriorityDegraded[i]?.getD 0) := by
  simp only [perPriorityHealth_recalculate, perPriorityDegraded_recalculate, List.getElem?_set, length_resize,
    getElem?_resize _ hi]
  by_cases hip : i = priority
  · subst hip
    simp [hi, recalculatedAvailability_of_lt hi]
  · simp [hip, Ne.symm hip]

end Recalculate

/-- load がすべて 100 以下。 -/
def HealthyAndDegradedLoad.Bounded (load : HealthyAndDegradedLoad) : Prop :=
  ∀ x ∈ load.healthyPriorityLoad ++ load.degradedPriorityLoad, x ≤ 100

/-- 和が 100 の load は、すべて 100 以下。 -/
theorem HealthyAndDegradedLoad.bounded_of_sum {load : HealthyAndDegradedLoad}
    (h : load.healthyPriorityLoad.sum + load.degradedPriorityLoad.sum = 100) : load.Bounded := fun _ hx =>
  le_of_mem_of_sum_le hx (by rw [List.sum_append, h])

/-- healthy の priority 0 を 100 にしても、100 以下のまま。 -/
theorem bounded_set_zero {load : HealthyAndDegradedLoad} (h : load.Bounded) :
    HealthyAndDegradedLoad.Bounded { load with healthyPriorityLoad := load.healthyPriorityLoad.set 0 100 } := by
  intro x hx
  rcases List.mem_append.mp hx with hx | hx
  · rcases List.mem_or_eq_of_mem_set hx with hx | rfl
    · exact h x (List.mem_append_left _ hx)
    · exact le_rfl
  · exact h x (List.mem_append_right _ hx)

theorem bounded_resize {load : HealthyAndDegradedLoad} (h : load.Bounded) (n : Nat) :
    HealthyAndDegradedLoad.Bounded ⟨resize load.healthyPriorityLoad n 0, resize load.degradedPriorityLoad n 0⟩ := by
  intro x hx
  rcases List.mem_append.mp hx with hx | hx <;> rcases mem_resize hx with hx | rfl
  · exact h x (List.mem_append_left _ hx)
  · exact Nat.zero_le _
  · exact h x (List.mem_append_right _ hx)
  · exact Nat.zero_le _

theorem bounded_recalculate {lb : LoadBalancerBase} (h : lb.perPriorityLoad.Bounded) (priority : Nat)
    (prioritySet : List HostSet) : (recalculatePerPriorityState priority prioritySet lb).perPriorityLoad.Bounded := by
  by_cases hz : calculateNormalizedTotalAvailability (recalculatePerPriorityState priority prioritySet lb).perPriorityHealth
      (recalculatePerPriorityState priority prioritySet lb).perPriorityDegraded = 0
  · rw [perPriorityLoad_recalculate]
    dsimp only
    rw [if_pos hz]
    exact bounded_resize h _
  · exact HealthyAndDegradedLoad.bounded_of_sum (sum_recalculate priority prioritySet lb (Nat.pos_of_ne_zero hz))

/-! ## 変わった priority を順に計算し直す -/

section Fold

variable (prioritySet : List HostSet)

/-- 最後に計算し直した priority が、load を決める。 -/
theorem foldl_recalculate_eq (priority : Nat) (ds : List Nat) (lb : LoadBalancerBase) :
    ∃ q lb', ds.foldl (fun lb priority => recalculatePerPriorityState priority prioritySet lb)
      (recalculatePerPriorityState priority prioritySet lb) = recalculatePerPriorityState q prioritySet lb' := by
  induction ds generalizing priority lb with
  | nil => exact ⟨priority, lb, rfl⟩
  | cons d ds ih => exact ih d (recalculatePerPriorityState priority prioritySet lb)

theorem bounded_foldl_recalculate (ds : List Nat) {lb : LoadBalancerBase} (h : lb.perPriorityLoad.Bounded) :
    (ds.foldl (fun lb priority => recalculatePerPriorityState priority prioritySet lb) lb).perPriorityLoad.Bounded := by
  induction ds generalizing lb with
  | nil => exact h
  | cons d ds ih => exact ih (bounded_recalculate h d prioritySet)

/-- 計算し直した priority の health と degraded はその host set のもの、他の priority は初めの値。 -/
theorem getElem?_foldl_recalculate (priority : Nat) (ds : List Nat) (lb : LoadBalancerBase) {i : Nat}
    (hi : i < prioritySet.length) :
    (ds.foldl (fun lb priority => recalculatePerPriorityState priority prioritySet lb)
        (recalculatePerPriorityState priority prioritySet lb)).perPriorityHealth[i]? =
        some (if i ∈ priority :: ds then prioritySet[i].availability.1 else lb.perPriorityHealth[i]?.getD 0) ∧
      (ds.foldl (fun lb priority => recalculatePerPriorityState priority prioritySet lb)
        (recalculatePerPriorityState priority prioritySet lb)).perPriorityDegraded[i]? =
        some (if i ∈ priority :: ds then prioritySet[i].availability.2 else lb.perPriorityDegraded[i]?.getD 0) := by
  induction ds generalizing priority lb with
  | nil => simpa using getElem?_recalculate priority prioritySet lb hi
  | cons d ds ih =>
    obtain ⟨hh, hd⟩ := ih d (recalculatePerPriorityState priority prioritySet lb)
    obtain ⟨hh₁, hd₁⟩ := getElem?_recalculate priority prioritySet lb hi
    simp only [List.foldl_cons, hh, hd, hh₁, hd₁, Option.getD_some, List.mem_cons]
    by_cases hid : i = d
    · simp [hid]
    · by_cases hip : i = priority <;> simp [hid, hip]

end Fold

/-! ## panic -/

/-- host の無い host set の availability は 0。 -/
theorem availability_of_hosts_eq_nil {hostSet : HostSet} (h : hostSet.hosts = []) :
    hostSet.availability = (0, 0) := by
  have hex : hostSet.excludedHosts = [] := List.eq_nil_of_sublist_nil (h ▸ hostSet.excluded_sublist)
  simp [HostSet.availability, h, hex]

/-- 切り捨ての割合の和は、和の割合を越えない。 -/
theorem sum_map_mul_div_le (c T : Nat) (l : List Nat) : (l.map fun x => c * x / T).sum ≤ c * l.sum / T := by
  induction l with
  | nil => simp
  | cons x l ih =>
    simp only [List.map_cons, List.sum_cons, Nat.mul_add]
    exact le_trans (Nat.add_le_add_left ih _) Nat.div_add_div_le_add_div

section Panic

variable (prioritySet : List HostSet) (lb : LoadBalancerBase)

/-- host があれば、host の数の割合の load の和は 100。 -/
theorem sum_recalculateLoadInTotalPanic (hT : 0 < (prioritySet.map (·.hosts.length)).sum) :
    (recalculateLoadInTotalPanic prioritySet lb).perPriorityLoad.healthyPriorityLoad.sum +
        (recalculateLoadInTotalPanic prioritySet lb).perPriorityLoad.degradedPriorityLoad.sum = 100 := by
  set T := (prioritySet.map (·.hosts.length)).sum with hTdef
  have hle : (prioritySet.map fun hostSet => 100 * hostSet.hosts.length / T).sum ≤ 100 := by
    have h := sum_map_mul_div_le 100 T (prioritySet.map (·.hosts.length))
    rw [List.map_map, ← hTdef, Nat.mul_div_cancel _ hT] at h
    exact h
  -- host のある最初の priority が、余りを受ける
  obtain ⟨i, hi⟩ : ∃ i, prioritySet.findIdx? (·.hosts.length ≠ 0) = some i := by
    obtain ⟨x, hx, hpos⟩ := List.sum_pos_iff_exists_pos_nat.mp hT
    obtain ⟨hs, hhs, rfl⟩ := List.mem_map.mp hx
    exact Option.isSome_iff_exists.mp (List.findIdx?_isSome.trans (List.any_eq_true.mpr ⟨hs, hhs, by simpa using hpos.ne'⟩))
  have hlt : i < (prioritySet.map fun hostSet => 100 * hostSet.hosts.length / T).length := by
    simpa using lt_length_of_findIdx? hi
  simp only [recalculateLoadInTotalPanic, ← hTdef, if_neg hT.ne', hi, Option.getD_some, sum_modify_add hlt,
    List.sum_replicate, smul_eq_mul, mul_zero, add_zero]
  omega

theorem length_recalculateLoadInTotalPanic {n : Nat} (hn : prioritySet.length = n)
    (hh : lb.perPriorityLoad.healthyPriorityLoad.length = n) :
    (recalculateLoadInTotalPanic prioritySet lb).perPriorityLoad.healthyPriorityLoad.length = n ∧
      (recalculateLoadInTotalPanic prioritySet lb).perPriorityLoad.degradedPriorityLoad.length =
        if (prioritySet.map (·.hosts.length)).sum = 0 then lb.perPriorityLoad.degradedPriorityLoad.length else n := by
  unfold recalculateLoadInTotalPanic
  split <;> simp [*]

theorem bounded_recalculateLoadInTotalPanic (h : lb.perPriorityLoad.Bounded) :
    (recalculateLoadInTotalPanic prioritySet lb).perPriorityLoad.Bounded := by
  by_cases hT : (prioritySet.map (·.hosts.length)).sum = 0
  · -- host が無ければ priority 0 を 100 にするだけ
    simp only [recalculateLoadInTotalPanic, if_pos hT]
    exact bounded_set_zero h
  · exact HealthyAndDegradedLoad.bounded_of_sum
      (sum_recalculateLoadInTotalPanic prioritySet lb (Nat.pos_of_ne_zero hT))

@[simp] theorem perPriorityHealth_recalculateLoadInTotalPanic :
    (recalculateLoadInTotalPanic prioritySet lb).perPriorityHealth = lb.perPriorityHealth := by
  unfold recalculateLoadInTotalPanic; dsimp only; split <;> rfl

@[simp] theorem perPriorityDegraded_recalculateLoadInTotalPanic :
    (recalculateLoadInTotalPanic prioritySet lb).perPriorityDegraded = lb.perPriorityDegraded := by
  unfold recalculateLoadInTotalPanic; dsimp only; split <;> rfl

variable (panicThreshold : Nat)

/-- panic の計算がすること: availability が 0 で priority 0 を 100 にするか、すべて panic で
`recalculateLoadInTotalPanic` か、panic を決めるだけ。 -/
theorem recalculatePanic_cases :
    (calculateNormalizedTotalAvailability lb.perPriorityHealth lb.perPriorityDegraded = 0 ∧
      recalculatePerPriorityPanic prioritySet panicThreshold lb =
        { lb with
          perPriorityPanic := resize lb.perPriorityPanic prioritySet.length false,
          perPriorityLoad :=
            { lb.perPriorityLoad with healthyPriorityLoad := lb.perPriorityLoad.healthyPriorityLoad.set 0 100 } }) ∨
    (∃ panic, recalculatePerPriorityPanic prioritySet panicThreshold lb =
      recalculateLoadInTotalPanic prioritySet { lb with perPriorityPanic := panic }) ∨
    (∃ panic, recalculatePerPriorityPanic prioritySet panicThreshold lb = { lb with perPriorityPanic := panic }) := by
  unfold recalculatePerPriorityPanic
  dsimp only
  split
  case isTrue h => exact .inl ⟨h.2, rfl⟩
  case isFalse =>
    split
    · exact .inr (.inl ⟨_, rfl⟩)
    · exact .inr (.inr ⟨_, rfl⟩)

@[simp] theorem perPriorityHealth_recalculatePanic :
    (recalculatePerPriorityPanic prioritySet panicThreshold lb).perPriorityHealth = lb.perPriorityHealth := by
  rcases recalculatePanic_cases prioritySet lb panicThreshold with ⟨-, h⟩ | ⟨_, h⟩ | ⟨_, h⟩ <;> simp [h]

@[simp] theorem perPriorityDegraded_recalculatePanic :
    (recalculatePerPriorityPanic prioritySet panicThreshold lb).perPriorityDegraded = lb.perPriorityDegraded := by
  rcases recalculatePanic_cases prioritySet lb panicThreshold with ⟨-, h⟩ | ⟨_, h⟩ | ⟨_, h⟩ <;> simp [h]

/-- panic の計算は、load が priority の数だけあればその長さを変えない。 -/
theorem length_recalculatePanic {n : Nat} (hn : prioritySet.length = n)
    (hh : lb.perPriorityLoad.healthyPriorityLoad.length = n) (hd : lb.perPriorityLoad.degradedPriorityLoad.length = n) :
    (recalculatePerPriorityPanic prioritySet panicThreshold lb).perPriorityLoad.healthyPriorityLoad.length = n ∧
      (recalculatePerPriorityPanic prioritySet panicThreshold lb).perPriorityLoad.degradedPriorityLoad.length = n := by
  rcases recalculatePanic_cases prioritySet lb panicThreshold with ⟨-, h⟩ | ⟨panic, h⟩ | ⟨_, h⟩
  · simp [h, hh, hd]
  · have hl := length_recalculateLoadInTotalPanic prioritySet { lb with perPriorityPanic := panic } hn hh
    rw [h]
    refine ⟨hl.1, ?_⟩
    rw [hl.2]
    split <;> simp [hd]
  · simp [h, hh, hd]

theorem bounded_recalculatePanic (h : lb.perPriorityLoad.Bounded) :
    (recalculatePerPriorityPanic prioritySet panicThreshold lb).perPriorityLoad.Bounded := by
  rcases recalculatePanic_cases prioritySet lb panicThreshold with ⟨-, he⟩ | ⟨panic, he⟩ | ⟨_, he⟩
  · rw [he]
    exact bounded_set_zero h
  · rw [he]
    exact bounded_recalculateLoadInTotalPanic prioritySet _ h
  · rw [he]
    exact h

/-- availability が正なら host がある。 -/
theorem hosts_pos_of_availability
    (h : 0 < calculateNormalizedTotalAvailability (prioritySet.map (·.availability.1))
      (prioritySet.map (·.availability.2))) :
    0 < (prioritySet.map (·.hosts.length)).sum := by
  by_contra hT
  have hnil : ∀ hostSet ∈ prioritySet, hostSet.hosts = [] := fun hostSet hs =>
    List.length_eq_zero_iff.mp (List.sum_eq_zero_iff.mp (Nat.eq_zero_of_not_pos hT) _ (List.mem_map_of_mem hs))
  have hzero : ∀ hostSet ∈ prioritySet, hostSet.availability = (0, 0) := fun hostSet hs =>
    availability_of_hosts_eq_nil (hnil hostSet hs)
  have h1 : (prioritySet.map (·.availability.1)).sum = 0 :=
    List.sum_eq_zero_iff.mpr fun x hx => by
      obtain ⟨hostSet, hs, rfl⟩ := List.mem_map.mp hx
      simp [hzero hostSet hs]
  have h2 : (prioritySet.map (·.availability.2)).sum = 0 :=
    List.sum_eq_zero_iff.mpr fun x hx => by
      obtain ⟨hostSet, hs, rfl⟩ := List.mem_map.mp hx
      simp [hzero hostSet hs]
  simp [calculateNormalizedTotalAvailability, h1, h2] at h

/-- health と degraded が host set のもので availability が正なら、panic の計算の後も load の和は 100。 -/
theorem sum_recalculatePanic (hhealth : lb.perPriorityHealth = prioritySet.map (·.availability.1))
    (hdegraded : lb.perPriorityDegraded = prioritySet.map (·.availability.2))
    (hpos : 0 < calculateNormalizedTotalAvailability lb.perPriorityHealth lb.perPriorityDegraded)
    (hsum : lb.perPriorityLoad.healthyPriorityLoad.sum + lb.perPriorityLoad.degradedPriorityLoad.sum = 100) :
    (recalculatePerPriorityPanic prioritySet panicThreshold lb).perPriorityLoad.healthyPriorityLoad.sum +
      (recalculatePerPriorityPanic prioritySet panicThreshold lb).perPriorityLoad.degradedPriorityLoad.sum = 100 := by
  rcases recalculatePanic_cases prioritySet lb panicThreshold with ⟨hz, -⟩ | ⟨panic, he⟩ | ⟨panic, he⟩
  · omega
  · -- すべて panic: availability が正なので host がある
    rw [he]
    rw [hhealth, hdegraded] at hpos
    exact sum_recalculateLoadInTotalPanic prioritySet _ (hosts_pos_of_availability prioritySet hpos)
  · rw [he]
    exact hsum

end Panic

/-! ## `choosePriority` -/

section Choose

variable {hash p : Nat} {healthy degraded : List Nat}

theorem choosePriority_eq_healthy_iff :
    choosePriority hash healthy degraded = some (p, .healthy) ↔ find (hash % 100 + 1) 0 0 healthy = .inr p := by
  unfold choosePriority
  dsimp only
  cases find (hash % 100 + 1) 0 0 healthy with
  | inr q => simp
  | inl a =>
    simp only [reduceCtorEq, iff_false]
    split <;> simp

theorem choosePriority_eq_degraded_iff :
    choosePriority hash healthy degraded = some (p, .degraded) ↔
      healthy.sum < hash % 100 + 1 ∧ find (hash % 100 + 1) healthy.sum 0 degraded = .inr p := by
  unfold choosePriority
  dsimp only
  cases hf : find (hash % 100 + 1) 0 0 healthy with
  | inr q =>
    -- healthy の load で届いたので、healthy の和は `hash % 100 + 1` 以上
    obtain ⟨-, -, hle⟩ := (find_eq_inr_iff (Nat.succ_pos _)).mp hf
    have htake := (List.take_sublist (q + 1) healthy).sum_le_sum fun _ _ => Nat.zero_le _
    simp only [Option.some.injEq, Prod.mk.injEq, reduceCtorEq, and_false, false_iff, not_and]
    intro hlt
    omega
  | inl a =>
    have ha := find_eq_inl hf
    have hlt := sum_lt_of_find_eq_inl (Nat.succ_pos _) hf
    simp only [zero_add] at ha hlt
    subst ha
    simp only [hlt, true_and]
    split <;> simp_all

/-- load の和が 100 なら、`choosePriority` は `IS_ENVOY_BUG` に至らない。 -/
theorem choosePriority_isSome (h : healthy.sum + degraded.sum = 100) (hash : Nat) :
    (choosePriority hash healthy degraded).isSome := by
  unfold choosePriority
  dsimp only
  cases hf : find (hash % 100 + 1) 0 0 healthy with
  | inr q => rfl
  | inl a =>
    have ha := find_eq_inl hf
    have hlt := sum_lt_of_find_eq_inl (Nat.succ_pos _) hf
    simp only [zero_add] at ha hlt
    subst ha
    have hmod := Nat.mod_lt hash (show 0 < 100 by norm_num)
    obtain ⟨j, hj⟩ := find_isRight (l := degraded) hlt (by omega)
    simp [hj]

/-- load の和が 100 なら、100 の剰余のうち healthy の priority `p` を選ぶのは `healthy[p]` 個。 -/
theorem card_choosePriority_healthy (h : healthy.sum + degraded.sum = 100) (hp : p < healthy.length) :
    ((Finset.range 100).filter fun r => choosePriority r healthy degraded = some (p, .healthy)).card = healthy[p] := by
  rw [← card_find_eq (show 0 + healthy.sum ≤ 100 by omega) hp]
  congr 1
  apply Finset.filter_congr
  intro r hr
  rw [choosePriority_eq_healthy_iff, Nat.mod_eq_of_lt (Finset.mem_range.mp hr)]
  exact ⟨fun hf => ⟨Nat.succ_pos _, hf⟩, And.right⟩

/-- load の和が 100 なら、100 の剰余のうち degraded の priority `p` を選ぶのは `degraded[p]` 個。 -/
theorem card_choosePriority_degraded (h : healthy.sum + degraded.sum = 100) (hp : p < degraded.length) :
    ((Finset.range 100).filter fun r => choosePriority r healthy degraded = some (p, .degraded)).card =
      degraded[p] := by
  rw [← card_find_eq (show healthy.sum + degraded.sum ≤ 100 by omega) hp]
  congr 1
  apply Finset.filter_congr
  intro r hr
  rw [choosePriority_eq_degraded_iff, Nat.mod_eq_of_lt (Finset.mem_range.mp hr)]

end Choose

/-! ## 更新の列を通した不変条件 -/

theorem length_applyChanges (prioritySet : List HostSet) (changes : List (Nat × HostSet)) :
    (applyChanges prioritySet changes).length = prioritySet.length := by
  induction changes generalizing prioritySet with
  | nil => rfl
  | cons c changes ih => rw [applyChanges, List.foldl_cons, ← applyChanges, ih, List.length_set]

/-- 変えない priority の host set は変わらない。 -/
theorem getElem?_applyChanges_of_not_mem {prioritySet : List HostSet} {changes : List (Nat × HostSet)} {i : Nat}
    (hi : i ∉ changes.map (·.1)) : (applyChanges prioritySet changes)[i]? = prioritySet[i]? := by
  induction changes generalizing prioritySet with
  | nil => rfl
  | cons c changes ih =>
    simp only [List.map_cons, List.mem_cons, not_or] at hi
    rw [applyChanges, List.foldl_cons, ← applyChanges, ih hi.2, List.getElem?_set_ne (Ne.symm hi.1)]

/-- 不変条件: health と degraded は今の host set のもの、load は priority の数だけあってどれも 100 以下、
normalized total availability が正なら和は 100。 -/
structure Inv (s : System) : Prop where
  health : s.lb.perPriorityHealth = s.prioritySet.map (·.availability.1)
  degraded : s.lb.perPriorityDegraded = s.prioritySet.map (·.availability.2)
  length_healthy : s.lb.perPriorityLoad.healthyPriorityLoad.length = s.prioritySet.length
  length_degraded : s.lb.perPriorityLoad.degradedPriorityLoad.length = s.prioritySet.length
  bounded : s.lb.perPriorityLoad.Bounded
  sum : 0 < calculateNormalizedTotalAvailability s.lb.perPriorityHealth s.lb.perPriorityDegraded →
    s.lb.perPriorityLoad.healthyPriorityLoad.sum + s.lb.perPriorityLoad.degradedPriorityLoad.sum = 100

/-- 幾つかの priority を計算し直して panic を計算すると、計算し直さない priority の health と degraded が
host set のものなら、不変条件が成り立つ。 -/
theorem inv_recalculate (prioritySet : List HostSet) (panicThreshold : Nat) (priority : Nat) (ds : List Nat)
    (lb : LoadBalancerBase) (hbounded : lb.perPriorityLoad.Bounded)
    (hagree : ∀ i (hi : i < prioritySet.length), i ∉ priority :: ds →
      lb.perPriorityHealth[i]?.getD 0 = prioritySet[i].availability.1 ∧
        lb.perPriorityDegraded[i]?.getD 0 = prioritySet[i].availability.2) :
    Inv ⟨prioritySet, recalculatePerPriorityPanic prioritySet panicThreshold
      (ds.foldl (fun lb priority => recalculatePerPriorityState priority prioritySet lb)
        (recalculatePerPriorityState priority prioritySet lb))⟩ := by
  set lb₁ := ds.foldl (fun lb priority => recalculatePerPriorityState priority prioritySet lb)
    (recalculatePerPriorityState priority prioritySet lb) with hlb₁
  obtain ⟨q, lb', hlast⟩ := foldl_recalculate_eq prioritySet priority ds lb
  rw [← hlb₁] at hlast
  have hlen := length_recalculate q prioritySet lb'
  rw [← hlast] at hlen
  -- health と degraded は、計算し直した priority でも他でも host set のもの
  have hpoint : ∀ i : Nat, lb₁.perPriorityHealth[i]? = (prioritySet.map (·.availability.1))[i]? ∧
      lb₁.perPriorityDegraded[i]? = (prioritySet.map (·.availability.2))[i]? := by
    intro i
    by_cases hi : i < prioritySet.length
    · obtain ⟨hh, hd⟩ := getElem?_foldl_recalculate prioritySet priority ds lb hi
      rw [← hlb₁] at hh hd
      simp only [hh, hd, List.getElem?_map, List.getElem?_eq_getElem hi, Option.map_some]
      by_cases hmem : i ∈ priority :: ds
      · simp [hmem]
      · simp [hmem, (hagree i hi hmem).1, (hagree i hi hmem).2]
    · have hm₁ : (prioritySet.map (·.availability.1)).length ≤ i := by simp; omega
      have hm₂ : (prioritySet.map (·.availability.2)).length ≤ i := by simp; omega
      rw [List.getElem?_eq_none (show lb₁.perPriorityHealth.length ≤ i by omega), List.getElem?_eq_none hm₁,
        List.getElem?_eq_none (show lb₁.perPriorityDegraded.length ≤ i by omega), List.getElem?_eq_none hm₂]
      exact ⟨rfl, rfl⟩
  have hhealth : lb₁.perPriorityHealth = prioritySet.map (·.availability.1) :=
    List.ext_getElem? fun i => (hpoint i).1
  have hdegraded : lb₁.perPriorityDegraded = prioritySet.map (·.availability.2) :=
    List.ext_getElem? fun i => (hpoint i).2
  have hlenP := length_recalculatePanic prioritySet lb₁ panicThreshold rfl hlen.1 hlen.2.1
  refine ⟨by simp [hhealth], by simp [hdegraded], hlenP.1, hlenP.2,
    bounded_recalculatePanic prioritySet lb₁ panicThreshold
      (bounded_foldl_recalculate prioritySet ds (bounded_recalculate hbounded priority prioritySet)), ?_⟩
  -- 最後に計算し直した priority の load の和が 100
  intro hpos
  simp only [perPriorityHealth_recalculatePanic, perPriorityDegraded_recalculatePanic] at hpos
  have hsum := sum_recalculate q prioritySet lb' (hlast ▸ hpos)
  rw [← hlast] at hsum
  exact sum_recalculatePanic prioritySet lb₁ panicThreshold hhealth hdegraded hpos hsum

theorem processDirtyPriorities_cons (priority : Nat) (ds : List Nat) (prioritySet : List HostSet)
    (panicThreshold : Nat) (lb : LoadBalancerBase) :
    processDirtyPriorities (priority :: ds) prioritySet panicThreshold lb =
      recalculatePerPriorityPanic prioritySet panicThreshold
        (ds.foldl (fun lb priority => recalculatePerPriorityState priority prioritySet lb)
          (recalculatePerPriorityState priority prioritySet lb)) := by
  rw [processDirtyPriorities, if_neg (List.cons_ne_nil _ _), List.foldl_cons]

/-- 作った直後の system は不変条件を満たす。 -/
theorem inv_create (prioritySet : List HostSet) (panicThreshold : Nat) :
    Inv (System.create prioritySet panicThreshold) := by
  cases hn : prioritySet.length with
  | zero =>
    -- priority が無ければ load は空のまま
    have hnil := List.length_eq_zero_iff.mp hn
    subst hnil
    have hload : (LoadBalancerBase.create [] panicThreshold).perPriorityLoad = ⟨[], []⟩ := by
      show (recalculatePerPriorityPanic [] panicThreshold LoadBalancerBase.empty).perPriorityLoad = ⟨[], []⟩
      rcases recalculatePanic_cases [] LoadBalancerBase.empty panicThreshold with ⟨-, h⟩ | ⟨_, h⟩ | ⟨_, h⟩ <;>
        rw [h] <;> simp [LoadBalancerBase.empty, recalculateLoadInTotalPanic]
    have hhealth : (LoadBalancerBase.create [] panicThreshold).perPriorityHealth = [] := by
      simp [LoadBalancerBase.create, LoadBalancerBase.empty]
    have hdegraded : (LoadBalancerBase.create [] panicThreshold).perPriorityDegraded = [] := by
      simp [LoadBalancerBase.create, LoadBalancerBase.empty]
    have hbounded : (LoadBalancerBase.create [] panicThreshold).perPriorityLoad.Bounded := by
      rw [hload]
      nofun
    have hsum : ¬ 0 < calculateNormalizedTotalAvailability (LoadBalancerBase.create [] panicThreshold).perPriorityHealth
        (LoadBalancerBase.create [] panicThreshold).perPriorityDegraded := by
      rw [hhealth, hdegraded]
      decide
    exact ⟨hhealth, hdegraded, by rw [System.create, hload]; rfl, by rw [System.create, hload]; rfl, hbounded,
      fun h => absurd h hsum⟩
  | succ n =>
    have hrange : List.range prioritySet.length = 0 :: (List.range n).map (· + 1) := by
      rw [hn, List.range_succ_eq_map]
    have h := inv_recalculate prioritySet panicThreshold 0 ((List.range n).map (· + 1)) LoadBalancerBase.empty
      (by simp [HealthyAndDegradedLoad.Bounded, LoadBalancerBase.empty])
      (fun i hi hmem => absurd (hrange ▸ List.mem_range.mpr hi) hmem)
    simpa [System.create, LoadBalancerBase.create, hrange] using h

/-- 一歩は不変条件を保つ。 -/
theorem Inv.step {s : System} (h : Inv s) (e : Event) : Inv (s.step e).1 := by
  cases e with
  | choose hash => exact h
  | update changes panicThreshold =>
    cases changes with
    | nil => simpa [System.step, processDirtyPriorities, applyChanges] using h
    | cons c changes =>
      have hlen := length_applyChanges s.prioritySet (c :: changes)
      rw [System.step, List.map_cons, processDirtyPriorities_cons]
      refine inv_recalculate _ panicThreshold c.1 (changes.map (·.1)) s.lb h.bounded ?_
      intro i hi hmem
      -- 変えない priority の host set と health は前のまま
      have hps : (applyChanges s.prioritySet (c :: changes))[i]? = s.prioritySet[i]? :=
        getElem?_applyChanges_of_not_mem (by simpa only [List.map_cons] using hmem)
      have hi' : i < s.prioritySet.length := hlen ▸ hi
      rw [List.getElem?_eq_getElem hi, List.getElem?_eq_getElem hi', Option.some.injEq] at hps
      simp [h.health, h.degraded, List.getElem?_eq_getElem hi', hps]

/-- 作ってからどの事象の列の後も、不変条件が成り立つ。 -/
theorem inv_exec (prioritySet : List HostSet) (panicThreshold : Nat) {events : List Event}
    (hrun : Lts.Allowed System.Valid System.step (System.create prioritySet panicThreshold) events) :
    Inv (Lts.exec System.step (System.create prioritySet panicThreshold) events).1 :=
  @Lts.exec_invariant _ _ _ _ _ (fun s (_ : List Output) => Inv s) (fun _ _ e h _ => h.step e) _ []
    (inv_create _ _) _ hrun

end Envoy.Upstream
