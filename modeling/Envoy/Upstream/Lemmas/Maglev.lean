import Envoy.Upstream.Maglev
import Envoy.Common.Lemmas.BitArray
import Envoy.Lib.Pacing

/-!
# Maglev の表は埋まり、二つの作り方は同じ host を返す

表の大きさ `M` が素数なら、どの host の `skip` も `M` と互いに素で、位置の列は `M` 歩で表を一周する
（`Stride`）。重みの最も大きい host は毎回一つ位置を取るので、表は `M` 回の内に埋まる。

表の作り方によらない事実（entry の数と動かない欄、取った回数の和、重みに比例した取り方 `Paced`）は、
位置が埋まっているかと位置を埋める関数を任意にして示す。表の中身についての事実は、位置ごとに entry の番号と
host を持つ抽象した表で示し、`OriginalMaglevTable` と `CompactMaglevTable` の表がそれぞれこの表を表す
（`fillTable_rel`）ことから、二つの `chooseHost` が一致することを導く。
-/

namespace Envoy

/-! ## `Primes::isPrime()` -/

namespace Primes

/-- `isPrime` は素数と 1 を受け付ける。1 は `x && x < 4` の枝で受け付けられる。 -/
theorem isPrime_iff (x : Nat) : isPrime x = true ↔ x.Prime ∨ x = 1 := by
  unfold isPrime
  by_cases hsmall : x ≠ 0 ∧ x < 4
  · rw [if_pos hsmall]
    obtain ⟨h0, h4⟩ := hsmall
    have h1 : 1 ≤ x := Nat.one_le_iff_ne_zero.mpr h0
    interval_cases x <;> simp [Nat.prime_two, Nat.prime_three]
  · rw [if_neg hsmall]
    split_ifs with heven
    · -- 4 以上の偶数と 0 は素数でない
      simp only [false_iff, not_or]
      refine ⟨fun hp => ?_, by omega⟩
      have h2 : 2 ∣ x := Nat.dvd_of_mod_eq_zero heven
      rcases Nat.Prime.eq_one_or_self_of_dvd hp 2 h2 with h | h <;> omega
    · rw [List.all_eq_true, Nat.prime_def_le_sqrt]
      simp only [List.mem_range', ne_eq, decide_eq_true_eq]
      have hx1 : x ≠ 1 := by omega
      simp only [hx1, or_false]
      constructor
      · intro h
        refine ⟨by omega, fun m hm2 hm hdvd => ?_⟩
        -- 偶数の約数があれば `x` も偶数
        have hodd : m % 2 = 1 := by
          by_contra hm'
          exact heven (Nat.mod_eq_zero_of_dvd ((Nat.dvd_of_mod_eq_zero (by omega)).trans hdvd))
        exact h m ⟨(m - 3) / 2, by omega, by omega⟩ (Nat.mod_eq_zero_of_dvd hdvd)
      · rintro ⟨-, h⟩ _ ⟨i, hi, rfl⟩ hmod
        exact h (3 + 2 * i) (by omega) (by omega) (Nat.dvd_of_mod_eq_zero hmod)

end Primes

namespace Upstream

namespace Maglev

variable {H D T : Type _}

/-! ## 埋まった位置を飛ばす -/

section Probe

variable {occupied : Nat → Bool} {M s : Nat}

/-- `probe` が返すのは、埋まっていない位置で、出発点から `skip` ずつ進んだどれか。 -/
theorem probe_eq_some : ∀ {fuel c c' : Nat}, probe occupied M s fuel c = some c' →
    occupied c' = false ∧ ∃ k < fuel, (Stride.next M s)^[k] c = c'
  | 0, _, _, h => by cases h
  | fuel + 1, c, c', h => by
    unfold probe at h
    split_ifs at h with ho
    · obtain ⟨hc', k, hk, rfl⟩ := probe_eq_some h
      exact ⟨hc', k + 1, by omega, by rw [Function.iterate_succ_apply]⟩
    · cases h
      exact ⟨by simpa using ho, 0, by omega, rfl⟩

theorem probe_lt (hc : c < M) (hs : s < M) {fuel c' : Nat} (h : probe occupied M s fuel c = some c') : c' < M := by
  obtain ⟨-, k, -, rfl⟩ := probe_eq_some h
  rw [Stride.iterate_next hc hs]
  exact Nat.mod_lt _ (by omega)

/-- 出発点から `fuel` 歩の内に埋まっていない位置があれば、`probe` は位置を返す。 -/
theorem probe_isSome : ∀ {fuel c : Nat}, (∃ k < fuel, occupied ((Stride.next M s)^[k] c) = false) →
    (probe occupied M s fuel c).isSome
  | 0, _, ⟨k, hk, _⟩ => absurd hk (Nat.not_lt_zero k)
  | fuel + 1, c, ⟨k, hk, hfree⟩ => by
    unfold probe
    split_ifs with ho
    · cases k with
      | zero => simp [ho] at hfree
      | succ k =>
        rw [Function.iterate_succ_apply] at hfree
        exact probe_isSome ⟨k, by omega, hfree⟩
    · rfl

/-- 歩幅が表の大きさと互いに素なら、埋まっていない位置がどこかにある限り、`M` 歩で見つかる。 -/
theorem probe_isSome_of_free (hcop : Nat.Coprime s M) (hc : c < M) (hs : s < M) {fuel : Nat} (hfuel : M ≤ fuel)
    {t : Nat} (ht : t < M) (hfree : occupied t = false) : (probe occupied M s fuel c).isSome := by
  obtain ⟨k, hk, he⟩ := Stride.exists_iterate_next_eq hcop hc hs ht
  exact probe_isSome ⟨k, by omega, he ▸ hfree⟩

end Probe

/-! ## 表の持ち方によらない事実 -/

/-- 位置を取っても変わらない欄: host と `skip_` と `weight_`。 -/
def TableBuildEntry.fixed (e : TableBuildEntry H D) : H × Nat × D := (e.host, e.skip, e.weight)

theorem exists_fixed_of_mem {l l' : List (TableBuildEntry H D)}
    (h : l'.map TableBuildEntry.fixed = l.map TableBuildEntry.fixed) {e' : TableBuildEntry H D} (he' : e' ∈ l') :
    ∃ e ∈ l, e.fixed = e'.fixed := by
  have : e'.fixed ∈ l.map TableBuildEntry.fixed := h ▸ List.mem_map_of_mem he'
  exact List.mem_map.mp this


section Generic

variable [Field D] [LinearOrder D]
variable {occupied : T → Nat → Bool} {fill : T → Nat → Nat → H → T} {M : Nat} {maxW : D} {iteration fuel : Nat}

/-- 内側の `for` の一回: 表が埋まっていて止まるか、飛ばすか、位置 `c` を取るか。 -/
theorem fillIteration_cons_eq_some {i : Nat} {table : T} {k : Nat} {entry : TableBuildEntry H D}
    {entries : List (TableBuildEntry H D)} {r : T × Nat × List (TableBuildEntry H D)}
    (h : fillIteration occupied fill M maxW iteration fuel i table k (entry :: entries) = some r) :
    (M ≤ k ∧ r = (table, k, entry :: entries)) ∨
      (k < M ∧ (iteration : D) * entry.weight < entry.targetWeight ∧
        ∃ r', fillIteration occupied fill M maxW iteration fuel (i + 1) table k entries = some r' ∧
          r = (r'.1, r'.2.1, entry :: r'.2.2)) ∨
      (k < M ∧ entry.targetWeight ≤ (iteration : D) * entry.weight ∧
        ∃ c r', probe (occupied table) M entry.skip fuel entry.currentPermutation = some c ∧
          fillIteration occupied fill M maxW iteration fuel (i + 1) (fill table c i entry.host) (k + 1) entries =
            some r' ∧ r = (r'.1, r'.2.1, entry.picked M maxW c :: r'.2.2)) := by
  unfold fillIteration at h
  split_ifs at h with hk hw
  · obtain ⟨r', hr', rfl⟩ := Option.map_eq_some_iff.mp h
    exact .inr (.inl ⟨hk, hw, r', hr', rfl⟩)
  · split at h
    · cases h
    · rename_i c hc
      obtain ⟨r', hr', rfl⟩ := Option.map_eq_some_iff.mp h
      exact .inr (.inr ⟨hk, not_lt.mp hw, c, r', hc, hr', rfl⟩)
  · cases h
    exact .inl ⟨not_lt.mp hk, rfl⟩

theorem fillIteration_fixed : ∀ {i : Nat} {table : T} {k : Nat} {entries : List (TableBuildEntry H D)}
    {r : T × Nat × List (TableBuildEntry H D)},
    fillIteration occupied fill M maxW iteration fuel i table k entries = some r →
      r.2.2.map TableBuildEntry.fixed = entries.map TableBuildEntry.fixed
  | _, _, _, [], r, h => by
    cases h
    rfl
  | _, _, _, e :: _, r, h => by
    rcases fillIteration_cons_eq_some h with ⟨-, rfl⟩ | ⟨-, -, r', hr', rfl⟩ | ⟨-, -, c, r', -, hr', rfl⟩
    · rfl
    · simp only [List.map_cons, fillIteration_fixed hr']
    · simp only [List.map_cons, fillIteration_fixed hr']
      rfl

/-- 取った回数の和は、`table_index` と同じだけ増える。 -/
theorem fillIteration_count : ∀ {i : Nat} {table : T} {k : Nat} {entries : List (TableBuildEntry H D)}
    {r : T × Nat × List (TableBuildEntry H D)},
    fillIteration occupied fill M maxW iteration fuel i table k entries = some r →
      (r.2.2.map (·.count)).sum + k = (entries.map (·.count)).sum + r.2.1
  | _, _, _, [], r, h => by
    cases h
    rfl
  | _, _, _, _ :: _, r, h => by
    rcases fillIteration_cons_eq_some h with ⟨-, rfl⟩ | ⟨-, -, r', hr', rfl⟩ | ⟨-, -, c, r', -, hr', rfl⟩
    · rfl
    · have := fillIteration_count hr'
      simp only [List.map_cons, List.sum_cons] at this ⊢
      omega
    · have := fillIteration_count hr'
      simp only [List.map_cons, List.sum_cons, TableBuildEntry.picked] at this ⊢
      omega

theorem fillIteration_le : ∀ {i : Nat} {table : T} {k : Nat} {entries : List (TableBuildEntry H D)}
    {r : T × Nat × List (TableBuildEntry H D)},
    fillIteration occupied fill M maxW iteration fuel i table k entries = some r → k ≤ r.2.1
  | _, _, _, [], r, h => by
    cases h
    exact le_refl _
  | _, _, _, _ :: _, r, h => by
    rcases fillIteration_cons_eq_some h with ⟨-, rfl⟩ | ⟨-, -, r', hr', rfl⟩ | ⟨-, -, c, r', -, hr', rfl⟩
    · exact le_refl _
    · exact fillIteration_le (r := r') hr'
    · exact (Nat.le_succ _).trans (fillIteration_le (r := r') hr')

/-! ### 重みに比例した取り方 -/

/-- `K` 回目の `iteration` を終えた entry: `target_weight_` は取った回数の `max_normalized_weight` 倍で、
取った回数 `n` は `n * max ≤ K * weight + max` と `K * weight < (n + 1) * max` を満たす。 -/
structure Paced (maxW : D) (K : Nat) (e : TableBuildEntry H D) : Prop where
  target : e.targetWeight = e.count * maxW
  upper : e.count * maxW ≤ K * e.weight + maxW
  lower : (K : D) * e.weight < (e.count + 1) * maxW

/-- まだ位置を取っていない entry は、0 回目を終えた形。 -/
theorem Paced.zero [IsStrictOrderedRing D] (hmax : 0 < maxW) {e : TableBuildEntry H D} (hc : e.count = 0)
    (ht : e.targetWeight = 0) : Paced maxW 0 e where
  target := by simp [hc, ht]
  upper := by simpa [hc] using hmax.le
  lower := by simpa [hc] using hmax

variable [IsStrictOrderedRing D]

/-- 飛ばした entry は、次の回を終えた形になる。 -/
theorem Paced.skip {K : Nat} {e : TableBuildEntry H D} (h : Paced maxW K e) (hmax : 0 < maxW) (hw : 0 ≤ e.weight)
    (hlt : ((K + 1 : Nat) : D) * e.weight < e.targetWeight) : Paced maxW (K + 1) e where
  target := h.target
  upper := by
    have := h.upper
    push_cast
    linarith
  lower := by
    rw [h.target] at hlt
    linarith

/-- 位置を取った entry も、次の回を終えた形になる。ここで `weight_ ≤ max_normalized_weight` を使う。 -/
theorem Paced.picked {K : Nat} {e : TableBuildEntry H D} (h : Paced maxW K e) (hw : e.weight ≤ maxW)
    (hle : e.targetWeight ≤ ((K + 1 : Nat) : D) * e.weight) (M c : Nat) :
    Paced maxW (K + 1) (e.picked M maxW c) where
  target := by
    simp only [TableBuildEntry.picked, h.target]
    push_cast
    ring
  upper := by
    rw [h.target] at hle
    simp only [TableBuildEntry.picked]
    push_cast at hle ⊢
    linarith
  lower := by
    have := h.lower
    simp only [TableBuildEntry.picked]
    push_cast
    linarith

/-- `K` 回目か `K + 1` 回目を終えた entry の取った回数は、`(K + 1) / max * weight_` から、下に 2、上に 1 の内。 -/
theorem Paced.bounds {K : Nat} {e : TableBuildEntry H D} (hmax : 0 < maxW) (hw : 0 ≤ e.weight)
    (hwle : e.weight ≤ maxW) (h : Paced maxW K e ∨ Paced maxW (K + 1) e) :
    ((K + 1 : Nat) : D) / maxW * e.weight - 2 ≤ e.count ∧
      (e.count : D) ≤ ((K + 1 : Nat) : D) / maxW * e.weight + 1 := by
  -- どちらの場合も `count * max ≤ (K + 1) weight + max` と `(K + 1) weight ≤ (count + 2) max`
  have key : (e.count : D) * maxW ≤ ((K + 1 : Nat) : D) * e.weight + maxW ∧
      ((K + 1 : Nat) : D) * e.weight ≤ (e.count + 2) * maxW := by
    push_cast
    rcases h with h | h
    · have hu := h.upper
      have hl := h.lower
      constructor <;> linarith
    · have hu := h.upper
      have hl := h.lower
      push_cast at hu hl
      constructor <;> linarith
  rw [div_mul_eq_mul_div]
  constructor
  · have : ((K + 1 : Nat) : D) * e.weight / maxW ≤ e.count + 2 := (div_le_iff₀ hmax).mpr key.2
    linarith
  · have : (e.count : D) - 1 ≤ ((K + 1 : Nat) : D) * e.weight / maxW := (le_div_iff₀ hmax).mpr (by linarith [key.1])
    linarith

/-- 回 `K + 1` の内側の `for` の後、どの entry も `K + 1` 回目を終えた形か、表が埋まって止まり `K` 回目を
終えた形のまま。 -/
theorem fillIteration_paced {K : Nat} (hmax : 0 < maxW) : ∀ {i : Nat} {table : T} {k : Nat}
    {entries : List (TableBuildEntry H D)} {r : T × Nat × List (TableBuildEntry H D)},
    fillIteration occupied fill M maxW (K + 1) fuel i table k entries = some r →
    (∀ e ∈ entries, 0 ≤ e.weight ∧ e.weight ≤ maxW) → (∀ e ∈ entries, Paced maxW K e) →
    ∀ e ∈ r.2.2, Paced maxW (K + 1) e ∨ (Paced maxW K e ∧ M ≤ r.2.1)
  | _, _, _, [], r, h, _, _ => by
    cases h
    simp
  | _, _, _, e :: es, r, h, hw, hp => by
    have hw' := fun x (hx : x ∈ es) => hw x (List.mem_cons_of_mem e hx)
    have hp' := fun x (hx : x ∈ es) => hp x (List.mem_cons_of_mem e hx)
    rcases fillIteration_cons_eq_some h with ⟨hk, rfl⟩ | ⟨-, hlt, r', hr', rfl⟩ | ⟨-, hle, c, r', -, hr', rfl⟩
    · exact fun x hx => .inr ⟨hp x hx, hk⟩
    · rintro x (_ | ⟨_, hx⟩)
      · exact .inl ((hp e List.mem_cons_self).skip hmax (hw e List.mem_cons_self).1 hlt)
      · exact fillIteration_paced hmax hr' hw' hp' x hx
    · rintro x (_ | ⟨_, hx⟩)
      · exact .inl ((hp e List.mem_cons_self).picked (hw e List.mem_cons_self).2 hle M c)
      · exact fillIteration_paced hmax hr' hw' hp' x hx

/-- 重みが `max_normalized_weight` の entry は毎回位置を取るので、表が埋まっていなければ、一回の内側の `for` で
`table_index` は増える。 -/
theorem fillIteration_progress {K : Nat} : ∀ {i : Nat} {table : T} {k : Nat}
    {entries : List (TableBuildEntry H D)} {r : T × Nat × List (TableBuildEntry H D)},
    fillIteration occupied fill M maxW (K + 1) fuel i table k entries = some r →
    (∃ e ∈ entries, e.weight = maxW ∧ Paced maxW K e) → k < M → k < r.2.1
  | _, _, _, [], r, _, ⟨_, he, _⟩, _ => absurd he List.not_mem_nil
  | _, _, k, e :: es, r, h, ⟨x, hx, hxw, hxp⟩, hk => by
    rcases fillIteration_cons_eq_some h with ⟨hk', rfl⟩ | ⟨-, hlt, r', hr', rfl⟩ | ⟨-, -, c, r', -, hr', rfl⟩
    · omega
    · -- 飛ばした entry は重みが最大でない
      rcases List.mem_cons.mp hx with rfl | hx
      · have hu := hxp.upper
        rw [hxp.target, hxw] at hlt
        rw [hxw] at hu
        push_cast at hlt
        linarith
      · exact fillIteration_progress (r := r') hr' ⟨x, hx, hxw, hxp⟩ hk
    · exact Nat.lt_of_lt_of_le (Nat.lt_succ_self k) (fillIteration_le (r := r') hr')

end Generic

/-! ## entry を作る -/

/-- `tableBuildEntries` の entry: host と重みの組は入力を並べ替えたもので、`offset` と `skip` は表の中にあり、
まだ位置を取っていない。 -/
theorem tableBuildEntries_spec [Zero D] (hash : String → UInt64 → UInt64) (hashKey : H → String) {M : Nat}
    (hM : 2 ≤ M) (hosts : List (H × D)) :
    ∃ entries, tableBuildEntries hash hashKey M hosts = some entries ∧
      (entries.map fun e => (e.host, e.weight)).Perm hosts ∧
      ∀ e ∈ entries, 0 < e.skip ∧ e.skip < M ∧ e.count = 0 ∧ e.targetWeight = 0 ∧ e.currentPermutation < M := by
  refine ⟨_, by rw [tableBuildEntries, if_neg (by omega)], ?_, fun e he => ?_⟩
  · rw [List.map_map]
    have hperm := (List.mergeSort_perm (hosts.map fun hw => (hashKey hw.1, hw))
      fun a b => decide (a.1 ≤ b.1)).map Prod.snd
    simpa [Function.comp_def, TableBuildEntry.init] using hperm
  · obtain ⟨s, -, rfl⟩ := List.mem_map.mp he
    have hoff := Nat.mod_lt (hash s.1 0).toNat (show 0 < M by omega)
    have hskip := Nat.mod_lt (hash s.1 1).toNat (show 0 < M - 1 by omega)
    exact ⟨Nat.succ_pos _, by simp only [TableBuildEntry.init]; omega, rfl, rfl, hoff⟩

/-! ## 二つの表の持ち方の対応 -/

section Simulation

variable [Field D] [LinearOrder D] {T₁ T₂ : Type _} {occ₁ : T₁ → Nat → Bool} {fill₁ : T₁ → Nat → Nat → H → T₁}
  {occ₂ : T₂ → Nat → Bool} {fill₂ : T₂ → Nat → Nat → H → T₂} {R : T₁ → T₂ → Prop} {M : Nat} {maxW : D}
  {fuel : Nat}

/-- 二つの表の持ち方が、埋まっているかで一致し、同じ埋め方で関係を保つなら、内側の `for` は同じ
`table_index` と entry の列を返し、できた表は関係する。 -/
theorem fillIteration_rel (hocc : ∀ t₁ t₂, R t₁ t₂ → occ₁ t₁ = occ₂ t₂)
    (hfill : ∀ t₁ t₂ c i h, R t₁ t₂ → R (fill₁ t₁ c i h) (fill₂ t₂ c i h)) {iteration : Nat} :
    ∀ {i : Nat} {t₁ : T₁} {t₂ : T₂} {k : Nat} {entries : List (TableBuildEntry H D)}
    {r₁ : T₁ × Nat × List (TableBuildEntry H D)}, R t₁ t₂ →
    fillIteration occ₁ fill₁ M maxW iteration fuel i t₁ k entries = some r₁ →
    ∃ t₂', fillIteration occ₂ fill₂ M maxW iteration fuel i t₂ k entries = some (t₂', r₁.2.1, r₁.2.2) ∧ R r₁.1 t₂'
  | _, _, t₂, _, [], _, hR, h => by
    cases h
    exact ⟨t₂, rfl, hR⟩
  | i, t₁, t₂, k, e :: es, _, hR, h => by
    rcases fillIteration_cons_eq_some h with ⟨hk, rfl⟩ | ⟨hk, hlt, r', hr', rfl⟩ | ⟨hk, hle, c, r', hc, hr', rfl⟩
    · refine ⟨t₂, ?_, hR⟩
      unfold fillIteration
      rw [if_neg (not_lt.mpr hk)]
    · obtain ⟨t₂', h₂, hR'⟩ := fillIteration_rel hocc hfill hR hr'
      refine ⟨t₂', ?_, hR'⟩
      unfold fillIteration
      rw [if_pos hk, if_pos hlt, h₂]
      rfl
    · -- 同じ位置が埋まっているので、`probe` は同じ位置を返す
      obtain ⟨t₂', h₂, hR'⟩ := fillIteration_rel hocc hfill (hfill _ _ c i e.host hR) hr'
      refine ⟨t₂', ?_, hR'⟩
      unfold fillIteration
      rw [if_pos hk, if_neg (not_lt.mpr hle), ← hocc _ _ hR, hc]
      simp [h₂]

theorem fillTable_rel (hocc : ∀ t₁ t₂, R t₁ t₂ → occ₁ t₁ = occ₂ t₂)
    (hfill : ∀ t₁ t₂ c i h, R t₁ t₂ → R (fill₁ t₁ c i h) (fill₂ t₂ c i h)) :
    ∀ {rounds iteration : Nat} {t₁ : T₁} {t₂ : T₂} {k : Nat} {entries : List (TableBuildEntry H D)}
    {r₁ : T₁ × List (TableBuildEntry H D)}, R t₁ t₂ →
    fillTable occ₁ fill₁ M maxW fuel rounds iteration t₁ k entries = some r₁ →
    ∃ t₂', fillTable occ₂ fill₂ M maxW fuel rounds iteration t₂ k entries = some (t₂', r₁.2) ∧ R r₁.1 t₂'
  | 0, _, _, _, _, _, _, _, h => by cases h
  | rounds + 1, iteration, t₁, t₂, k, entries, r₁, hR, h => by
    unfold fillTable at h ⊢
    by_cases hk : k < M
    · rw [if_pos hk] at h ⊢
      cases h₁ : fillIteration occ₁ fill₁ M maxW iteration fuel 0 t₁ k entries with
      | none => simp [h₁] at h
      | some r =>
        rw [h₁] at h
        obtain ⟨t₂', h₂, hR'⟩ := fillIteration_rel hocc hfill hR h₁
        obtain ⟨t₂'', h₃, hR''⟩ := fillTable_rel hocc hfill hR' h
        rw [h₂]
        exact ⟨t₂'', h₃, hR''⟩
    · rw [if_neg hk] at h ⊢
      cases h
      exact ⟨t₂, rfl, hR⟩

end Simulation

/-! ## 抽象した表: 位置ごとに、取った entry の番号と host -/

/-- 位置 `c` が埋まっているか。 -/
def assigned (a : List (Option (Nat × H))) (c : Nat) : Bool := (a.getD c none).isSome

/-- 位置 `c` を、番号 `i` の entry の host で埋める。 -/
def assign (a : List (Option (Nat × H))) (c i : Nat) (host : H) : List (Option (Nat × H)) := a.set c (some (i, host))

/-- 番号 `i` の entry が取った位置の数。 -/
def slotsOf (a : List (Option (Nat × H))) (i : Nat) : Nat := a.countP fun o => decide (o.map Prod.fst = some i)

section Assigned

variable {M : Nat}

/-- 抽象した表と `table_index` と entry の列の不変条件: 表の大きさは `M`、埋まった位置の数は `table_index`、
entry の `count_` はその entry が取った位置の数で、位置の host はそこを取った entry の host。 -/
structure Wf (M : Nat) (a : List (Option (Nat × H))) (k : Nat) (entries : List (TableBuildEntry H D)) : Prop where
  length : a.length = M
  filled : a.countP (·.isSome) = k
  count : ∀ i (hi : i < entries.length), entries[i].count = slotsOf a i
  host : ∀ (c i : Nat) (host : H), a[c]? = some (some (i, host)) → ∃ hi : i < entries.length, entries[i].host = host
  perm : ∀ e ∈ entries, e.currentPermutation < M

theorem Wf.init (entries : List (TableBuildEntry H D)) (hcount : ∀ e ∈ entries, e.count = 0)
    (hperm : ∀ e ∈ entries, e.currentPermutation < M) : Wf M (List.replicate M none) 0 entries where
  length := List.length_replicate
  filled := by simp
  count i hi := by simp [slotsOf, hcount _ (List.getElem_mem hi), List.countP_replicate]
  host c i host h := by simp [List.getElem?_replicate] at h
  perm := hperm

/-- 埋まった位置が `M` より少なければ、埋まっていない位置がある。 -/
theorem Wf.exists_free {a : List (Option (Nat × H))} {k : Nat} {entries : List (TableBuildEntry H D)}
    (hw : Wf M a k entries) (hk : k < M) : ∃ t < M, assigned a t = false := by
  by_contra hall
  have hfull : a.countP (·.isSome) = a.length := by
    refine List.countP_eq_length.mpr fun o ho => ?_
    obtain ⟨t, ht, rfl⟩ := List.mem_iff_getElem.mp ho
    by_contra hnone
    exact hall ⟨t, hw.length ▸ ht, by
      simpa [assigned, List.getD_eq_getElem?_getD, List.getElem?_eq_getElem ht] using hnone⟩
  rw [hw.filled, hw.length] at hfull
  omega

theorem Wf.full {a : List (Option (Nat × H))} {entries : List (TableBuildEntry H D)} (hw : Wf M a M entries) :
    ∀ o ∈ a, o.isSome := by
  have h := hw.filled
  rw [← hw.length] at h
  simpa using List.countP_eq_length.mp h

/-- 番号がどれも `n` より小さければ、番号ごとの位置の数の和は、埋まった位置の数。 -/
theorem sum_slotsOf {n : Nat} : ∀ {a : List (Option (Nat × H))}, (∀ i host, some (i, host) ∈ a → i < n) →
    ∑ i ∈ Finset.range n, slotsOf a i = a.countP (·.isSome)
  | [], _ => by simp [slotsOf]
  | o :: a, h => by
    have ih := sum_slotsOf fun i host hi => h i host (List.mem_cons_of_mem o hi)
    simp only [slotsOf, List.countP_cons, Finset.sum_add_distrib] at ih ⊢
    rw [ih]
    congr 1
    rcases o with _ | ⟨j, host⟩
    · simp
    · have hj : j < n := h j host List.mem_cons_self
      simp [Finset.sum_ite_eq, hj]

variable [Field D] {maxW : D}

/-- 埋まっていない位置 `c` を `p.length` 番目の entry が取った後も、不変条件は保たれる。 -/
theorem Wf.assign {a : List (Option (Nat × H))} {k : Nat} {p es : List (TableBuildEntry H D)}
    {e : TableBuildEntry H D} (hw : Wf M a k (p ++ e :: es)) {c : Nat} (hc : c < M) (hfree : assigned a c = false)
    (hs : e.skip < M) : Wf M (assign a c p.length e.host) (k + 1) (p ++ e.picked M maxW c :: es) := by
  have hca : c < a.length := hw.length ▸ hc
  have hnone : a[c] = none := by
    simpa [assigned, List.getD_eq_getElem?_getD, List.getElem?_eq_getElem hca] using hfree
  -- 新しい entry の列は、`p.length` 番目を置き換えたもの
  have hset : p ++ e.picked M maxW c :: es = (p ++ e :: es).set p.length (e.picked M maxW c) := by simp
  have hlen : (p ++ e.picked M maxW c :: es).length = (p ++ e :: es).length := by simp
  rw [hset]
  constructor
  · rw [Maglev.assign, List.length_set, hw.length]
  · rw [Maglev.assign, List.countP_set hca, hnone, ← hw.filled]
    simp
  · intro i hi
    rw [List.length_set] at hi
    have hslots : slotsOf (Maglev.assign a c p.length e.host) i = slotsOf a i + if p.length = i then 1 else 0 := by
      simp [slotsOf, Maglev.assign, List.countP_set hca, hnone]
    rw [List.getElem_set, hslots, ← hw.count i hi]
    by_cases hi' : p.length = i
    · subst hi'
      simp [TableBuildEntry.picked]
    · simp [hi']
  · intro c' i host h
    rw [Maglev.assign, List.getElem?_set] at h
    split_ifs at h with hc'
    · simp only [Option.some.injEq, Prod.mk.injEq] at h
      obtain ⟨rfl, rfl⟩ := h
      exact ⟨by simp, by simp [TableBuildEntry.picked]⟩
    · obtain ⟨hi, hh⟩ := hw.host c' i host h
      refine ⟨by simpa using hi, ?_⟩
      rw [List.getElem_set]
      split_ifs with hi'
      · subst hi'
        simpa [TableBuildEntry.picked] using hh
      · exact hh
  · intro x hx
    rcases List.mem_or_eq_of_mem_set hx with hx | rfl
    · exact hw.perm x hx
    · have := hw.perm e (by simp)
      exact Stride.next_lt hc hs

variable [LinearOrder D] {iteration fuel : Nat}

/-- 内側の `for` は不変条件を保つ。entry の列は、既に回した `p` の後に続く部分を書き換える。 -/
theorem fillIteration_wf : ∀ {p entries : List (TableBuildEntry H D)} {a : List (Option (Nat × H))} {k : Nat}
    {r : List (Option (Nat × H)) × Nat × List (TableBuildEntry H D)},
    fillIteration assigned assign M maxW iteration fuel p.length a k entries = some r →
    (∀ e ∈ entries, e.skip < M) → Wf M a k (p ++ entries) → Wf M r.1 r.2.1 (p ++ r.2.2)
  | _, [], _, _, _, h, _, hw => by
    cases h
    exact hw
  | p, e :: es, a, k, r, h, hs, hw => by
    have hs' := fun x (hx : x ∈ es) => hs x (List.mem_cons_of_mem e hx)
    rcases fillIteration_cons_eq_some h with ⟨-, rfl⟩ | ⟨-, -, r', hr', rfl⟩ | ⟨-, -, c, r', hc, hr', rfl⟩
    · exact hw
    · have := fillIteration_wf (p := p ++ [e]) (by simpa using hr') hs' (by simpa using hw)
      simpa using this
    · -- `probe` が返した位置は、表の中の埋まっていない位置
      have hcM : c < M := probe_lt (hw.perm e (by simp)) (hs e List.mem_cons_self) hc
      have hw₁ : Wf M (assign a c p.length e.host) (k + 1) (p ++ e.picked M maxW c :: es) :=
        hw.assign hcM (probe_eq_some hc).1 (hs e List.mem_cons_self)
      have := fillIteration_wf (p := p ++ [e.picked M maxW c]) (by simpa using hr') hs' (by simpa using hw₁)
      simpa using this

/-- 歩幅が表の大きさと互いに素なら、`probe` はいつも位置を見つけ、内側の `for` は最後まで回る。 -/
theorem fillIteration_isSome (hfuel : M ≤ fuel) : ∀ {p entries : List (TableBuildEntry H D)}
    {a : List (Option (Nat × H))} {k : Nat},
    (∀ e ∈ entries, e.skip < M ∧ Nat.Coprime e.skip M) → Wf M a k (p ++ entries) →
    (fillIteration assigned assign M maxW iteration fuel p.length a k entries).isSome
  | _, [], _, _, _, _ => rfl
  | p, e :: es, a, k, hs, hw => by
    have hs' := fun x (hx : x ∈ es) => hs x (List.mem_cons_of_mem e hx)
    have he := hs e List.mem_cons_self
    unfold fillIteration
    split_ifs with hk hwt
    · rw [Option.isSome_map]
      have := fillIteration_isSome hfuel (p := p ++ [e]) hs' (by simpa using hw)
      simpa using this
    · obtain ⟨t, ht, hfree⟩ := hw.exists_free hk
      obtain ⟨c, hc⟩ := Option.isSome_iff_exists.mp
        (probe_isSome_of_free he.2 (hw.perm e (by simp)) he.1 hfuel ht hfree)
      have hcM : c < M := probe_lt (hw.perm e (by simp)) he.1 hc
      have hw₁ : Wf M (assign a c p.length e.host) (k + 1) (p ++ e.picked M maxW c :: es) :=
        hw.assign hcM (probe_eq_some hc).1 he.1
      simp only [hc, Option.isSome_map]
      have := fillIteration_isSome hfuel (p := p ++ [e.picked M maxW c]) hs' (by simpa using hw₁)
      simpa using this
    · rfl

/-- 位置を取る間変わらない欄への前提: `skip_` は表の大きさより小さく、それと互いに素で、重みは 0 以上で
`max_normalized_weight` 以下。 -/
structure EntryOk (M : Nat) (maxW : D) (e : TableBuildEntry H D) : Prop where
  skip_lt : e.skip < M
  coprime : Nat.Coprime e.skip M
  weight_nonneg : 0 ≤ e.weight
  weight_le : e.weight ≤ maxW

theorem EntryOk.of_fixed {e e' : TableBuildEntry H D} (h : EntryOk M maxW e) (hf : e'.fixed = e.fixed) :
    EntryOk M maxW e' := by
  simp only [TableBuildEntry.fixed, Prod.mk.injEq] at hf
  obtain ⟨-, hs, hw⟩ := hf
  exact ⟨hs ▸ h.skip_lt, hs ▸ h.coprime, hw ▸ h.weight_nonneg, hw ▸ h.weight_le⟩

variable [IsStrictOrderedRing D]

/-- 外側の `for`: 表が埋まるまでの回数が `rounds` より少なければ、表は埋まり、どの entry も同じ回か一つ先の回を
終えた形。 -/
theorem fillTable_spec (hmax : 0 < maxW) (hfuel : M ≤ fuel) : ∀ (rounds K : Nat) {a : List (Option (Nat × H))}
    {k : Nat} {entries : List (TableBuildEntry H D)},
    M - k < rounds → (∀ e ∈ entries, EntryOk M maxW e) → (∃ e ∈ entries, e.weight = maxW) →
    Wf M a k entries → (∀ e ∈ entries, Paced maxW K e) →
    ∃ a' entries' K', fillTable assigned assign M maxW fuel rounds (K + 1) a k entries = some (a', entries') ∧
      Wf M a' M entries' ∧ entries'.map TableBuildEntry.fixed = entries.map TableBuildEntry.fixed ∧
      ∀ e ∈ entries', Paced maxW K' e ∨ Paced maxW (K' + 1) e
  | 0, _, _, _, _, hr, _, _, _, _ => absurd hr (Nat.not_lt_zero _)
  | rounds + 1, K, a, k, entries, hr, hok, hmaxe, hw, hp => by
    unfold fillTable
    by_cases hk : k < M
    · rw [if_pos hk]
      obtain ⟨⟨a₁, k₁, es₁⟩, h₁⟩ : ∃ r, fillIteration assigned assign M maxW (K + 1) fuel 0 a k entries = some r :=
        Option.isSome_iff_exists.mp
          (fillIteration_isSome (p := []) hfuel (fun e he => ⟨(hok e he).skip_lt, (hok e he).coprime⟩) hw)
      rw [h₁]
      have hw₁ : Wf M a₁ k₁ es₁ := fillIteration_wf (p := []) h₁ (fun e he => (hok e he).skip_lt) hw
      have hfix := fillIteration_fixed h₁
      have hpaced := fillIteration_paced hmax h₁ (fun e he => ⟨(hok e he).weight_nonneg, (hok e he).weight_le⟩) hp
      have hprog : k < k₁ := by
        obtain ⟨e, he, hew⟩ := hmaxe
        exact fillIteration_progress h₁ ⟨e, he, hew, hp e he⟩ hk
      have hok₁ : ∀ e ∈ es₁, EntryOk M maxW e := fun e he => by
        obtain ⟨x, hx, hxe⟩ := exists_fixed_of_mem hfix he
        exact (hok x hx).of_fixed hxe.symm
      have hmaxe₁ : ∃ e ∈ es₁, e.weight = maxW := by
        obtain ⟨e, he, hew⟩ := hmaxe
        obtain ⟨x, hx, hxe⟩ := exists_fixed_of_mem hfix.symm he
        simp only [TableBuildEntry.fixed, Prod.mk.injEq] at hxe
        exact ⟨x, hx, hxe.2.2.trans hew⟩
      by_cases hk₁ : k₁ < M
      · -- 表はまだ埋まっていない: どの entry も `K + 1` 回目を終えている
        obtain ⟨a', es', K', h', hw', hfix', hp'⟩ := fillTable_spec hmax hfuel rounds (K + 1) (by omega) hok₁ hmaxe₁ hw₁
          (fun e he => ((hpaced e he).resolve_right fun h => absurd h.2 (not_le.mpr hk₁)))
        exact ⟨a', es', K', h', hw', hfix'.trans hfix, hp'⟩
      · -- 表は埋まった: 次の回は何もしない
        obtain ⟨rounds, rfl⟩ : ∃ n, rounds = n + 1 := ⟨rounds - 1, by omega⟩
        have hkM : k₁ = M := le_antisymm (hw₁.filled ▸ hw₁.length ▸ List.countP_le_length) (not_lt.mp hk₁)
        refine ⟨a₁, es₁, K, ?_, hkM ▸ hw₁, hfix, fun e he => (hpaced e he).elim .inr fun h => .inl h.1⟩
        simp [fillTable, hk₁]
    · rw [if_neg hk]
      have hkM : k = M := le_antisymm (hw.filled ▸ hw.length ▸ List.countP_le_length) (not_lt.mp hk)
      exact ⟨a, entries, K, rfl, hkM ▸ hw, rfl, fun e he => .inl (hp e he)⟩

/-- 作ったばかりの entry から始めると、抽象した表作りは表を埋める。 -/
theorem constructTable_assigned (hmax : 0 < maxW) {entries : List (TableBuildEntry H D)}
    (hok : ∀ e ∈ entries, EntryOk M maxW e) (hmaxe : ∃ e ∈ entries, e.weight = maxW)
    (hinit : ∀ e ∈ entries, e.count = 0 ∧ e.targetWeight = 0 ∧ e.currentPermutation < M) :
    ∃ a entries' K, constructTable assigned assign M maxW (List.replicate M none) entries = some (a, entries') ∧
      Wf M a M entries' ∧ entries'.map TableBuildEntry.fixed = entries.map TableBuildEntry.fixed ∧
      ∀ e ∈ entries', Paced maxW K e ∨ Paced maxW (K + 1) e :=
  fillTable_spec hmax (Nat.le_succ M) (M + 1) 0 (by omega) hok hmaxe
    (Wf.init entries (fun e he => (hinit e he).1) (fun e he => (hinit e he).2.2))
    (fun e he => Paced.zero hmax (hinit e he).1 (hinit e he).2.1)

end Assigned

/-! ## 二つの表の持ち方は抽象した表を表す -/

section Represent

variable {M : Nat}

/-- `CompactMaglevTable` の表の位置が持つ値: entry の番号を `uint32_t` にして、下位 `w` bit を残したもの。 -/
def compactValue (w : Nat) : Option (Nat × H) → Nat
  | some (i, _) => (UInt32.ofNat i).toNat % 2 ^ w
  | none => 0

/-- `occupied` は抽象した表の埋まり方、`table_` は幅 `w` で entry の番号を表す。 -/
def CompactRep (w : Nat) (a : List (Option (Nat × H))) (t : List Bool × BitArray) : Prop :=
  t.1 = a.map Option.isSome ∧ t.2.bitWidth = w ∧ t.2.Represents (a.map (compactValue w))

/-- 表が空でなければ、`OriginalMaglevTable::chooseHost()` は抽象した表の位置の host を返す。 -/
theorem chooseHost_original {a : List (Option (Nat × H))} (ha : a ≠ []) (x : UInt64) (attempt : UInt32) :
    (⟨M, a.map (Option.map Prod.snd)⟩ : OriginalMaglevTable H).chooseHost x attempt =
      (a.getD ((retryHash x attempt).toNat % M) none).map Prod.snd := by
  simp only [OriginalMaglevTable.chooseHost, List.isEmpty_map, List.isEmpty_iff, ha, if_false,
    List.getD_eq_getElem?_getD, List.getElem?_map]
  cases a[(retryHash x attempt).toNat % M]? <;> rfl

/-- 埋まった表では、`CompactMaglevTable::chooseHost()` も、抽象した表の位置の host を返す: `table_` の値は
entry の番号そのもので、`host_table_` のその番号は、位置を取った entry の host。 -/
theorem chooseHost_compact {a : List (Option (Nat × H))} {entries' : List (TableBuildEntry H D)}
    {t : List Bool × BitArray} (hM : 0 < M) (hwf : Wf M a M entries')
    (hrep : CompactRep entries'.length.size a t) (hn : entries'.length < 2 ^ 32) (x : UInt64) (attempt : UInt32) :
    (⟨M, t.2, entries'.map (·.host)⟩ : CompactMaglevTable H).chooseHost x attempt =
      (a.getD ((retryHash x attempt).toNat % M) none).map Prod.snd := by
  have hj : (retryHash x attempt).toNat % M < a.length := by
    rw [hwf.length]
    exact Nat.mod_lt _ hM
  obtain ⟨⟨i, host⟩, hsome⟩ : ∃ p, a[(retryHash x attempt).toNat % M] = some p :=
    Option.isSome_iff_exists.mp (hwf.full _ (List.getElem_mem hj))
  obtain ⟨hi, hhost⟩ := hwf.host _ i host (by rw [List.getElem?_eq_getElem hj, hsome])
  -- `table_` のその位置の値は `i`
  have hval : compactValue entries'.length.size (some (i, host)) = i := by
    have hlt : i < 2 ^ entries'.length.size := hi.trans (Nat.lt_size_self _)
    rw [compactValue, UInt32.toNat_ofNat', Nat.mod_eq_of_lt (show i < 2 ^ 32 by omega), Nat.mod_eq_of_lt hlt]
  have hget := hrep.2.2.get (j := (retryHash x attempt).toNat % M) (by simpa using hj)
  simp only [List.getElem_map, hsome, hval] at hget
  obtain ⟨v, hv, hvi⟩ := Option.map_eq_some_iff.mp hget
  have hne : entries' ≠ [] := List.ne_nil_of_length_pos (by omega)
  simp [CompactMaglevTable.chooseHost, hne, hv, hvi, hi, hhost, List.getD_eq_getElem?_getD,
    List.getElem?_eq_getElem hj, hsome]

/-- host が互いに違えば、`OriginalMaglevTable` の表でその host を持つ位置の数は、その host の entry の `count_`。 -/
theorem count_table [DecidableEq H] {a : List (Option (Nat × H))} {entries' : List (TableBuildEntry H D)}
    (hwf : Wf M a M entries') (hnodup : (entries'.map (·.host)).Nodup) {i : Nat} (hi : i < entries'.length) :
    (a.map (Option.map Prod.snd)).count (some entries'[i].host) = entries'[i].count := by
  rw [hwf.count i hi, slotsOf, List.count_eq_countP, List.countP_map]
  refine List.countP_congr fun o ho => ?_
  rcases o with _ | ⟨j, host⟩
  · simp
  · obtain ⟨c, hc⟩ := List.mem_iff_getElem?.mp ho
    obtain ⟨hj, rfl⟩ := hwf.host c j host hc
    have hj' : j < (entries'.map (·.host)).length := by simpa using hj
    have hi' : i < (entries'.map (·.host)).length := by simpa using hi
    have hinj := @List.Nodup.getElem_inj_iff _ _ hnodup j hj' i hi'
    simp only [List.getElem_map] at hinj
    simp [hinj]

variable [Field D] [LinearOrder D] {maxW : D}

/-- `OriginalMaglevTable` の表は、抽象した表から entry の番号を落としたもの。 -/
theorem constructImplementationInternals_original {entries entries' : List (TableBuildEntry H D)}
    {a : List (Option (Nat × H))}
    (h : constructTable assigned assign M maxW (List.replicate M none) entries = some (a, entries')) :
    OriginalMaglevTable.constructImplementationInternals M maxW entries =
      some (a.map (Option.map Prod.snd), entries') := by
  have hocc : ∀ (a : List (Option (Nat × H))) (t : List (Option H)), t = a.map (Option.map Prod.snd) →
      assigned a = fun c => (t.getD c none).isSome := by
    rintro a t rfl
    funext c
    simp only [assigned, List.getD_eq_getElem?_getD, List.getElem?_map]
    cases a[c]? <;> simp
  have hfill : ∀ (a : List (Option (Nat × H))) (t : List (Option H)) c i host,
      t = a.map (Option.map Prod.snd) → t.set c (some host) = (assign a c i host).map (Option.map Prod.snd) := by
    rintro a t c i host rfl
    simp [assign, List.map_set]
  have hinit : List.replicate M none = (List.replicate M (none : Option (Nat × H))).map (Option.map Prod.snd) := by
    simp
  obtain ⟨t, ht, rfl⟩ := fillTable_rel (R := fun a t => t = a.map (Option.map Prod.snd)) hocc hfill hinit h
  exact ht

theorem constructImplementationInternals_compact {entries entries' : List (TableBuildEntry H D)}
    {a : List (Option (Nat × H))}
    (h : constructTable assigned assign M maxW (List.replicate M none) entries = some (a, entries'))
    {w : Nat} {table : BitArray} (hw : table.bitWidth = w) (hrep : table.Represents (List.replicate M 0)) :
    ∃ t, CompactMaglevTable.constructImplementationInternals M maxW table entries = some (t, entries') ∧
      CompactRep w a t := by
  have hocc : ∀ (a : List (Option (Nat × H))) (t : List Bool × BitArray), CompactRep w a t →
      assigned a = fun c => t.1.getD c false := by
    rintro a t ⟨h₁, -, -⟩
    funext c
    simp only [assigned, h₁, List.getD_eq_getElem?_getD, List.getElem?_map]
    cases a[c]? <;> simp
  have hfill : ∀ (a : List (Option (Nat × H))) (t : List Bool × BitArray) c i host, CompactRep w a t →
      CompactRep w (assign a c i host) (t.1.set c true, t.2.set c (UInt32.ofNat i)) := by
    rintro a t c i host ⟨h₁, h₂, h₃⟩
    refine ⟨by simp [assign, h₁, List.map_set], by simpa using h₂, ?_⟩
    have := h₃.set c (UInt32.ofNat i)
    rw [h₂] at this
    simpa [assign, List.map_set, compactValue] using this
  exact fillTable_rel (R := CompactRep w) hocc hfill ⟨by simp, hw, by simpa [compactValue] using hrep⟩ h

end Represent

/-! ## 入力の host から表を作る -/

section Build

variable {hosts : List (H × D)} {M : Nat}

/-- 埋まった抽象した表の位置の host は、入力のどれか。 -/
theorem mem_hosts_of_assigned {entries entries' : List (TableBuildEntry H D)} {a : List (Option (Nat × H))}
    (hperm : (entries.map fun e => (e.host, e.weight)).Perm hosts) (hwf : Wf M a M entries')
    (hfix : entries'.map TableBuildEntry.fixed = entries.map TableBuildEntry.fixed) {c i : Nat} {host : H}
    (hc : a[c]? = some (some (i, host))) : ∃ hw ∈ hosts, hw.1 = host := by
  obtain ⟨hi, rfl⟩ := hwf.host c i host hc
  obtain ⟨e, he, hex⟩ := exists_fixed_of_mem hfix (List.getElem_mem hi)
  simp only [TableBuildEntry.fixed, Prod.mk.injEq] at hex
  exact ⟨(e.host, e.weight), hperm.subset (List.mem_map_of_mem he), hex.1⟩

variable [Field D] [LinearOrder D] [IsStrictOrderedRing D] (hash : String → UInt64 → UInt64) (hashKey : H → String)
variable {maxW : D}

/-- 表の大きさが素数で、どの重みも正で `max_normalized_weight` 以下、それに等しい重みの host があれば、
抽象した表作りは表を埋める。 -/
theorem build_spec (hM : M.Prime) (hw : ∀ hw ∈ hosts, 0 < hw.2 ∧ hw.2 ≤ maxW) (hmax : ∃ hw ∈ hosts, hw.2 = maxW) :
    ∃ entries a entries' K, tableBuildEntries hash hashKey M hosts = some entries ∧
      (entries.map fun e => (e.host, e.weight)).Perm hosts ∧
      constructTable assigned assign M maxW (List.replicate M none) entries = some (a, entries') ∧
      Wf M a M entries' ∧ entries'.map TableBuildEntry.fixed = entries.map TableBuildEntry.fixed ∧
      ∀ e ∈ entries', Paced maxW K e ∨ Paced maxW (K + 1) e := by
  obtain ⟨entries, he, hperm, hinit⟩ := tableBuildEntries_spec hash hashKey hM.two_le hosts
  have hmem : ∀ e ∈ entries, (e.host, e.weight) ∈ hosts := fun e h => hperm.subset (List.mem_map_of_mem h)
  have hmaxW : 0 < maxW := by
    obtain ⟨x, hx, rfl⟩ := hmax
    exact (hw x hx).1
  -- 表の大きさが素数なので、`skip` は表の大きさと互いに素
  have hok : ∀ e ∈ entries, EntryOk M maxW e := fun e h =>
    ⟨(hinit e h).2.1, (Nat.coprime_of_lt_prime (hinit e h).1.ne' (hinit e h).2.1 hM).symm,
      (hw _ (hmem e h)).1.le, (hw _ (hmem e h)).2⟩
  have hmaxe : ∃ e ∈ entries, e.weight = maxW := by
    obtain ⟨x, hx, hxw⟩ := hmax
    obtain ⟨e, he, hex⟩ := List.mem_map.mp (hperm.symm.subset hx)
    exact ⟨e, he, by rw [← hxw, ← hex]⟩
  obtain ⟨a, entries', K, h, hwf, hfix, hp⟩ := constructTable_assigned hmaxW hok hmaxe fun e h => (hinit e h).2.2
  exact ⟨entries, a, entries', K, he, hperm, h, hwf, hfix, hp⟩

end Build

end Maglev

open Maglev

variable {H D : Type _} [Field D] [LinearOrder D] [IsStrictOrderedRing D]

/-- 表の大きさが素数で、どの重みも正で `max_normalized_weight` 以下、それに等しい重みの host があれば、
`OriginalMaglevTable` のコンストラクタは止まり、表のどの位置にも入力のどれかの host を置く。 -/
theorem OriginalMaglevTable.create_fills_table (hash : String → UInt64 → UInt64) (hashKey : H → String)
    (normalizedHostWeights : List (H × D)) (maxNormalizedWeight : D) (tableSize : Nat) (hM : tableSize.Prime)
    (hne : normalizedHostWeights ≠ []) (hw : ∀ hw ∈ normalizedHostWeights, 0 < hw.2 ∧ hw.2 ≤ maxNormalizedWeight)
    (hmax : ∃ hw ∈ normalizedHostWeights, hw.2 = maxNormalizedWeight) :
    ∃ t stats, OriginalMaglevTable.create hash hashKey normalizedHostWeights maxNormalizedWeight tableSize =
        some (t, some stats) ∧
      t.table.length = tableSize ∧ ∀ c < tableSize, ∃ hw ∈ normalizedHostWeights, t.table[c]? = some (some hw.1) := by
  obtain ⟨entries, a, entries', K, he, hperm, h, hwf, hfix, -⟩ := build_spec hash hashKey hM hw hmax
  have ht := constructImplementationInternals_original h
  refine ⟨⟨tableSize, a.map (Option.map Prod.snd)⟩, entriesPerHost tableSize entries', ?_, by simp [hwf.length],
    fun c hc => ?_⟩
  · simp [OriginalMaglevTable.create, List.isEmpty_iff, hne, he, ht]
  · have hca : c < a.length := hwf.length ▸ hc
    obtain ⟨⟨i, host⟩, hsome⟩ : ∃ p, a[c] = some p := Option.isSome_iff_exists.mp (hwf.full _ (List.getElem_mem hca))
    obtain ⟨hw', hmem, rfl⟩ := mem_hosts_of_assigned hperm hwf hfix (by rw [List.getElem?_eq_getElem hca, hsome])
    exact ⟨hw', hmem, by simp [List.getElem?_eq_getElem hca, hsome]⟩

theorem create_fills_table_seven :
    ∃ t stats, OriginalMaglevTable.create (fun key seed => key.length.toUInt64 + seed) id
        [("a", (1 : ℚ)), ("bb", 1 / 2)] 1 7 = some (t, some stats) ∧
      t.table.length = 7 ∧ ∀ c < 7, ∃ hw ∈ [("a", (1 : ℚ)), ("bb", 1 / 2)], t.table[c]? = some (some hw.1) :=
  OriginalMaglevTable.create_fills_table _ _ _ _ _ (by norm_num) (by simp) (by norm_num) ⟨("a", 1), by simp, rfl⟩

/-- 同じ前提で、`MaglevFactory::createMaglevTable()` がどの表を選んでも、その `chooseHost()` は、どの hash と
attempt でも `OriginalMaglevTable` の `chooseHost()` と同じ host を返す。 -/
theorem MaglevTable.createMaglevTable_chooseHost (hash : String → UInt64 → UInt64) (hashKey : H → String)
    (normalizedHostWeights : List (H × D)) (maxNormalizedWeight : D) (tableSize : Nat) (hM : tableSize.Prime)
    (hne : normalizedHostWeights ≠ []) (hw : ∀ hw ∈ normalizedHostWeights, 0 < hw.2 ∧ hw.2 ≤ maxNormalizedWeight)
    (hmax : ∃ hw ∈ normalizedHostWeights, hw.2 = maxNormalizedWeight) :
    ∃ t t', MaglevTable.createMaglevTable hash hashKey normalizedHostWeights maxNormalizedWeight tableSize = some t ∧
      OriginalMaglevTable.create hash hashKey normalizedHostWeights maxNormalizedWeight tableSize = some t' ∧
      ∀ (x : UInt64) (attempt : UInt32), t.1.chooseHost x attempt = t'.1.chooseHost x attempt := by
  obtain ⟨entries, a, entries', K, he, hperm, h, hwf, hfix, -⟩ := build_spec hash hashKey hM hw hmax
  have ha : a ≠ [] := List.ne_nil_of_length_pos (by rw [hwf.length]; exact hM.pos)
  have horig : OriginalMaglevTable.create hash hashKey normalizedHostWeights maxNormalizedWeight tableSize =
      some (⟨tableSize, a.map (Option.map Prod.snd)⟩, some (entriesPerHost tableSize entries')) := by
    simp [OriginalMaglevTable.create, List.isEmpty_iff, hne, he, constructImplementationInternals_original h]
  have hlen : entries'.length = normalizedHostWeights.length := by
    rw [← List.length_map (f := TableBuildEntry.fixed), hfix, List.length_map, ← hperm.length_eq, List.length_map]
  by_cases h1 : normalizedHostWeights.length = 1
  · -- host が一つなら `DegenerateMaglevTable`: 抽象した表のどの位置もその host
    obtain ⟨e, rfl⟩ : ∃ e, entries = [e] := List.length_eq_one_iff.mp (by rw [← h1, ← hperm.length_eq, List.length_map])
    refine ⟨(.degenerate ⟨e.host⟩, some (entriesPerHost tableSize [{ e with count := e.count + 1 }])), _,
      by simp [MaglevTable.createMaglevTable, h1, MaglevTable.createDegenerate, he], horig, fun x attempt => ?_⟩
    have hj : (retryHash x attempt).toNat % tableSize < a.length := by
      rw [hwf.length]
      exact Nat.mod_lt _ hM.pos
    obtain ⟨⟨i, host⟩, hsome⟩ : ∃ p, a[(retryHash x attempt).toNat % tableSize] = some p :=
      Option.isSome_iff_exists.mp (hwf.full _ (List.getElem_mem hj))
    obtain ⟨hi, rfl⟩ := hwf.host _ i host (by rw [List.getElem?_eq_getElem hj, hsome])
    have hi0 : i = 0 := by omega
    subst hi0
    have hhost : entries'[0].host = e.host := by
      have := congrArg (fun l => l[0]?) hfix
      simp only [List.getElem?_map, List.getElem?_eq_getElem hi, List.getElem?_cons_zero, Option.map_some,
        Option.some.injEq, TableBuildEntry.fixed, Prod.mk.injEq] at this
      exact this.1
    simp [MaglevTable.chooseHost, chooseHost_original ha, List.getD_eq_getElem?_getD, List.getElem?_eq_getElem hj,
      hsome, hhost]
  by_cases h2 : MaglevTable.shouldUseCompactTable normalizedHostWeights.length tableSize = true
  · -- `CompactMaglevTable`: host の数は `2^32` 未満なので、番号は `table_` にそのまま入る
    have hn : normalizedHostWeights.length < 2 ^ 32 := by
      unfold MaglevTable.shouldUseCompactTable MaglevTable.maxNumberOfHostsForCompactMaglev at h2
      split_ifs at h2 with hgt
      omega
    obtain ⟨table, hcreate, hbw, -, hrep0⟩ : ∃ t, BitArray.create normalizedHostWeights.length.size tableSize = some t ∧
        t.bitWidth = normalizedHostWeights.length.size ∧ t.numItems = tableSize ∧
        t.Represents (List.replicate tableSize 0) :=
      BitArray.create_spec (Nat.size_le.mpr hn) tableSize
    obtain ⟨t, hct, hrep⟩ := constructImplementationInternals_compact h hbw hrep0
    refine ⟨(.compact ⟨tableSize, t.2, entries'.map (·.host)⟩, some (entriesPerHost tableSize entries')), _,
      by simp [MaglevTable.createMaglevTable, h1, h2, CompactMaglevTable.create, hcreate, List.isEmpty_iff, hne, he,
        hct], horig, fun x attempt => ?_⟩
    rw [← hlen] at hrep hn
    simp only [MaglevTable.chooseHost, chooseHost_compact hM.pos hwf hrep hn, chooseHost_original ha]
  · exact ⟨(.original ⟨tableSize, a.map (Option.map Prod.snd)⟩, some (entriesPerHost tableSize entries')), _,
      by simp [MaglevTable.createMaglevTable, h1, h2, horig], horig, fun _ _ => rfl⟩

theorem createMaglevTable_chooseHost_compact_seven :
    ∃ t t', MaglevTable.createMaglevTable (fun key seed => key.length.toUInt64 + seed) id
        [("a", (1 : ℚ)), ("bb", 1 / 2)] 1 7 = some t ∧
      OriginalMaglevTable.create (fun key seed => key.length.toUInt64 + seed) id
        [("a", (1 : ℚ)), ("bb", 1 / 2)] 1 7 = some t' ∧
      ∀ (x : UInt64) (attempt : UInt32), t.1.chooseHost x attempt = t'.1.chooseHost x attempt :=
  MaglevTable.createMaglevTable_chooseHost _ _ _ _ _ (by norm_num) (by simp) (by norm_num) ⟨("a", 1), by simp, rfl⟩

/-- 同じ前提で host が互いに違えば、`OriginalMaglevTable` の表で各 host が持つ位置の数は、表の大きさを重みで
分けたものに近い: `n` を host の数、`W` を重みの和として、重み `w` の host の位置の数は `(M - n) w / W - 2` 以上、
`(M + 2 n) w / W + 1` 以下。 -/
theorem OriginalMaglevTable.create_weighted_share [DecidableEq H] (hash : String → UInt64 → UInt64)
    (hashKey : H → String) (normalizedHostWeights : List (H × D)) (maxNormalizedWeight : D) (tableSize : Nat)
    (hM : tableSize.Prime) (hw : ∀ hw ∈ normalizedHostWeights, 0 < hw.2 ∧ hw.2 ≤ maxNormalizedWeight)
    (hmax : ∃ hw ∈ normalizedHostWeights, hw.2 = maxNormalizedWeight)
    (hnodup : (normalizedHostWeights.map Prod.fst).Nodup) :
    ∃ t stats, OriginalMaglevTable.create hash hashKey normalizedHostWeights maxNormalizedWeight tableSize =
        some (t, some stats) ∧
      ∀ hw ∈ normalizedHostWeights,
        ((tableSize : D) - normalizedHostWeights.length) * hw.2 / (normalizedHostWeights.map Prod.snd).sum - 2 ≤
            (t.table.count (some hw.1) : D) ∧
          (t.table.count (some hw.1) : D) ≤
            ((tableSize : D) + 2 * normalizedHostWeights.length) * hw.2 / (normalizedHostWeights.map Prod.snd).sum + 1 := by
  obtain ⟨entries, a, entries', K, he, hperm, h, hwf, hfix, hp⟩ := build_spec hash hashKey hM hw hmax
  have hne : normalizedHostWeights ≠ [] := by
    obtain ⟨x, hx, -⟩ := hmax
    exact List.ne_nil_of_mem hx
  -- 表を作り終えた entry の host と重みも、入力の並べ替え
  have hperm' : (entries'.map fun e => (e.host, e.weight)).Perm normalizedHostWeights := by
    have hmap := congrArg (List.map fun f : H × Nat × D => (f.1, f.2.2)) hfix
    simp only [List.map_map, Function.comp_def, TableBuildEntry.fixed] at hmap
    exact hmap ▸ hperm
  have hlen : entries'.length = normalizedHostWeights.length := by simpa using hperm'.length_eq
  have hnodup' : (entries'.map (·.host)).Nodup := by
    have hp' := hperm'.map Prod.fst
    simp only [List.map_map, Function.comp_def] at hp'
    exact hp'.nodup_iff.mpr hnodup
  have hwts : ∀ e ∈ entries', 0 < e.weight ∧ e.weight ≤ maxNormalizedWeight := fun e he' =>
    hw _ (hperm'.subset (List.mem_map_of_mem he'))
  have hmaxW : 0 < maxNormalizedWeight := by
    obtain ⟨x, hx, rfl⟩ := hmax
    exact (hw x hx).1
  -- 重みの和と、取った回数の和（表の大きさ）
  have hW : ∑ j : Fin entries'.length, entries'[j].weight = (normalizedHostWeights.map Prod.snd).sum := by
    simp only [Fin.getElem_fin]
    rw [← List.sum_ofFn, List.ofFn_getElem_eq_map]
    have hp' := hperm'.map Prod.snd
    simp only [List.map_map, Function.comp_def] at hp'
    exact hp'.sum_eq
  have hC : ∑ j : Fin entries'.length, entries'[j].count = tableSize := by
    simp only [Fin.getElem_fin]
    rw [Finset.sum_congr rfl fun (j : Fin entries'.length) _ => hwf.count j j.2,
      Fin.sum_univ_eq_sum_range (fun j => slotsOf a j),
      sum_slotsOf, hwf.filled]
    intro i host hmem
    obtain ⟨c, hc⟩ := List.mem_iff_getElem?.mp hmem
    exact (hwf.host c i host hc).1
  refine ⟨⟨tableSize, a.map (Option.map Prod.snd)⟩, entriesPerHost tableSize entries', ?_, fun hw' hmem => ?_⟩
  · simp [OriginalMaglevTable.create, List.isEmpty_iff, hne, he, constructImplementationInternals_original h]
  obtain ⟨e, he', rfl⟩ := List.mem_map.mp (hperm'.symm.subset hmem)
  obtain ⟨i, hi, rfl⟩ := List.mem_iff_getElem.mp he'
  have hshare := Pacing.share_bounds_of_slack Finset.univ (fun j : Fin entries'.length => entries'[j].weight)
    (fun j _ => (hwts _ (List.getElem_mem j.2)).1) (fun j => entries'[j].count)
    (((K + 1 : Nat) : D) / maxNormalizedWeight) 2 1
    (fun j _ => Paced.bounds hmaxW (hwts _ (List.getElem_mem j.2)).1.le (hwts _ (List.getElem_mem j.2)).2
      (hp _ (List.getElem_mem j.2))) (Finset.mem_univ ⟨i, hi⟩)
  rw [hC, hW, Finset.card_univ, Fintype.card_fin, one_mul] at hshare
  simp only [Fin.getElem_fin] at hshare
  rw [← hlen, count_table hwf hnodup' hi]
  exact hshare

theorem create_weighted_share_seven :
    ∃ t stats, OriginalMaglevTable.create (fun key seed => key.length.toUInt64 + seed) id
        [("a", (1 : ℚ)), ("bb", 1 / 2)] 1 7 = some (t, some stats) ∧
      ∀ hw ∈ [("a", (1 : ℚ)), ("bb", 1 / 2)],
        ((7 : ℚ) - 2) * hw.2 / (3 / 2) - 2 ≤ (t.table.count (some hw.1) : ℚ) ∧
          (t.table.count (some hw.1) : ℚ) ≤ ((7 : ℚ) + 2 * 2) * hw.2 / (3 / 2) + 1 := by
  have h := OriginalMaglevTable.create_weighted_share (fun key seed => key.length.toUInt64 + seed) id
    [("a", (1 : ℚ)), ("bb", 1 / 2)] 1 7 (by norm_num) (by norm_num) ⟨("a", 1), by simp, rfl⟩ (by decide)
  norm_num at h ⊢
  exact h

end Upstream

end Envoy
