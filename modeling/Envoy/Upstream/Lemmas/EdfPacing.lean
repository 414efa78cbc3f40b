import Envoy.Upstream.EdfCreate
import Envoy.Upstream.Lemmas.EdfScheduler
import Envoy.Lib.Pacing

/-!
# 締め切りと `current_time_`

`createWithPicks()` から始めて、どの順に `add()`、`peekAgain()`、`pickAndAdd()` を呼び、entry がどう死んでも、
queue のどの締め切りも `current_time_` より前にならない。これは `popEntry()`、`add()`、`createWithPicks()` の
`ASSERT(... deadline_ >= current_time_)` の条件。重みを変えず entry が死なずに `pickAndAdd()` だけを続けると、
どの締め切りも `current_time_` から一周期 `1 / weight` の内にあり、続く `n` 回で entry を取り出す回数は重みに
比例する（`Pacing`）。
-/

namespace Envoy.Upstream

namespace EdfScheduler

variable {C D : Type _}

theorem popFirst_eq_some {α : Type _} {ok : α → Bool} :
    ∀ {l rest : List α} {a : α}, popFirst ok l = (some a, rest) → ∃ pre, l = pre ++ a :: rest
  | [], _, _, h => by cases h
  | b :: l, rest, a, h => by
    unfold popFirst at h
    split at h
    · cases h
      exact ⟨[], rfl⟩
    · obtain ⟨pre, rfl⟩ := popFirst_eq_some h
      exact ⟨b :: pre, rfl⟩

variable [LinearOrder D]

/-! ## 締め切りは `current_time_` より前にならない -/

/-- queue のどの締め切りも `current_time_` より前でない。 -/
def DeadlinesAfter (s : EdfScheduler C D) : Prop := ∀ e ∈ s.queue, s.currentTime ≤ e.deadline

section DeadlinesAfter

variable {alive : C → Bool} {s : EdfScheduler C D}

/-- `popEntry()` の取り出した entry の締め切りは、残した queue のどの締め切りより遅くない。 -/
theorem deadline_le_of_popQueue (hs : WF s) {e : EdfEntry C D} {rest : List (EdfEntry C D)}
    (h : popQueue alive s.queue = (some e, rest)) : ∀ b ∈ rest, e.deadline ≤ b.deadline := by
  obtain ⟨pre, hq⟩ := popFirst_eq_some h
  have hsorted := hs.sorted
  rw [hq, List.pairwise_append, List.pairwise_cons] at hsorted
  exact fun b hb => deadline_le_of_key_le (hsorted.2.1.1 b hb)

theorem DeadlinesAfter.popEntry (hs : WF s) (h : DeadlinesAfter s) : DeadlinesAfter (popEntry alive s).2 := by
  unfold EdfScheduler.popEntry
  rcases hp : popQueue alive s.queue with ⟨_ | e, rest⟩
  · have hsuf : rest <:+ s.queue := by
      have := popQueue_snd_suffix alive s.queue
      rwa [hp] at this
    exact fun b hb => h b (hsuf.subset hb)
  · exact deadline_le_of_popQueue hs hp

variable [Field D] [IsStrictOrderedRing D]

theorem DeadlinesAfter.add (h : DeadlinesAfter s) {weight : D} (hw : 0 < weight) (c : C) :
    DeadlinesAfter (add weight c s) := by
  intro e he
  simp only [EdfScheduler.add, push, List.mem_orderedInsert] at he
  rcases he with rfl | he
  · exact le_add_of_nonneg_right (one_div_nonneg.mpr hw.le)
  · exact h e he

variable {calculateWeight : C → D}

theorem DeadlinesAfter.peekAgain (hs : WF s) (h : DeadlinesAfter s) (hw : ∀ c, 0 < calculateWeight c) :
    DeadlinesAfter (peekAgain alive calculateWeight s).2 := by
  unfold EdfScheduler.peekAgain
  have hpop : DeadlinesAfter (EdfScheduler.popEntry alive s).2 := h.popEntry hs
  split
  case _ s' heq => rw [heq] at hpop; exact hpop
  case _ ret s' heq => rw [heq] at hpop; exact DeadlinesAfter.add hpop (hw ret) ret

theorem DeadlinesAfter.pickAndAdd (hs : WF s) (h : DeadlinesAfter s) (hw : ∀ c, 0 < calculateWeight c) :
    DeadlinesAfter (pickAndAdd alive calculateWeight s).2 := by
  unfold EdfScheduler.pickAndAdd
  split
  case _ ret rest _ => exact h
  case _ rest _ =>
    have hpop : DeadlinesAfter (EdfScheduler.popEntry alive { s with prepickList := rest }).2 :=
      DeadlinesAfter.popEntry (hs.with_prepickList rest) h
    split
    case _ s' heq => rw [heq] at hpop; exact hpop
    case _ ret s' heq => rw [heq] at hpop; exact DeadlinesAfter.add hpop (hw ret) ret

end DeadlinesAfter

/-! ## 一周期の内の締め切り -/

section Paced

variable [Field D] [IsStrictOrderedRing D] {calculateWeight : C → D} {s : EdfScheduler C D}

/-- entry が死なずに重みを変えず `pickAndAdd()` だけを続ける時の不変条件: どの締め切りも `current_time_` から
一周期 `1 / weight` の内にある。 -/
structure Paced (calculateWeight : C → D) (s : EdfScheduler C D) : Prop where
  wf : WF s
  prepickList : s.prepickList = []
  after : DeadlinesAfter s
  within : ∀ e ∈ s.queue, e.deadline ≤ s.currentTime + 1 / calculateWeight e.entry

omit [Field D] [IsStrictOrderedRing D] in
theorem pickAndAdd_alive_cons [Add D] [One D] [Div D] (hp : s.prepickList = []) {e : EdfEntry C D}
    {rest : List (EdfEntry C D)} (hq : s.queue = e :: rest) :
    pickAndAdd (fun _ => true) calculateWeight s =
      (some e.entry, add (calculateWeight e.entry) e.entry { s with currentTime := e.deadline, queue := rest }) := by
  obtain ⟨t, o, q, P⟩ := s
  dsimp only at hp hq
  subst hp hq
  rfl

omit [Field D] [IsStrictOrderedRing D] in
theorem pickAndAdd_alive_nil [Add D] [One D] [Div D] (hp : s.prepickList = []) (hq : s.queue = []) :
    pickAndAdd (fun _ => true) calculateWeight s = (none, s) := by
  obtain ⟨t, o, q, P⟩ := s
  dsimp only at hp hq
  subst hp hq
  rfl

theorem Paced.pickAndAdd (h : Paced calculateWeight s) (hw : ∀ c, 0 < calculateWeight c) :
    Paced calculateWeight (pickAndAdd (fun _ => true) calculateWeight s).2 := by
  have hwf : WF (EdfScheduler.pickAndAdd (fun _ => true) calculateWeight s).2 := h.wf.pickAndAdd calculateWeight
  have hafter : DeadlinesAfter (EdfScheduler.pickAndAdd (fun _ => true) calculateWeight s).2 :=
    h.after.pickAndAdd h.wf hw
  cases hq : s.queue with
  | nil =>
    rw [pickAndAdd_alive_nil h.prepickList hq]
    exact h
  | cons e rest =>
    rw [pickAndAdd_alive_cons h.prepickList hq] at hwf hafter ⊢
    refine ⟨hwf, h.prepickList, hafter, fun b hb => ?_⟩
    simp only [EdfScheduler.add, push, List.mem_orderedInsert] at hb
    rcases hb with rfl | hb
    · exact le_refl _
    · -- 残った締め切りは、取り出した締め切りから一周期の内
      have hte : s.currentTime ≤ e.deadline := h.after e (by rw [hq]; exact List.mem_cons_self)
      exact (h.within b (by rw [hq]; exact List.mem_cons_of_mem e hb)).trans (add_le_add hte le_rfl)

omit [IsStrictOrderedRing D] in
theorem perm_pickAndAdd_alive (hp : s.prepickList = []) :
    ((pickAndAdd (fun _ => true) calculateWeight s).2.queue.map (·.entry)).Perm (s.queue.map (·.entry)) := by
  cases hq : s.queue with
  | nil => rw [pickAndAdd_alive_nil hp hq, hq]
  | cons e rest =>
    rw [pickAndAdd_alive_cons hp hq]
    simp only [EdfScheduler.add, push, List.map_cons]
    exact ((List.perm_orderedInsert _ _ rest).map _).trans (List.Perm.refl _)

/-- `createWithPicks()` の残りの取り出しの loop。 -/
theorem Paced.iterate (h : Paced calculateWeight s) (hw : ∀ c, 0 < calculateWeight c) (k : Nat) :
    Paced calculateWeight ((fun s => (EdfScheduler.pickAndAdd (fun _ => true) calculateWeight s).2)^[k] s) ∧
      (((fun s => (EdfScheduler.pickAndAdd (fun _ => true) calculateWeight s).2)^[k] s).queue.map (·.entry)).Perm
        (s.queue.map (·.entry)) := by
  induction k with
  | zero => exact ⟨h, List.Perm.refl _⟩
  | succ k ih =>
    rw [Function.iterate_succ_apply']
    exact ⟨ih.1.pickAndAdd hw, (perm_pickAndAdd_alive ih.1.prepickList).trans ih.2⟩

/-- entry `c` の締め切りが `x`。 -/
def Clock (s : EdfScheduler C D) (c : C) (x : D) : Prop := ∃ e ∈ s.queue, e.entry = c ∧ e.deadline = x

omit [LinearOrder D] [Field D] [IsStrictOrderedRing D] in
theorem clock_of_mem {c : C} (hc : c ∈ s.queue.map (·.entry)) : ∃ x, Clock s c x := by
  obtain ⟨e, he, rfl⟩ := List.mem_map.mp hc
  exact ⟨e.deadline, e, he, rfl, rfl⟩

variable [DecidableEq C]

/-- 一回の取り出しは、取り出した entry の締め切りだけを一周期進める。 -/
theorem Clock.pickAndAdd (h : Paced calculateWeight s) (hnodup : (s.queue.map (·.entry)).Nodup) {c : C} {x : D}
    (hc : Clock s c x) :
    Clock (EdfScheduler.pickAndAdd (fun _ => true) calculateWeight s).2 c
      (x + ([(EdfScheduler.pickAndAdd (fun _ => true) calculateWeight s).1].count (some c) : Nat) / calculateWeight c) := by
  obtain ⟨b, hb, rfl, rfl⟩ := hc
  cases hq : s.queue with
  | nil => rw [hq] at hb; cases hb
  | cons e rest =>
    rw [hq] at hb hnodup
    rw [pickAndAdd_alive_cons h.prepickList hq]
    obtain ⟨hnotin, -⟩ := List.nodup_cons.mp hnodup
    by_cases hbe : b = e
    · -- 取り出した entry: 締め切りが一周期進む
      subst hbe
      refine ⟨⟨b.deadline + 1 / calculateWeight b.entry, s.orderOffset, b.entry⟩,
        (List.mem_orderedInsert _).mpr (.inl rfl), rfl, ?_⟩
      simp
    · -- 他の entry: そのまま
      have hrest : b ∈ rest := (List.mem_cons.mp hb).resolve_left hbe
      have hne : e.entry ≠ b.entry := fun h => hnotin (List.mem_map.mpr ⟨b, hrest, h.symm⟩)
      refine ⟨b, (List.mem_orderedInsert _).mpr (.inr hrest), rfl, ?_⟩
      simp [hne]

/-- `n` 回の取り出しの間に成り立つこと: 不変条件、entry の並べ替え、時刻が戻らないこと、締め切りは取り出した
回数だけ一周期ずつ進むこと、取り出したのは始めの queue の entry。 -/
structure PickRun (calculateWeight : C → D) (s s' : EdfScheduler C D) (picks : List (Option C)) : Prop where
  paced : Paced calculateWeight s'
  perm : (s'.queue.map (·.entry)).Perm (s.queue.map (·.entry))
  time_le : s.currentTime ≤ s'.currentTime
  clock : ∀ c x, Clock s c x → Clock s' c (x + (picks.count (some c) : Nat) / calculateWeight c)
  picked : ∀ o ∈ picks, ∃ c ∈ s.queue.map (·.entry), o = some c

theorem PickRun.refl (h : Paced calculateWeight s) : PickRun calculateWeight s s [] where
  paced := h
  perm := List.Perm.refl _
  time_le := le_refl _
  clock c x hc := by simpa using hc
  picked _ h := absurd h List.not_mem_nil

omit [IsStrictOrderedRing D] in
theorem PickRun.trans {s₁ s₂ : EdfScheduler C D} {p₁ p₂ : List (Option C)} (h₁ : PickRun calculateWeight s s₁ p₁)
    (h₂ : PickRun calculateWeight s₁ s₂ p₂) : PickRun calculateWeight s s₂ (p₁ ++ p₂) where
  paced := h₂.paced
  perm := h₂.perm.trans h₁.perm
  time_le := h₁.time_le.trans h₂.time_le
  clock c x hc := by
    have := h₂.clock c _ (h₁.clock c x hc)
    rwa [List.count_append, Nat.cast_add, add_div, ← add_assoc]
  picked o ho := by
    rcases List.mem_append.mp ho with ho | ho
    · exact h₁.picked o ho
    · obtain ⟨c, hc, rfl⟩ := h₂.picked o ho
      exact ⟨c, h₁.perm.subset hc, rfl⟩

theorem PickRun.pickAndAdd (h : Paced calculateWeight s) (hw : ∀ c, 0 < calculateWeight c)
    (hnodup : (s.queue.map (·.entry)).Nodup) (hne : s.queue ≠ []) :
    PickRun calculateWeight s (EdfScheduler.pickAndAdd (fun _ => true) calculateWeight s).2
      [(EdfScheduler.pickAndAdd (fun _ => true) calculateWeight s).1] where
  paced := h.pickAndAdd hw
  perm := perm_pickAndAdd_alive h.prepickList
  time_le := by
    obtain ⟨e, rest, hq⟩ := List.exists_cons_of_ne_nil hne
    rw [pickAndAdd_alive_cons h.prepickList hq]
    exact h.after e (by rw [hq]; exact List.mem_cons_self)
  clock c x hc := Clock.pickAndAdd h hnodup hc
  picked o ho := by
    obtain ⟨e, rest, hq⟩ := List.exists_cons_of_ne_nil hne
    rw [pickAndAdd_alive_cons h.prepickList hq, List.mem_singleton] at ho
    exact ⟨e.entry, by rw [hq]; exact List.mem_cons_self, ho⟩

/-- `n` 回の `pickAndAdd()`。帰納法は回数について、一回の取り出しと残りの取り出しを `PickRun.trans` で繋ぐ。 -/
theorem pickRun_replicate (hw : ∀ c, 0 < calculateWeight c) :
    ∀ (n : Nat) {s : EdfScheduler C D}, Paced calculateWeight s → (s.queue.map (·.entry)).Nodup → s.queue ≠ [] →
      PickRun calculateWeight s (run calculateWeight (List.replicate n (.pickAndAdd, fun _ => true)) s).2
        (pickResults (run calculateWeight (List.replicate n (.pickAndAdd, fun _ => true)) s).1)
  | 0, _, h, _, _ => PickRun.refl h
  | n + 1, s, h, hnodup, hne => by
    have h₁ := PickRun.pickAndAdd h hw hnodup hne
    have hnodup₁ := h₁.perm.nodup_iff.mpr hnodup
    have hne₁ : (EdfScheduler.pickAndAdd (fun _ => true) calculateWeight s).2.queue ≠ [] := fun h0 => by
      have := h₁.perm.length_eq
      rw [h0, List.map_nil, List.length_nil, List.length_map] at this
      exact hne (List.length_eq_zero_iff.mp this.symm)
    have h₂ := pickRun_replicate hw n h₁.paced hnodup₁ hne₁
    simp only [List.replicate_succ, run, call, pickResults_cons_pickAndAdd]
    exact h₁.trans h₂

omit [Field D] [IsStrictOrderedRing D] [DecidableEq C] in
theorem length_pickResults_run_replicate [Add D] [One D] [Div D] (alive : C → Bool) :
    ∀ (n : Nat) (s : EdfScheduler C D),
      (pickResults (run calculateWeight (List.replicate n (.pickAndAdd, alive)) s).1).length = n
  | 0, _ => rfl
  | n + 1, s => by
    simp only [List.replicate_succ, run, call, pickResults_cons_pickAndAdd, List.length_cons]
    rw [length_pickResults_run_replicate alive n]

/-- 一周期の内の締め切りから始めた取り出しは、どの entry `c` も、取り出しの回数 `n` に対して `n w_c / W` から
`N w_c / W + 1` の内の回数だけ返す。 -/
theorem PickRun.share {entries : List C} (hnodup : entries.Nodup) (hw : ∀ c, 0 < calculateWeight c)
    {s s' : EdfScheduler C D} {picks : List (Option C)} (hs : Paced calculateWeight s)
    (hperm : (s.queue.map (·.entry)).Perm entries) (r : PickRun calculateWeight s s' picks) {c : C} (hc : c ∈ entries) :
    ((picks.length : D) - entries.length) * calculateWeight c / (entries.map calculateWeight).sum - 1 ≤
        picks.count (some c) ∧
      (picks.count (some c) : D) ≤
        ((picks.length : D) + entries.length) * calculateWeight c / (entries.map calculateWeight).sum + 1 := by
  -- entry ごとに、締め切りが始めと終わりに一周期の内にあることから
  have hm : ∀ c' ∈ entries.toFinset, (s'.currentTime - s.currentTime) * calculateWeight c' - 1 ≤ picks.count (some c') ∧
      (picks.count (some c') : D) ≤ (s'.currentTime - s.currentTime) * calculateWeight c' + 1 := by
    intro c' hc'
    obtain ⟨x, e, he, hentry, hx⟩ := clock_of_mem (hperm.symm.subset (List.mem_toFinset.mp hc'))
    obtain ⟨e', he', hentry', hx'⟩ := r.clock c' x ⟨e, he, hentry, hx⟩
    have h₀ : s.currentTime ≤ x ∧ x ≤ s.currentTime + 1 / calculateWeight c' :=
      ⟨hx ▸ hs.after e he, hx ▸ hentry ▸ hs.within e he⟩
    have h₁ : s'.currentTime ≤ x + (picks.count (some c') : Nat) / calculateWeight c' ∧
        x + (picks.count (some c') : Nat) / calculateWeight c' ≤ s'.currentTime + 1 / calculateWeight c' :=
      ⟨hx' ▸ r.paced.after e' he', hx' ▸ hentry' ▸ r.paced.within e' he'⟩
    exact Pacing.count_bounds_of_clock (hw c') h₀ h₁
  have hsum := Pacing.sum_count_some entries.toFinset picks fun o ho => by
    obtain ⟨c', hc', rfl⟩ := r.picked o ho
    exact ⟨c', List.mem_toFinset.mpr (hperm.subset hc'), rfl⟩
  have hshare := Pacing.share_bounds entries.toFinset calculateWeight (fun c' _ => hw c') _ _ hm (List.mem_toFinset.mpr hc)
  rwa [hsum, List.toFinset_card_of_nodup hnodup, List.sum_toFinset _ hnodup] at hshare

end Paced

/-! ## `createWithPicks()` の締め切り -/

section Create

variable [Field D] [IsStrictOrderedRing D] [FloorSemiring D]

section FloorPicks

variable {picks : Nat} {weightsSum weight : D}

omit [IsStrictOrderedRing D] [FloorSemiring D] in
theorem div_weight_eq (hw : 0 < weight) : weight * picks / weightsSum / weight = picks / weightsSum := by
  rw [mul_div_assoc, mul_div_cancel_left₀ _ hw.ne']

/-- 取り出したことにする回数を重みで割った時刻は、`picks / weights_sum` を越えない。 -/
theorem floorPicks_div_le (hW : 0 < weightsSum) (hw : 0 < weight) :
    (floorPicks picks weightsSum weight : D) / weight ≤ picks / weightsSum := by
  have hx : 0 ≤ weight * picks / weightsSum := div_nonneg (mul_nonneg hw.le (Nat.cast_nonneg _)) hW.le
  have hfloor : (⌊weight * picks / weightsSum⌋₊ : D) / weight ≤ picks / weightsSum := by
    exact (div_le_div_of_nonneg_right (Nat.floor_le hx) hw.le).trans_eq (div_weight_eq hw)
  dsimp only [floorPicks]
  split
  · refine le_trans (div_le_div_of_nonneg_right ?_ hw.le) hfloor
    exact_mod_cast Nat.sub_le _ 1
  · exact hfloor

/-- 次に取り出す時刻は、`picks / weights_sum` より前でない。一つ減らすのは、それが届くときだけ。 -/
theorem le_floorPicks_succ_div (hw : 0 < weight) :
    (picks : D) / weightsSum ≤ ((floorPicks picks weightsSum weight + 1 : Nat) : D) / weight := by
  dsimp only [floorPicks]
  split
  · rename_i h
    rw [Nat.sub_add_cancel h.1]
    exact h.2
  · rw [Nat.cast_add_one]
    exact (div_weight_eq hw).symm.trans_le (div_le_div_of_nonneg_right (Nat.lt_floor_add_one _).le hw.le)

end FloorPicks

/-- loop の不変条件: `B = picks / weights_sum` として、`max_pick_time` は `[0, B]` にあり、置いた締め切りは `B`
より前でなく、`max_pick_time` から一周期の内。 -/
structure CreateInv (calculateWeight : C → D) (B : D) (acc : CreateState C D) : Prop where
  time_nonneg : 0 ≤ acc.maxPickTime
  time_le : acc.maxPickTime ≤ B
  after : ∀ e ∈ acc.entries, B ≤ e.deadline
  within : ∀ e ∈ acc.entries, e.deadline ≤ acc.maxPickTime + 1 / calculateWeight e.entry

variable {calculateWeight : C → D} {picks : Nat} {weightsSum : D}

theorem CreateInv.createStep (hW : 0 < weightsSum) {acc : CreateState C D}
    (h : CreateInv calculateWeight (picks / weightsSum) acc) {x : (C × D) × Nat} (hw : 0 < calculateWeight x.1.1)
    (hle : calculateWeight x.1.1 ≤ x.1.2) :
    CreateInv calculateWeight (picks / weightsSum) (EdfScheduler.createStep picks weightsSum acc x) := by
  have hx : 0 < x.1.2 := hw.trans_le hle
  -- 置く entry の締め切りは、取り出したことにした時刻から一周期 `1 / (weight + 1e-13)` 後
  have hdeadline : ((floorPicks picks weightsSum x.1.2 + 1 : Nat) : D) / x.1.2 =
      (floorPicks picks weightsSum x.1.2 : D) / x.1.2 + 1 / x.1.2 := by
    rw [Nat.cast_add_one, add_div]
  have hperiod : 1 / x.1.2 ≤ 1 / calculateWeight x.1.1 := one_div_le_one_div_of_le hw hle
  refine ⟨le_max_of_le_left h.time_nonneg, max_le h.time_le (floorPicks_div_le hW hx), fun e he => ?_, fun e he => ?_⟩
  · rcases List.mem_append.mp he with he | he
    · exact h.after e he
    · rw [List.mem_singleton.mp he]
      exact le_floorPicks_succ_div hx
  · rcases List.mem_append.mp he with he | he
    · exact (h.within e he).trans (add_le_add_left (le_max_left _ _) _)
    · rw [List.mem_singleton.mp he]
      show ((floorPicks picks weightsSum x.1.2 + 1 : Nat) : D) / x.1.2 ≤ _ + 1 / calculateWeight x.1.1
      rw [hdeadline]
      exact add_le_add (le_max_right _ _) hperiod

theorem CreateInv.foldl (hW : 0 < weightsSum) :
    ∀ (xs : List ((C × D) × Nat)) {acc : CreateState C D}, CreateInv calculateWeight (picks / weightsSum) acc →
      (∀ x ∈ xs, 0 < calculateWeight x.1.1 ∧ calculateWeight x.1.1 ≤ x.1.2) →
      CreateInv calculateWeight (picks / weightsSum) (xs.foldl (EdfScheduler.createStep picks weightsSum) acc)
  | [], _, h, _ => h
  | x :: xs, _, h, hxs => by
    rw [List.foldl_cons]
    have hx := hxs x List.mem_cons_self
    exact CreateInv.foldl hW xs (h.createStep hW hx.1 hx.2) fun y hy => hxs y (List.mem_cons_of_mem x hy)

omit [IsStrictOrderedRing D] in
/-- loop の置いた entry は、`i` 番目の entry を `order_offset_` `i` で置いたもの。 -/
theorem foldl_createStep_entries :
    ∀ (xs : List ((C × D) × Nat)) (acc : CreateState C D), (xs.foldl (createStep picks weightsSum) acc).entries =
      acc.entries ++ xs.map fun x => ⟨((floorPicks picks weightsSum x.1.2 + 1 : Nat) : D) / x.1.2, x.2, x.1.1⟩
  | [], acc => (List.append_nil _).symm
  | x :: xs, acc => by
    rw [List.foldl_cons, foldl_createStep_entries xs, List.map_cons]
    exact List.append_assoc _ _ _

omit [Field D] [IsStrictOrderedRing D] [FloorSemiring D] in
/-- `priority_queue` を範囲から作ることは、一つずつ入れることで、並べ替えただけ。 -/
theorem perm_foldl_push : ∀ (l q : List (EdfEntry C D)), (l.foldl push q).Perm (q ++ l)
  | [], q => by rw [List.foldl_nil, List.append_nil]
  | a :: l, q => by
    rw [List.foldl_cons]
    refine (perm_foldl_push l (push q a)).trans ?_
    -- 入れた `a` を後ろへ
    refine ((List.perm_orderedInsert _ a q).append_right l).trans ?_
    exact List.perm_middle.symm

omit [Field D] [IsStrictOrderedRing D] [FloorSemiring D] in
theorem pairwise_foldl_push : ∀ (l : List (EdfEntry C D)) {q : List (EdfEntry C D)},
    q.Pairwise (fun a b => a.key ≤ b.key) → (l.foldl push q).Pairwise fun a b => a.key ≤ b.key
  | [], _, hq => hq
  | a :: l, q, hq => by
    rw [List.foldl_cons]
    exact pairwise_foldl_push l (OrderedInsert.pairwise_orderedInsert_le EdfEntry.key a hq)

omit [LinearOrder D] [Field D] [IsStrictOrderedRing D] [FloorSemiring D] in
theorem mem_zip_map_self {α β : Type _} {f : α → β} : ∀ {l : List α} {a : α} {b : β}, (a, b) ∈ l.zip (l.map f) → b = f a
  | [], _, _, h => by cases h
  | c :: l, a, b, h => by
    rcases List.mem_cons.mp h with h | h
    · cases h
      rfl
    · exact mem_zip_map_self h

/-- `createWithPicks()` は、entry が全て生きている間、重みを変えず `pickAndAdd()` を続ける状態を作る。queue の
entry は `entries` を並べ替えたもの。 -/
theorem paced_createWithPicks (entries : List C) (hw : ∀ c, 0 < calculateWeight c) (picks : Nat) :
    Paced calculateWeight (createWithPicks entries calculateWeight picks) ∧
      ((createWithPicks entries calculateWeight picks).queue.map (·.entry)).Perm entries := by
  unfold createWithPicks
  split
  · rename_i hnil
    rw [List.isEmpty_iff.mp hnil]
    exact ⟨⟨⟨List.Pairwise.nil, fun _ h => absurd h List.not_mem_nil⟩, rfl, fun _ h => absurd h List.not_mem_nil,
      fun _ h => absurd h List.not_mem_nil⟩, List.Perm.refl _⟩
  rename_i hne
  dsimp only
  have hε : (0 : D) < 1 / 10 ^ 13 := by positivity
  -- `weights`、`weights_sum`、loop の列
  obtain ⟨weights, hweights⟩ : ∃ weights, weights = entries.map fun entry => calculateWeight entry + 1 / 10 ^ 13 :=
    ⟨_, rfl⟩
  rw [← hweights]
  have hlen : entries.length ≤ weights.length := by rw [hweights, List.length_map]
  have hW : 0 < weights.foldl (· + ·) 0 := by
    rw [← List.sum_eq_foldl]
    refine List.sum_pos _ (fun x hx => ?_) ?_
    · rw [hweights] at hx
      obtain ⟨c, -, rfl⟩ := List.mem_map.mp hx
      exact add_pos (hw c) hε
    · rw [hweights]
      exact fun h => hne (List.isEmpty_iff.mpr (List.map_eq_nil_iff.mp h))
  have hxs : ∀ x ∈ (entries.zip weights).zipIdx, 0 < calculateWeight x.1.1 ∧ calculateWeight x.1.1 ≤ x.1.2 := by
    intro x hx
    have hzip : x.1 ∈ entries.zip (entries.map fun entry => calculateWeight entry + 1 / 10 ^ 13) :=
      hweights ▸ List.fst_mem_of_mem_zipIdx hx
    refine ⟨hw _, ?_⟩
    rw [mem_zip_map_self hzip]
    exact le_add_of_nonneg_right hε.le
  have hinv := CreateInv.foldl hW _ (⟨le_refl 0, div_nonneg (Nat.cast_nonneg _) hW.le,
    fun _ h => absurd h List.not_mem_nil, fun _ h => absurd h List.not_mem_nil⟩ :
      CreateInv calculateWeight ((picks % 429496729 : Nat) / weights.foldl (· + ·) 0) ⟨[], 0, 0⟩) hxs
  obtain ⟨acc, hacc⟩ : ∃ acc, acc = ((entries.zip weights).zipIdx).foldl
      (createStep (picks % 429496729) (weights.foldl (· + ·) 0)) ⟨[], 0, 0⟩ := ⟨_, rfl⟩
  rw [← hacc] at hinv ⊢
  -- 置いた entry は `i` 番目の entry を `order_offset_` `i` で置いたもの
  have hentries : acc.entries = ((entries.zip weights).zipIdx).map fun x =>
      ⟨((floorPicks (picks % 429496729) (weights.foldl (· + ·) 0) x.1.2 + 1 : Nat) : D) / x.1.2, x.2, x.1.1⟩ := by
    rw [hacc, foldl_createStep_entries, List.nil_append]
  have hqueue : ∀ e ∈ acc.entries.foldl push [], e ∈ acc.entries := fun e he =>
    List.nil_append acc.entries ▸ (perm_foldl_push acc.entries []).subset he
  have hoffset : ∀ e ∈ acc.entries.foldl push [], e.orderOffset < entries.length := by
    intro e he
    have hmem := hqueue e he
    rw [hentries] at hmem
    obtain ⟨⟨⟨c, weight⟩, i⟩, hx, rfl⟩ := List.mem_map.mp hmem
    have hi := (List.mem_zipIdx hx).2.1
    rwa [Nat.zero_add, List.length_zip, Nat.min_eq_left hlen] at hi
  have hhosts : (acc.entries.map (·.entry)) = entries := by
    rw [hentries, List.map_map]
    change List.map (Prod.fst ∘ Prod.fst) _ = entries
    rw [← List.map_map, List.zipIdx_map_fst, List.map_fst_zip hlen]
  have hinit : Paced calculateWeight ⟨acc.maxPickTime, entries.length, acc.entries.foldl push [], []⟩ :=
    ⟨⟨pairwise_foldl_push _ List.Pairwise.nil, hoffset⟩, rfl,
      fun e he => hinv.time_le.trans (hinv.after e (hqueue e he)), fun e he => hinv.within e (hqueue e he)⟩
  refine (hinit.iterate hw _).imp id fun h => h.trans ?_
  rw [← hhosts]
  exact List.nil_append acc.entries ▸ (perm_foldl_push acc.entries []).map _

/-! ## 届く状態 -/

/-- `createWithPicks()` から、正の重みで `add()`、`peekAgain()`、`pickAndAdd()` を任意の順に呼び、呼び出しの間に
entry が死ぬことで届く状態。 -/
inductive Reachable : EdfScheduler C D → Prop
  | create (entries : List C) (calculateWeight : C → D) (hw : ∀ c, 0 < calculateWeight c) (picks : Nat) :
      Reachable (EdfScheduler.createWithPicks entries calculateWeight picks)
  | add {s : EdfScheduler C D} (weight : D) (hw : 0 < weight) (entry : C) :
      Reachable s → Reachable (EdfScheduler.add weight entry s)
  | peekAgain {s : EdfScheduler C D} (alive : C → Bool) (calculateWeight : C → D) (hw : ∀ c, 0 < calculateWeight c) :
      Reachable s → Reachable (EdfScheduler.peekAgain alive calculateWeight s).2
  | pickAndAdd {s : EdfScheduler C D} (alive : C → Bool) (calculateWeight : C → D) (hw : ∀ c, 0 < calculateWeight c) :
      Reachable s → Reachable (EdfScheduler.pickAndAdd alive calculateWeight s).2

theorem Reachable.wf_deadlinesAfter {s : EdfScheduler C D} (h : Reachable s) : WF s ∧ DeadlinesAfter s := by
  induction h with
  | create entries calculateWeight hw picks =>
    have hpaced := (paced_createWithPicks entries hw picks).1
    exact ⟨hpaced.wf, hpaced.after⟩
  | add weight hw entry _ ih => exact ⟨ih.1.add weight entry, ih.2.add hw entry⟩
  | peekAgain alive calculateWeight hw _ ih => exact ⟨ih.1.peekAgain calculateWeight, ih.2.peekAgain ih.1 hw⟩
  | pickAndAdd alive calculateWeight hw _ ih => exact ⟨ih.1.pickAndAdd calculateWeight, ih.2.pickAndAdd ih.1 hw⟩

/-- `createWithPicks()` から届くどの状態でも、queue のどの締め切りも `current_time_` より前でない。 -/
theorem deadline_ge_currentTime {s : EdfScheduler C D} (h : Reachable s) : ∀ e ∈ s.queue, s.currentTime ≤ e.deadline :=
  h.wf_deadlinesAfter.2

/-- 重み 3 と 1 の二つの entry から作り、`b` だけが生きている時の `pickAndAdd()` の後。 -/
theorem deadline_ge_currentTime_after_expiry :
    ((pickAndAdd (fun c => c == "b") (fun _ => (1 : ℚ))
        (createWithPicks ["a", "b"] (fun c => if c = "a" then (3 : ℚ) else 1) 5)).2.queue).Forall fun e =>
      (pickAndAdd (fun c => c == "b") (fun _ => (1 : ℚ))
        (createWithPicks ["a", "b"] (fun c => if c = "a" then (3 : ℚ) else 1) 5)).2.currentTime ≤ e.deadline :=
  List.forall_iff_forall_mem.mpr (deadline_ge_currentTime
    (.pickAndAdd _ _ (fun _ => one_pos) (.create _ _ (fun c => by split <;> norm_num) 5)))

/-- 重みを変えず entry が死なずに、`createWithPicks()` の後 `m` 回 `pickAndAdd()` を呼んだところから続く `n` 回の
`pickAndAdd()` は、どの entry `c` も、`n w_c / W` から `N w_c / W + 1` の内の回数だけ返す（`N` は entry の数、`W`
は重みの和）。 -/
theorem pickAndAdd_weighted_share [DecidableEq C] (entries : List C) (hnodup : entries.Nodup) (calculateWeight : C → D)
    (hw : ∀ c, 0 < calculateWeight c) (picks m n : Nat) {c : C} (hc : c ∈ entries) :
    ((n : D) - entries.length) * calculateWeight c / (entries.map calculateWeight).sum - 1 ≤
        (pickResults (run calculateWeight (List.replicate n (.pickAndAdd, fun _ => true))
          (run calculateWeight (List.replicate m (.pickAndAdd, fun _ => true))
            (createWithPicks entries calculateWeight picks)).2).1).count (some c) ∧
      ((pickResults (run calculateWeight (List.replicate n (.pickAndAdd, fun _ => true))
          (run calculateWeight (List.replicate m (.pickAndAdd, fun _ => true))
            (createWithPicks entries calculateWeight picks)).2).1).count (some c) : D) ≤
        ((n : D) + entries.length) * calculateWeight c / (entries.map calculateWeight).sum + 1 := by
  obtain ⟨hpaced, hperm⟩ := paced_createWithPicks entries hw picks
  have hne : ∀ {s : EdfScheduler C D}, (s.queue.map (·.entry)).Perm entries → s.queue ≠ [] := fun hp h0 => by
    rw [h0] at hp
    exact List.not_mem_nil (hp.symm.subset hc)
  -- `m` 回の後の状態から、続く `n` 回
  have r₁ := pickRun_replicate hw m hpaced (hperm.nodup_iff.mpr hnodup) (hne hperm)
  have hperm₁ := r₁.perm.trans hperm
  have r₂ := pickRun_replicate hw n r₁.paced (hperm₁.nodup_iff.mpr hnodup) (hne hperm₁)
  have hshare := r₂.share hnodup hw r₁.paced hperm₁ hc
  rwa [length_pickResults_run_replicate] at hshare

/-- 重み 3 と 1 の二つの entry から作り、2 回取り出した後の 8 回で、`a` は 5 回から 7 回の内。 -/
theorem pickAndAdd_weighted_share_three_one :
    ((8 : ℚ) - 2) * 3 / 4 - 1 ≤
        (pickResults (run (fun c => if c = "a" then (3 : ℚ) else 1) (List.replicate 8 (.pickAndAdd, fun _ => true))
          (run (fun c => if c = "a" then (3 : ℚ) else 1) (List.replicate 2 (.pickAndAdd, fun _ => true))
            (createWithPicks ["a", "b"] (fun c => if c = "a" then (3 : ℚ) else 1) 5)).2).1).count (some "a") ∧
      ((pickResults (run (fun c => if c = "a" then (3 : ℚ) else 1) (List.replicate 8 (.pickAndAdd, fun _ => true))
          (run (fun c => if c = "a" then (3 : ℚ) else 1) (List.replicate 2 (.pickAndAdd, fun _ => true))
            (createWithPicks ["a", "b"] (fun c => if c = "a" then (3 : ℚ) else 1) 5)).2).1).count (some "a") : ℚ) ≤
        ((8 : ℚ) + 2) * 3 / 4 + 1 := by
  have h := pickAndAdd_weighted_share ["a", "b"] (by decide) (fun c => if c = "a" then (3 : ℚ) else 1)
    (fun c => by split <;> norm_num) 5 2 8 (c := "a") (by simp)
  have hba : ("b" : String) ≠ "a" := by decide
  norm_num [hba] at h ⊢
  exact h

end Create

end EdfScheduler

end Envoy.Upstream
