import Envoy.Upstream.EdfScheduler
import Envoy.Lib.Lookahead
import Envoy.Lib.OrderedInsert

/-!
# `peekAgain` は先読み

`EdfScheduler` の状態を、生きている entry の（締め切り、entry）の列と、`prepick_list_` の生きている entry
とに写すと、`peekAgain` と `pickAndAdd` は先読みの buffer（`Lookahead`）の `peek` と `pick` になる。機械は
締め切りの順の列で、先頭を取り出し、締め切りを `1 / weight` 進めて同じ締め切りのものの後ろに入れ直す。
同じ締め切りの順は `order_offset_` が決めるが、入れ直す entry の `order_offset_` はいつも queue の誰よりも
大きいので、写した後には現れない。

entry が死ぬのは呼び出しの間で、一度死んだ entry は生き返らない（`weak_ptr`）。写した列から死んだ entry を
捨てることは機械の一歩と、死んだ先頭を飛ばす分だけずれて可換なので、先読みの関係 `Lookahead.Lag` は entry が
死んでも保たれる。
-/

namespace Envoy.Upstream

namespace EdfScheduler

variable {C D : Type _}

/-! ## `lock()` の loop -/

section PopFirst

variable {α : Type _} (ok : α → Bool)

/-- 取り出すのは、`ok` なものの先頭。 -/
theorem popFirst_fst (l : List α) : (popFirst ok l).1 = (l.filter ok).head? := by
  induction l with
  | nil => rfl
  | cons a rest ih =>
    simp only [popFirst, List.filter_cons]
    cases ha : ok a with
    | true => rfl
    | false => exact ih

/-- 残りの `ok` なものは、`ok` なものの先頭の後。 -/
theorem filter_popFirst_snd (l : List α) : (popFirst ok l).2.filter ok = (l.filter ok).tail := by
  induction l with
  | nil => rfl
  | cons a rest ih =>
    simp only [popFirst, List.filter_cons]
    cases ha : ok a with
    | true => rfl
    | false => exact ih

/-- 残りは元の列の後ろの部分。 -/
theorem popFirst_snd_suffix (l : List α) : (popFirst ok l).2 <:+ l := by
  induction l with
  | nil => exact List.suffix_refl []
  | cons a rest ih =>
    simp only [popFirst]
    cases ha : ok a with
    | true => exact List.suffix_cons a rest
    | false => exact ih.trans (List.suffix_cons a rest)

/-- 取り出せなければ、残りは無い。 -/
theorem popFirst_snd_of_fst_eq_none {l : List α} (h : (popFirst ok l).1 = none) : (popFirst ok l).2 = [] := by
  induction l with
  | nil => rfl
  | cons a rest ih =>
    simp only [popFirst] at h ⊢
    cases ha : ok a with
    | true => simp [ha] at h
    | false => simp only [ha, Bool.false_eq_true, if_false] at h ⊢; exact ih h

/-- `ok` なものの列は、取り出したものと残りの `ok` なもの。 -/
theorem filter_eq_of_popFirst {l : List α} {a : α} {rest : List α} (h : popFirst ok l = (some a, rest)) :
    l.filter ok = a :: rest.filter ok := by
  have hfst : (l.filter ok).head? = some a := by rw [← popFirst_fst, h]
  have hsnd : rest.filter ok = (l.filter ok).tail := by rw [← filter_popFirst_snd, h]
  obtain ⟨ys, hys⟩ := List.head?_eq_some_iff.mp hfst
  rw [hsnd, hys, List.tail_cons]

/-- 取り出せなければ、`ok` なものは無く、残りも無い。 -/
theorem filter_eq_nil_of_popFirst {l : List α} {rest : List α} (h : popFirst ok l = (none, rest)) :
    l.filter ok = [] ∧ rest = [] := by
  have hfst : (l.filter ok).head? = none := by rw [← popFirst_fst, h]
  exact ⟨List.head?_eq_none_iff.mp hfst, by
    have := popFirst_snd_of_fst_eq_none ok (l := l) (by rw [h])
    rwa [h] at this⟩

end PopFirst

/-! ## 締め切りの順の列: 抽象の機械 -/

section Abstract

variable [LinearOrder D] [Add D] [One D] [Div D] (calculateWeight : C → D)

/-- EDF の一歩: 締め切りの順の列の先頭を取り出し、締め切りを `1 / weight` 進めて、同じ締め切りのものの後ろに
入れ直す。 -/
def absNext : List (D × C) → Option (C × List (D × C))
  | [] => none
  | (d, c) :: rest => some (c, rest.orderedInsert (fun a b => a.1 < b.1) (d + 1 / calculateWeight c, c))

variable {calculateWeight}

/-- 一歩の後も締め切りの順。 -/
theorem absNext_sorted {L L' : List (D × C)} {c : C} (hL : L.Pairwise fun x y => x.1 ≤ y.1)
    (h : absNext calculateWeight L = some (c, L')) : L'.Pairwise fun x y => x.1 ≤ y.1 := by
  cases L with
  | nil => cases h
  | cons x rest =>
    simp only [absNext, Option.some.injEq, Prod.mk.injEq] at h
    obtain ⟨rfl, rfl⟩ := h
    exact OrderedInsert.pairwise_orderedInsert_lt Prod.fst _ (List.pairwise_cons.mp hL).2

variable (b : C → Bool)

/-- 生きている先頭を取り出す一歩は、死んだ entry を捨ててから取り出しても同じ。 -/
theorem absNext_filter_of_alive {L L' : List (D × C)} {c : C} (hL : L.Pairwise fun x y => x.1 ≤ y.1)
    (h : absNext calculateWeight L = some (c, L')) (hc : b c = true) :
    absNext calculateWeight (L.filter fun x => b x.2) = some (c, L'.filter fun x => b x.2) := by
  cases L with
  | nil => cases h
  | cons x rest =>
    obtain ⟨d, c'⟩ := x
    simp only [absNext, Option.some.injEq, Prod.mk.injEq] at h
    obtain ⟨rfl, rfl⟩ := h
    -- 入れ直す締め切りより遅いものの後ろは、みな遅い
    have hrest : rest.Pairwise fun x y => d + 1 / calculateWeight c' < x.1 → d + 1 / calculateWeight c' < y.1 :=
      (List.pairwise_cons.mp hL).2.imp fun hxy hx => lt_of_lt_of_le hx hxy
    rw [List.filter_cons_of_pos (p := fun x : D × C => b x.2) (a := (d, c')) hc,
      OrderedInsert.filter_orderedInsert _ (p := fun x : D × C => b x.2) (a := (_, c')) hc hrest]
    rfl

/-- 死んだ先頭を取り出す一歩は、死んだ entry を捨てた後には何も変えない。 -/
theorem filter_absNext_of_dead {L L' : List (D × C)} {c : C} (h : absNext calculateWeight L = some (c, L'))
    (hc : b c = false) : (L'.filter fun x => b x.2) = L.filter fun x => b x.2 := by
  cases L with
  | nil => cases h
  | cons x rest =>
    obtain ⟨d, c'⟩ := x
    simp only [absNext, Option.some.injEq, Prod.mk.injEq] at h
    obtain ⟨rfl, rfl⟩ := h
    rw [OrderedInsert.filter_orderedInsert_of_neg _ (p := fun x : D × C => b x.2) hc,
      List.filter_cons_of_neg (by simpa using hc)]

/-- 死んだ entry を捨てることと `k` 回の取り出しは、死んだ先頭を飛ばす分だけ回数をずらして可換。 -/
theorem advance_filter (k : Nat) : ∀ {L : List (D × C)}, L.Pairwise (fun x y => x.1 ≤ y.1) →
    ∃ k', ((Lookahead.advance (absNext calculateWeight) L k).1.filter fun x => b x.2,
      (Lookahead.advance (absNext calculateWeight) L k).2.filter b) =
      Lookahead.advance (absNext calculateWeight) (L.filter fun x => b x.2) k' := by
  induction k with
  | zero => exact fun _ => ⟨0, rfl⟩
  | succ k ih =>
    intro L hL
    cases hL' : absNext calculateWeight L with
    | none => exact ⟨0, by rw [Lookahead.advance_succ_of_none hL']; rfl⟩
    | some r =>
      obtain ⟨c, L'⟩ := r
      obtain ⟨k', hk'⟩ := ih (absNext_sorted hL hL')
      rw [Lookahead.advance_succ_of_some hL', List.filter_cons]
      cases hc : b c with
      | true =>
        -- 生きている先頭: 両側で一歩ずつ
        refine ⟨k' + 1, ?_⟩
        rw [Lookahead.advance_succ_of_some (absNext_filter_of_alive b hL hL' hc), ← hk']
        rfl
      | false =>
        -- 死んだ先頭: 捨てた側は動かない
        refine ⟨k', ?_⟩
        rw [← filter_absNext_of_dead b hL' hc, ← hk']
        rfl

end Abstract

/-! ## queue の不変条件と、写し方 -/

section Queue

/-- 生きている entry の（締め切り、entry）の列。 -/
def liveQueue (alive : C → Bool) (queue : List (EdfEntry C D)) : List (D × C) :=
  (queue.map fun e => (e.deadline, e.entry)).filter fun x => alive x.2

/-- 写した状態: 生きている entry の列と、`prepick_list_` の生きている entry。 -/
def view (alive : C → Bool) (s : EdfScheduler C D) : List (D × C) × List C :=
  (liveQueue alive s.queue, s.prepickList.filter alive)

theorem liveQueue_eq_map (alive : C → Bool) (q : List (EdfEntry C D)) :
    liveQueue alive q = (q.filter fun e => alive e.entry).map fun e => (e.deadline, e.entry) := by
  rw [liveQueue, List.filter_map]
  rfl

theorem popQueue_snd_suffix (alive : C → Bool) (q : List (EdfEntry C D)) : (popQueue alive q).2 <:+ q :=
  popFirst_snd_suffix _ q

/-- `popEntry()` の取り出したものは、生きている entry の列の先頭。 -/
theorem liveQueue_of_popQueue_some {alive : C → Bool} {q rest : List (EdfEntry C D)} {e : EdfEntry C D}
    (h : popQueue alive q = (some e, rest)) :
    alive e.entry = true ∧ liveQueue alive q = (e.deadline, e.entry) :: liveQueue alive rest := by
  have hfilter := filter_eq_of_popFirst (fun e : EdfEntry C D => alive e.entry) h
  have he : e ∈ q.filter fun e => alive e.entry := by rw [hfilter]; exact List.mem_cons_self
  refine ⟨(List.mem_filter.mp he).2, ?_⟩
  rw [liveQueue_eq_map, liveQueue_eq_map, hfilter, List.map_cons]

theorem liveQueue_of_popQueue_none {alive : C → Bool} {q rest : List (EdfEntry C D)}
    (h : popQueue alive q = (none, rest)) : liveQueue alive q = [] ∧ rest = [] := by
  obtain ⟨hfilter, hrest⟩ := filter_eq_nil_of_popFirst (fun e : EdfEntry C D => alive e.entry) h
  rw [liveQueue_eq_map, hfilter]
  exact ⟨rfl, hrest⟩

/-- 後の呼び出しで生きている entry だけを見ることは、前の写しからさらに捨てること。 -/
theorem view_filter {b b' : C → Bool} (hb : ∀ c, b' c = true → b c = true) (s : EdfScheduler C D) :
    view b' s = ((view b s).1.filter fun x => b' x.2, (view b s).2.filter b') := by
  simp only [view, liveQueue]
  rw [OrderedInsert.filter_filter_of_imp (p := fun x : D × C => b' x.2) (fun x => hb x.2),
    OrderedInsert.filter_filter_of_imp hb]

variable [LinearOrder D]

/-- queue に新しく入れる entry の `order_offset_` が誰よりも大きければ、鍵で前に入ることは締め切りが早いこと。 -/
theorem key_le_iff_deadline_lt {e b : EdfEntry C D} (h : b.orderOffset < e.orderOffset) :
    e.key ≤ b.key ↔ e.deadline < b.deadline := by
  simp only [EdfEntry.key, Prod.Lex.toLex_le_toLex]
  constructor
  · rintro (hlt | ⟨-, hle⟩)
    · exact hlt
    · exact absurd hle (not_le.mpr h)
  · exact Or.inl

theorem key_lt_iff_deadline_lt {e b : EdfEntry C D} (h : b.orderOffset < e.orderOffset) :
    e.key < b.key ↔ e.deadline < b.deadline := by
  simp only [EdfEntry.key, Prod.Lex.toLex_lt_toLex]
  constructor
  · rintro (hlt | ⟨-, hlt⟩)
    · exact hlt
    · exact absurd hlt (lt_asymm h)
  · exact Or.inl

theorem deadline_le_of_key_le {a b : EdfEntry C D} (h : a.key ≤ b.key) : a.deadline ≤ b.deadline := by
  rcases Prod.Lex.toLex_le_toLex.mp h with hlt | ⟨heq, -⟩
  · exact hlt.le
  · exact heq.le

/-- `priority_queue` の不変条件: 鍵の順に並び、`order_offset_` は入れた entry の誰よりも大きい。 -/
structure WF (s : EdfScheduler C D) : Prop where
  sorted : s.queue.Pairwise fun a b => a.key ≤ b.key
  offset_lt : ∀ e ∈ s.queue, e.orderOffset < s.orderOffset

/-- queue の後ろの部分だけを残す操作は不変条件を保つ。 -/
theorem WF.of_suffix {s t : EdfScheduler C D} (h : WF s) (hq : t.queue <:+ s.queue)
    (ho : t.orderOffset = s.orderOffset) : WF t where
  sorted := h.sorted.sublist hq.sublist
  offset_lt e he := ho ▸ h.offset_lt e (hq.subset he)

/-- 誰よりも大きい `order_offset_` の entry は、締め切りが遅くないものの前、つまり同じ締め切りのものの後ろに入る。 -/
theorem push_eq {q : List (EdfEntry C D)} {e : EdfEntry C D} (hoff : ∀ b ∈ q, b.orderOffset < e.orderOffset) :
    push q e = q.orderedInsert (fun a b => a.deadline < b.deadline) e :=
  OrderedInsert.orderedInsert_congr fun b hb => key_le_iff_deadline_lt (hoff b hb)

theorem liveQueue_sorted (alive : C → Bool) {q : List (EdfEntry C D)} (hq : q.Pairwise fun a b => a.key ≤ b.key) :
    (liveQueue alive q).Pairwise fun x y => x.1 ≤ y.1 := by
  rw [liveQueue]
  exact ((List.pairwise_map (f := fun e : EdfEntry C D => (e.deadline, e.entry))).mpr
    (hq.imp deadline_le_of_key_le)).filter _

variable [Add D] [One D] [Div D]

theorem WF.add {s : EdfScheduler C D} (h : WF s) (weight : D) (c : C) : WF (add weight c s) where
  sorted := by
    -- 鍵が等しいことは無いので、`≤` の位置に入れることは `<` の位置に入れること
    have hpush : push s.queue ⟨s.currentTime + 1 / weight, s.orderOffset, c⟩ =
        s.queue.orderedInsert (fun a b => a.key < b.key) ⟨s.currentTime + 1 / weight, s.orderOffset, c⟩ :=
      OrderedInsert.orderedInsert_congr fun b hb =>
        (key_le_iff_deadline_lt (h.offset_lt b hb)).trans (key_lt_iff_deadline_lt (h.offset_lt b hb)).symm
    simp only [EdfScheduler.add, hpush]
    exact OrderedInsert.pairwise_orderedInsert_lt EdfEntry.key _ h.sorted
  offset_lt e he := by
    simp only [EdfScheduler.add, push, List.mem_orderedInsert] at he
    rcases he with rfl | he
    · exact Nat.lt_succ_self _
    · exact Nat.lt_succ_of_lt (h.offset_lt e he)

/-- `popEntry()` で取り出した entry を `add()` で入れ直すことは、写した列では、締め切りの順の位置に入れること。 -/
theorem liveQueue_push_popped {alive : C → Bool} {s : EdfScheduler C D} (hs : WF s) {e : EdfEntry C D}
    {rest : List (EdfEntry C D)} (h : popQueue alive s.queue = (some e, rest)) (weight : D) :
    liveQueue alive (push rest ⟨e.deadline + 1 / weight, s.orderOffset, e.entry⟩) =
      (liveQueue alive rest).orderedInsert (fun a b => a.1 < b.1) (e.deadline + 1 / weight, e.entry) := by
  have hsuf : rest <:+ s.queue := by
    have := popQueue_snd_suffix alive s.queue
    rwa [h] at this
  have halive := (liveQueue_of_popQueue_some h).1
  have hsorted : rest.Pairwise fun a b => a.key ≤ b.key := hs.sorted.sublist hsuf.sublist
  rw [push_eq fun b hb => hs.offset_lt b (hsuf.subset hb), liveQueue,
    List.map_orderedInsert _ (fun a b : D × C => a.1 < b.1) _ _ _ (fun _ _ => Iff.rfl) (fun _ _ => Iff.rfl)]
  -- 入れ直す締め切りより遅いものの後ろは、みな遅い
  have hlater : (rest.map fun e => (e.deadline, e.entry)).Pairwise
      fun x y => e.deadline + 1 / weight < x.1 → e.deadline + 1 / weight < y.1 :=
    List.pairwise_map.mpr (hsorted.imp fun hxy hx => lt_of_lt_of_le hx (deadline_le_of_key_le hxy))
  exact OrderedInsert.filter_orderedInsert _ (p := fun x : D × C => alive x.2) (a := (_, e.entry)) halive hlater

end Queue

/-! ## 一回の呼び出しの写し -/

section Refinement

variable {alive : C → Bool} {s : EdfScheduler C D}

@[simp] theorem popEntry_snd_prepickList : (popEntry alive s).2.prepickList = s.prepickList := by
  unfold popEntry
  split <;> rfl

@[simp] theorem popEntry_snd_orderOffset : (popEntry alive s).2.orderOffset = s.orderOffset := by
  unfold popEntry
  split <;> rfl

theorem popEntry_snd_queue : (popEntry alive s).2.queue = (popQueue alive s.queue).2 := by
  unfold popEntry
  split <;> rename_i heq <;> rw [heq]

variable [LinearOrder D]

theorem WF.popEntry (hs : WF s) : WF (popEntry alive s).2 :=
  hs.of_suffix (by rw [popEntry_snd_queue]; exact popQueue_snd_suffix alive s.queue) popEntry_snd_orderOffset

/-- 不変条件は `prepick_list_` を見ない。 -/
theorem WF.with_prepickList (hs : WF s) (P : List C) : WF { s with prepickList := P } := ⟨hs.sorted, hs.offset_lt⟩

variable [Add D] [One D] [Div D] (calculateWeight : C → D)

theorem WF.peekAgain (hs : WF s) : WF (peekAgain alive calculateWeight s).2 := by
  unfold EdfScheduler.peekAgain
  have hpop : WF (EdfScheduler.popEntry alive s).2 := hs.popEntry
  split
  case _ s' heq => rw [heq] at hpop; exact hpop
  case _ ret s' heq => rw [heq] at hpop; exact (hpop.with_prepickList _).add _ ret

theorem WF.pickAndAdd (hs : WF s) : WF (pickAndAdd alive calculateWeight s).2 := by
  unfold EdfScheduler.pickAndAdd
  split
  case _ ret rest _ => exact hs.with_prepickList rest
  case _ rest _ =>
    have hpop : WF (EdfScheduler.popEntry alive { s with prepickList := rest }).2 := (hs.with_prepickList rest).popEntry
    split
    case _ s' heq => rw [heq] at hpop; exact hpop
    case _ ret s' heq => rw [heq] at hpop; exact hpop.add _ ret

/-- `peekAgain()` は、写すと先読み。 -/
theorem view_peekAgain (hs : WF s) :
    ((peekAgain alive calculateWeight s).1, view alive (peekAgain alive calculateWeight s).2) =
      Lookahead.peek (absNext calculateWeight) (view alive s) := by
  unfold EdfScheduler.peekAgain popEntry
  rcases hp : popQueue alive s.queue with ⟨_ | e, rest⟩
  · obtain ⟨hnil, rfl⟩ := liveQueue_of_popQueue_none hp
    simp only [view, Lookahead.peek, hnil, absNext]
    rfl
  · obtain ⟨he, hlive⟩ := liveQueue_of_popQueue_some hp
    simp only [view, Lookahead.peek, hlive, absNext, EdfScheduler.add, liveQueue_push_popped hs hp,
      List.filter_append, List.filter_cons, List.filter_nil, he, if_true]

/-- `pickAndAdd()` は、写すと取り出し: 生きている先読みがあればその先頭、無ければ機械から。 -/
theorem view_pickAndAdd (hs : WF s) :
    ((pickAndAdd alive calculateWeight s).1, view alive (pickAndAdd alive calculateWeight s).2) =
      Lookahead.pick (absNext calculateWeight) (view alive s) := by
  unfold EdfScheduler.pickAndAdd
  rcases hpp : popPrepick alive s.prepickList with ⟨_ | c, rest⟩
  · -- 生きている先読みは無い: queue から取り出す
    obtain ⟨hnil, rfl⟩ := filter_eq_nil_of_popFirst alive hpp
    unfold popEntry
    dsimp only
    rcases hp : popQueue alive s.queue with ⟨_ | e, rest⟩
    · obtain ⟨hq, rfl⟩ := liveQueue_of_popQueue_none hp
      simp only [view, Lookahead.pick, hnil, hq, absNext]
      rfl
    · obtain ⟨-, hlive⟩ := liveQueue_of_popQueue_some hp
      simp only [view, Lookahead.pick, hnil, hlive, absNext, EdfScheduler.add, liveQueue_push_popped hs hp,
        List.filter_nil]
  · -- 生きている先読みの先頭
    simp only [view, Lookahead.pick, filter_eq_of_popFirst alive hpp]

/-- entry が死んでも、先読みの関係は、死んだ entry を捨てた写しの間で保たれる。 -/
theorem lag_view_filter {b b' : C → Bool} {sP sL : EdfScheduler C D} (hsL : WF sL)
    (hb : ∀ c, b' c = true → b c = true)
    (h : Lookahead.Lag (absNext calculateWeight) (view b sP) (view b sL)) :
    Lookahead.Lag (absNext calculateWeight) (view b' sP) (view b' sL) := by
  rw [view_filter hb sP, view_filter hb sL]
  exact h.map (fun L => L.filter fun x => b' x.2) (fun P => P.filter b') (fun P X => List.filter_append P X)
    (fun k => advance_filter b' k (liveQueue_sorted b hsL.sorted))

end Refinement

/-! ## 呼び出しの列 -/

/-- `Scheduler` の二つの取り出し方。 -/
inductive Call
  | peekAgain
  | pickAndAdd
  deriving DecidableEq, Repr

/-- `pickAndAdd` の返したもの。 -/
def pickResults (rs : List (Call × Option C)) : List (Option C) :=
  (rs.filter fun r => r.1 = .pickAndAdd).map (·.2)

/-- `peekAgain` の返した entry。 -/
def peekResults (rs : List (Call × Option C)) : List C :=
  (rs.filter fun r => r.1 = .peekAgain).filterMap (·.2)

/-- `pickAndAdd` だけの呼び出し。 -/
def plainCalls (calls : List (Call × (C → Bool))) : List (Call × (C → Bool)) :=
  calls.filter fun x => x.1 = .pickAndAdd

/-- entry は呼び出しの間で死に、生き返らない（`weak_ptr`）: 後の呼び出しで生きている entry は、前の呼び出しでも
生きている。 -/
def Expiring (calls : List (Call × (C → Bool))) : Prop :=
  calls.Pairwise fun x y => ∀ c, y.2 c = true → x.2 c = true

@[simp] theorem pickResults_cons_peekAgain (r : Option C) (rs : List (Call × Option C)) :
    pickResults ((.peekAgain, r) :: rs) = pickResults rs := by
  simp [pickResults]

@[simp] theorem pickResults_cons_pickAndAdd (r : Option C) (rs : List (Call × Option C)) :
    pickResults ((.pickAndAdd, r) :: rs) = r :: pickResults rs := by
  simp [pickResults]

@[simp] theorem peekResults_cons_peekAgain (r : Option C) (rs : List (Call × Option C)) :
    peekResults ((.peekAgain, r) :: rs) = r.toList ++ peekResults rs := by
  cases r <;> simp [peekResults]

@[simp] theorem peekResults_cons_pickAndAdd (r : Option C) (rs : List (Call × Option C)) :
    peekResults ((.pickAndAdd, r) :: rs) = peekResults rs := by
  simp [peekResults]

@[simp] theorem plainCalls_cons_peekAgain (alive : C → Bool) (calls : List (Call × (C → Bool))) :
    plainCalls ((.peekAgain, alive) :: calls) = plainCalls calls := by
  simp [plainCalls]

@[simp] theorem plainCalls_cons_pickAndAdd (alive : C → Bool) (calls : List (Call × (C → Bool))) :
    plainCalls ((.pickAndAdd, alive) :: calls) = (.pickAndAdd, alive) :: plainCalls calls := by
  simp [plainCalls]

section Run

variable [LinearOrder D] [Add D] [One D] [Div D] (calculateWeight : C → D)

/-- 一回の呼び出し。 -/
def call : Call → (C → Bool) → EdfScheduler C D → Option C × EdfScheduler C D
  | .peekAgain, alive, s => peekAgain alive calculateWeight s
  | .pickAndAdd, alive, s => pickAndAdd alive calculateWeight s

/-- 呼び出しの列を順に行い、各呼び出しの返したものと、後の状態を返す。呼び出しには、その時に生きている entry
を添える。 -/
def run : List (Call × (C → Bool)) → EdfScheduler C D → List (Call × Option C) × EdfScheduler C D
  | [], s => ([], s)
  | (k, alive) :: calls, s =>
    ((k, (call calculateWeight k alive s).1) :: (run calls (call calculateWeight k alive s).2).1,
      (run calls (call calculateWeight k alive s).2).2)

/-- 先読みの関係にある二つの状態から、一方は呼び出しの列を、他方はその `pickAndAdd` だけを行うと、
`pickAndAdd` は同じものを返す。帰納法は呼び出しの列について、先読みの関係を次の呼び出しで生きている
entry の写しの間で運ぶ。 -/
theorem pickResults_run_of_lag (calls : List (Call × (C → Bool))) {b : C → Bool} {sP sL : EdfScheduler C D}
    (hsP : WF sP) (hsL : WF sL) (hlag : Lookahead.Lag (absNext calculateWeight) (view b sP) (view b sL))
    (hcalls : ∀ x ∈ calls, ∀ c, x.2 c = true → b c = true) (hexp : Expiring calls) :
    pickResults (run calculateWeight calls sP).1 = pickResults (run calculateWeight (plainCalls calls) sL).1 := by
  induction calls generalizing b sP sL with
  | nil => rfl
  | cons x calls ih =>
    obtain ⟨k, b'⟩ := x
    obtain ⟨hlater, hrest⟩ := List.pairwise_cons.mp hexp
    -- この呼び出しで生きている entry だけを見る
    have hlag' := lag_view_filter calculateWeight hsL (hcalls _ List.mem_cons_self) hlag
    cases k with
    | peekAgain =>
      -- 先読みする側だけが進む
      have hnext : Lookahead.Lag (absNext calculateWeight) (view b' (peekAgain b' calculateWeight sP).2)
          (view b' sL) := by
        rw [show view b' (peekAgain b' calculateWeight sP).2 = (Lookahead.peek _ (view b' sP)).2 from
          congrArg Prod.snd (view_peekAgain calculateWeight hsP)]
        exact hlag'.peek
      simp only [run, call, pickResults_cons_peekAgain, plainCalls_cons_peekAgain]
      exact ih (hsP.peekAgain calculateWeight) hsL hnext hlater hrest
    | pickAndAdd =>
      -- 両側で取り出す
      obtain ⟨hres, hnext⟩ := hlag'.pick
      simp only [← view_pickAndAdd calculateWeight hsP, ← view_pickAndAdd calculateWeight hsL] at hres hnext
      simp only [run, call, pickResults_cons_pickAndAdd, plainCalls_cons_pickAndAdd]
      rw [hres, ih (hsP.pickAndAdd calculateWeight) (hsL.pickAndAdd calculateWeight) hnext hlater hrest]

/-! ### `prepick_list_` -/

variable {alive : C → Bool} {s : EdfScheduler C D}

/-- `peekAgain()` は、返した entry を `prepick_list_` の後ろに置く。 -/
theorem prepickList_peekAgain :
    (peekAgain alive calculateWeight s).2.prepickList = s.prepickList ++ (peekAgain alive calculateWeight s).1.toList := by
  have hpop := @popEntry_snd_prepickList _ _ alive s
  unfold EdfScheduler.peekAgain
  split
  case _ s' heq => simp only [heq] at hpop; simp [hpop]
  case _ ret s' heq => simp only [heq] at hpop; simp [EdfScheduler.add, hpop]

/-- `pickAndAdd()` は `prepick_list_` の前を捨てるだけ。 -/
theorem prepickList_pickAndAdd_suffix :
    (pickAndAdd alive calculateWeight s).2.prepickList <:+ s.prepickList := by
  have hsuf : (popPrepick alive s.prepickList).2 <:+ s.prepickList := popFirst_snd_suffix alive s.prepickList
  unfold EdfScheduler.pickAndAdd
  split
  case _ ret rest heq => simp only [heq] at hsuf; exact hsuf
  case _ rest heq =>
    simp only [heq] at hsuf
    have hpop := @popEntry_snd_prepickList _ _ alive { s with prepickList := rest }
    split
    case _ s' heq' => simp only [heq'] at hpop; rw [hpop]; exact hsuf
    case _ ret s' heq' => simp only [heq'] at hpop; simp only [EdfScheduler.add, hpop]; exact hsuf

/-- `pickAndAdd()` は、`prepick_list_` に生きている entry があれば、その最も古いものを返し、それより前と
それを捨てる。queue と `current_time_` には触れない。 -/
theorem pickAndAdd_of_prepick (h : s.prepickList.filter alive ≠ []) :
    pickAndAdd alive calculateWeight s =
      ((s.prepickList.filter alive).head?, { s with prepickList := (popPrepick alive s.prepickList).2 }) := by
  unfold EdfScheduler.pickAndAdd
  rcases hpp : popPrepick alive s.prepickList with ⟨_ | c, rest⟩
  · exact absurd (filter_eq_nil_of_popFirst alive hpp).1 h
  · simp only [filter_eq_of_popFirst alive hpp, List.head?_cons]

/-- 呼び出しの列の後の `prepick_list_` は、元の `prepick_list_` に先読みした entry を足した列の後ろの部分:
先読みした順に並び、`pickAndAdd()` は前から使う。 -/
theorem prepickList_run_suffix (calls : List (Call × (C → Bool))) (s : EdfScheduler C D) :
    (run calculateWeight calls s).2.prepickList <:+ s.prepickList ++ peekResults (run calculateWeight calls s).1 := by
  induction calls generalizing s with
  | nil => simp [run, peekResults]
  | cons x calls ih =>
    obtain ⟨k, b'⟩ := x
    have ih' := ih (call calculateWeight k b' s).2
    cases k with
    | peekAgain =>
      simp only [run, call, peekResults_cons_peekAgain] at ih' ⊢
      rwa [prepickList_peekAgain, List.append_assoc] at ih'
    | pickAndAdd =>
      simp only [run, call, peekResults_cons_pickAndAdd] at ih' ⊢
      exact ih'.trans (List.suffix_append_self_iff.mpr (prepickList_pickAndAdd_suffix calculateWeight))

/-! ### entry が死なない時: 状態そのものの先読み -/

/-- entry が死なない時の、`prepick_list_` を除いた機械の一歩: `popEntry()` で取り出し、`add()` で入れ直す。 -/
def queueNext (q : EdfScheduler C D) : Option (C × EdfScheduler C D) :=
  match popEntry (fun _ => true) q with
  | (none, _) => none
  | (some c, q') => some (c, add (calculateWeight c) c q')

omit [LinearOrder D] [Add D] [One D] [Div D] in
/-- `prepick_list_` を buffer として外に出す。 -/
def splitPrepick (s : EdfScheduler C D) : EdfScheduler C D × List C := ({ s with prepickList := [] }, s.prepickList)

omit [LinearOrder D] [Add D] [One D] [Div D] in
theorem eq_of_splitPrepick_eq {t u : EdfScheduler C D} (h : splitPrepick t = (u, [])) : t = u := by
  obtain ⟨ht, hP⟩ := Prod.mk.inj h
  cases t
  subst ht
  simp only at hP
  rw [hP]

theorem splitPrepick_peekAgain :
    ((peekAgain (fun _ => true) calculateWeight s).1, splitPrepick (peekAgain (fun _ => true) calculateWeight s).2) =
      Lookahead.peek (queueNext calculateWeight) (splitPrepick s) := by
  obtain ⟨t, o, q, P⟩ := s
  cases q <;> rfl

theorem splitPrepick_pickAndAdd :
    ((pickAndAdd (fun _ => true) calculateWeight s).1, splitPrepick (pickAndAdd (fun _ => true) calculateWeight s).2) =
      Lookahead.pick (queueNext calculateWeight) (splitPrepick s) := by
  obtain ⟨t, o, q, P⟩ := s
  cases P with
  | cons c P => rfl
  | nil => cases q <;> rfl

/-- entry が死ななければ、状態そのものが先読みの関係を保つ。 -/
theorem lag_splitPrepick_run (calls : List (Call × (C → Bool))) (hcalls : ∀ x ∈ calls, x.2 = fun _ => true)
    {sP sL : EdfScheduler C D} (hlag : Lookahead.Lag (queueNext calculateWeight) (splitPrepick sP) (splitPrepick sL)) :
    Lookahead.Lag (queueNext calculateWeight) (splitPrepick (run calculateWeight calls sP).2)
      (splitPrepick (run calculateWeight (plainCalls calls) sL).2) := by
  induction calls generalizing sP sL with
  | nil => exact hlag
  | cons x calls ih =>
    obtain ⟨k, b'⟩ := x
    obtain rfl : b' = fun _ => true := hcalls _ List.mem_cons_self
    have hrest : ∀ x ∈ calls, x.2 = fun _ => true := fun x hx => hcalls x (List.mem_cons_of_mem _ hx)
    cases k with
    | peekAgain =>
      simp only [run, call, plainCalls_cons_peekAgain]
      refine ih hrest ?_
      rw [show splitPrepick (peekAgain (fun _ => true) calculateWeight sP).2 =
          (Lookahead.peek _ (splitPrepick sP)).2 from congrArg Prod.snd (splitPrepick_peekAgain calculateWeight)]
      exact hlag.peek
    | pickAndAdd =>
      simp only [run, call, plainCalls_cons_pickAndAdd]
      refine ih hrest ?_
      rw [show splitPrepick (pickAndAdd (fun _ => true) calculateWeight sP).2 =
          (Lookahead.pick _ (splitPrepick sP)).2 from congrArg Prod.snd (splitPrepick_pickAndAdd calculateWeight),
        show splitPrepick (pickAndAdd (fun _ => true) calculateWeight sL).2 =
          (Lookahead.pick _ (splitPrepick sL)).2 from congrArg Prod.snd (splitPrepick_pickAndAdd calculateWeight)]
      exact hlag.pick.2

/-- `n` 回の `pickAndAdd()` は、先読みの buffer の `n` 回の取り出し。 -/
theorem splitPrepick_run_replicate (n : Nat) (s : EdfScheduler C D) :
    splitPrepick (run calculateWeight (List.replicate n (.pickAndAdd, fun _ => true)) s).2 =
      (Lookahead.pickN (queueNext calculateWeight) n (splitPrepick s)).2 := by
  induction n generalizing s with
  | zero => rfl
  | succ n ih =>
    simp only [List.replicate_succ, run, call]
    rw [ih]
    -- `pickN` の一歩目は `pick`
    show _ = (Lookahead.pickN _ n (Lookahead.pick _ (splitPrepick s)).2).2
    rw [← splitPrepick_pickAndAdd calculateWeight]

omit [LinearOrder D] [Add D] [One D] [Div D] in
theorem plainCalls_eq_replicate {calls : List (Call × (C → Bool))} (hcalls : ∀ x ∈ calls, x.2 = fun _ => true) :
    plainCalls calls = List.replicate (plainCalls calls).length (.pickAndAdd, fun _ => true) := by
  refine List.eq_replicate_iff.mpr ⟨rfl, fun x hx => ?_⟩
  obtain ⟨hmem, hpick⟩ := List.mem_filter.mp hx
  exact Prod.ext (of_decide_eq_true hpick) (hcalls x hmem)

/-! ### `peekAgain()` は先読み -/

/-- `peekAgain()` と `pickAndAdd()` をどう交ぜても、entry が呼び出しの間に死んでも:

* `pickAndAdd()` の返すものの列は、同じ状態から、同じ時に同じ entry が死ぬもとで `pickAndAdd()` だけを
  呼んだ時と同じ;
* `prepick_list_` は、元の `prepick_list_` に先読みした entry を足した列の後ろの部分で、次の `pickAndAdd()`
  は、そこに生きている entry があれば最も古いものを返し、queue と `current_time_` に触れない;
* entry が死ななければ、後の状態は、`pickAndAdd()` の回数に残った `prepick_list_` の長さを足した回数だけ
  `pickAndAdd()` を呼んだ状態の、`prepick_list_` を空にしたもの。 -/
theorem peekAgain_is_lookahead (s : EdfScheduler C D) (calls : List (Call × (C → Bool)))
    (hs : WF s) (hexp : Expiring calls) :
    pickResults (run calculateWeight calls s).1 = pickResults (run calculateWeight (plainCalls calls) s).1 ∧
    ((run calculateWeight calls s).2.prepickList <:+ s.prepickList ++ peekResults (run calculateWeight calls s).1 ∧
      ∀ alive, (run calculateWeight calls s).2.prepickList.filter alive ≠ [] →
        pickAndAdd alive calculateWeight (run calculateWeight calls s).2 =
          (((run calculateWeight calls s).2.prepickList.filter alive).head?,
            { (run calculateWeight calls s).2 with
              prepickList := (popPrepick alive (run calculateWeight calls s).2.prepickList).2 })) ∧
    ((∀ x ∈ calls, ∀ c, x.2 c = true) →
      (run calculateWeight
          (List.replicate ((plainCalls calls).length + (run calculateWeight calls s).2.prepickList.length)
            (.pickAndAdd, fun _ => true)) s).2 =
        { (run calculateWeight calls s).2 with prepickList := [] }) := by
  refine ⟨?_, ⟨prepickList_run_suffix calculateWeight calls s, fun alive h => pickAndAdd_of_prepick calculateWeight h⟩, ?_⟩
  case refine_1 =>
    -- 始めは同じ状態: 先読みの関係は `Lag.refl`
    exact pickResults_run_of_lag calculateWeight calls (b := fun _ => true) hs hs (Lookahead.Lag.refl _)
      (fun _ _ _ _ => rfl) hexp
  case refine_2 =>
    intro halive
    have hcalls : ∀ x ∈ calls, x.2 = fun _ => true := fun x hx => funext (halive x hx)
    have hlag := lag_splitPrepick_run calculateWeight calls hcalls (Lookahead.Lag.refl (splitPrepick s))
    -- しない側は `pickAndAdd()` を `m` 回呼んだ状態
    have hplain : splitPrepick (run calculateWeight (plainCalls calls) s).2 =
        (Lookahead.pickN (queueNext calculateWeight) (plainCalls calls).length (splitPrepick s)).2 := by
      conv_lhs => rw [plainCalls_eq_replicate hcalls]
      exact splitPrepick_run_replicate calculateWeight _ s
    apply eq_of_splitPrepick_eq
    rw [splitPrepick_run_replicate, Lookahead.pickN_add, ← hplain]
    exact hlag.pickN_length

end Run

/-- 重み 2 と 1 の entry を入れ、二つ先読みした後に最初の entry が死ぬと、`pickAndAdd()` は二つ目を返す。
`pickAndAdd()` だけを呼んでも同じ。 -/
theorem peekAgain_expired_peek_skipped :
    pickResults (run (fun c : Nat => if c = 0 then (2 : ℚ) else 1)
        [(.peekAgain, fun _ => true), (.peekAgain, fun _ => true), (.pickAndAdd, fun c => c == 1)]
        ⟨0, 2, [⟨1 / 2, 0, 0⟩, ⟨1, 1, 1⟩], []⟩).1 = [some 1] ∧
    pickResults (run (fun c : Nat => if c = 0 then (2 : ℚ) else 1) [(.pickAndAdd, fun c => c == 1)]
        ⟨0, 2, [⟨1 / 2, 0, 0⟩, ⟨1, 1, 1⟩], []⟩).1 = [some 1] := by
  have hwf : WF (⟨0, 2, [⟨1 / 2, 0, 0⟩, ⟨1, 1, 1⟩], []⟩ : EdfScheduler Nat ℚ) :=
    ⟨by decide +kernel, by decide +kernel⟩
  have hexp : Expiring ([(.peekAgain, fun _ => true), (.peekAgain, fun _ => true), (.pickAndAdd, fun c => c == 1)] :
      List (Call × (Nat → Bool))) := by
    simp [Expiring]
  have hsame := (peekAgain_is_lookahead (fun c : Nat => if c = 0 then (2 : ℚ) else 1) _ _ hwf hexp).1
  have hpeek : pickResults (run (fun c : Nat => if c = 0 then (2 : ℚ) else 1)
      [(.peekAgain, fun _ => true), (.peekAgain, fun _ => true), (.pickAndAdd, fun c => c == 1)]
      ⟨0, 2, [⟨1 / 2, 0, 0⟩, ⟨1, 1, 1⟩], []⟩).1 = [some 1] := by
    decide +kernel
  exact ⟨hpeek, hsame ▸ hpeek⟩

/-- `pickAndAdd()` の後に `peekAgain()` を呼ぶと（`n = m = 1`）、`current_time_` は 2 で、`pickAndAdd()` を
`max(n, m) = 1` 回呼んだ時の 1 ではない: 先読みは、それまでの取り出しの後の entry を取り出す。 -/
theorem peekAgain_after_pickAndAdd_outruns_max :
    (run (fun _ => (1 : ℚ)) [(.pickAndAdd, fun _ => true), (.peekAgain, fun _ => true)]
        (⟨0, 1, [⟨1, 0, 0⟩], []⟩ : EdfScheduler Nat ℚ)).2.currentTime ≠
      (run (fun _ => (1 : ℚ)) [(.pickAndAdd, fun _ => true)]
        (⟨0, 1, [⟨1, 0, 0⟩], []⟩ : EdfScheduler Nat ℚ)).2.currentTime := by
  decide +kernel

end EdfScheduler

end Envoy.Upstream
