import Mathlib.Order.MinMax
import Mathlib.Data.List.Basic

/-!
# 半開区間の列

線形順序の上の半開区間 `[p.1, p.2)` の列が覆う値 `covers`、空でない区間が重ならず接しもせずに順に並ぶ
`Canonical`。標準形の列は、覆う値の集合で一つに決まる（`Canonical.eq_of_covers`）。並んだ区間の一続き
`m :: M` が `[left, right]` に触れるとき、それと `[left, right)` を合わせたものは一つの区間になる
（`covers_merge`）。

自然数の区間については、列から位置が区間に入る文字を除く `deletePositions` を持つ。
-/

namespace Intervals

variable {V : Type*} [LinearOrder V]

/-- 半開区間の列 `l` のどれかが `v` を含む。 -/
def covers (l : List (V × V)) (v : V) : Prop := ∃ p ∈ l, p.1 ≤ v ∧ v < p.2

instance (l : List (V × V)) : DecidablePred (covers l) := fun v =>
  inferInstanceAs (Decidable (∃ p ∈ l, p.1 ≤ v ∧ v < p.2))

@[simp] theorem not_covers_nil (v : V) : ¬covers [] v := by simp [covers]

@[simp] theorem covers_cons {p : V × V} {l : List (V × V)} {v : V} :
    covers (p :: l) v ↔ (p.1 ≤ v ∧ v < p.2) ∨ covers l v := by
  simp [covers]

@[simp] theorem covers_append {l₁ l₂ : List (V × V)} {v : V} :
    covers (l₁ ++ l₂) v ↔ covers l₁ v ∨ covers l₂ v := by
  simp only [covers, List.mem_append]
  constructor
  · rintro ⟨p, hp | hp, hv⟩
    · exact .inl ⟨p, hp, hv⟩
    · exact .inr ⟨p, hp, hv⟩
  · rintro (⟨p, hp, hv⟩ | ⟨p, hp, hv⟩)
    · exact ⟨p, .inl hp, hv⟩
    · exact ⟨p, .inr hp, hv⟩

/-- 空でない区間が、重ならず接しもせずに順に並ぶ。 -/
structure Canonical (l : List (V × V)) : Prop where
  sorted : l.Pairwise fun a b => a.2 < b.1
  nonempty : ∀ p ∈ l, p.1 < p.2

theorem canonical_nil : Canonical ([] : List (V × V)) := ⟨List.Pairwise.nil, by simp⟩

theorem Canonical.sublist {l₁ l₂ : List (V × V)} (h : Canonical l₂) (hs : l₁.Sublist l₂) : Canonical l₁ :=
  ⟨h.sorted.sublist hs, fun p hp => h.nonempty p (hs.subset hp)⟩

theorem Canonical.tail {p : V × V} {l : List (V × V)} (h : Canonical (p :: l)) : Canonical l :=
  h.sublist (List.sublist_cons_self p l)

/-- 標準形の列が覆う値は、先頭の区間の始まり以上。 -/
theorem Canonical.head_le {p : V × V} {l : List (V × V)} (h : Canonical (p :: l)) {v : V}
    (hv : covers (p :: l) v) : p.1 ≤ v := by
  rcases covers_cons.mp hv with ⟨hle, -⟩ | ⟨e, he, hle, -⟩
  · exact hle
  · have hpe := List.rel_of_pairwise_cons h.sorted he
    exact ((h.nonempty p (by simp)).trans hpe).le.trans hle

/-- 標準形の列で先頭の区間より後の区間は、始まりも終わりも先頭より後。 -/
theorem Canonical.le_of_mem_cons {h : V × V} {R : List (V × V)} (hc : Canonical (h :: R)) {e : V × V}
    (he : e ∈ h :: R) : h.1 ≤ e.1 ∧ h.2 ≤ e.2 := by
  rcases List.mem_cons.mp he with rfl | he
  · exact ⟨le_rfl, le_rfl⟩
  · have hlt := List.rel_of_pairwise_cons hc.sorted he
    have hh := hc.nonempty h (by simp)
    have he' := hc.nonempty e (by simp [he])
    exact ⟨(hh.trans hlt).le, (hlt.trans he').le⟩

/-- 先頭の区間の終わりまでの値を、残りの区間は覆わない。 -/
theorem Canonical.not_covers_tail {p : V × V} {l : List (V × V)} (h : Canonical (p :: l)) {v : V}
    (hv : v ≤ p.2) : ¬covers l v := by
  rintro ⟨e, he, hle, -⟩
  exact absurd (hv.trans_lt ((List.rel_of_pairwise_cons h.sorted he).trans_le hle)) (lt_irrefl v)

/-- 区間は接しないので、先頭の区間の終わりは覆われない。 -/
theorem Canonical.not_covers_snd {p : V × V} {l : List (V × V)} (h : Canonical (p :: l)) :
    ¬covers (p :: l) p.2 := by
  rw [covers_cons, not_or]
  exact ⟨fun hp => lt_irrefl _ hp.2, h.not_covers_tail le_rfl⟩

/-- 標準形の列の各区間は、最後の区間の終わりまでで終わる。 -/
theorem Canonical.snd_le_getLast {l : List (V × V)} (h : Canonical l) (hne : l ≠ []) {e : V × V}
    (he : e ∈ l) : e.2 ≤ (l.getLast hne).2 := by
  have hsplit := List.dropLast_append_getLast hne
  have hsorted := h.sorted
  rw [← hsplit] at hsorted he
  rcases List.mem_append.mp he with he | he
  · have hlt := (List.pairwise_append.mp hsorted).2.2 e he _ (List.mem_singleton_self _)
    exact (hlt.trans (h.nonempty _ (List.getLast_mem hne))).le
  · rw [List.mem_singleton.mp he]

/-- 標準形の列は、覆う値の集合で決まる。 -/
theorem Canonical.eq_of_covers {l l' : List (V × V)} (h : Canonical l) (h' : Canonical l')
    (hc : ∀ v, covers l v ↔ covers l' v) : l = l' := by
  induction l generalizing l' with
  | nil =>
    cases l' with
    | nil => rfl
    | cons q qs =>
      -- `q.1` は `l'` に覆われるが、空の列には覆われない
      have hq : covers (q :: qs) q.1 := covers_cons.mpr (.inl ⟨le_rfl, h'.nonempty q (by simp)⟩)
      exact absurd ((hc q.1).mpr hq) (not_covers_nil _)
  | cons p ps ih =>
    cases l' with
    | nil =>
      have hp : covers (p :: ps) p.1 := covers_cons.mpr (.inl ⟨le_rfl, h.nonempty p (by simp)⟩)
      exact absurd ((hc p.1).mp hp) (not_covers_nil _)
    | cons q qs =>
      have hp1 : covers (p :: ps) p.1 := covers_cons.mpr (.inl ⟨le_rfl, h.nonempty p (by simp)⟩)
      have hq1 : covers (q :: qs) q.1 := covers_cons.mpr (.inl ⟨le_rfl, h'.nonempty q (by simp)⟩)
      -- 始まりは、覆われる最小の値
      have hfst : p.1 = q.1 :=
        le_antisymm (h.head_le ((hc q.1).mpr hq1)) (h'.head_le ((hc p.1).mp hp1))
      -- 終わりは、始まりの後で最初に覆われない値
      have hsnd : p.2 = q.2 := by
        rcases lt_trichotomy p.2 q.2 with hlt | heq | hgt
        · have hq : covers (q :: qs) p.2 :=
            covers_cons.mpr (.inl ⟨hfst ▸ (h.nonempty p (by simp)).le, hlt⟩)
          exact absurd ((hc p.2).mpr hq) h.not_covers_snd
        · exact heq
        · have hp : covers (p :: ps) q.2 :=
            covers_cons.mpr (.inl ⟨hfst ▸ (h'.nonempty q (by simp)).le, hgt⟩)
          exact absurd ((hc q.2).mp hp) h'.not_covers_snd
      have hpq : p = q := Prod.ext hfst hsnd
      subst hpq
      -- 残りの列は、先頭の区間の後の値を同じに覆う
      refine congrArg (p :: ·) (ih h.tail h'.tail fun v => ?_)
      by_cases hv : v < p.2
      · exact iff_of_false (h.not_covers_tail hv.le) (h'.not_covers_tail hv.le)
      · have hout : ¬(p.1 ≤ v ∧ v < p.2) := fun hp => hv hp.2
        have := hc v
        simpa only [covers_cons, hout, false_or] using this

/-- `[left, right]` に触れる並んだ区間の一続き `m :: M` と `[left, right)` を合わせると、`m` の始まりか
`left` の小さい方から、最後の区間の終わりか `right` の大きい方までの区間になる。 -/
theorem covers_merge {m : V × V} {M : List (V × V)} (h : Canonical (m :: M)) {left right : V}
    (hl : ∀ e ∈ m :: M, left ≤ e.2) (hr : ∀ e ∈ m :: M, e.1 ≤ right) (v : V) :
    covers (m :: M) v ∨ (left ≤ v ∧ v < right) ↔
      min m.1 left ≤ v ∧ v < max ((m :: M).getLast (List.cons_ne_nil m M)).2 right := by
  have hlast := List.getLast_mem (List.cons_ne_nil m M)
  constructor
  · rintro (hv | ⟨hlv, hvr⟩)
    · obtain ⟨e, he, hle, hlt⟩ := hv
      have hm : m.1 ≤ e.1 := h.head_le (covers_cons.mpr (by
        rcases List.mem_cons.mp he with rfl | he
        · exact .inl ⟨le_rfl, h.nonempty _ (by simp)⟩
        · exact .inr ⟨e, he, le_rfl, h.nonempty e (by simp [he])⟩))
      exact ⟨min_le_iff.mpr (.inl (hm.trans hle)),
        lt_max_iff.mpr (.inl (hlt.trans_le (h.snd_le_getLast _ he)))⟩
    · exact ⟨min_le_iff.mpr (.inr hlv), lt_max_iff.mpr (.inr hvr)⟩
  · rintro ⟨hlo, hhi⟩
    by_cases hvl : v < left
    · -- `left` より前の値は `m` の中: `m` は `left` まで届く
      have hm1 : m.1 ≤ v := (min_le_iff.mp hlo).resolve_right (not_le.mpr hvl)
      exact .inl (covers_cons.mpr (.inl ⟨hm1, hvl.trans_le (hl m (by simp))⟩))
    · by_cases hvr : v < right
      · exact .inr ⟨not_lt.mp hvl, hvr⟩
      · -- `right` 以後の値は最後の区間の中: 最後の区間は `right` までに始まる
        have hlast2 := (lt_max_iff.mp hhi).resolve_right hvr
        exact .inl ⟨_, hlast, (hr _ hlast).trans (not_lt.mp hvr), hlast2⟩

/-! ## 文字の列から位置を除く -/

section Delete

variable {α : Type*}

/-- 位置を `k` から数えて、位置が `P` を満たす文字を `s` から除く。 -/
def deletePositions (P : Nat → Prop) [DecidablePred P] (k : Nat) (s : List α) : List α :=
  ((s.zipIdx k).filter fun x => !decide (P x.2)).map Prod.fst

variable (P Q : Nat → Prop) [DecidablePred P] [DecidablePred Q]

@[simp] theorem deletePositions_nil (k : Nat) : deletePositions P k ([] : List α) = [] := rfl

theorem deletePositions_append (k : Nat) (xs ys : List α) :
    deletePositions P k (xs ++ ys) = deletePositions P k xs ++ deletePositions P (k + xs.length) ys := by
  simp [deletePositions, List.zipIdx_append]

theorem deletePositions_congr {k : Nat} {s : List α} (h : ∀ i, k ≤ i → i < k + s.length → (P i ↔ Q i)) :
    deletePositions P k s = deletePositions Q k s := by
  unfold deletePositions
  congr 1
  apply List.filter_congr
  rintro ⟨x, i⟩ hx
  have hi := List.mem_zipIdx hx
  simp [h i hi.1 hi.2.1]

/-- 除く位置の無い区間はそのまま残る。 -/
theorem deletePositions_of_forall_not {k : Nat} {s : List α} (h : ∀ i, k ≤ i → i < k + s.length → ¬P i) :
    deletePositions P k s = s := by
  unfold deletePositions
  rw [List.filter_eq_self.mpr, List.zipIdx_map_fst]
  rintro ⟨x, i⟩ hx
  have hi := List.mem_zipIdx hx
  simp [h i hi.1 hi.2.1]

/-- 位置がすべて除かれる区間は消える。 -/
theorem deletePositions_of_forall {k : Nat} {s : List α} (h : ∀ i, k ≤ i → i < k + s.length → P i) :
    deletePositions P k s = [] := by
  unfold deletePositions
  rw [List.filter_eq_nil_iff.mpr, List.map_nil]
  rintro ⟨x, i⟩ hx
  have hi := List.mem_zipIdx hx
  simp [h i hi.1 hi.2.1]

end Delete

end Intervals
