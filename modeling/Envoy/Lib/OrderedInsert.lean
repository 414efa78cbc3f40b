import Mathlib

/-!
# 順の位置への挿入と、filter

`List.orderedInsert r a l` は `a` を `r a b` となる最初の `b` の前に入れる。並んだ列では、要素を捨てる
`filter` と入れる位置が可換で、捨てられる要素を入れても `filter` の後は変わらない。
-/

namespace OrderedInsert

variable {α : Type _}

/-- 入れる位置を決める関係が列の上で同じなら、入れた結果も同じ。 -/
theorem orderedInsert_congr {r r' : α → α → Prop} [DecidableRel r] [DecidableRel r'] {a : α} {l : List α}
    (h : ∀ b ∈ l, r a b ↔ r' a b) : l.orderedInsert r a = l.orderedInsert r' a := by
  induction l with
  | nil => rfl
  | cons b l ih =>
    rw [List.orderedInsert_cons, List.orderedInsert_cons, ih fun c hc => h c (List.mem_cons_of_mem b hc)]
    simp only [h b List.mem_cons_self]

/-- 後で捨てる方が厳しければ、先に捨てても同じ。 -/
theorem filter_filter_of_imp {p q : α → Bool} (h : ∀ a, p a = true → q a = true) (l : List α) :
    (l.filter q).filter p = l.filter p := by
  rw [List.filter_filter]
  refine List.filter_congr fun a _ => ?_
  cases hp : p a with
  | false => rfl
  | true => simp [h a hp]

variable (r : α → α → Prop) [DecidableRel r]

/-- 全ての要素の前に入るなら、先頭に入る。 -/
theorem orderedInsert_of_forall {a : α} {l : List α} (h : ∀ b ∈ l, r a b) : l.orderedInsert r a = a :: l := by
  cases l with
  | nil => rfl
  | cons b l => rw [List.orderedInsert_cons, if_pos (h b List.mem_cons_self)]

/-- 捨てられる要素を入れても、`filter` の後は変わらない。 -/
theorem filter_orderedInsert_of_neg {p : α → Bool} {a : α} (ha : p a = false) (l : List α) :
    (l.orderedInsert r a).filter p = l.filter p := by
  induction l with
  | nil => simp [ha]
  | cons b l ih =>
    rw [List.orderedInsert_cons]
    split
    case isTrue => simp [ha]
    case isFalse => rw [List.filter_cons, List.filter_cons, ih]

/-- 入れる位置が列の後ろへ向かって保たれる（`r a x` なら後の `y` でも `r a y`）なら、残る要素を入れるのと
`filter` は可換。 -/
theorem filter_orderedInsert {p : α → Bool} {a : α} (ha : p a = true) {l : List α}
    (hl : l.Pairwise fun x y => r a x → r a y) :
    (l.orderedInsert r a).filter p = (l.filter p).orderedInsert r a := by
  induction l with
  | nil => simp [ha]
  | cons b l ih =>
    obtain ⟨hb, hl⟩ := List.pairwise_cons.mp hl
    rw [List.orderedInsert_cons]
    split
    case isTrue hab =>
      -- `a` は `b` の前: 残る要素の全ての前に入る
      have hall : ∀ y ∈ (b :: l).filter p, r a y := fun y hy => by
        rcases List.mem_cons.mp (List.mem_of_mem_filter hy) with rfl | hy
        · exact hab
        · exact hb y hy hab
      rw [orderedInsert_of_forall r hall, List.filter_cons_of_pos ha]
    case isFalse hab =>
      rw [List.filter_cons, ih hl, List.filter_cons]
      split
      case isTrue => rw [List.orderedInsert_cons, if_neg hab]
      case isFalse => rfl

/-- 鍵 `f` の順に並んだ列に、同じ鍵の要素の後ろへ入れても、鍵の順のまま。 -/
theorem pairwise_orderedInsert_lt {β : Type _} [LinearOrder β] (f : α → β) (a : α) {l : List α}
    (hl : l.Pairwise fun x y => f x ≤ f y) :
    (l.orderedInsert (fun x y => f x < f y) a).Pairwise fun x y => f x ≤ f y := by
  induction l with
  | nil => exact List.pairwise_singleton _ a
  | cons b l ih =>
    obtain ⟨hb, hl⟩ := List.pairwise_cons.mp hl
    rw [List.orderedInsert_cons]
    split
    case isTrue hab =>
      refine List.pairwise_cons.mpr ⟨fun y hy => ?_, List.pairwise_cons.mpr ⟨hb, hl⟩⟩
      rcases List.mem_cons.mp hy with rfl | hy
      · exact hab.le
      · exact hab.le.trans (hb y hy)
    case isFalse hab =>
      refine List.pairwise_cons.mpr ⟨fun y hy => ?_, ih hl⟩
      rcases (List.mem_orderedInsert _).mp hy with rfl | hy
      · exact not_lt.mp hab
      · exact hb y hy

/-- 鍵 `f` の順に並んだ列に、同じ鍵の要素の前へ入れても、鍵の順のまま。 -/
theorem pairwise_orderedInsert_le {β : Type _} [LinearOrder β] (f : α → β) (a : α) {l : List α}
    (hl : l.Pairwise fun x y => f x ≤ f y) :
    (l.orderedInsert (fun x y => f x ≤ f y) a).Pairwise fun x y => f x ≤ f y := by
  induction l with
  | nil => exact List.pairwise_singleton _ a
  | cons b l ih =>
    obtain ⟨hb, hl⟩ := List.pairwise_cons.mp hl
    rw [List.orderedInsert_cons]
    split
    case isTrue hab =>
      refine List.pairwise_cons.mpr ⟨fun y hy => ?_, List.pairwise_cons.mpr ⟨hb, hl⟩⟩
      rcases List.mem_cons.mp hy with rfl | hy
      · exact hab
      · exact hab.trans (hb y hy)
    case isFalse hab =>
      refine List.pairwise_cons.mpr ⟨fun y hy => ?_, ih hl⟩
      rcases (List.mem_orderedInsert _).mp hy with rfl | hy
      · exact (not_le.mp hab).le
      · exact hb y hy

end OrderedInsert
