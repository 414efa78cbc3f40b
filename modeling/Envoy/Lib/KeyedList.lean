import Mathlib

/-!
# 鍵で引く list

要素を鍵 `key` で引く list。`lookup` は鍵の一致する最初の要素、`put` は同じ鍵の要素を除いて
後ろに置き、`erase` は鍵の一致する要素を除く。鍵が重ならない間、これは鍵から要素への有限の
写像として振る舞う。`mapM` で要素を鍵を変えずに書き換えても同じである。
-/

namespace KeyedList

variable {β κ : Type _} [DecidableEq κ] (key : β → κ)

/-- 鍵 `k` の最初の要素。 -/
def lookup (l : List β) (k : κ) : Option β := l.find? (key · = k)

/-- `x` の鍵の要素を除き、`x` を後ろに置く。 -/
def put (l : List β) (x : β) : List β := l.filter (key · ≠ key x) ++ [x]

/-- 鍵 `k` の要素を除く。 -/
def erase (l : List β) (k : κ) : List β := l.filter (key · ≠ k)

variable {key} {l l' : List β} {x : β} {k : κ}

@[simp] theorem lookup_nil (k : κ) : lookup key [] k = none := rfl

theorem lookup_cons (x : β) (l : List β) (k : κ) :
    lookup key (x :: l) k = if key x = k then some x else lookup key l k := by
  by_cases h : key x = k <;> simp [lookup, h]

theorem key_of_lookup (h : lookup key l k = some x) : key x = k := by
  simpa using List.find?_some h

theorem mem_of_lookup (h : lookup key l k = some x) : x ∈ l := List.mem_of_find?_eq_some h

theorem lookup_eq_none : lookup key l k = none ↔ ∀ x ∈ l, key x ≠ k := by
  simp [lookup]

/-- 鍵が重ならなければ、要素はその鍵で引ける。 -/
theorem lookup_of_mem (hnd : (l.map key).Nodup) (hx : x ∈ l) : lookup key l (key x) = some x := by
  induction l with
  | nil => cases hx
  | cons y l ih =>
    rw [List.map_cons, List.nodup_cons] at hnd
    rw [lookup_cons]
    rcases List.mem_cons.mp hx with rfl | hx
    · simp
    · have hne : key y ≠ key x := fun e => hnd.1 (e ▸ List.mem_map_of_mem hx)
      simp [hne, ih hnd.2 hx]

theorem lookup_erase (l : List β) (k' k : κ) :
    lookup key (erase key l k') k = if k' = k then none else lookup key l k := by
  induction l with
  | nil => simp [erase]
  | cons y l ih =>
    rw [erase] at ih ⊢
    by_cases hy : key y = k'
    · rw [List.filter_cons_of_neg (by simpa using hy), ih, lookup_cons]
      by_cases h : k' = k <;> simp [h, hy]
    · rw [List.filter_cons_of_pos (by simpa using hy), lookup_cons, ih, lookup_cons]
      by_cases h : k' = k
      · subst h; simp [hy]
      · simp [h]

theorem lookup_append_singleton (l : List β) (x : β) (k : κ) :
    lookup key (l ++ [x]) k = (lookup key l k).or (if key x = k then some x else none) := by
  by_cases h : key x = k <;> simp [lookup, h]

theorem lookup_put (l : List β) (x : β) (k : κ) :
    lookup key (put key l x) k = if key x = k then some x else lookup key l k := by
  rw [put, ← erase, lookup_append_singleton, lookup_erase]
  by_cases h : key x = k <;> simp [h]

theorem nodup_put (hnd : (l.map key).Nodup) (x : β) : ((put key l x).map key).Nodup := by
  simp only [put, List.map_append, List.map_cons, List.map_nil]
  refine List.nodup_append.mpr ⟨(List.filter_sublist.map key).nodup hnd, List.nodup_singleton _, ?_⟩
  intro a ha b hb
  simp only [List.mem_map, List.mem_filter] at ha
  obtain ⟨y, ⟨-, hy⟩, rfl⟩ := ha
  simp only [List.mem_singleton] at hb
  subst hb
  simpa using hy

theorem nodup_erase (hnd : (l.map key).Nodup) (k : κ) : ((erase key l k).map key).Nodup :=
  (List.filter_sublist.map key).nodup hnd

/-- 鍵が重ならなければ、鍵の一致する最初の要素を除くのは、鍵の一致する要素を全て除くのと同じ。 -/
theorem eraseP_eq_erase (hnd : (l.map key).Nodup) (k : κ) :
    l.eraseP (key · = k) = erase key l k := by
  induction l with
  | nil => rfl
  | cons y l ih =>
    rw [List.map_cons, List.nodup_cons] at hnd
    by_cases h : key y = k
    · subst h
      rw [List.eraseP_cons_of_pos (by simp)]
      have hl : ∀ z ∈ l, key z ≠ key y := fun z hz e => hnd.1 (e ▸ List.mem_map_of_mem hz)
      rw [erase, List.filter_cons_of_neg (by simp), List.filter_eq_self.mpr fun z hz => by simpa using hl z hz]
    · rw [List.eraseP_cons_of_neg (by simpa using h), ih hnd.2]
      simp [erase, h]

theorem mem_erase : x ∈ erase key l k ↔ x ∈ l ∧ key x ≠ k := by
  simp [erase]

/-- 鍵が重ならなければ、先頭の鍵を除くのは先頭を外すのと同じ。 -/
theorem erase_cons_self (hnd : ((x :: l).map key).Nodup) : erase key (x :: l) (key x) = l := by
  rw [List.map_cons, List.nodup_cons] at hnd
  rw [erase, List.filter_cons_of_neg (by simp)]
  refine List.filter_eq_self.mpr fun z hz => ?_
  have hne : key z ≠ key x := fun e => hnd.1 (e ▸ List.mem_map_of_mem hz)
  simpa using hne

/-- 鍵が重ならなければ、引いた要素は鍵の一致する要素そのもの。 -/
theorem lookup_eq_some_iff (hnd : (l.map key).Nodup) : lookup key l k = some x ↔ x ∈ l ∧ key x = k := by
  constructor
  · intro h
    exact ⟨mem_of_lookup h, key_of_lookup h⟩
  · rintro ⟨hx, rfl⟩
    exact lookup_of_mem hnd hx

/-- 鍵が重ならなければ、並べ替えても引く要素は変わらない。 -/
theorem lookup_perm (hp : l.Perm l') (hnd : (l.map key).Nodup) (k : κ) : lookup key l k = lookup key l' k := by
  have hnd' : (l'.map key).Nodup := (hp.map key).nodup_iff.mp hnd
  cases h : lookup key l' k with
  | none => exact lookup_eq_none.mpr fun y hy => lookup_eq_none.mp h y (hp.subset hy)
  | some y =>
    obtain ⟨hy, hky⟩ := (lookup_eq_some_iff hnd').mp h
    exact (lookup_eq_some_iff hnd).mpr ⟨hp.symm.subset hy, hky⟩

/-- 鍵で決まる条件で絞った list で引くのは、条件を満たす鍵だけを引くこと。 -/
theorem lookup_filter_key (P : κ → Bool) (l : List β) (k : κ) :
    lookup key (l.filter fun x => P (key x)) k = if P k then lookup key l k else none := by
  induction l with
  | nil => split <;> rfl
  | cons y l ih =>
    by_cases hy : P (key y) = true
    · rw [List.filter_cons_of_pos (p := fun x => P (key x)) hy, lookup_cons, lookup_cons, ih]
      by_cases hk : key y = k
      · subst hk
        simp [hy]
      · simp [hk]
    · rw [List.filter_cons_of_neg (p := fun x => P (key x)) hy, ih, lookup_cons]
      by_cases hk : key y = k
      · subst hk
        simp [hy]
      · simp [hk]

/-! ## 無い鍵だけの挿入 -/

variable (key) in
/-- 鍵 `key x` の要素が無ければ `x` を後ろに置く（`emplace`）。二つ目は置いたか。 -/
def emplace (l : List β) (x : β) : List β × Bool :=
  if (lookup key l (key x)).isSome then (l, false) else (l ++ [x], true)

theorem emplace_of_lookup_eq_none (h : lookup key l (key x) = none) : emplace key l x = (l ++ [x], true) := by
  simp [emplace, h]

theorem emplace_of_isSome (h : (lookup key l (key x)).isSome) : emplace key l x = (l, false) := if_pos h

theorem emplace_snd (l : List β) (x : β) : (emplace key l x).2 = (lookup key l (key x)).isNone := by
  cases h : lookup key l (key x) with
  | none => simp [emplace_of_lookup_eq_none h]
  | some z => simp [emplace_of_isSome (show (lookup key l (key x)).isSome by simp [h])]

theorem mem_emplace {y : β} : y ∈ (emplace key l x).1 ↔ y ∈ l ∨ lookup key l (key x) = none ∧ y = x := by
  cases h : lookup key l (key x) with
  | none => simp [emplace_of_lookup_eq_none h]
  | some z => simp [emplace_of_isSome (show (lookup key l (key x)).isSome by simp [h])]

theorem mem_emplace_of_snd {y : β} (hins : (emplace key l x).2 = true) : y ∈ (emplace key l x).1 ↔ y ∈ l ∨ y = x := by
  rw [emplace_snd, Option.isNone_iff_eq_none] at hins
  simp [mem_emplace, hins]

theorem nodup_emplace (hnd : (l.map key).Nodup) (x : β) : ((emplace key l x).1.map key).Nodup := by
  cases h : lookup key l (key x) with
  | none =>
    rw [emplace_of_lookup_eq_none h, List.map_append, List.nodup_append]
    refine ⟨hnd, List.nodup_singleton _, fun a ha b hb => ?_⟩
    obtain ⟨z, hz, rfl⟩ := List.mem_map.mp ha
    rw [List.map_singleton, List.mem_singleton] at hb
    exact hb ▸ lookup_eq_none.mp h z hz
  | some z => rwa [emplace_of_isSome (show (lookup key l (key x)).isSome by simp [h])]

/-! ## 鍵の順の挿入 -/

section Ordered

variable (le : κ → κ → Prop) [DecidableRel le] {y : β}

variable (key) in
/-- 鍵 `key x` の要素が無ければ、鍵の順の位置に `x` を入れ、あれば何もしない（`std::map::insert`）。 -/
def insertOrdered (l : List β) (x : β) : List β :=
  if (lookup key l (key x)).isSome then l else l.orderedInsert (fun a b => le (key a) (key b)) x

variable {le}

theorem insertOrdered_of_lookup_eq_none (h : lookup key l (key x) = none) :
    insertOrdered key le l x = l.orderedInsert (fun a b => le (key a) (key b)) x := by
  simp [insertOrdered, h]

theorem insertOrdered_of_isSome (h : (lookup key l (key x)).isSome) : insertOrdered key le l x = l := if_pos h

theorem mem_insertOrdered : y ∈ insertOrdered key le l x ↔ y ∈ l ∨ lookup key l (key x) = none ∧ y = x := by
  cases h : lookup key l (key x) with
  | none =>
    rw [insertOrdered_of_lookup_eq_none h, List.mem_orderedInsert]
    simp [or_comm]
  | some z => simp [insertOrdered_of_isSome (show (lookup key l (key x)).isSome by simp [h])]

theorem nodup_insertOrdered (hnd : (l.map key).Nodup) (x : β) : ((insertOrdered key le l x).map key).Nodup := by
  cases h : lookup key l (key x) with
  | none =>
    rw [insertOrdered_of_lookup_eq_none h, ((List.perm_orderedInsert _ x l).map key).nodup_iff, List.map_cons,
      List.nodup_cons]
    exact ⟨fun hx => by
      obtain ⟨z, hz, hkz⟩ := List.mem_map.mp hx
      exact lookup_eq_none.mp h z hz hkz, hnd⟩
  | some z => rwa [insertOrdered_of_isSome (show (lookup key l (key x)).isSome by simp [h])]

theorem lookup_insertOrdered (hnd : (l.map key).Nodup) (x : β) (k : κ) :
    lookup key (insertOrdered key le l x) k =
      if lookup key l (key x) = none ∧ key x = k then some x else lookup key l k := by
  cases h : lookup key l (key x) with
  | none =>
    rw [insertOrdered_of_lookup_eq_none h]
    have hnd' : ((x :: l).map key).Nodup := by
      rw [List.map_cons, List.nodup_cons]
      exact ⟨fun hx => by
        obtain ⟨z, hz, hkz⟩ := List.mem_map.mp hx
        exact lookup_eq_none.mp h z hz hkz, hnd⟩
    rw [lookup_perm (List.perm_orderedInsert _ x l) ((((List.perm_orderedInsert _ x l).map key).nodup_iff).mpr hnd'),
      lookup_cons]
    simp
  | some z => simp [insertOrdered_of_isSome (show (lookup key l (key x)).isSome by simp [h])]

end Ordered

/-! ## 鍵を変えない書き換え -/

section MapM

variable {f : β → Option β}

/-- 書き換えが一つでも失敗すれば、全体が失敗する。 -/
theorem mapM_eq_none : l.mapM f = none ↔ ∃ x ∈ l, f x = none := by
  induction l with
  | nil => simp
  | cons y l ih =>
    rw [List.mapM_cons]
    cases hy : f y with
    | none => simp [hy]
    | some z =>
      cases hl : l.mapM f with
      | none => simp [hy, ih.mp hl]
      | some zs => simp [hy, (not_congr ih).mp (by simp [hl])]

variable (hf : ∀ x y, f x = some y → key y = key x)
include hf

omit [DecidableEq κ] in
theorem map_key_of_mapM (h : l.mapM f = some l') : l'.map key = l.map key := by
  induction l generalizing l' with
  | nil => simp at h; subst h; rfl
  | cons y l ih =>
    rw [List.mapM_cons] at h
    cases hy : f y with
    | none => simp [hy] at h
    | some z =>
      cases hl : l.mapM f with
      | none => simp [hy, hl] at h
      | some zs =>
        simp only [hy, hl, Option.pure_def, Option.bind_eq_bind, Option.bind_some,
          Option.some.injEq] at h
        subst h
        simp [hf y z hy, ih hl]

/-- 書き換えた list で引くのは、元の list で引いて書き換えるのと同じ。 -/
theorem lookup_of_mapM (h : l.mapM f = some l') (k : κ) :
    lookup key l' k = (lookup key l k).bind f := by
  induction l generalizing l' with
  | nil => simp at h; subst h; rfl
  | cons y l ih =>
    rw [List.mapM_cons] at h
    cases hy : f y with
    | none => simp [hy] at h
    | some z =>
      cases hl : l.mapM f with
      | none => simp [hy, hl] at h
      | some zs =>
        simp only [hy, hl, Option.pure_def, Option.bind_eq_bind, Option.bind_some,
          Option.some.injEq] at h
        subst h
        rw [lookup_cons, lookup_cons, hf y z hy, ih hl]
        split <;> simp [hy]

end MapM

section AList

/-! ## Mathlib の `AList` に順に `insert` する -/

variable {α γ δ : Type _} [DecidableEq α]

/-- 鍵の重ならない要素を、まだ無い鍵で順に `insert` すると、逆の順で前に積まれる。 -/
theorem entries_foldl_insert (f : γ → α) (g : γ → δ) :
    ∀ (l : List γ) (acc : AList fun _ : α => δ), (l.map f).Nodup → (∀ x ∈ l, f x ∉ acc) →
      (l.foldl (fun a x => a.insert (f x) (g x)) acc).entries =
        (l.reverse.map fun x => (⟨f x, g x⟩ : Sigma fun _ : α => δ)) ++ acc.entries
  | [], _, _, _ => rfl
  | x :: l, acc, hnd, hfresh => by
    obtain ⟨hx, hl⟩ := List.nodup_cons.mp hnd
    have hfresh' : ∀ y ∈ l, f y ∉ acc.insert (f x) (g x) := by
      intro y hy hm
      rcases (AList.mem_insert acc).mp hm with he | hm'
      · exact hx (he ▸ List.mem_map_of_mem hy)
      · exact hfresh y (List.mem_cons_of_mem x hy) hm'
    rw [List.foldl_cons, entries_foldl_insert f g l _ hl hfresh',
      AList.entries_insert_of_notMem (hfresh x List.mem_cons_self)]
    simp

end AList

end KeyedList
