import Envoy.Lib.KeyedList

/-!
# 鍵の長さで分けた表

鍵をその長さの bucket に入れ、bucket を長さの大きい順に並べた表（`std::map<長さ, 表, std::greater<>>`）。
bucket は鍵で引く list（`KeyedList`）。`emplace` は長さの bucket が無ければ作り（`operator[]`）、鍵が
無ければ入れる。
-/

namespace LengthBuckets

variable {α V : Type _}

/-- 長さと、その長さの鍵の bucket の列。 -/
abbrev Buckets (α V : Type _) := List (Nat × List (List α × V))

/-- 全ての bucket の要素。 -/
def entries (b : Buckets α V) : List (List α × V) := b.flatMap (·.2)

/-- 長さの大きい順に並び、bucket の鍵はその長さで、bucket の中で鍵は重ならない。 -/
structure WF (b : Buckets α V) : Prop where
  sorted : b.Pairwise fun x y => y.1 < x.1
  length_eq : ∀ x ∈ b, ∀ e ∈ x.2, e.1.length = x.1
  nodup : ∀ x ∈ b, (x.2.map Prod.fst).Nodup

variable {b : Buckets α V} {x : Nat × List (List α × V)} {e : List α × V} {len : Nat} {k : List α} {v : V}

@[simp] theorem entries_nil : entries ([] : Buckets α V) = [] := rfl

@[simp] theorem entries_cons : entries (x :: b) = x.2 ++ entries b := rfl

theorem mem_entries : e ∈ entries b ↔ ∃ x ∈ b, e ∈ x.2 := List.mem_flatMap

theorem wf_nil : WF ([] : Buckets α V) := ⟨List.Pairwise.nil, by simp, by simp⟩

theorem WF.tail (h : WF (x :: b)) : WF b :=
  ⟨(List.pairwise_cons.mp h.sorted).2, fun y hy => h.length_eq y (List.mem_cons_of_mem x hy),
    fun y hy => h.nodup y (List.mem_cons_of_mem x hy)⟩

/-- 後の bucket の鍵は、先頭の bucket の長さより短い。 -/
theorem WF.length_lt_of_mem_tail (h : WF (x :: b)) (he : e ∈ entries b) : e.1.length < x.1 := by
  obtain ⟨y, hy, hey⟩ := mem_entries.mp he
  rw [h.length_eq y (List.mem_cons_of_mem x hy) e hey]
  exact (List.pairwise_cons.mp h.sorted).1 y hy

/-- 同じ長さの bucket は一つ。 -/
theorem WF.eq_of_fst_eq (h : WF b) {y : Nat × List (List α × V)} (hx : x ∈ b) (hy : y ∈ b) (hxy : x.1 = y.1) :
    x = y := by
  have hnd : (b.map Prod.fst).Nodup :=
    List.pairwise_map.mpr (h.sorted.imp fun hlt => (Nat.ne_of_lt hlt).symm)
  exact List.inj_on_of_nodup_map hnd hx hy hxy

/-- 鍵 `k` の要素は、長さ `k.length` の bucket にある。 -/
theorem WF.mem_bucket (h : WF b) (hx : x ∈ b) (hk : x.1 = k.length) (he : e ∈ entries b) (hek : e.1 = k) : e ∈ x.2 := by
  obtain ⟨y, hy, hey⟩ := mem_entries.mp he
  have hyx : y = x := h.eq_of_fst_eq hy hx (by rw [← h.length_eq y hy e hey, hek, hk])
  exact hyx ▸ hey

/-- 長さの大きい順の列に、無い長さの bucket を長さの順の位置に入れても、大きい順のまま。 -/
theorem pairwise_orderedInsert {l : Buckets α V} (hl : l.Pairwise fun x y => y.1 < x.1) (hx : ∀ y ∈ l, y.1 ≠ x.1) :
    (l.orderedInsert (fun a c => c.1 ≤ a.1) x).Pairwise fun x y => y.1 < x.1 := by
  induction l with
  | nil => exact List.pairwise_singleton _ x
  | cons c l ih =>
    obtain ⟨hc, hl⟩ := List.pairwise_cons.mp hl
    rw [List.orderedInsert_cons]
    split
    case isTrue hle =>
      -- `x` が先頭: 後の全ての長さより大きい
      have hlt : c.1 < x.1 := lt_of_le_of_ne hle (hx c List.mem_cons_self)
      refine List.pairwise_cons.mpr ⟨fun y hy => ?_, List.pairwise_cons.mpr ⟨hc, hl⟩⟩
      rcases List.mem_cons.mp hy with rfl | hy
      · exact hlt
      · exact (hc y hy).trans hlt
    case isFalse hle =>
      refine List.pairwise_cons.mpr ⟨fun y hy => ?_, ih hl fun y hy => hx y (List.mem_cons_of_mem c hy)⟩
      rcases (List.mem_orderedInsert _).mp hy with rfl | hy
      · exact not_le.mp hle
      · exact hc y hy

section Emplace

variable [DecidableEq α]

/-- `operator[](len).emplace(k, v)`: 長さ `len` の bucket が無ければ長さの順の位置に空の bucket を作り、
鍵 `k` が無ければ入れる。二つ目は入れたか。 -/
def emplace (b : Buckets α V) (len : Nat) (k : List α) (v : V) : Buckets α V × Bool :=
  match KeyedList.lookup Prod.fst b len with
  | some x =>
    let r := KeyedList.emplace Prod.fst x.2 (k, v)
    (b.map fun y => if y.1 = len then (len, r.1) else y, r.2)
  | none => (KeyedList.insertOrdered Prod.fst (fun m n => n ≤ m) b (len, [(k, v)]), true)

variable (hb : WF b) (hk : k.length = len)
include hb hk

/-- 鍵 `k` が無いのは、長さ `len` の bucket に無いこと。 -/
theorem not_mem_keys_iff (hx : x ∈ b) (hxl : x.1 = len) :
    k ∉ (entries b).map Prod.fst ↔ KeyedList.lookup Prod.fst x.2 k = none := by
  rw [KeyedList.lookup_eq_none]
  constructor
  · exact fun hnot y hy hyk => hnot (List.mem_map.mpr ⟨y, mem_entries.mpr ⟨x, hx, hy⟩, hyk⟩)
  · intro hnone hmem
    obtain ⟨y, hy, hyk⟩ := List.mem_map.mp hmem
    exact hnone y (hb.mem_bucket hx (hxl.trans hk.symm) hy hyk) hyk

omit [DecidableEq α] in
/-- 長さ `len` の bucket が無ければ、鍵 `k` も無い。 -/
theorem not_mem_keys_of_lookup_eq_none (hnone : KeyedList.lookup Prod.fst b len = none) :
    k ∉ (entries b).map Prod.fst := by
  intro hmem
  obtain ⟨y, hy, hyk⟩ := List.mem_map.mp hmem
  obtain ⟨x, hx, hyx⟩ := mem_entries.mp hy
  have hxl : x.1 = len := by rw [← hb.length_eq x hx y hyx, hyk, hk]
  exact KeyedList.lookup_eq_none.mp hnone x hx hxl

/-- `emplace` は鍵 `k` が無ければ入れる。 -/
theorem emplace_snd : (emplace b len k v).2 = true ↔ k ∉ (entries b).map Prod.fst := by
  unfold emplace
  split
  case h_1 x hx =>
    rw [KeyedList.emplace_snd, not_mem_keys_iff hb hk (KeyedList.mem_of_lookup hx) (KeyedList.key_of_lookup hx)]
    exact Option.isNone_iff_eq_none
  case h_2 hnone => simp [not_mem_keys_of_lookup_eq_none hb hk hnone]

/-- `emplace` の後の要素は、前の要素と、鍵 `k` が無ければ `(k, v)`。 -/
theorem mem_entries_emplace :
    e ∈ entries (emplace b len k v).1 ↔ e ∈ entries b ∨ k ∉ (entries b).map Prod.fst ∧ e = (k, v) := by
  unfold emplace
  split
  case h_1 x hx =>
    have hmem := KeyedList.mem_of_lookup hx
    have hxl : x.1 = len := KeyedList.key_of_lookup hx
    rw [not_mem_keys_iff hb hk hmem hxl]
    simp only [mem_entries, List.mem_map]
    constructor
    · rintro ⟨_, ⟨y, hy, rfl⟩, he⟩
      split at he
      case isTrue hyl =>
        -- 書き換えた bucket は `x` のもの
        rcases KeyedList.mem_emplace.mp he with he | he
        · exact .inl ⟨x, hmem, he⟩
        · exact .inr he
      case isFalse => exact .inl ⟨y, hy, he⟩
    · rintro (⟨y, hy, he⟩ | he)
      · refine ⟨_, ⟨y, hy, rfl⟩, ?_⟩
        split
        case isTrue hyl =>
          have hyx : y = x := hb.eq_of_fst_eq hy hmem (hyl.trans hxl.symm)
          exact KeyedList.mem_emplace.mpr (.inl (hyx ▸ he))
        case isFalse => exact he
      · exact ⟨_, ⟨x, hmem, rfl⟩, by simpa [hxl] using KeyedList.mem_emplace.mpr (.inr he)⟩
  case h_2 hnone =>
    have hnot := not_mem_keys_of_lookup_eq_none hb hk hnone
    simp only [mem_entries, KeyedList.mem_insertOrdered, hnone]
    constructor
    · rintro ⟨y, hy | ⟨-, rfl⟩, he⟩
      · exact .inl ⟨y, hy, he⟩
      · exact .inr ⟨hnot, List.mem_singleton.mp he⟩
    · rintro (⟨y, hy, he⟩ | ⟨-, rfl⟩)
      · exact ⟨y, .inl hy, he⟩
      · exact ⟨_, .inr ⟨trivial, rfl⟩, List.mem_singleton_self _⟩

/-- 入れた時の `emplace` の後の要素は、前の要素と `(k, v)`。 -/
theorem mem_entries_emplace_of_snd (hins : (emplace b len k v).2 = true) :
    e ∈ entries (emplace b len k v).1 ↔ e ∈ entries b ∨ e = (k, v) := by
  rw [mem_entries_emplace hb hk]
  have hnot := (emplace_snd hb hk).mp hins
  simp [hnot]

/-- `emplace` は `WF` を保つ。 -/
theorem WF.emplace : WF (emplace b len k v).1 := by
  unfold LengthBuckets.emplace
  split
  case h_1 x hx =>
    have hmem := KeyedList.mem_of_lookup hx
    have hxl : x.1 = len := KeyedList.key_of_lookup hx
    refine ⟨?_, ?_, ?_⟩
    · -- 長さは変わらない
      refine List.pairwise_map.mpr (hb.sorted.imp fun {y z} hyz => ?_)
      split <;> split <;> simp_all
    · simp only [List.mem_map]
      rintro _ ⟨y, hy, rfl⟩ e he
      by_cases hyl : y.1 = len
      · rw [if_pos hyl] at he ⊢
        rcases KeyedList.mem_emplace.mp he with he | ⟨-, rfl⟩
        · exact (hb.length_eq x hmem e he).trans hxl
        · exact hk
      · rw [if_neg hyl] at he ⊢
        exact hb.length_eq y hy e he
    · simp only [List.mem_map]
      rintro _ ⟨y, hy, rfl⟩
      split
      case isTrue => exact KeyedList.nodup_emplace (hb.nodup x hmem) _
      case isFalse => exact hb.nodup y hy
  case h_2 hnone =>
    have hfst : ∀ y ∈ b, y.1 ≠ len := fun y hy hyl => KeyedList.lookup_eq_none.mp hnone y hy hyl
    rw [KeyedList.insertOrdered_of_lookup_eq_none hnone]
    refine ⟨pairwise_orderedInsert hb.sorted hfst, fun y hy e he => ?_, fun y hy => ?_⟩
    · rcases (List.mem_orderedInsert _).mp hy with rfl | hy
      · rw [List.mem_singleton.mp he]
        exact hk
      · exact hb.length_eq y hy e he
    · rcases (List.mem_orderedInsert _).mp hy with rfl | hy
      · exact List.nodup_singleton _
      · exact hb.nodup y hy

end Emplace

end LengthBuckets
