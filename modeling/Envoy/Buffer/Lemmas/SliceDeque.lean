import Envoy.Buffer.SliceDeque
import Envoy.Lib.RingBuffer

/-!
# `SliceDeque` は両端の列を精密化する

表現の不変条件 `Wf` の下で、`(*this)[0..size()-1]` は輪の窓 `RingBuffer.window ring_ start_ capacity_ size_`
で、各操作は窓に列の操作をする: `emplace_back` は末尾に、`emplace_front` は先頭に足し、`pop_front` と
`pop_back` は端を一つ落とす（空なら何もしない）。`growRing` は窓を変えずに輪を倍にする。
-/

namespace Envoy.Buffer

namespace SliceDeque

open RingBuffer

variable {α : Type*} [Inhabited α] {d : SliceDeque α}

/-- 表現の不変条件: `ring_` は `capacity_` 個の升目、`size_ ≤ capacity_`、`start_ < capacity_`、
`capacity_ = 8 * 2^k`。 -/
structure Wf (d : SliceDeque α) : Prop where
  length_ring : d.ring.length = d.capacity
  size_le : d.size ≤ d.capacity
  start_lt : d.start < d.capacity
  capacity_eq : ∃ k, d.capacity = inlineRingCapacity * 2 ^ k

theorem wf_create : (create : SliceDeque α).Wf where
  length_ring := List.length_replicate
  size_le := Nat.zero_le _
  start_lt := show 0 < inlineRingCapacity by decide
  capacity_eq := ⟨0, rfl⟩

omit [Inhabited α] in
/-- 一度だけ引く `internalIndex` は、輪を一周しない位置では `capacity_` を法とする位置。 -/
theorem Wf.internalIndex_eq (h : d.Wf) {i : Nat} (hi : i ≤ d.capacity) :
    d.internalIndex i = (d.start + i) % d.capacity := by
  have hs := h.start_lt
  unfold internalIndex
  dsimp only
  split
  · rename_i hwrap
    rw [Nat.mod_eq_sub_mod hwrap, Nat.mod_eq_of_lt (by omega)]
  · rename_i hin
    rw [Nat.mod_eq_of_lt (by omega)]

theorem Wf.toList_eq (h : d.Wf) : d.toList = window d.ring d.start d.capacity d.size := by
  apply List.map_congr_left
  intro i hi
  rw [get, h.internalIndex_eq (by have := List.mem_range.mp hi; have := h.size_le; omega)]

/-! ## `growRing` -/

/-- `src` を進めて `capacity_` で 0 に戻すのは、`capacity_` を法として一つ進めること。 -/
theorem wrap_eq_mod {src capacity : Nat} (hsrc : src < capacity) :
    (if src + 1 = capacity then 0 else src + 1) = (src + 1) % capacity := by
  split
  · rename_i heq
    rw [heq, Nat.mod_self]
  · rw [Nat.mod_eq_of_lt (by omega)]

theorem length_growRingLoop (ring : List α) (capacity n src dst : Nat) (newRing : List α) :
    (growRingLoop ring capacity n src dst newRing).length = newRing.length := by
  induction n generalizing src dst newRing with
  | zero => rfl
  | succ n ih => rw [growRingLoop, ih, List.length_set]

/-- for 文は `dst` より前の升目を書かない。 -/
theorem getD_growRingLoop_of_lt (ring : List α) (capacity n src dst : Nat) (newRing : List α) {k : Nat}
    (hk : k < dst) : (growRingLoop ring capacity n src dst newRing).getD k default = newRing.getD k default := by
  induction n generalizing src dst newRing with
  | zero => rfl
  | succ n ih =>
    rw [growRingLoop, ih _ _ _ (by omega)]
    simp [List.getD_eq_getElem?_getD, Nat.ne_of_gt hk]

/-- for 文は `new_ring[dst + k]` に `ring_[(src + k) mod capacity_]` を写す。 -/
theorem getD_growRingLoop (ring : List α) {capacity n src dst : Nat} {newRing : List α}
    (hsrc : src < capacity) (hlen : dst + n ≤ newRing.length) {k : Nat} (hk : k < n) :
    (growRingLoop ring capacity n src dst newRing).getD (dst + k) default =
      ring.getD ((src + k) % capacity) default := by
  induction n generalizing src dst newRing k with
  | zero => omega
  | succ n ih =>
    rw [growRingLoop]
    cases k with
    | zero =>
      -- 今書いた升目は、この後の周では書かれない
      rw [getD_growRingLoop_of_lt _ _ _ _ _ _ (by omega), Nat.add_zero, Nat.add_zero,
        Nat.mod_eq_of_lt hsrc]
      simp [List.getD_eq_getElem?_getD, show dst < newRing.length by omega]
    | succ k =>
      have hsrc' : (if src + 1 = capacity then 0 else src + 1) < capacity := by split <;> omega
      rw [show dst + (k + 1) = dst + 1 + k by omega, ih hsrc' (by rw [List.length_set]; omega) (by omega),
        wrap_eq_mod hsrc, Nat.mod_add_mod, Nat.add_assoc, Nat.add_comm 1 k]

@[simp] theorem size_growRing (d : SliceDeque α) : d.growRing.size = d.size := by
  unfold growRing
  split <;> rfl

theorem Wf.growRing (h : d.Wf) : d.growRing.Wf := by
  unfold SliceDeque.growRing
  split
  · exact h
  · obtain ⟨k, hk⟩ := h.capacity_eq
    exact {
      length_ring := by simp [length_growRingLoop]
      size_le := by have := h.size_le; dsimp only; omega
      start_lt := by have := h.start_lt; dsimp only; omega
      capacity_eq := ⟨k + 1, by dsimp only; rw [hk, Nat.pow_succ, Nat.mul_assoc]⟩ }

/-- 広げた後は、少なくとも一つの空きがある。 -/
theorem Wf.size_lt_growRing (h : d.Wf) : d.growRing.size < d.growRing.capacity := by
  have hs := h.start_lt
  unfold SliceDeque.growRing
  split
  · assumption
  · dsimp only
    have := h.size_le
    omega

/-- `growRing` は窓を変えない: 満ちた輪を、`start_` から論理的な順に新しい輪の頭へ写す。 -/
theorem Wf.window_growRing (h : d.Wf) :
    window d.growRing.ring d.growRing.start d.growRing.capacity d.growRing.size =
      window d.ring d.start d.capacity d.size := by
  unfold SliceDeque.growRing
  split
  · rfl
  · dsimp only
    have hs := h.start_lt
    have hsize := h.size_le
    apply window_congr
    intro i hi
    have hcopy := @getD_growRingLoop α _ d.ring d.capacity d.size d.start 0
      (List.replicate (d.capacity * 2) default) hs (by rw [List.length_replicate]; omega) i hi
    rw [Nat.zero_add] at hcopy
    rw [Nat.zero_add, Nat.mod_eq_of_lt (by omega), hcopy]

/-! ## 各操作 -/

theorem emplaceBack_eq (slice : α) :
    d.emplaceBack slice = ⟨d.growRing.ring.set (d.growRing.internalIndex d.growRing.size) slice,
      d.growRing.start, d.growRing.size + 1, d.growRing.capacity⟩ := rfl

theorem emplaceFront_eq (slice : α) :
    d.emplaceFront slice =
      ⟨d.growRing.ring.set (if d.growRing.start = 0 then d.growRing.capacity - 1 else d.growRing.start - 1) slice,
        if d.growRing.start = 0 then d.growRing.capacity - 1 else d.growRing.start - 1,
        d.growRing.size + 1, d.growRing.capacity⟩ := rfl

theorem popFront_of_size_eq_zero (h0 : d.size = 0) : d.popFront = d := by
  rw [SliceDeque.popFront, if_pos h0]

theorem popFront_eq (h0 : d.size ≠ 0) :
    d.popFront = ⟨d.ring.set d.start default, if d.start + 1 = d.capacity then 0 else d.start + 1,
      d.size - 1, d.capacity⟩ := by
  rw [SliceDeque.popFront, if_neg h0]

theorem popBack_of_size_eq_zero (h0 : d.size = 0) : d.popBack = d := by
  rw [SliceDeque.popBack, if_pos h0]

theorem popBack_eq (h0 : d.size ≠ 0) :
    d.popBack = ⟨d.ring.set (d.internalIndex (d.size - 1)) default, d.start, d.size - 1, d.capacity⟩ := by
  rw [SliceDeque.popBack, if_neg h0]

theorem Wf.emplaceBack (h : d.Wf) (slice : α) :
    (d.emplaceBack slice).Wf ∧ (d.emplaceBack slice).toList = d.toList ++ [slice] := by
  have hg := h.growRing
  have hlt := h.size_lt_growRing
  have hwf : (d.emplaceBack slice).Wf := by
    rw [emplaceBack_eq]
    exact { length_ring := by rw [List.length_set, hg.length_ring]
            size_le := hlt
            start_lt := hg.start_lt
            capacity_eq := hg.capacity_eq }
  refine ⟨hwf, ?_⟩
  rw [hwf.toList_eq, h.toList_eq, ← h.window_growRing, emplaceBack_eq]
  dsimp only
  rw [hg.internalIndex_eq hlt.le]
  exact window_push_back slice hlt hg.length_ring

omit [Inhabited α] in
/-- `start_ == 0 ? capacity_ - 1 : start_ - 1` は、一つ戻した位置。 -/
theorem Wf.prevStart (h : d.Wf) :
    (if d.start = 0 then d.capacity - 1 else d.start - 1) < d.capacity ∧
      ((if d.start = 0 then d.capacity - 1 else d.start - 1) + 1) % d.capacity = d.start % d.capacity := by
  have hs := h.start_lt
  split
  · rename_i h0
    rw [h0, Nat.sub_add_cancel (by omega), Nat.mod_self, Nat.zero_mod]
    exact ⟨by omega, rfl⟩
  · exact ⟨by omega, by rw [Nat.sub_add_cancel (by omega)]⟩

theorem Wf.emplaceFront (h : d.Wf) (slice : α) :
    (d.emplaceFront slice).Wf ∧ (d.emplaceFront slice).toList = slice :: d.toList := by
  have hg := h.growRing
  have hlt := h.size_lt_growRing
  obtain ⟨hprev, hback⟩ := hg.prevStart
  have hwf : (d.emplaceFront slice).Wf := by
    rw [emplaceFront_eq]
    exact { length_ring := by rw [List.length_set, hg.length_ring]
            size_le := hlt
            start_lt := hprev
            capacity_eq := hg.capacity_eq }
  refine ⟨hwf, ?_⟩
  rw [hwf.toList_eq, h.toList_eq, ← h.window_growRing, emplaceFront_eq]
  exact window_push_front slice hlt hg.length_ring hprev hback

theorem Wf.popFront (h : d.Wf) : d.popFront.Wf ∧ d.popFront.toList = d.toList.tail := by
  by_cases h0 : d.size = 0
  · rw [popFront_of_size_eq_zero h0, h.toList_eq, h0]
    exact ⟨h, rfl⟩
  have hs := h.start_lt
  have hsize := h.size_le
  have hwf : SliceDeque.Wf ⟨d.ring.set d.start default, if d.start + 1 = d.capacity then 0 else d.start + 1,
      d.size - 1, d.capacity⟩ :=
    { length_ring := by rw [List.length_set, h.length_ring]
      size_le := by dsimp only; omega
      start_lt := by dsimp only; split <;> omega
      capacity_eq := h.capacity_eq }
  rw [popFront_eq h0]
  refine ⟨hwf, ?_⟩
  rw [hwf.toList_eq, h.toList_eq]
  dsimp only
  -- 進めた `start_` は `start_ + 1` を法で見たもの、消した升目は `start_ mod capacity_`
  rw [wrap_eq_mod hs, window_mod,
    show d.ring.set d.start default = d.ring.set (d.start % d.capacity) default by rw [Nat.mod_eq_of_lt hs],
    window_pop_front default (by omega), Nat.sub_add_cancel (by omega)]

theorem Wf.popBack (h : d.Wf) : d.popBack.Wf ∧ d.popBack.toList = d.toList.dropLast := by
  by_cases h0 : d.size = 0
  · rw [popBack_of_size_eq_zero h0, h.toList_eq, h0]
    exact ⟨h, rfl⟩
  have hsize := h.size_le
  have hwf : SliceDeque.Wf ⟨d.ring.set (d.internalIndex (d.size - 1)) default, d.start, d.size - 1, d.capacity⟩ :=
    { length_ring := by rw [List.length_set, h.length_ring]
      size_le := by dsimp only; omega
      start_lt := h.start_lt
      capacity_eq := h.capacity_eq }
  rw [popBack_eq h0]
  refine ⟨hwf, ?_⟩
  rw [hwf.toList_eq, h.toList_eq]
  dsimp only
  rw [h.internalIndex_eq (by omega), window_pop_back default (by omega), Nat.sub_add_cancel (by omega)]

/-! ## 操作の列 -/

/-- `SliceDeque` への呼び出し。 -/
inductive Op (α : Type*) where
  | emplaceBack (slice : α)
  | emplaceFront (slice : α)
  | popFront
  | popBack
  deriving DecidableEq, Repr

def Op.apply : Op α → SliceDeque α → SliceDeque α
  | .emplaceBack slice, d => d.emplaceBack slice
  | .emplaceFront slice, d => d.emplaceFront slice
  | .popFront, d => d.popFront
  | .popBack, d => d.popBack

/-- 同じ呼び出しを、ただの列にしたもの。 -/
def Op.applyList : Op α → List α → List α
  | .emplaceBack slice, l => l ++ [slice]
  | .emplaceFront slice, l => slice :: l
  | .popFront, l => l.tail
  | .popBack, l => l.dropLast

def run (ops : List (Op α)) (d : SliceDeque α) : SliceDeque α := ops.foldl (fun d op => op.apply d) d

def runList (ops : List (Op α)) (l : List α) : List α := ops.foldl (fun l op => op.applyList l) l

theorem Wf.apply (h : d.Wf) (op : Op α) : (op.apply d).Wf ∧ (op.apply d).toList = op.applyList d.toList := by
  cases op with
  | emplaceBack slice => exact h.emplaceBack slice
  | emplaceFront slice => exact h.emplaceFront slice
  | popFront => exact h.popFront
  | popBack => exact h.popBack

/-- 不変条件と精密化は、操作の列の全体で保たれる。 -/
theorem Wf.run (h : d.Wf) (ops : List (Op α)) :
    (run ops d).Wf ∧ (run ops d).toList = runList ops d.toList := by
  induction ops generalizing d with
  | nil => exact ⟨h, rfl⟩
  | cons op ops ih =>
    obtain ⟨hwf, hlist⟩ := h.apply op
    have := ih hwf
    rw [hlist] at this
    exact this

/-- 空の `SliceDeque` から `emplace_back`、`emplace_front`、`pop_front`、`pop_back` をどの順に呼んでも、
`(*this)[0..size()-1]` はただの列に同じ操作をしたもので、`size_ ≤ capacity_`、`start_ < capacity_`、
`capacity_ = 8 * 2^k` が保たれる。 -/
theorem sliceDeque_refines_list (ops : List (Op α)) :
    (run ops create).toList = runList ops [] ∧ (run ops create).size ≤ (run ops create).capacity ∧
      (run ops create).start < (run ops create).capacity ∧
      ∃ k, (run ops create).capacity = 8 * 2 ^ k := by
  obtain ⟨hwf, hlist⟩ := wf_create.run ops
  refine ⟨?_, hwf.size_le, hwf.start_lt, hwf.capacity_eq⟩
  rw [hlist]
  rfl

/-- 先頭に足して `start_` を 7 へ折り返した輪が満ちてから足すと、`growRing` が論理的な順に写す。 -/
example :
    (run ([.emplaceFront 0] ++ (List.range 8).map (fun i => .emplaceBack (i + 1)) ++ [.popFront])
      (create : SliceDeque Nat)).toList = [1, 2, 3, 4, 5, 6, 7, 8] := by decide

end SliceDeque

end Envoy.Buffer
