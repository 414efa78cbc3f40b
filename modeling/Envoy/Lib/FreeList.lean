import Mathlib

/-!
# 空き番号の stack を持つ番号の割り当て

番号 `1, 2, …` を配る。返された番号は stack `pool` に積み、次に配る番号 `next` は
stack が空なら数 `counter` を一つ進めて作る。使用中の番号の列 `live` と `pool` と `next` が
互いに素で、合わせてちょうど `1..counter` であることが不変条件である。
-/

structure FreeList where
  pool : List ℕ
  next : ℕ
  counter : ℕ

namespace FreeList

/-- 次に配る番号を用意する。 -/
def take (a : FreeList) : FreeList :=
  match a.pool with
  | [] => { a with next := a.counter + 1, counter := a.counter + 1 }
  | top :: rest => { a with next := top, pool := rest }

/-- 番号を返す。 -/
def release (a : FreeList) (n : ℕ) : FreeList := { a with pool := n :: a.pool }

@[simp] theorem release_next (a : FreeList) (n : ℕ) : (a.release n).next = a.next := rfl

@[simp] theorem release_counter (a : FreeList) (n : ℕ) : (a.release n).counter = a.counter := rfl

@[simp] theorem release_pool (a : FreeList) (n : ℕ) : (a.release n).pool = n :: a.pool := rfl

/-- 使用中の番号 `live`、`pool`、`next` が互いに素で、合わせて `1..counter`。 -/
structure Partition (live : List ℕ) (a : FreeList) : Prop where
  nodup_live : live.Nodup
  nodup_pool : a.pool.Nodup
  next_not_live : a.next ∉ live
  next_not_pool : a.next ∉ a.pool
  disjoint : ∀ n ∈ a.pool, n ∉ live
  cover : ∀ n, n ∈ live ∨ n ∈ a.pool ∨ n = a.next ↔ 1 ≤ n ∧ n ≤ a.counter

theorem partition_init : Partition [] ⟨[], 1, 1⟩ where
  nodup_live := List.nodup_nil
  nodup_pool := List.nodup_nil
  next_not_live := List.not_mem_nil
  next_not_pool := List.not_mem_nil
  disjoint := by simp
  cover := by intro n; simp; omega

variable {live : List ℕ} {a : FreeList}

/-- 配った番号は使用中になる。 -/
theorem Partition.take (h : Partition live a) : Partition (a.next :: live) a.take := by
  unfold FreeList.take
  split
  · rename_i hpool
    have hc := h.cover
    have hnext_le : a.next ≤ a.counter := ((hc a.next).mp (.inr (.inr rfl))).2
    refine ⟨List.nodup_cons.mpr ⟨h.next_not_live, h.nodup_live⟩, by simp [hpool], ?_, by simp [hpool],
      by simp [hpool], ?_⟩
    · -- 新しい `next` は `counter + 1` で、どの使用中の番号より大きい
      intro hmem
      dsimp only at hmem
      rcases List.mem_cons.mp hmem with he | hl
      · omega
      · have := ((hc _).mp (.inl hl)).2
        omega
    · intro n
      have := hc n
      dsimp only
      simp only [hpool, List.not_mem_nil, false_or, List.mem_cons] at this ⊢
      constructor
      · rintro ((rfl | hl) | rfl)
        · omega
        · have := this.mp (.inl hl); omega
        · omega
      · intro hn
        by_cases hle : n ≤ a.counter
        · rcases this.mpr ⟨hn.1, hle⟩ with hl | rfl
          · exact .inl (.inr hl)
          · exact .inl (.inl rfl)
        · exact .inr (by omega)
  · rename_i top rest hpool
    have hnd := h.nodup_pool
    rw [hpool, List.nodup_cons] at hnd
    have htop : top ∉ live := h.disjoint top (by simp [hpool])
    have hnext_top : a.next ≠ top := fun he => h.next_not_pool (by simp [hpool, he])
    refine ⟨List.nodup_cons.mpr ⟨h.next_not_live, h.nodup_live⟩, hnd.2, ?_, hnd.1, ?_, ?_⟩
    · simp only [List.mem_cons, not_or]
      exact ⟨Ne.symm hnext_top, htop⟩
    · intro n hn
      have hn' : n ∈ a.pool := by simp [hpool, hn]
      simp only [List.mem_cons, not_or]
      refine ⟨fun he => h.next_not_pool (he ▸ hn'), h.disjoint n hn'⟩
    · intro n
      rw [← h.cover n, hpool]
      simp only [List.mem_cons]
      tauto

/-- 返した番号は使用中でなくなる。 -/
theorem Partition.release (h : Partition live a) {n : ℕ} (hn : n ∈ live) :
    Partition (live.erase n) (a.release n) := by
  have hnd := h.nodup_live
  have herase : ∀ m, m ∈ live.erase n ↔ m ≠ n ∧ m ∈ live := fun m => hnd.mem_erase_iff
  refine ⟨hnd.erase n, ?_, ?_, ?_, ?_, ?_⟩
  · exact List.nodup_cons.mpr ⟨fun hp => h.disjoint n hp hn, h.nodup_pool⟩
  · exact fun hm => h.next_not_live (List.mem_of_mem_erase hm)
  · simp only [release_next, release_pool, List.mem_cons, not_or]
    exact ⟨fun he => h.next_not_live (he ▸ hn), h.next_not_pool⟩
  · intro m hm
    simp only [release_pool, List.mem_cons] at hm
    rw [herase]
    rcases hm with rfl | hp
    · exact fun hc => hc.1 rfl
    · exact fun hc => h.disjoint m hp hc.2
  · intro m
    rw [herase, release_pool, release_next, release_counter, ← h.cover m]
    simp only [List.mem_cons]
    by_cases hm : m = n
    · subst hm; tauto
    · tauto

/-- 番号の数え上げ: 使用中と `pool` と `next` で、ちょうど `counter` 個。 -/
theorem Partition.length_eq (h : Partition live a) : live.length + a.pool.length + 1 = a.counter := by
  have hnd : (a.next :: (live ++ a.pool)).Nodup := by
    refine List.nodup_cons.mpr ⟨?_, List.nodup_append.mpr ⟨h.nodup_live, h.nodup_pool, ?_⟩⟩
    · simp only [List.mem_append, not_or]
      exact ⟨h.next_not_live, h.next_not_pool⟩
    · intro x hx y hy hxy
      exact h.disjoint y hy (hxy ▸ hx)
  have hset : (a.next :: (live ++ a.pool)).toFinset = Finset.Icc 1 a.counter := by
    ext n
    simp only [List.toFinset_cons, List.toFinset_append, Finset.mem_insert, Finset.mem_union,
      List.mem_toFinset, Finset.mem_Icc, ← h.cover n]
    tauto
  have := congrArg Finset.card hset
  rw [List.toFinset_card_of_nodup hnd, Nat.card_Icc] at this
  simp only [List.length_cons, List.length_append] at this
  omega

end FreeList
