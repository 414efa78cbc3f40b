import Mathlib

/-!
# 互いに逆な二つの有限写像

`e : α → β` と `d : γ → α` を `AList` で持ち、`e` の値の一部 `f b` を鍵にして `d` が引き戻す。
値の残り（参照の数など）は `e` の側だけで変わってよい。
-/

namespace AList

variable {α β γ : Type*} [DecidableEq α] [DecidableEq γ]

/-- `e` が `a` を `b` に写すことと、`d` が `f b` を `a` に写すことが同値。 -/
def Inverse (f : β → γ) (e : AList fun _ : α => β) (d : AList fun _ : γ => α) : Prop :=
  ∀ a c, (∃ b, e.lookup a = some b ∧ f b = c) ↔ d.lookup c = some a

variable {f : β → γ} {e : AList fun _ : α => β} {d : AList fun _ : γ => α}

theorem inverse_empty (f : β → γ) : Inverse f (∅ : AList fun _ : α => β) (∅ : AList fun _ : γ => α) := by
  intro a c
  simp

theorem Inverse.lookup_of_lookup (h : Inverse f e d) {a : α} {b : β} (he : e.lookup a = some b) :
    d.lookup (f b) = some a :=
  (h a (f b)).mp ⟨b, he, rfl⟩

theorem Inverse.lookup_of_lookup_right (h : Inverse f e d) {a : α} {c : γ} (hd : d.lookup c = some a) :
    ∃ b, e.lookup a = some b ∧ f b = c :=
  (h a c).mpr hd

/-- どちらにも無い鍵の組を足す。 -/
theorem Inverse.insert (h : Inverse f e d) {a : α} {b : β} (ha : a ∉ e) (hc : f b ∉ d) :
    Inverse f (e.insert a b) (d.insert (f b) a) := by
  intro a' c
  by_cases ha' : a' = a
  · subst ha'
    by_cases hc' : c = f b
    · subst hc'; simp [lookup_insert]
    · simp only [lookup_insert, Option.some.injEq, exists_eq_left', lookup_insert_ne hc']
      constructor
      · intro he; exact absurd he.symm hc'
      · intro hd
        obtain ⟨b', hb', -⟩ := h.lookup_of_lookup_right hd
        exact absurd (lookup_isSome.mp (by simp [hb'])) ha
  · rw [lookup_insert_ne ha']
    by_cases hc' : c = f b
    · subst hc'
      simp only [lookup_insert, Option.some.injEq]
      constructor
      · rintro ⟨b', hb', hfb⟩
        exact absurd (lookup_isSome.mp (by rw [← hfb, h.lookup_of_lookup hb']; rfl)) hc
      · intro he; exact absurd he.symm ha'
    · rw [lookup_insert_ne hc']
      exact h a' c

/-- `f` で見える部分を変えずに値を取り替える。 -/
theorem Inverse.replace (h : Inverse f e d) {a : α} {b b' : β} (he : e.lookup a = some b) (hf : f b' = f b) :
    Inverse f (e.insert a b') d := by
  intro a' c
  by_cases ha' : a' = a
  · subst ha'
    rw [lookup_insert, ← h a' c, he]
    simp [hf]
  · rw [lookup_insert_ne ha']
    exact h a' c

/-- 組を両方から消す。 -/
theorem Inverse.erase (h : Inverse f e d) {a : α} {b : β} (he : e.lookup a = some b) :
    Inverse f (e.erase a) (d.erase (f b)) := by
  have hd := h.lookup_of_lookup he
  intro a' c
  by_cases ha' : a' = a
  · subst ha'
    rw [lookup_erase]
    simp only [reduceCtorEq, false_and, exists_false, false_iff]
    by_cases hc : c = f b
    · subst hc; simp [lookup_erase]
    · rw [lookup_erase_ne hc]
      intro hd'
      obtain ⟨b', hb', hfb⟩ := h.lookup_of_lookup_right hd'
      rw [he, Option.some.injEq] at hb'
      exact hc (hb' ▸ hfb).symm
  · rw [lookup_erase_ne ha']
    by_cases hc : c = f b
    · subst hc
      rw [lookup_erase]
      simp only [reduceCtorEq, iff_false, not_exists, not_and]
      intro b' hb' hfb
      have := h.lookup_of_lookup hb'
      rw [hfb, hd, Option.some.injEq] at this
      exact ha' this.symm
    · rw [lookup_erase_ne hc]
      exact h a' c

/-- 互いに逆な写像は、鍵の数が等しい。 -/
theorem Inverse.length_keys (h : Inverse f e d) : e.keys.length = d.keys.length := by
  let g : α → Option γ := fun a => (e.lookup a).map f
  have hsome : ∀ a ∈ e.keys, (g a).isSome := by
    intro a ha
    simpa [g] using lookup_isSome.mpr (mem_keys.mpr ha)
  have hnodup : (e.keys.filterMap g).Nodup := by
    refine e.keys_nodup.filterMap fun a a' c ha ha' => ?_
    simp only [g, Option.mem_def, Option.map_eq_some_iff] at ha ha'
    obtain ⟨b, hb, rfl⟩ := ha
    obtain ⟨b', hb', hfb⟩ := ha'
    have h1 := h.lookup_of_lookup hb
    have h2 := h.lookup_of_lookup hb'
    rw [hfb, h1, Option.some.injEq] at h2
    exact h2
  have hperm : (e.keys.filterMap g).Perm d.keys := by
    refine (List.perm_ext_iff_of_nodup hnodup d.keys_nodup).mpr fun c => ?_
    simp only [List.mem_filterMap, g, Option.map_eq_some_iff, ← mem_keys]
    constructor
    · rintro ⟨a, -, b, hb, rfl⟩
      exact lookup_isSome.mp (by rw [h.lookup_of_lookup hb]; rfl)
    · intro hc
      obtain ⟨a, ha⟩ := Option.isSome_iff_exists.mp (lookup_isSome.mpr hc)
      obtain ⟨b, hb, hfb⟩ := h.lookup_of_lookup_right ha
      exact ⟨a, mem_keys.mp (lookup_isSome.mp (by simp [hb])), b, hb, hfb⟩
  rw [← hperm.length_eq, List.filterMap_length_eq_length.mpr hsome]

end AList
