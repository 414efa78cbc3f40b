import Mathlib

/-!
# 関数の遷移系による、関係の遷移系の模倣

実装は状態と動作から次の状態と出力を計算する関数、仕様は出力付きの遷移の関係で与える。
各動作に前提（実装が ASSERT するもの）があり、前提を満たす列だけを考える。
一歩の模倣から、列全体の模倣を帰納法で得る。
-/

namespace Lts

variable {σ τ α ω : Type _}

/-- 関係で与えた、出力付きの遷移の列。 -/
inductive Steps (step : τ → α → ω → τ → Prop) : τ → List α → List ω → τ → Prop
  | nil (t : τ) : Steps step t [] [] t
  | cons {t t' t'' : τ} {a : α} {o : ω} {as : List α} {os : List ω} :
      step t a o t' → Steps step t' as os t'' → Steps step t (a :: as) (o :: os) t''

/-- 関数で与えた遷移を続け、出力を順に集める。 -/
def exec (step : σ → α → σ × ω) : σ → List α → σ × List ω
  | s, [] => (s, [])
  | s, a :: as =>
    let r := step s a
    let rest := exec step r.1 as
    (rest.1, r.2 :: rest.2)

@[simp] theorem exec_nil (step : σ → α → σ × ω) (s : σ) : exec step s [] = (s, []) := rfl

@[simp] theorem exec_cons (step : σ → α → σ × ω) (s : σ) (a : α) (as : List α) :
    exec step s (a :: as) = ((exec step (step s a).1 as).1, (step s a).2 :: (exec step (step s a).1 as).2) :=
  rfl

@[simp] theorem length_exec (step : σ → α → σ × ω) (s : σ) (as : List α) :
    (exec step s as).2.length = as.length := by
  induction as generalizing s with
  | nil => rfl
  | cons a as ih => simp [ih]

/-- 続けた列の遷移は、前の列の遷移の後に後の列の遷移を続けたもの。 -/
theorem exec_append (step : σ → α → σ × ω) (s : σ) (as bs : List α) :
    exec step s (as ++ bs) =
      ((exec step (exec step s as).1 bs).1, (exec step s as).2 ++ (exec step (exec step s as).1 bs).2) := by
  induction as generalizing s with
  | nil => rfl
  | cons a as ih => simp [ih]

/-- 各動作が、その前の状態で前提を満たす。 -/
def Allowed (valid : σ → α → Prop) (step : σ → α → σ × ω) : σ → List α → Prop
  | _, [] => True
  | s, a :: as => valid s a ∧ Allowed valid step (step s a).1 as

@[simp] theorem allowed_nil (valid : σ → α → Prop) (step : σ → α → σ × ω) (s : σ) :
    Allowed valid step s [] := trivial

@[simp] theorem allowed_cons (valid : σ → α → Prop) (step : σ → α → σ × ω) (s : σ) (a : α)
    (as : List α) :
    Allowed valid step s (a :: as) ↔ valid s a ∧ Allowed valid step (step s a).1 as := Iff.rfl

/-- 前提の無い動作の列は、いつでも許されている。 -/
theorem allowed_true (step : σ → α → σ × ω) (s : σ) (as : List α) :
    Allowed (fun _ _ => True) step s as := by
  induction as generalizing s with
  | nil => trivial
  | cons a as ih => exact ⟨trivial, ih _⟩

/-- 続けた列が許されるのは、前の列が許され、後の列がその続きから許される時。 -/
theorem allowed_append (valid : σ → α → Prop) (step : σ → α → σ × ω) (s : σ) (as bs : List α) :
    Allowed valid step s (as ++ bs) ↔ Allowed valid step s as ∧ Allowed valid step (exec step s as).1 bs := by
  induction as generalizing s with
  | nil => simp
  | cons a as ih => simp [ih, and_assoc]

section Simulation

variable {step : σ → α → σ × ω} {spec : τ → α → ω → τ → Prop} {valid : σ → α → Prop}
  {R : σ → τ → Prop}

/-- 一歩の模倣から列全体の模倣: 前提を満たす列では、実装の出力の列を仕様の遷移の列が出し、
終わりの状態が再び関係 `R` で結ばれる。 -/
theorem simulation
    (hstep : ∀ s t a, R s t → valid s a → ∃ t', spec t a (step s a).2 t' ∧ R (step s a).1 t')
    {s : σ} {t : τ} (hR : R s t) {as : List α} (hv : Allowed valid step s as) :
    ∃ t', Steps spec t as (exec step s as).2 t' ∧ R (exec step s as).1 t' := by
  induction as generalizing s t with
  | nil => exact ⟨t, .nil t, hR⟩
  | cons a as ih =>
    obtain ⟨ha, hrest⟩ := hv
    obtain ⟨t₁, hspec, hR₁⟩ := hstep s t a hR ha
    obtain ⟨t', hsteps, hR'⟩ := ih hR₁ hrest
    exact ⟨t', .cons hspec hsteps, hR'⟩

/-- 状態と、それまでの出力の列についての不変条件は、前提を満たす列の終わりまで保たれる。 -/
theorem exec_invariant {I : σ → List ω → Prop}
    (hstep : ∀ s os a, I s os → valid s a → I (step s a).1 (os ++ [(step s a).2]))
    {s : σ} {os : List ω} (h : I s os) {as : List α} (hv : Allowed valid step s as) :
    I (exec step s as).1 (os ++ (exec step s as).2) := by
  induction as generalizing s os with
  | nil => simpa using h
  | cons a as ih =>
    obtain ⟨ha, hrest⟩ := hv
    have := ih (hstep s os a h ha) hrest
    simpa using this

/-- どの一歩も保つ状態の不変条件は、どの列の後でも成り立つ。 -/
theorem exec_preserves {I : σ → Prop} (hstep : ∀ s a, I s → I (step s a).1) {s : σ} (h : I s) (as : List α) :
    I (exec step s as).1 := by
  induction as generalizing s with
  | nil => exact h
  | cons a as ih => exact ih (hstep s a h)

end Simulation

/-! ## 失敗しうる遷移 -/

/-- 失敗しうる遷移を続ける。どこかで失敗すれば `none`。 -/
def runPartial (step : σ → α → Option σ) : σ → List α → Option σ
  | s, [] => some s
  | s, a :: as => (step s a).bind (runPartial step · as)

/-- 各動作が、その前の状態で前提を満たす。 -/
def AllowedPartial (valid : σ → α → Prop) (step : σ → α → Option σ) : σ → List α → Prop
  | _, [] => True
  | s, a :: as => valid s a ∧ ∀ s', step s a = some s' → AllowedPartial valid step s' as

/-- 前提を満たす一歩が失敗せず不変条件を保つなら、前提を満たす列は最後まで失敗せず、
不変条件を保つ。 -/
theorem runPartial_invariant {step : σ → α → Option σ} {valid : σ → α → Prop} {I : σ → Prop}
    (hstep : ∀ s a, I s → valid s a → ∃ s', step s a = some s' ∧ I s')
    {s : σ} (h : I s) {as : List α} (hv : AllowedPartial valid step s as) :
    ∃ s', runPartial step s as = some s' ∧ I s' := by
  induction as generalizing s with
  | nil => exact ⟨s, rfl, h⟩
  | cons a as ih =>
    obtain ⟨ha, hrest⟩ := hv
    obtain ⟨s₁, hs₁, hI₁⟩ := hstep s a h ha
    obtain ⟨s', hs', hI'⟩ := ih hI₁ (hrest s₁ hs₁)
    exact ⟨s', by simp [runPartial, hs₁, hs'], hI'⟩

/-- 失敗しうる遷移の列は、`Option` の上の `foldlM`（失敗で抜ける `for`）である。 -/
theorem runPartial_eq_foldlM (step : σ → α → Option σ) (s : σ) (as : List α) :
    runPartial step s as = as.foldlM step s := by
  induction as generalizing s with
  | nil => rfl
  | cons a as ih =>
    simp only [runPartial, List.foldlM_cons]
    cases step s a with
    | none => rfl
    | some s' => exact ih s'

/-- 成功した一歩が保つ不変条件は、成功した列の終わりまで保たれる。 -/
theorem runPartial_preserves {step : σ → α → Option σ} {I : σ → Prop}
    (hstep : ∀ s a s', I s → step s a = some s' → I s') {s s' : σ} (h : I s) {as : List α}
    (hr : runPartial step s as = some s') : I s' := by
  induction as generalizing s with
  | nil => cases hr; exact h
  | cons a as ih =>
    simp only [runPartial, Option.bind_eq_some_iff] at hr
    obtain ⟨s₁, hs₁, hrest⟩ := hr
    exact ih (hstep s a s₁ h hs₁) hrest

/-! ## 例外で抜ける遷移 -/

@[simp] theorem except_ok_bind {ε β : Type _} (a : σ) (f : σ → Except ε β) : (Except.ok a >>= f) = f a := rfl

@[simp] theorem except_error_bind {ε β : Type _} (e : ε) (f : σ → Except ε β) :
    (Except.error e >>= f) = Except.error e := rfl

/-- 続けた列が成功すれば、前の列も成功し、後の列はその続きから成功する。 -/
theorem foldlM_append_eq_ok {ε : Type _} {step : σ → α → Except ε σ} {s s' : σ} {as bs : List α}
    (h : (as ++ bs).foldlM step s = .ok s') : ∃ s₁, as.foldlM step s = .ok s₁ ∧ bs.foldlM step s₁ = .ok s' := by
  rw [List.foldlM_append] at h
  cases h₁ : as.foldlM step s with
  | error e => rw [h₁, except_error_bind] at h; cases h
  | ok s₁ => rw [h₁, except_ok_bind] at h; exact ⟨s₁, rfl, h⟩

/-- `Except` の上の `foldlM`（例外で抜ける `for`）で、見た要素の列 `seen` を添字とする不変条件は、成功した
一歩が `seen` から `seen ++ [a]` へ保てば、成功した列の終わりまで `seen ++ as` で保たれる。 -/
theorem foldlM_except_trace {ε : Type _} {step : σ → α → Except ε σ} {I : List α → σ → Prop}
    (hstep : ∀ seen s a s', I seen s → step s a = .ok s' → I (seen ++ [a]) s') {seen : List α} {s s' : σ}
    (h : I seen s) {as : List α} (hr : as.foldlM step s = .ok s') : I (seen ++ as) s' := by
  induction as generalizing seen s with
  | nil => cases hr; simpa using h
  | cons a as ih =>
    rw [List.foldlM_cons] at hr
    cases hs : step s a with
    | error e => rw [hs, except_error_bind] at hr; cases hr
    | ok s₁ =>
      rw [hs, except_ok_bind] at hr
      simpa using ih (hstep seen s a s₁ h hs) hr

/-- 成功した一歩が保つ不変条件は、成功した列の終わりまで保たれる。 -/
theorem foldlM_except_preserves {ε : Type _} {step : σ → α → Except ε σ} {I : σ → Prop}
    (hstep : ∀ s a s', I s → step s a = .ok s' → I s') {s s' : σ} (h : I s) {as : List α}
    (hr : as.foldlM step s = .ok s') : I s' :=
  @foldlM_except_trace σ α ε step (fun _ => I) (fun _ s a s' hs hst => hstep s a s' hs hst) [] s s' h as hr

end Lts
