import Envoy.Event.ScaledRangeTimerManager

/-!
# scaled range timer の約束

`ScaledRangeTimerManagerImpl` が何のためにあるかを、実装から離れて述べる。有効な timer は、
約束 `ScaledDeadline` を一つ持つ。時刻 `base` より後で、かつ `base + spread * σ` を過ぎていれば
鳴ってよい（`σ` はその時の scale factor）。鳴るのはその時だけで、鳴れば約束は消える。時刻は、
残っている約束の時刻を過ぎる瞬間を越えて進むことはない。だから鳴るのは、約束の時刻を過ぎた最初の
瞬間である。

時刻 `e` に `enableTimer(max)` した timer の約束は、`min = min(computeMinimum(max), max)` を零で
抑えた `m` について、`base = e + m`、`spread = max - m` である。
-/

namespace Envoy.ScaledTimer

/-- 有効な timer の約束。 -/
structure ScaledDeadline (α : Type _) where
  base : α
  spread : α
deriving DecidableEq, Repr

variable {ι α : Type _} [DecidableEq ι] [Field α] [LinearOrder α] [IsStrictOrderedRing α]

namespace ScaledDeadline

/-- 時刻 `now` に、scale factor `scaleFactor` の下で、約束の時刻を過ぎている。 -/
def Due (p : ScaledDeadline α) (scaleFactor now : α) : Prop :=
  p.base ≤ now ∧ p.base + p.spread * scaleFactor ≤ now

instance (p : ScaledDeadline α) (scaleFactor now : α) : Decidable (p.Due scaleFactor now) :=
  inferInstanceAs (Decidable (_ ∧ _))

/-- 時刻 `now` に `enableTimer(max_ms)` した timer の約束。 -/
def ofEnable (minimum : ScaledTimerMinimum α) (now maxMs : α) : ScaledDeadline α :=
  let minMs := max 0 (min (minimum.computeMinimum maxMs) maxMs)
  ⟨now + minMs, maxMs - minMs⟩

end ScaledDeadline

/-- 動作が timer `i` を有効にし直し、止め、または壊す。 -/
def Event.Touches (i : ι) : Event ι α → Prop
  | .enableTimer j _ => j = i
  | .disableTimer j => j = i
  | .destroyTimer j => j = i
  | _ => False

/-- 約束の側の状態: 時刻、scale factor、生きている timer の `ScaledTimerMinimum`、有効な timer の約束。 -/
structure Spec (ι α : Type _) [Field α] [LinearOrder α] where
  now : α
  scaleFactor : α
  minimum : ι → Option (ScaledTimerMinimum α)
  pending : ι → Option (ScaledDeadline α)

namespace Spec

/-- 一つの動作が約束を守る。callback は約束の時刻を過ぎた timer にだけ呼び、約束を消す。
`ASSERT` は落ちない。時刻は、約束の時刻を過ぎる瞬間を越えては進まない。dispatcher の動作は、
callback を呼ばなければ何も変えない。 -/
def Step (a : Spec ι α) (e : Event ι α) (o : Output ι) (a' : Spec ι α) : Prop :=
  match o with
  | .assertFailed => False
  | .callback i =>
    (∃ p, a.pending i = some p ∧ p.Due a.scaleFactor a.now) ∧
      a' = { a with pending := Function.update a.pending i none }
  | .silent =>
    match e with
    | .createTimer i minimum =>
      a.minimum i = none ∧
        a' = { a with
          minimum := Function.update a.minimum i (some minimum)
          pending := Function.update a.pending i none }
    | .enableTimer i maxMs =>
      ∃ minimum, a.minimum i = some minimum ∧
        a' = { a with pending := Function.update a.pending i (some (.ofEnable minimum a.now maxMs)) }
    | .disableTimer i => a' = { a with pending := Function.update a.pending i none }
    | .destroyTimer i =>
      a' = { a with
        minimum := Function.update a.minimum i none
        pending := Function.update a.pending i none }
    | .setScaleFactor scaleFactor => a' = { a with scaleFactor := scaleFactor.value }
    | .advance t =>
      a.now ≤ t ∧ (∀ j p, a.pending j = some p → ∀ t', a.now ≤ t' → t' < t → ¬ p.Due a.scaleFactor t') ∧
        a' = { a with now := t }
    | .fireMinTimer _ => a' = a
    | .fireQueueTimer _ => a' = a
    | .returnCallback => a' = a

variable {a a' : Spec ι α} {e : Event ι α} {o : Output ι} {i : ι}

omit [IsStrictOrderedRing α] in
/-- 一歩: `i` に触れない動作は、`i` の callback を呼ばない限り `i` の約束を変えない。生きている `i` は
生きたままである。 -/
theorem Step.frame (h : Step a e o a') (hi : ¬ e.Touches i) (halive : a.minimum i ≠ none)
    (ho : o ≠ .callback i) : a'.minimum i = a.minimum i ∧ a'.pending i = a.pending i := by
  cases o with
  | assertFailed => cases h
  | callback j =>
    obtain ⟨-, rfl⟩ := h
    have hji : i ≠ j := fun e => ho (e ▸ rfl)
    simp [Function.update_of_ne hji]
  | silent =>
    cases e <;> dsimp only [Step] at h
    case createTimer j minimum =>
      obtain ⟨hj, rfl⟩ := h
      have hji : i ≠ j := fun e => halive (e ▸ hj)
      simp [Function.update_of_ne hji]
    case enableTimer j maxMs =>
      obtain ⟨minimum, -, rfl⟩ := h
      have hji : i ≠ j := fun e => hi (e ▸ rfl)
      simp [Function.update_of_ne hji]
    case disableTimer j =>
      subst h
      have hji : i ≠ j := fun e => hi (e ▸ rfl)
      simp [Function.update_of_ne hji]
    case destroyTimer j =>
      subst h
      have hji : i ≠ j := fun e => hi (e ▸ rfl)
      simp [Function.update_of_ne hji]
    case setScaleFactor _ => subst h; simp
    case advance t => obtain ⟨-, -, rfl⟩ := h; simp
    case fireMinTimer _ => subst h; simp
    case fireQueueTimer _ => subst h; simp
    case returnCallback => subst h; simp

omit [IsStrictOrderedRing α] in
/-- `i` の callback は、`i` の約束の時刻を過ぎた時に呼ばれ、約束を消す。 -/
theorem Step.callback (h : Step a e (.callback i) a') :
    (∃ p, a.pending i = some p ∧ p.Due a.scaleFactor a.now) ∧ a'.minimum i = a.minimum i ∧
      a'.pending i = none := by
  obtain ⟨hp, rfl⟩ := h
  exact ⟨hp, rfl, by simp⟩

omit [IsStrictOrderedRing α] in
/-- 列: `i` に触れない動作の列で、`i` は生きたままであり、`i` の callback は高々一度で、約束のある
時にだけ呼ばれる。呼ばれるまで約束は変わらず、呼ばれた後は無い。 -/
theorem steps_untouched {as : List (Event ι α)} {os : List (Output ι)}
    (h : Lts.Steps Step a as os a') (hi : ∀ e ∈ as, ¬ e.Touches i) (halive : a.minimum i ≠ none) :
    a'.minimum i = a.minimum i ∧ os.count (.callback i) ≤ 1 ∧
      (.callback i ∉ os → a'.pending i = a.pending i) ∧
      (.callback i ∈ os → a.pending i ≠ none ∧ a'.pending i = none) := by
  induction h with
  | nil => simp
  | @cons a₀ a₁ a₂ e o as os hstep hsteps ih =>
    have hi₁ : ∀ e ∈ as, ¬ e.Touches i := fun e he => hi e (List.mem_cons_of_mem _ he)
    by_cases ho : o = .callback i
    · -- 最初の callback: 約束が消え、残りの列では呼ばれない
      subst ho
      obtain ⟨⟨p, hp, -⟩, hmin, hnone⟩ := Step.callback hstep
      obtain ⟨hmin', hcount, hkeep, hcb⟩ := ih hi₁ (hmin ▸ halive)
      have hnot : Output.callback i ∉ os := fun hmem => (hcb hmem).1 hnone
      refine ⟨hmin'.trans hmin, ?_, by simp, fun _ => ⟨by simp [hp], (hkeep hnot).trans hnone⟩⟩
      simp [List.count_eq_zero_of_not_mem hnot]
    · obtain ⟨hmin, hpend⟩ := Step.frame hstep (hi e List.mem_cons_self) halive ho
      obtain ⟨hmin', hcount, hkeep, hcb⟩ := ih hi₁ (hmin ▸ halive)
      refine ⟨hmin'.trans hmin, ?_, ?_, ?_⟩
      · simpa [List.count_cons, ho] using hcount
      · intro hnot
        exact (hkeep fun hm => hnot (List.mem_cons_of_mem _ hm)).trans hpend
      · intro hmem
        have hmem' : Output.callback i ∈ os := by
          rcases List.mem_cons.mp hmem with e | hm
          · exact absurd e.symm ho
          · exact hm
        exact ⟨hpend ▸ (hcb hmem').1, (hcb hmem').2⟩

end Spec

end Envoy.ScaledTimer
