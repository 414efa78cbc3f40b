import Mathlib
import Envoy.Buffer.OwnedImpl

/-!
# 課金の台帳

account ごとの残高を `Nat → Nat` で表し、`charge` と `credit` の列を記す。残高を越える
`credit` は失敗する。各 slice は、その account にその `capacity_` を課している
（`Slice.chargeOf`）。`OwnedImpl` の各操作が出す課金の列は、操作の前の buffer が課す額を、
操作の後の buffer が課す額に変える（`Moves`）。返金はいつも、まだ数えている slice の額である。
-/

namespace Envoy.Buffer

/-- slice が account に課している額。 -/
def Slice.chargeOf (s : Slice) : Nat → Nat :=
  match s.account with
  | some a => Pi.single a s.capacity
  | none => 0

/-- slice の列が課している額。 -/
def charged (l : List Slice) : Nat → Nat := (l.map Slice.chargeOf).sum

@[simp] theorem charged_nil : charged [] = 0 := rfl

@[simp] theorem charged_cons (s : Slice) (l : List Slice) :
    charged (s :: l) = s.chargeOf + charged l := by simp [charged]

@[simp] theorem charged_append (l l' : List Slice) : charged (l ++ l') = charged l + charged l' := by
  simp [charged]

theorem charged_reverse (l : List Slice) : charged l.reverse = charged l := by
  simp [charged, List.map_reverse, List.sum_reverse]

namespace Slice

/-- account と `capacity_` が同じなら、課している額も同じ。 -/
theorem chargeOf_eq {s s' : Slice} (ha : s'.account = s.account) (hc : s'.capacity = s.capacity) :
    s'.chargeOf = s.chargeOf := by
  simp [chargeOf, ha, hc]

@[simp] theorem chargeOf_append (s : Slice) (src : Bytes) : (s.append src).1.chargeOf = s.chargeOf := by
  apply chargeOf_eq <;> (dsimp only [append]; split <;> rfl)

@[simp] theorem chargeOf_prepend (s : Slice) (src : Bytes) : (s.prepend src).1.chargeOf = s.chargeOf := by
  apply chargeOf_eq <;> (dsimp only [prepend]; split <;> (try split) <;> rfl)

@[simp] theorem chargeOf_drain (s : Slice) (n : Nat) : (s.drain n).chargeOf = s.chargeOf := by
  apply chargeOf_eq <;> (unfold drain; split <;> rfl)

@[simp] theorem chargeOf_callAndClearDrainTrackersAndCharges (s : Slice) :
    s.callAndClearDrainTrackersAndCharges.1.chargeOf = 0 := rfl

@[simp] theorem chargeOf_create_none (n : Nat) : (create n none).chargeOf = 0 := rfl

end Slice

/-! ## 台帳 -/

namespace Ledger

def apply (f : Nat → Nat) : AccountOp → Option (Nat → Nat)
  | .charge a n => some (f + Pi.single a n)
  | .credit a n => if n ≤ f a then some (f - Pi.single a n) else none

def run (f : Nat → Nat) : List AccountOp → Option (Nat → Nat)
  | [] => some f
  | op :: ops => (apply f op).bind (run · ops)

theorem run_append (f : Nat → Nat) (ops ops' : List AccountOp) :
    run f (ops ++ ops') = (run f ops).bind (run · ops') := by
  induction ops generalizing f with
  | nil => rfl
  | cons op ops ih =>
    simp only [List.cons_append, run]
    cases apply f op with
    | none => rfl
    | some f' => exact ih f'

/-- 課金の列 `ops` は、どの額 `g` を足した台帳でも、失敗せずに額 `x` を額 `y` に変える。 -/
def Moves (ops : List AccountOp) (x y : Nat → Nat) : Prop := ∀ g, run (g + x) ops = some (g + y)

theorem Moves.nil (x : Nat → Nat) : Moves [] x x := fun _ => rfl

theorem Moves.append {ops ops' : List AccountOp} {x y z : Nat → Nat} (h : Moves ops x y)
    (h' : Moves ops' y z) : Moves (ops ++ ops') x z := by
  intro g
  rw [run_append, h g, Option.bind_some, h' g]

/-- 変えない額を両側に足す。 -/
theorem Moves.frame {ops : List AccountOp} {x y : Nat → Nat} (h : Moves ops x y) (w : Nat → Nat) :
    Moves ops (x + w) (y + w) := by
  intro g
  have := h (g + w)
  rwa [add_right_comm g w x, add_right_comm g w y, add_assoc, add_assoc] at this

theorem Moves.frame_left {ops : List AccountOp} {x y : Nat → Nat} (h : Moves ops x y) (w : Nat → Nat) :
    Moves ops (w + x) (w + y) := by
  rw [add_comm w x, add_comm w y]; exact h.frame w

theorem Moves.of_eq {ops : List AccountOp} {x y x' y' : Nat → Nat} (h : Moves ops x y) (hx : x' = x)
    (hy : y' = y) : Moves ops x' y' := hx ▸ hy ▸ h

theorem moves_chargeOps (s : Slice) : Moves s.chargeOps 0 s.chargeOf := by
  intro g
  cases ha : s.account with
  | none => simp [Slice.chargeOps, Slice.chargeOf, ha, run]
  | some a => simp [Slice.chargeOps, Slice.chargeOf, ha, run, apply]

/-- 返金は、その slice がまだ課している額を戻す。 -/
theorem moves_creditOps (s : Slice) : Moves s.creditOps s.chargeOf 0 := by
  intro g
  cases ha : s.account with
  | none => simp [Slice.creditOps, Slice.chargeOf, ha, run]
  | some a =>
    simp only [Slice.creditOps, Slice.chargeOf, ha, run, apply, Pi.add_apply, Pi.single_eq_same,
      Nat.le_add_left, ↓reduceIte, Option.bind_some, Option.some.injEq]
    funext x
    simp

theorem moves_maybeChargeAccount (s : Slice) (a : Option Nat) :
    Moves (s.maybeChargeAccount a).2 s.chargeOf (s.maybeChargeAccount a).1.chargeOf := by
  intro g
  cases ha : s.account <;> cases hm : s.isMutable <;> cases a <;>
    simp [Slice.maybeChargeAccount, Slice.chargeOf, ha, hm, run, apply]

theorem moves_callAndClearDrainTrackersAndCharges (s : Slice) :
    Moves s.callAndClearDrainTrackersAndCharges.2 s.chargeOf
      s.callAndClearDrainTrackersAndCharges.1.chargeOf := moves_creditOps s

/-- 列の slice を順に返金する。 -/
theorem moves_flatMap_creditOps (l : List Slice) : Moves (l.flatMap Slice.creditOps) (charged l) 0 := by
  induction l with
  | nil => exact Moves.nil 0
  | cons s l ih =>
    rw [List.flatMap_cons, charged_cons]
    exact ((moves_creditOps s).frame (charged l)).append (ih.of_eq (zero_add _) rfl)

end Ledger

/-! ## `OwnedImpl` の操作の課金 -/

namespace OwnedImpl

open Ledger

theorem charged_appendToBack (slices : List Slice) (src : Bytes) :
    charged (appendToBack slices src).1 = charged slices := by
  unfold appendToBack
  split
  · rfl
  · rename_i back hback
    obtain ⟨ys, rfl⟩ := List.getLast?_eq_some_iff.mp hback
    simp

/-- 新しい slice を足す周は、その slice を buffer の account に課金する。 -/
theorem moves_addLoop (fuel : Nat) (b : OwnedImpl) (src : Bytes) (n : Bool) :
    Moves (addLoop fuel b src n).2 (charged b.slices) (charged (addLoop fuel b src n).1.slices) := by
  induction fuel generalizing b src n with
  | zero => exact Moves.nil _
  | succ fuel ih =>
    unfold addLoop
    split
    · exact Moves.nil _
    · dsimp only
      refine Moves.append ?_ (ih _ _ true)
      rw [charged_appendToBack]
      cases n
      · exact Moves.nil _
      · simpa [add_comm] using (moves_chargeOps (Slice.create src.length b.account)).frame_left
          (charged b.slices)

theorem moves_addImpl (b : OwnedImpl) (src : Bytes) :
    Moves (b.addImpl src).2 (charged b.slices) (charged (b.addImpl src).1.slices) :=
  moves_addLoop _ _ _ _

theorem moves_addBuffer (b other : OwnedImpl) :
    Moves (b.addBuffer other).2 (charged b.slices) (charged (b.addBuffer other).1.slices) := by
  unfold addBuffer
  generalize other.getRawSlices = raw
  -- 畳み込みの途中の buffer と、それまでの課金の列について帰納法
  suffices ∀ (acc : OwnedImpl × List AccountOp), Moves acc.2 (charged b.slices) (charged acc.1.slices) →
      Moves (raw.foldl (fun acc s => ((addImpl acc.1 s).1, acc.2 ++ (addImpl acc.1 s).2)) acc).2
        (charged b.slices)
        (charged (raw.foldl (fun acc s => ((addImpl acc.1 s).1, acc.2 ++ (addImpl acc.1 s).2))
          acc).1.slices) from this (b, []) (Moves.nil _)
  induction raw with
  | nil => intro acc h; exact h
  | cons s raw ih =>
    intro acc h
    exact ih _ (h.append (moves_addImpl acc.1 s))

theorem moves_prependLoop (fuel : Nat) (b : OwnedImpl) (src : Bytes) (n : Bool) :
    Moves (prependLoop fuel b src n).2 (charged b.slices) (charged (prependLoop fuel b src n).1.slices) := by
  induction fuel generalizing b src n with
  | zero => exact Moves.nil _
  | succ fuel ih =>
    unfold prependLoop
    split
    · exact Moves.nil _
    · dsimp only
      -- この周で先頭に足す slice の列
      have hops : Moves (if n = true then (Slice.create src.length b.account).chargeOps else [])
          (charged b.slices)
          (charged (if n = true then Slice.create src.length b.account :: b.slices else b.slices)) := by
        cases n
        · exact Moves.nil _
        · simpa using (moves_chargeOps (Slice.create src.length b.account)).frame (charged b.slices)
      split
      · -- 先頭の slice が無いのは、新しい slice を作らない周だけ
        rename_i hnil
        cases n
        · simpa using Moves.nil (charged b.slices)
        · simp at hnil
      · rename_i front rest hsl
        rw [hsl] at hops
        refine hops.append (Moves.of_eq (ih _ _ true) ?_ rfl)
        simp

theorem moves_prepend (b : OwnedImpl) (src : Bytes) :
    Moves (b.prepend src).2 (charged b.slices) (charged (b.prepend src).1.slices) :=
  moves_prependLoop _ _ _ _

theorem moves_prependSlices (a : Option Nat) (acc l : List Slice) (n : Nat) :
    Moves (prependSlices a acc l n).2.2 (charged acc + charged l) (charged (prependSlices a acc l n).1) := by
  induction l generalizing acc n with
  | nil => simpa [prependSlices] using Moves.nil (charged acc)
  | cons s l ih =>
    simp only [prependSlices]
    -- 移す slice をこの buffer の account に課金してから、残りを移す
    have hc := ((moves_maybeChargeAccount s a).frame_left (charged acc)).frame (charged l)
    refine (hc.of_eq (by simp [add_assoc]) rfl).append (Moves.of_eq (ih _ _) ?_ rfl)
    simp [add_comm]

theorem moves_prependBuffer (b other : OwnedImpl) :
    Moves (b.prependBuffer other).2.2 (charged b.slices + charged other.slices)
      (charged (b.prependBuffer other).1.slices + charged (b.prependBuffer other).2.1.slices) := by
  have := moves_prependSlices b.account b.slices other.slices.reverse 0
  rw [charged_reverse] at this
  simpa [prependBuffer] using this

theorem moves_dropEmptyFront (l : List Slice) :
    Moves (dropEmptyFront l).2 (charged l) (charged (dropEmptyFront l).1) := by
  induction l with
  | nil => exact Moves.nil _
  | cons s l ih =>
    unfold dropEmptyFront
    split
    · rw [charged_cons]
      exact ((moves_creditOps s).frame (charged l)).append (ih.of_eq (zero_add _) rfl)
    · exact Moves.nil _

theorem moves_drainLoop (l : List Slice) (length size : Nat) :
    Moves (drainLoop l length size).2.2 (charged l) (charged (drainLoop l length size).1) := by
  induction l generalizing length size with
  | nil => exact Moves.nil _
  | cons s l ih =>
    unfold drainLoop
    split
    · exact Moves.nil _
    · split
      · rw [charged_cons]
        exact ((moves_creditOps s).frame (charged l)).append ((ih _ _).of_eq (zero_add _) rfl)
      · simpa using Moves.nil (s.chargeOf + charged l)

theorem moves_drainImpl (b : OwnedImpl) (size : Nat) :
    Moves (b.drainImpl size).2 (charged b.slices) (charged (b.drainImpl size).1.slices) :=
  (moves_drainLoop b.slices b.length size).append (moves_dropEmptyFront _)

/-- 写して済ませたときは、相手の slice を返金する。引き取ったときは、その slice をこの buffer に課金する。 -/
theorem moves_coalesceOrAddSlice (b : OwnedImpl) (s : Slice) :
    Moves ((b.coalesceOrAddSlice s).2.1 ++ leftoverOps (b.coalesceOrAddSlice s).2.2)
      (charged b.slices + s.chargeOf) (charged (b.coalesceOrAddSlice s).1.slices) := by
  unfold coalesceOrAddSlice
  split
  · dsimp only
    split
    · exact ((moves_addImpl b s.dataBytes).frame s.chargeOf).append
        (((moves_creditOps s).frame_left _).of_eq rfl (add_zero _).symm)
    · simpa [leftoverOps, add_comm] using
        (moves_maybeChargeAccount s b.account).frame_left (charged b.slices)
  · simpa [leftoverOps, add_comm] using
      (moves_maybeChargeAccount s b.account).frame_left (charged b.slices)

theorem moves_moveLoop (b : OwnedImpl) (l : List Slice) :
    Moves (moveLoop b l).2 (charged b.slices + charged l) (charged (moveLoop b l).1.slices) := by
  induction l generalizing b with
  | nil => simpa [moveLoop] using Moves.nil (charged b.slices)
  | cons s l ih =>
    simp only [moveLoop]
    refine Moves.append (((moves_coalesceOrAddSlice b s).frame (charged l)).of_eq ?_ rfl) (ih _)
    simp [add_assoc]

theorem moves_move (b other : OwnedImpl) :
    Moves (b.move other).2.2 (charged b.slices + charged other.slices)
      (charged (b.move other).1.slices + charged (b.move other).2.1.slices) := by
  simpa [move] using moves_moveLoop b other.slices

theorem moves_moveLengthLoop (reset : Bool) (b : OwnedImpl) (l : List Slice) (n : Nat) :
    Moves (moveLengthLoop reset b l n).2.2.2 (charged b.slices + charged l)
      (charged (moveLengthLoop reset b l n).1.slices + charged (moveLengthLoop reset b l n).2.1) := by
  induction l generalizing b n with
  | nil => exact Moves.nil _
  | cons s l ih =>
    unfold moveLengthLoop
    split
    · exact Moves.nil _
    · dsimp only
      split
      · -- 中身の無い slice は捨てて返金する
        rw [charged_cons]
        refine Moves.append ((((moves_creditOps s).frame_left (charged b.slices)).frame
          (charged l)).of_eq (add_assoc _ _ _).symm rfl) ?_
        exact (ih b n).of_eq (by simp) rfl
      · split
        · -- 一部だけ写す: 新しい slice をこの buffer に課金する。相手の slice は残る
          simpa using (moves_addImpl b (s.dataBytes.take (min s.dataSize n))).frame
            (s.chargeOf + charged l)
        · -- 丸ごと移す
          generalize hcl : (if reset = true then s.callAndClearDrainTrackersAndCharges else (s, [])) = cl
          have hmcl : Moves cl.2 s.chargeOf cl.1.chargeOf := by
            rw [← hcl]; split
            · exact moves_callAndClearDrainTrackersAndCharges s
            · exact Moves.nil _
          rw [charged_cons, List.append_assoc, List.append_assoc, ← List.append_assoc (b.coalesceOrAddSlice cl.1).2.1]
          refine Moves.append (((hmcl.frame_left (charged b.slices)).frame (charged l)).of_eq
            (add_assoc _ _ _).symm rfl)
            (Moves.append ((moves_coalesceOrAddSlice b cl.1).frame (charged l)) (ih _ _))

theorem moves_moveLength (b other : OwnedImpl) (n : Nat) (reset : Bool) :
    Moves (b.moveLength other n reset).2.2 (charged b.slices + charged other.slices)
      (charged (b.moveLength other n reset).1.slices + charged (b.moveLength other n reset).2.1.slices) :=
  moves_moveLengthLoop reset b other.slices n

/-- 取り出した slice は account を持たない。 -/
theorem chargeOf_extractMutableFrontSlice (b : OwnedImpl) :
    (b.extractMutableFrontSlice).2.chargeOf = 0 := by
  unfold extractMutableFrontSlice
  dsimp only
  split
  · rfl
  · split
    · rfl
    · rw [Slice.chargeOf_append]; rfl

theorem moves_extractMutableFrontSlice (b : OwnedImpl) :
    Moves (b.extractMutableFrontSlice).1.2 (charged b.slices)
      (charged (b.extractMutableFrontSlice).1.1.slices) := by
  have he := moves_dropEmptyFront b.slices
  unfold extractMutableFrontSlice
  dsimp only
  split
  · rename_i hnil
    rw [hnil] at he
    exact he
  · rename_i s rest hsr
    rw [hsr, charged_cons] at he
    split
    · exact he.append (((moves_callAndClearDrainTrackersAndCharges s).frame (charged rest)).of_eq rfl
        (by simp))
    · exact he.append (((moves_creditOps s).frame (charged rest)).of_eq rfl (by simp))

/-- buffer の破棄は、残りの slice をすべて返金する。 -/
theorem moves_destroyOps (b : OwnedImpl) : Moves b.destroyOps (charged b.slices) 0 :=
  moves_flatMap_creditOps b.slices

end OwnedImpl

end Envoy.Buffer
