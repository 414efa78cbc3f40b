import Mathlib
import Envoy.Buffer.Accounting
import Envoy.Buffer.Lemmas.Ledger
import Envoy.Lib.Simulation

/-!
# 課金は保たれる

account の表の残高は台帳の残高であり、大きさの組は残高の組に合う（`ClassOk`）。buffer の各操作の
課金の列は、生きている slice が課す額の和を、操作の後の和に変える。したがって操作の列を通じて、
どの account の残高も、それを account に持つ生きている slice の `capacity_` の和に等しく、
`credit` の ASSERT は破れない。
-/

namespace Envoy.Buffer

open Ledger

namespace AccountTable

def balances (t : AccountTable) : Nat → Nat := fun a => (t.accounts a).bufferMemoryAllocated

/-- 組に入っているのは登録中の account だけで、その今の組に限る。 -/
def Members (t : AccountTable) : Prop :=
  ∀ a k, a ∈ t.factory.sizeClassAccountSets k ↔
    (t.accounts a).registered ∧ (t.accounts a).currentBucketIdx = some k

/-- 登録中の account の今の組は、その残高の組である。 -/
def Synced (t : AccountTable) (a : Nat) : Prop :=
  (t.accounts a).registered → (t.accounts a).currentBucketIdx =
    BufferMemoryAccountImpl.balanceToClassIndex t.factory.bitshift (t.accounts a).bufferMemoryAllocated

structure ClassOk (t : AccountTable) : Prop where
  members : t.Members
  synced : ∀ a, t.Synced a

theorem classOk_create (bitshift : Nat) : (create bitshift).ClassOk where
  members := by simp [Members, create, BufferMemoryAccountImpl.create]
  synced := by
    intro a _
    simp [create, BufferMemoryAccountImpl.create, BufferMemoryAccountImpl.balanceToClassIndex]

end AccountTable

/-! ## factory の組の出し入れ -/

namespace WatermarkBufferFactory

/-- 組を移すと、その account は新しい組にだけ入る。 -/
theorem mem_updateAccountClass_self (f : WatermarkBufferFactory) (a : Nat) {cur new : Option Nat}
    (hne : cur ≠ new) (hcur : ∀ k, a ∈ f.sizeClassAccountSets k ↔ cur = some k) (k : Nat) :
    a ∈ (f.updateAccountClass a cur new).sizeClassAccountSets k ↔ new = some k := by
  cases cur <;> cases new <;> simp_all [updateAccountClass, Function.update_apply] <;>
    split_ifs <;> subst_vars <;> simp_all [eq_comm]

/-- ほかの account の組は変わらない。 -/
theorem mem_updateAccountClass_of_ne (f : WatermarkBufferFactory) {a b : Nat} (hb : b ≠ a)
    (cur new : Option Nat) (k : Nat) :
    b ∈ (f.updateAccountClass a cur new).sizeClassAccountSets k ↔ b ∈ f.sizeClassAccountSets k := by
  cases cur <;> cases new <;> simp [updateAccountClass, Function.update_apply] <;>
    split_ifs <;> subst_vars <;> simp [hb]

@[simp] theorem updateAccountClass_bitshift (f : WatermarkBufferFactory) (a : Nat) (cur new : Option Nat) :
    (f.updateAccountClass a cur new).bitshift = f.bitshift := by
  cases cur <;> cases new <;> rfl

@[simp] theorem unregisterAccount_bitshift (f : WatermarkBufferFactory) (a : Nat) (cur : Option Nat) :
    (f.unregisterAccount a cur).bitshift = f.bitshift := by
  cases cur <;> rfl

theorem mem_unregisterAccount (f : WatermarkBufferFactory) (a b : Nat) (cur : Option Nat) (k : Nat) :
    b ∈ (f.unregisterAccount a cur).sizeClassAccountSets k ↔
      (b ∈ f.sizeClassAccountSets k ∧ ¬(b = a ∧ cur = some k)) := by
  cases cur with
  | none => simp [unregisterAccount]
  | some c =>
    simp only [unregisterAccount, Function.update_apply]
    split_ifs with hk
    · subst hk; simp [and_comm]
    · simp [Ne.symm hk]

end WatermarkBufferFactory

namespace AccountTable

/-! ## 残高の書き換えと組の確認 -/

@[simp] theorem setBalance_factory (t : AccountTable) (a v : Nat) :
    (t.setBalance a v).factory = t.factory := rfl

@[simp] theorem setBalance_accounts_self (t : AccountTable) (a v : Nat) :
    (t.setBalance a v).accounts a = { t.accounts a with bufferMemoryAllocated := v } := by
  simp [setBalance]

@[simp] theorem setBalance_accounts_of_ne (t : AccountTable) {a b : Nat} (hb : b ≠ a) (v : Nat) :
    (t.setBalance a v).accounts b = t.accounts b := by
  simp [setBalance, hb]

@[simp] theorem balances_setBalance (t : AccountTable) (a v : Nat) :
    (t.setBalance a v).balances = Function.update t.balances a v := by
  funext x
  by_cases hx : x = a
  · subst hx; simp [balances]
  · simp [balances, hx]

@[simp] theorem balances_updateAccountClass (t : AccountTable) (a : Nat) :
    (t.updateAccountClass a).balances = t.balances := by
  unfold updateAccountClass
  dsimp only
  split
  · funext x
    by_cases hx : x = a
    · subst hx; simp [balances]
    · simp [balances, hx]
  · rfl

@[simp] theorem balances_clearDownstream (t : AccountTable) (a : Nat) :
    (t.clearDownstream a).balances = t.balances := by
  unfold clearDownstream
  dsimp only
  split
  · funext x
    by_cases hx : x = a
    · subst hx; simp [balances]
    · simp [balances, hx]
  · rfl

theorem ClassOk.setBalance {t : AccountTable} (h : t.ClassOk) (a v : Nat) :
    (t.setBalance a v).Members ∧ ∀ b, b ≠ a → (t.setBalance a v).Synced b := by
  constructor
  · intro b k
    by_cases hb : b = a
    · subst hb; simpa using h.members b k
    · simpa [hb] using h.members b k
  · intro b hb
    simpa [Synced, hb] using h.synced b

/-- `updateAccountClass` は、その account の組を残高に合わせ、ほかを変えない。 -/
theorem classOk_updateAccountClass {t : AccountTable} (hm : t.Members) (a : Nat)
    (hs : ∀ b, b ≠ a → t.Synced b) : (t.updateAccountClass a).ClassOk := by
  unfold updateAccountClass
  dsimp only
  split
  · rename_i hc
    obtain ⟨hreg, hne⟩ := hc
    constructor
    · intro b k
      by_cases hb : b = a
      · subst hb
        rw [WatermarkBufferFactory.mem_updateAccountClass_self _ _ (Ne.symm hne)
          (fun k => by simpa [hreg] using hm b k)]
        simp [hreg]
      · rw [WatermarkBufferFactory.mem_updateAccountClass_of_ne _ hb]
        simpa [hb] using hm b k
    · intro b
      by_cases hb : b = a
      · subst hb; simp [Synced]
      · simpa [Synced, hb] using hs b hb
  · rename_i hc
    refine ⟨hm, fun b => ?_⟩
    by_cases hb : b = a
    · subst hb
      intro hreg
      simp only [not_and, not_not] at hc
      exact (hc hreg).symm
    · exact hs b hb

theorem ClassOk.charge {t : AccountTable} (h : t.ClassOk) (a amount : Nat) :
    (t.charge a amount).ClassOk :=
  classOk_updateAccountClass (h.setBalance a _).1 a (h.setBalance a _).2

theorem ClassOk.clearDownstream {t : AccountTable} (h : t.ClassOk) (a : Nat) :
    (t.clearDownstream a).ClassOk := by
  unfold AccountTable.clearDownstream
  dsimp only
  split
  · constructor
    · intro b k
      rw [WatermarkBufferFactory.mem_unregisterAccount, h.members b k]
      by_cases hb : b = a
      · subst hb; simp
      · simp [hb]
    · intro b
      by_cases hb : b = a
      · subst hb; simp [Synced]
      · simpa [Synced, hb] using h.synced b
  · exact h

/-! ## 台帳との対応 -/

/-- 台帳が受け付ける課金と返金は、account の表も受け付け、残高が台帳に一致する。 -/
theorem apply_of_ledger {t : AccountTable} (h : t.ClassOk) {op : AccountOp} {f : Nat → Nat}
    (hf : Ledger.apply t.balances op = some f) :
    ∃ t', t.apply op = some t' ∧ t'.balances = f ∧ t'.ClassOk := by
  cases op with
  | charge a amount =>
    simp only [Ledger.apply, Option.some.injEq] at hf
    refine ⟨_, rfl, ?_, h.charge a amount⟩
    rw [AccountTable.charge, balances_updateAccountClass, balances_setBalance, ← hf]
    funext x
    by_cases hx : x = a
    · subst hx; simp [balances]
    · simp [hx]
  | credit a amount =>
    simp only [Ledger.apply] at hf
    split at hf
    · rename_i hle
      simp only [Option.some.injEq] at hf
      refine ⟨_, by rw [AccountTable.apply, AccountTable.credit,
        if_pos (show amount ≤ (t.accounts a).bufferMemoryAllocated from hle)],
        ?_, classOk_updateAccountClass (h.setBalance a _).1 a (h.setBalance a _).2⟩
      rw [balances_updateAccountClass, balances_setBalance, ← hf]
      funext x
      by_cases hx : x = a
      · subst hx; simp [balances]
      · simp [hx]
    · cases hf

theorem applyAll_of_run {t : AccountTable} (h : t.ClassOk) {ops : List AccountOp} {f : Nat → Nat}
    (hf : Ledger.run t.balances ops = some f) :
    ∃ t', t.applyAll ops = some t' ∧ t'.balances = f ∧ t'.ClassOk := by
  induction ops generalizing t with
  | nil => exact ⟨t, rfl, by simpa [Ledger.run] using hf, h⟩
  | cons op ops ih =>
    simp only [Ledger.run, Option.bind_eq_some_iff] at hf
    obtain ⟨f₁, hf₁, hrest⟩ := hf
    obtain ⟨t₁, ht₁, hb₁, hc₁⟩ := apply_of_ledger h hf₁
    rw [← hb₁] at hrest
    obtain ⟨t', ht', hb', hc'⟩ := ih hc₁ hrest
    exact ⟨t', by simp [applyAll, ht₁, ht'], hb', hc'⟩

end AccountTable

/-! ## buffer の集まりが課す額 -/

namespace Accounting

variable {n : Nat}

/-- 生きている slice（buffer の中の slice と、取り出された slice）が課す額。 -/
def liveCharge (s : Accounting n) : Nat → Nat :=
  ∑ i, charged (s.buffers i).slices + charged s.extracted

/-- 一つの buffer を取り替える操作の課金。 -/
theorem moves_update {ops : List AccountOp} (w : Fin n → OwnedImpl) (i : Fin n) (b : OwnedImpl)
    (h : Moves ops (charged (w i).slices) (charged b.slices)) :
    Moves ops (∑ x, charged (w x).slices) (∑ x, charged (Function.update w i b x).slices) := by
  have hw := Finset.add_sum_erase Finset.univ (fun x => charged (w x).slices) (Finset.mem_univ i)
  have hu := Finset.add_sum_erase Finset.univ (fun x => charged (Function.update w i b x).slices)
    (Finset.mem_univ i)
  -- 取り替えない buffer の和は変わらない
  have hrest : ∑ x ∈ Finset.univ.erase i, charged (Function.update w i b x).slices =
      ∑ x ∈ Finset.univ.erase i, charged (w x).slices :=
    Finset.sum_congr rfl fun x hx => by rw [Function.update_of_ne (Finset.ne_of_mem_erase hx)]
  simp only [Function.update_self] at hu
  rw [← hw, ← hu, hrest]
  exact h.frame _

/-- 二つの buffer を取り替える操作の課金。 -/
theorem moves_update₂ {ops : List AccountOp} (w : Fin n → OwnedImpl) {i j : Fin n} (hij : i ≠ j)
    (b c : OwnedImpl)
    (h : Moves ops (charged (w i).slices + charged (w j).slices) (charged b.slices + charged c.slices)) :
    Moves ops (∑ x, charged (w x).slices)
      (∑ x, charged (Function.update (Function.update w i b) j c x).slices) := by
  have hj : j ∈ Finset.univ.erase i := Finset.mem_erase.mpr ⟨Ne.symm hij, Finset.mem_univ j⟩
  -- 和を、`i` と `j` の buffer と残りに分ける
  have split : ∀ F : Fin n → Nat → Nat,
      ∑ x, F x = F i + (F j + ∑ x ∈ (Finset.univ.erase i).erase j, F x) := by
    intro F
    rw [Finset.add_sum_erase _ _ hj, Finset.add_sum_erase _ _ (Finset.mem_univ i)]
  have hrest : ∑ x ∈ (Finset.univ.erase i).erase j,
      charged (Function.update (Function.update w i b) j c x).slices =
        ∑ x ∈ (Finset.univ.erase i).erase j, charged (w x).slices := by
    refine Finset.sum_congr rfl fun x hx => ?_
    have hxj := Finset.ne_of_mem_erase hx
    have hxi := Finset.ne_of_mem_erase (Finset.mem_of_mem_erase hx)
    rw [Function.update_of_ne hxj, Function.update_of_ne hxi]
  rw [split (fun x => charged (w x).slices),
    split (fun x => charged (Function.update (Function.update w i b) j c x).slices), hrest]
  simp only [Function.update_self, Function.update_of_ne hij]
  exact (h.frame _).of_eq (add_assoc _ _ _).symm (add_assoc _ _ _).symm

/-- buffer の操作の課金の列は、生きている slice が課す額を、操作の後の額に変える。 -/
theorem moves_bufferStep (s : Accounting n) (op : AccountingOp n) (hv : s.Valid op) :
    Moves (bufferStep s.buffers op).2.2 (liveCharge s)
      (∑ x, charged ((bufferStep s.buffers op).1 x).slices +
        charged (s.extracted ++ (bufferStep s.buffers op).2.1)) := by
  unfold liveCharge
  cases op with
  | bindAccount i account =>
    exact ((moves_update s.buffers i ((s.buffers i).bindAccount account) (Moves.nil _)).frame _).of_eq rfl
      (by simp [bufferStep])
  | add i data =>
    exact ((moves_update s.buffers i _ (OwnedImpl.moves_addImpl _ data)).frame _).of_eq rfl
      (by simp [bufferStep])
  | addBuffer i j =>
    exact ((moves_update s.buffers i _ (OwnedImpl.moves_addBuffer _ _)).frame _).of_eq rfl
      (by simp [bufferStep])
  | prepend i data =>
    exact ((moves_update s.buffers i _ (OwnedImpl.moves_prepend _ data)).frame _).of_eq rfl
      (by simp [bufferStep])
  | prependBuffer i j =>
    exact ((moves_update₂ s.buffers hv _ _ (OwnedImpl.moves_prependBuffer _ _)).frame _).of_eq rfl
      (by simp [bufferStep])
  | drain i size =>
    exact ((moves_update s.buffers i _ (OwnedImpl.moves_drainImpl _ size)).frame _).of_eq rfl
      (by simp [bufferStep, OwnedImpl.drain])
  | move i j =>
    exact ((moves_update₂ s.buffers hv _ _ (OwnedImpl.moves_move _ _)).frame _).of_eq rfl
      (by simp [bufferStep])
  | moveLength i j length reset =>
    exact ((moves_update₂ s.buffers hv _ _ (OwnedImpl.moves_moveLength _ _ length reset)).frame _).of_eq
      rfl (by simp [bufferStep])
  | extractMutableFrontSlice i =>
    -- 取り出した slice は account を持たない
    exact ((moves_update s.buffers i _ (OwnedImpl.moves_extractMutableFrontSlice _)).frame _).of_eq rfl
      (by simp [bufferStep, OwnedImpl.chargeOf_extractMutableFrontSlice])
  | destroy i =>
    exact ((moves_update s.buffers i OwnedImpl.empty (OwnedImpl.moves_destroyOps _)).frame _).of_eq rfl
      (by simp [bufferStep])
  | clearDownstream account => exact (Moves.nil _).of_eq rfl (by simp [bufferStep])

/-! ## 操作の列 -/

/-- 残高が生きている slice の課す額に等しく、組が残高に合う。 -/
structure Conserved (s : Accounting n) : Prop where
  balances : s.table.balances = s.liveCharge
  classOk : s.table.ClassOk

theorem conserved_init (bitshift : Nat) : (init bitshift : Accounting n).Conserved where
  balances := by
    funext a
    simp [liveCharge, init, AccountTable.balances, AccountTable.create, BufferMemoryAccountImpl.create,
      OwnedImpl.empty]
  classOk := AccountTable.classOk_create bitshift

/-- buffer の操作の課金の列を、account の表は失敗せずに記し、保存の不変条件が保たれる。 -/
theorem conserved_bufferStep (s : Accounting n) (op : AccountingOp n) (h : s.Conserved)
    (hv : s.Valid op) :
    ∃ t', s.table.applyAll (bufferStep s.buffers op).2.2 = some t' ∧
      (⟨(bufferStep s.buffers op).1, s.extracted ++ (bufferStep s.buffers op).2.1, t'⟩ :
        Accounting n).Conserved := by
  have hrun := moves_bufferStep s op hv 0
  simp only [zero_add, ← h.balances] at hrun
  obtain ⟨t', ht', hb', hc'⟩ := AccountTable.applyAll_of_run h.classOk hrun
  exact ⟨t', ht', ⟨hb', hc'⟩⟩

/-- 前提を満たす操作は失敗せず、保存の不変条件を保つ。 -/
theorem step_conserved (s : Accounting n) (op : AccountingOp n) (h : s.Conserved) (hv : s.Valid op) :
    ∃ s', s.step op = some s' ∧ s'.Conserved := by
  cases op with
  | clearDownstream account =>
    refine ⟨_, rfl, ⟨?_, h.classOk.clearDownstream account⟩⟩
    rw [AccountTable.balances_clearDownstream, h.balances]
    rfl
  | _ =>
    obtain ⟨t', ht', hc⟩ := conserved_bufferStep s _ h hv
    exact ⟨_, by simp [step, ht'], hc⟩

end Accounting

/-- 課金の保存: 空の buffer と作ったばかりの account から、前提を満たすどの操作の列も、
`credit` の ASSERT を破らずに最後まで進む。その後、どの account の残高も、それを account に持つ
生きている slice の `capacity_` の和に等しい。登録中の account は、残高の組
`balanceToClassIndex()` にだけ入り（組が無ければどこにも入らず）、登録を外した account は
どの組にも入らない。 -/
theorem account_balance_conserved {n : Nat} (bitshift : Nat) (ops : List (AccountingOp n))
    (hv : Lts.AllowedPartial Accounting.Valid Accounting.step (Accounting.init bitshift) ops) :
    ∃ s, Lts.runPartial Accounting.step (Accounting.init bitshift) ops = some s ∧
      (∀ a, (s.table.accounts a).bufferMemoryAllocated =
        (∑ i, charged (s.buffers i).slices) a + charged s.extracted a) ∧
      (∀ a k, a ∈ s.table.factory.sizeClassAccountSets k ↔ (s.table.accounts a).registered ∧
        BufferMemoryAccountImpl.balanceToClassIndex s.table.factory.bitshift
          (s.table.accounts a).bufferMemoryAllocated = some k) := by
  obtain ⟨s, hs, hc⟩ := Lts.runPartial_invariant (I := Accounting.Conserved)
    (fun s op h hv => Accounting.step_conserved s op h hv) (Accounting.conserved_init bitshift) hv
  refine ⟨s, hs, fun a => congrFun hc.balances a, fun a k => ?_⟩
  rw [hc.classOk.members a k]
  constructor
  · rintro ⟨hreg, hk⟩
    exact ⟨hreg, (hc.classOk.synced a hreg) ▸ hk⟩
  · rintro ⟨hreg, hk⟩
    exact ⟨hreg, (hc.classOk.synced a hreg).trans hk⟩

theorem account_balance_conserved_example :
    Lts.AllowedPartial Accounting.Valid Accounting.step (Accounting.init 0 : Accounting 1)
        [.bindAccount 0 5, .add 0 [1, 2, 3], .drain 0 2, .destroy 0] ∧
      ∃ s, Lts.runPartial Accounting.step (Accounting.init 0 : Accounting 1)
          [.bindAccount 0 5, .add 0 [1, 2, 3], .drain 0 2, .destroy 0] = some s ∧
        (∀ a, (s.table.accounts a).bufferMemoryAllocated =
          (∑ i, charged (s.buffers i).slices) a + charged s.extracted a) ∧
        (∀ a k, a ∈ s.table.factory.sizeClassAccountSets k ↔ (s.table.accounts a).registered ∧
          BufferMemoryAccountImpl.balanceToClassIndex s.table.factory.bitshift
            (s.table.accounts a).bufferMemoryAllocated = some k) :=
  have hv : Lts.AllowedPartial Accounting.Valid Accounting.step (Accounting.init 0 : Accounting 1)
      [.bindAccount 0 5, .add 0 [1, 2, 3], .drain 0 2, .destroy 0] :=
    ⟨rfl, fun _ _ => ⟨trivial, fun _ _ => ⟨trivial, fun _ _ => ⟨trivial, fun _ _ => trivial⟩⟩⟩⟩
  ⟨hv, account_balance_conserved 0 _ hv⟩

end Envoy.Buffer
