import Mathlib
import Envoy.Buffer.OwnedImpl

/-!
# `BufferMemoryAccountImpl` と `WatermarkBufferFactory`

`source/common/buffer/watermark_buffer.cc` の account の残高と、factory の大きさの組
`size_class_account_sets_`。account は番号で指す。`shared_this_` と `reset_handler_` は
`createAccount` で共に与えられ `clearDownstream` で共に消えるので、一つの旗 `registered` で表す。
`charge` の桁溢れの ASSERT は、残高を `Nat` で持つので扱わない。
-/

namespace Envoy.Buffer

structure BufferMemoryAccountImpl where
  bufferMemoryAllocated : Nat
  currentBucketIdx : Option Nat
  /-- `shared_this_ != nullptr`（`reset_handler_.has_value()`）。 -/
  registered : Bool

namespace BufferMemoryAccountImpl

/-- `BufferMemoryAccountImpl::NUM_MEMORY_CLASSES_`。 -/
def numMemoryClasses : Nat := 8

/-- `createAccount`: 残高 0 で、どの組にも入っていない。 -/
def create : BufferMemoryAccountImpl := ⟨0, none, true⟩

/-- `balanceToClassIndex()`。`absl::bit_width` は `Nat.size`。 -/
def balanceToClassIndex (bitshift balance : Nat) : Option Nat :=
  let shiftedBalance := balance >>> bitshift
  if shiftedBalance = 0 then none
  else some (min (Nat.size shiftedBalance - 1) (numMemoryClasses - 1))

end BufferMemoryAccountImpl

structure WatermarkBufferFactory where
  bitshift : Nat
  sizeClassAccountSets : Nat → Finset Nat

namespace WatermarkBufferFactory

/-- `updateAccountClass(account, current_class, new_class)`。source は二つが異なることを ASSERT する。 -/
def updateAccountClass (f : WatermarkBufferFactory) (account : Nat) (currentClass newClass : Option Nat) :
    WatermarkBufferFactory :=
  match currentClass, newClass with
  | none, some n =>
    { f with sizeClassAccountSets :=
        Function.update f.sizeClassAccountSets n (insert account (f.sizeClassAccountSets n)) }
  | some c, none =>
    { f with sizeClassAccountSets :=
        Function.update f.sizeClassAccountSets c ((f.sizeClassAccountSets c).erase account) }
  | some c, some n =>
    let erased := Function.update f.sizeClassAccountSets c ((f.sizeClassAccountSets c).erase account)
    { f with sizeClassAccountSets := Function.update erased n (insert account (erased n)) }
  | none, none => f

/-- `unregisterAccount(account, current_class)`。 -/
def unregisterAccount (f : WatermarkBufferFactory) (account : Nat) (currentClass : Option Nat) :
    WatermarkBufferFactory :=
  match currentClass with
  | some c =>
    { f with sizeClassAccountSets :=
        Function.update f.sizeClassAccountSets c ((f.sizeClassAccountSets c).erase account) }
  | none => f

end WatermarkBufferFactory

/-- factory と、それが作った account。 -/
structure AccountTable where
  factory : WatermarkBufferFactory
  accounts : Nat → BufferMemoryAccountImpl

namespace AccountTable

/-- 残高を書き換える。 -/
def setBalance (t : AccountTable) (a : Nat) (balance : Nat) : AccountTable :=
  { t with accounts := Function.update t.accounts a { t.accounts a with bufferMemoryAllocated := balance } }

/-- `BufferMemoryAccountImpl::updateAccountClass()`。 -/
def updateAccountClass (t : AccountTable) (a : Nat) : AccountTable :=
  let acc := t.accounts a
  let newClass := BufferMemoryAccountImpl.balanceToClassIndex t.factory.bitshift acc.bufferMemoryAllocated
  if acc.registered ∧ newClass ≠ acc.currentBucketIdx then
    { factory := t.factory.updateAccountClass a acc.currentBucketIdx newClass
      accounts := Function.update t.accounts a { acc with currentBucketIdx := newClass } }
  else t

/-- `charge(amount)`。 -/
def charge (t : AccountTable) (a amount : Nat) : AccountTable :=
  (t.setBalance a ((t.accounts a).bufferMemoryAllocated + amount)).updateAccountClass a

/-- `credit(amount)`。`ASSERT(buffer_memory_allocated_ >= amount)` が成り立たなければ `none`。 -/
def credit (t : AccountTable) (a amount : Nat) : Option AccountTable :=
  if amount ≤ (t.accounts a).bufferMemoryAllocated then
    some ((t.setBalance a ((t.accounts a).bufferMemoryAllocated - amount)).updateAccountClass a)
  else none

def apply (t : AccountTable) : AccountOp → Option AccountTable
  | .charge a amount => some (t.charge a amount)
  | .credit a amount => t.credit a amount

/-- 課金と返金を順に施す。 -/
def applyAll (t : AccountTable) : List AccountOp → Option AccountTable
  | [] => some t
  | op :: ops => (t.apply op).bind (applyAll · ops)

def clearDownstream (t : AccountTable) (a : Nat) : AccountTable :=
  let acc := t.accounts a
  if acc.registered then
    { factory := t.factory.unregisterAccount a acc.currentBucketIdx
      accounts := Function.update t.accounts a { acc with currentBucketIdx := none, registered := false } }
  else t

/-- factory と、`createAccount` で作ったばかりの account。 -/
def create (bitshift : Nat) : AccountTable := ⟨⟨bitshift, fun _ => ∅⟩, fun _ => BufferMemoryAccountImpl.create⟩

end AccountTable

end Envoy.Buffer
