import Envoy.Buffer.Account

/-!
# buffer と account の表

番号 `Fin n` で指す buffer と、account の表を一つの状態とする。buffer の操作が出した課金の列を、
順に account の表に記す。取り出した slice は呼び出し側が持つ。
-/

namespace Envoy.Buffer

structure Accounting (n : Nat) where
  buffers : Fin n → OwnedImpl
  /-- `extractMutableFrontSlice()` が渡した slice。 -/
  extracted : List Slice
  table : AccountTable

inductive AccountingOp (n : Nat) where
  | bindAccount (i : Fin n) (account : Nat)
  | add (i : Fin n) (data : Bytes)
  | addBuffer (i j : Fin n)
  | prepend (i : Fin n) (data : Bytes)
  | prependBuffer (i j : Fin n)
  | drain (i : Fin n) (size : Nat)
  | move (i j : Fin n)
  | moveLength (i j : Fin n) (length : Nat) (reset : Bool)
  | extractMutableFrontSlice (i : Fin n)
  /-- buffer を破棄し、その番号に新しい空の buffer を置く。 -/
  | destroy (i : Fin n)
  | clearDownstream (account : Nat)

namespace Accounting

variable {n : Nat}

/-- buffer の操作: 新しい buffer、取り出した slice、課金の列。 -/
def bufferStep (w : Fin n → OwnedImpl) : AccountingOp n → (Fin n → OwnedImpl) × List Slice × List AccountOp
  | .bindAccount i account => (Function.update w i ((w i).bindAccount account), [], [])
  | .add i data =>
    let r := (w i).addImpl data
    (Function.update w i r.1, [], r.2)
  | .addBuffer i j =>
    let r := (w i).addBuffer (w j)
    (Function.update w i r.1, [], r.2)
  | .prepend i data =>
    let r := (w i).prepend data
    (Function.update w i r.1, [], r.2)
  | .prependBuffer i j =>
    let r := (w i).prependBuffer (w j)
    (Function.update (Function.update w i r.1) j r.2.1, [], r.2.2)
  | .drain i size =>
    let r := (w i).drain size
    (Function.update w i r.1, [], r.2)
  | .move i j =>
    let r := (w i).move (w j)
    (Function.update (Function.update w i r.1) j r.2.1, [], r.2.2)
  | .moveLength i j length reset =>
    let r := (w i).moveLength (w j) length reset
    (Function.update (Function.update w i r.1) j r.2.1, [], r.2.2)
  | .extractMutableFrontSlice i =>
    let r := (w i).extractMutableFrontSlice
    (Function.update w i r.1.1, [r.2], r.1.2)
  | .destroy i => (Function.update w i OwnedImpl.empty, [], (w i).destroyOps)
  | .clearDownstream _ => (w, [], [])

/-- 一つの操作。課金の列のどこかで `credit` の ASSERT が成り立たなければ `none`。 -/
def step (s : Accounting n) : AccountingOp n → Option (Accounting n)
  | .clearDownstream account => some { s with table := s.table.clearDownstream account }
  | op =>
    let r := bufferStep s.buffers op
    (s.table.applyAll r.2.2).map fun t => ⟨r.1, s.extracted ++ r.2.1, t⟩

/-- 操作の前提: `ASSERT(&rhs != this)` と、`bindAccount` の `ASSERT(slices_.empty())`。 -/
def Valid (s : Accounting n) : AccountingOp n → Prop
  | .bindAccount i _ => (s.buffers i).slices = []
  | .addBuffer i j | .prependBuffer i j | .move i j | .moveLength i j _ _ => i ≠ j
  | _ => True

/-- 空の buffer と、作ったばかりの account。 -/
def init (bitshift : Nat) : Accounting n := ⟨fun _ => OwnedImpl.empty, [], AccountTable.create bitshift⟩

end Accounting

end Envoy.Buffer
