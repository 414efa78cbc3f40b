import Envoy.Stats.SymbolTable

/-!
# 表と、名前の記憶域

一つの `SymbolTable` と、それを使う名前の記憶域の集まり。記憶域は作った順の番号で指す。
`StatNameStorage`（`encode()` か、`StatName` の複写）と `StatNameList` は symbol の参照を持ち、
`free()` と `clear()` で返す。`makeDynamicStorage()` と `join()` の結果は参照を持たず、
捨てても表に触れない。`sources` と `created` は検証のための補助の値で、source には無い。
-/

namespace Envoy.Stats

open SymbolTable.Encoding

inductive StorageKind where
  | storage
  | list
  | dynamic
  | joined
deriving DecidableEq, Repr

structure Storage where
  kind : StorageKind
  bytes : Bytes
  /-- 補助: `join()` の結果が元にした記憶域の番号（その元も含む）。 -/
  sources : List Nat
  /-- 補助: 作った時の、各名前の `toString()`。 -/
  created : List (Option Bytes)

namespace Storage

/-- 記憶域の中の名前。`StatNameList` は `iterate()` で読む。 -/
def names (x : Storage) : List StatName :=
  match x.kind with
  | .list => StatNameList.iterate x.bytes
  | _ => [x.bytes]

def holdsRefs (x : Storage) : Bool :=
  match x.kind with
  | .storage | .list => true
  | .dynamic | .joined => false

/-- 記憶域が持つ参照。 -/
def heldSymbols (x : Storage) : List Symbol :=
  if x.holdsRefs then x.names.flatMap decodeSymbols else []

end Storage

structure Store where
  table : SymbolTable
  storages : Nat → Option Storage
  nextId : Nat

inductive StoreOp where
  | encode (name : Bytes)
  /-- `StatNameStorage(StatName src, SymbolTable&)`。 -/
  | copy (i : Nat)
  | populateList (is : List Nat)
  | makeDynamicStorage (name : Bytes)
  | join (is : List Nat)
  /-- `StatNameStorage::free()`、`StatNameList::clear()`、他の記憶域は捨てるだけ。 -/
  | free (i : Nat)

namespace Store

def init : Store := ⟨SymbolTable.create, fun _ => none, 0⟩

/-- 一つの名前を持つ記憶域の名前。 -/
def statNameOf (w : Store) (i : Nat) : Option StatName :=
  (w.storages i).bind fun x => if x.kind = .list then none else some x.bytes

/-- 新しい記憶域を置く。 -/
def push (w : Store) (table : SymbolTable) (x : Storage) : Store :=
  ⟨table, Function.update w.storages w.nextId (some x), w.nextId + 1⟩

def step (w : Store) : StoreOp → Option Store
  | .encode name =>
    let r := w.table.encode name
    some (w.push r.2 ⟨.storage, r.1, [], [r.2.toString r.1]⟩)
  | .copy i => do
    let src ← w.statNameOf i
    let bytes := src.take (StatName.size src)
    let table ← w.table.incRefCount bytes
    pure (w.push table ⟨.storage, bytes, [], [table.toString bytes]⟩)
  | .populateList is => do
    let names ← is.mapM w.statNameOf
    let r ← w.table.populateList names
    pure (w.push r.2 ⟨.list, r.1, [], names.map r.2.toString⟩)
  | .makeDynamicStorage name =>
    let bytes := SymbolTable.makeDynamicStorage name
    some (w.push w.table ⟨.dynamic, bytes, [], [w.table.toString bytes]⟩)
  | .join is => do
    let names ← is.mapM w.statNameOf
    let bytes := SymbolTable.join names
    let sources := is ++ is.flatMap fun i => ((w.storages i).map Storage.sources).getD []
    pure (w.push w.table ⟨.joined, bytes, sources, [w.table.toString bytes]⟩)
  | .free i => do
    let x ← w.storages i
    let table ← match x.kind with
      | .storage => w.table.free x.bytes
      | .list => w.table.clearList x.bytes
      | .dynamic | .joined => some w.table
    pure ⟨table, Function.update w.storages i none, w.nextId⟩

/-- `join()` の結果は、元にした記憶域が生きている間だけ使える（`join()` の注意書き）。 -/
def Anchored (w : Store) (i : Nat) : Prop :=
  match w.storages i with
  | some x => x.kind = .joined → ∀ j ∈ x.sources, (w.storages j).isSome
  | none => False

/-- 名前として使える記憶域: 生きていて、一つの名前を持ち、`join()` の結果なら元が生きている。 -/
def Usable (w : Store) (i : Nat) : Prop := w.Anchored i ∧ ∀ x, w.storages i = some x → x.kind ≠ .list

/-- 操作の前提: 使う名前は使えて、`free()` は生きている記憶域を返し、リストは 255 個まで。 -/
def Valid (w : Store) : StoreOp → Prop
  | .encode _ | .makeDynamicStorage _ => True
  | .copy i => w.Usable i
  | .populateList is => (∀ i ∈ is, w.Usable i) ∧ is.length < 256
  | .join is => ∀ i ∈ is, w.Usable i
  | .free i => (w.storages i).isSome

end Store

end Envoy.Stats
