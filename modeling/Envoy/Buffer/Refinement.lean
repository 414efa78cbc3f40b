import Envoy.Buffer.Lemmas.OwnedImpl
import Envoy.Lib.Simulation

/-!
# `OwnedImpl` は byte 列を実装する

番号で指す buffer の集まりに `OwnedImpl` の操作を順に施す。仕様は、各 buffer を byte 列とみて
同じ操作を列の上で行うものである。操作の列が source の ASSERT を満たす限り、各 buffer の
`toString()` は仕様の列に等しく、長さの控え `length_` は中身の長さに等しい。
-/

namespace Envoy.Buffer

/-- 番号で指す buffer の集まり。 -/
abbrev World := Nat → OwnedImpl

/-- buffer への操作。二つの buffer を取る操作は、左の buffer が右の buffer を受け取る。 -/
inductive Op where
  /-- `add(data, size)` -/
  | add (i : Nat) (data : Bytes)
  /-- `add(const Instance&)` -/
  | addBuffer (i j : Nat)
  | addBufferFragment (i : Nat) (fragment : Bytes)
  | addFragments (i : Nat) (fragments : List Bytes)
  /-- `prepend(string_view)` -/
  | prepend (i : Nat) (data : Bytes)
  /-- `prepend(Instance&)` -/
  | prependBuffer (i j : Nat)
  | drain (i size : Nat)
  /-- `move(Instance&)` -/
  | move (i j : Nat)
  /-- `move(Instance&, length, reset_drain_trackers_and_accounting)`。 -/
  | moveLength (i j length : Nat) (reset : Bool)
  | linearize (i size : Nat)
  /-- `reserveForRead()` の予約に `data` を書き、`length` byte を commit する。 -/
  | reserveForReadCommit (i : Nat) (data : Bytes) (length : Nat)
  /-- `reserveSingleSlice(reserve, separate_slice)` の予約に `data` を書き、`length` byte を commit する。 -/
  | reserveSingleSliceCommit (i reserve : Nat) (separateSlice : Bool) (data : Bytes) (length : Nat)
  | extractMutableFrontSlice (i : Nat)

namespace World

/-- 一つの操作。出力は `extractMutableFrontSlice` が返す slice の中身。 -/
def step (w : World) : Op → World × Option Bytes
  | .add i data => (Function.update w i ((w i).addImpl data).1, none)
  | .addBuffer i j => (Function.update w i ((w i).addBuffer (w j)).1, none)
  | .addBufferFragment i fragment => (Function.update w i ((w i).addBufferFragment fragment), none)
  | .addFragments i fragments => (Function.update w i ((w i).addFragments fragments).1.1, none)
  | .prepend i data => (Function.update w i ((w i).prepend data).1, none)
  | .prependBuffer i j =>
    let r := (w i).prependBuffer (w j)
    (Function.update (Function.update w i r.1) j r.2.1, none)
  | .drain i size => (Function.update w i ((w i).drain size).1, none)
  | .move i j =>
    let r := (w i).move (w j)
    (Function.update (Function.update w i r.1) j r.2.1, none)
  | .moveLength i j length reset =>
    let r := (w i).moveLength (w j) length reset
    (Function.update (Function.update w i r.1) j r.2.1, none)
  | .linearize i size => (Function.update w i ((w i).linearize size).1, none)
  | .reserveForReadCommit i data length =>
    (Function.update w i (OwnedImpl.commitReservation (w i).reserveForRead data length), none)
  | .reserveSingleSliceCommit i reserve separateSlice data length =>
    (Function.update w i
      (OwnedImpl.commitReservation ((w i).reserveSingleSlice reserve separateSlice) data length),
      none)
  | .extractMutableFrontSlice i =>
    let r := (w i).extractMutableFrontSlice
    (Function.update w i r.1.1, some r.2.dataBytes)

/-- 操作の前提: source の ASSERT、RELEASE_ASSERT と ENVOY_BUG。予約には `length` byte 以上を書く。 -/
def Valid (w : World) : Op → Prop
  | .addBuffer i j | .prependBuffer i j | .move i j | .moveLength i j _ _ => i ≠ j
  | .linearize i size => size ≤ (w i).length
  | .reserveForReadCommit i data length =>
    length ≤ OwnedImpl.reservationLength (w i).reserveForRead.2 ∧ length ≤ data.length
  | .reserveSingleSliceCommit i reserve separateSlice data length =>
    length ≤ OwnedImpl.reservationLength ((w i).reserveSingleSlice reserve separateSlice).2 ∧
      length ≤ data.length
  | .extractMutableFrontSlice i => 0 < (w i).length
  | _ => True

end World

/-! ## 仕様: byte 列の上の操作 -/

/-- 番号で指す byte 列の集まり。 -/
abbrev Strings := Nat → Bytes

/-- 仕様の遷移。`extractMutableFrontSlice` は、出力した空でない列を先頭から取り除く。 -/
inductive SpecStep : Strings → Op → Option Bytes → Strings → Prop
  | add (a : Strings) (i : Nat) (data : Bytes) :
      SpecStep a (.add i data) none (Function.update a i (a i ++ data))
  | addBuffer (a : Strings) (i j : Nat) :
      SpecStep a (.addBuffer i j) none (Function.update a i (a i ++ a j))
  | addBufferFragment (a : Strings) (i : Nat) (f : Bytes) :
      SpecStep a (.addBufferFragment i f) none (Function.update a i (a i ++ f))
  | addFragments (a : Strings) (i : Nat) (fs : List Bytes) :
      SpecStep a (.addFragments i fs) none (Function.update a i (a i ++ fs.flatten))
  | prepend (a : Strings) (i : Nat) (data : Bytes) :
      SpecStep a (.prepend i data) none (Function.update a i (data ++ a i))
  | prependBuffer (a : Strings) (i j : Nat) :
      SpecStep a (.prependBuffer i j) none
        (Function.update (Function.update a i (a j ++ a i)) j [])
  | drain (a : Strings) (i n : Nat) :
      SpecStep a (.drain i n) none (Function.update a i ((a i).drop n))
  | move (a : Strings) (i j : Nat) :
      SpecStep a (.move i j) none (Function.update (Function.update a i (a i ++ a j)) j [])
  | moveLength (a : Strings) (i j n : Nat) (reset : Bool) :
      SpecStep a (.moveLength i j n reset) none
        (Function.update (Function.update a i (a i ++ (a j).take n)) j ((a j).drop n))
  | linearize (a : Strings) (i n : Nat) : SpecStep a (.linearize i n) none a
  | reserveForReadCommit (a : Strings) (i : Nat) (data : Bytes) (k : Nat) :
      SpecStep a (.reserveForReadCommit i data k) none (Function.update a i (a i ++ data.take k))
  | reserveSingleSliceCommit (a : Strings) (i r : Nat) (sep : Bool) (data : Bytes) (k : Nat) :
      SpecStep a (.reserveSingleSliceCommit i r sep data k) none
        (Function.update a i (a i ++ data.take k))
  | extractMutableFrontSlice (a : Strings) (i : Nat) (front rest : Bytes) (hne : front ≠ [])
      (h : a i = front ++ rest) :
      SpecStep a (.extractMutableFrontSlice i) (some front) (Function.update a i rest)

/-- 実装と仕様の対応: 各 buffer の `toString()` が仕様の列であり、長さの控えが正しい。 -/
def Refines (w : World) (a : Strings) : Prop := ∀ i, (w i).toString = a i ∧ (w i).LengthOk

namespace Refines

variable {w : World} {a : Strings}

/-- 中身と長さの控えから、一つの buffer の対応を作る。 -/
theorem of_spec {b : OwnedImpl} {s : Bytes} (h₁ : sliceBytes b.slices = s)
    (h₂ : b.length = s.length) : b.toString = s ∧ b.LengthOk :=
  ⟨by rw [OwnedImpl.toString_eq, h₁], by unfold OwnedImpl.LengthOk; rw [h₁, h₂]⟩

theorem sliceBytes_eq (h : Refines w a) (i : Nat) : sliceBytes (w i).slices = a i := by
  rw [← OwnedImpl.toString_eq]; exact (h i).1

theorem length_eq (h : Refines w a) (i : Nat) : (w i).length = (a i).length := by
  rw [(h i).2, sliceBytes_eq h]

/-- 一つの buffer を取り替える。 -/
theorem update (h : Refines w a) {i : Nat} {b : OwnedImpl} {s : Bytes}
    (hb : b.toString = s ∧ b.LengthOk) : Refines (Function.update w i b) (Function.update a i s) := by
  intro k
  by_cases hk : k = i
  · subst hk; simpa using hb
  · simpa [hk] using h k

/-- 空の buffer の集まりは、空の列の集まりを実装する。 -/
theorem empty : Refines (fun _ => OwnedImpl.empty) (fun _ => []) := fun _ => ⟨rfl, rfl⟩

end Refines

/-! ## 一歩の模倣 -/

section Step

variable {w : World} {a : Strings}

theorem Refines.commitReservation (h : Refines w a) {i : Nat}
    {r : (OwnedImpl × List AccountOp) × List OwnedImpl.ReservationSlice} (hs : sliceBytes r.1.1.slices = a i)
    (hl : r.1.1.length = (a i).length) (hr : OwnedImpl.ReservationOk r.1.1 r.2) {data : Bytes}
    {k : Nat} (hk : k ≤ data.length) (hkr : k ≤ OwnedImpl.reservationLength r.2) :
    Refines (Function.update w i (OwnedImpl.commitReservation r data k))
      (Function.update a i (a i ++ data.take k)) := by
  obtain ⟨h₁, h₂⟩ := OwnedImpl.fillReservation_commit_spec r.1.1 r.2 hr data k hk hkr
  refine h.update (Refines.of_spec (by rw [OwnedImpl.commitReservation, h₁, hs]) ?_)
  rw [OwnedImpl.commitReservation, h₂, hl, List.length_append, List.length_take, Nat.min_eq_left hk]

/-- 二つの buffer を取り替える操作（右の buffer は左の buffer と異なる）。 -/
theorem Refines.update₂ (h : Refines w a) {i j : Nat} {b c : OwnedImpl}
    {s t : Bytes} (hb : b.toString = s ∧ b.LengthOk) (hc : c.toString = t ∧ c.LengthOk) :
    Refines (Function.update (Function.update w i b) j c)
      (Function.update (Function.update a i s) j t) :=
  (h.update hb).update hc

/-- 前提を満たす操作の一歩は、仕様の一歩で模倣される。 -/
theorem step_refines (h : Refines w a) (op : Op) (hv : World.Valid w op) :
    ∃ a', SpecStep a op (World.step w op).2 a' ∧ Refines (World.step w op).1 a' := by
  cases op with
  | add i data =>
    obtain ⟨h₁, h₂⟩ := OwnedImpl.addImpl_spec (w i) data
    refine ⟨_, .add a i data, h.update (Refines.of_spec ?_ ?_)⟩
    · rw [h₁, h.sliceBytes_eq]
    · rw [h₂, h.length_eq, List.length_append]
  | addBuffer i j =>
    obtain ⟨h₁, h₂⟩ := OwnedImpl.addBuffer_spec (w i) (w j)
    refine ⟨_, .addBuffer a i j, h.update (Refines.of_spec ?_ ?_)⟩
    · rw [h₁, h.sliceBytes_eq, (h j).1]
    · rw [h₂, h.length_eq, (h j).1, List.length_append]
  | addBufferFragment i f =>
    obtain ⟨h₁, h₂⟩ := OwnedImpl.addBufferFragment_spec (w i) f
    refine ⟨_, .addBufferFragment a i f, h.update (Refines.of_spec ?_ ?_)⟩
    · rw [h₁, h.sliceBytes_eq]
    · rw [h₂, h.length_eq, List.length_append]
  | addFragments i fs =>
    obtain ⟨h₁, h₂⟩ := OwnedImpl.addFragments_spec (w i) fs
    refine ⟨_, .addFragments a i fs, h.update (Refines.of_spec ?_ ?_)⟩
    · rw [h₁, h.sliceBytes_eq]
    · rw [h₂, h.length_eq, List.length_append]
  | prepend i data =>
    obtain ⟨h₁, h₂⟩ := OwnedImpl.prepend_spec (w i) data
    refine ⟨_, .prepend a i data, h.update (Refines.of_spec ?_ ?_)⟩
    · rw [h₁, h.sliceBytes_eq]
    · rw [h₂, h.length_eq, List.length_append, Nat.add_comm]
  | prependBuffer i j =>
    obtain ⟨h₁, h₂, h₃, h₄⟩ := OwnedImpl.prependBuffer_spec (w i) (w j)
    refine ⟨_, .prependBuffer a i j, h.update₂ (Refines.of_spec ?_ ?_) (Refines.of_spec ?_ ?_)⟩
    · rw [h₁, h.sliceBytes_eq, h.sliceBytes_eq]
    · rw [h₂, h.length_eq, h.sliceBytes_eq, List.length_append, Nat.add_comm]
    · rw [h₃, sliceBytes_nil]
    · -- 相手の長さの控えは、移した長さだけ減って 0 になる
      rw [h₄, (h j).2, Nat.sub_self, List.length_nil]
  | drain i n =>
    obtain ⟨h₁, h₂⟩ := OwnedImpl.drainImpl_spec (w i) (h i).2 n
    refine ⟨_, .drain a i n, h.update (Refines.of_spec ?_ ?_)⟩
    · rw [OwnedImpl.drain, h₁, h.sliceBytes_eq]
    · rw [OwnedImpl.drain, h₂, h.length_eq, List.length_drop]
  | move i j =>
    obtain ⟨h₁, h₂, h₃, h₄⟩ := OwnedImpl.move_spec (w i) (w j) (h j).2
    refine ⟨_, .move a i j, h.update₂ (Refines.of_spec ?_ ?_) (Refines.of_spec ?_ ?_)⟩
    · rw [h₁, h.sliceBytes_eq, h.sliceBytes_eq]
    · rw [h₂, h.length_eq, h.sliceBytes_eq, List.length_append]
    · rw [h₃, sliceBytes_nil]
    · rw [h₄, List.length_nil]
  | moveLength i j n reset =>
    obtain ⟨h₁, h₂, h₃, h₄⟩ := OwnedImpl.moveLength_spec (w i) (w j) (h j).2 n reset
    refine ⟨_, .moveLength a i j n reset,
      h.update₂ (Refines.of_spec ?_ ?_) (Refines.of_spec ?_ ?_)⟩
    · rw [h₁, h.sliceBytes_eq, h.sliceBytes_eq]
    · rw [h₂, h.length_eq, h.sliceBytes_eq, List.length_append, List.length_take]
    · rw [h₃, h.sliceBytes_eq]
    · rw [h₄, h₃, h.sliceBytes_eq]
  | linearize i n =>
    obtain ⟨h₁, h₂⟩ := OwnedImpl.linearize_spec (w i) (h i).2 hv
    refine ⟨a, .linearize a i n, ?_⟩
    have hb : Refines (Function.update w i ((w i).linearize n).1) (Function.update a i (a i)) :=
      h.update (Refines.of_spec (by rw [h₁, h.sliceBytes_eq]) (by rw [h₂, h₁, h.sliceBytes_eq]))
    simpa only [World.step, Function.update_eq_self] using hb
  | reserveForReadCommit i data k =>
    obtain ⟨h₁, h₂, h₃⟩ := OwnedImpl.reserveWithMaxLength_spec (w i) OwnedImpl.defaultReadReservationSize
    exact ⟨_, .reserveForReadCommit a i data k,
      h.commitReservation (r := (w i).reserveForRead) (by rw [OwnedImpl.reserveForRead, h₁, h.sliceBytes_eq])
        (by rw [OwnedImpl.reserveForRead, h₂, h.length_eq]) h₃ hv.2 hv.1⟩
  | reserveSingleSliceCommit i r sep data k =>
    obtain ⟨h₁, h₂, h₃⟩ := OwnedImpl.reserveSingleSlice_spec (w i) r sep
    exact ⟨_, .reserveSingleSliceCommit a i r sep data k,
      h.commitReservation (r := (w i).reserveSingleSlice r sep) (by rw [h₁, h.sliceBytes_eq])
        (by rw [h₂, h.length_eq]) h₃ hv.2 hv.1⟩
  | extractMutableFrontSlice i =>
    obtain ⟨h₁, h₂, h₃⟩ := OwnedImpl.extractMutableFrontSlice_spec (w i) (h i).2 hv
    refine ⟨_, .extractMutableFrontSlice a i _ _ h₂ (by rw [← h.sliceBytes_eq, h₁]),
      h.update (Refines.of_spec rfl ?_)⟩
    exact h₃

end Step

/-! ## 操作の列 -/

/-- 前提を満たす操作の列を施すと、仕様は同じ操作の列で同じ出力を出し、各 buffer の `toString()`
は仕様の列に等しく、長さの控えは中身の長さに等しいまま保たれる。 -/
theorem ownedImpl_refines_bytes (w : World) (a : Strings) (h : Refines w a) (ops : List Op)
    (hv : Lts.Allowed World.Valid World.step w ops) :
    ∃ a', Lts.Steps SpecStep a ops (Lts.exec World.step w ops).2 a' ∧
      Refines (Lts.exec World.step w ops).1 a' :=
  Lts.simulation (R := Refines) (fun _ _ op h hv => step_refines h op hv) h hv

theorem ownedImpl_refines_bytes_add_prepend_move :
    Refines (fun _ => OwnedImpl.empty) (fun _ => []) ∧
      Lts.Allowed World.Valid World.step (fun _ => OwnedImpl.empty)
        [.add 0 [1, 2, 3], .prepend 1 [4], .move 0 1] ∧
      ∃ a', Lts.Steps SpecStep (fun _ => []) [.add 0 [1, 2, 3], .prepend 1 [4], .move 0 1]
          (Lts.exec World.step (fun _ => OwnedImpl.empty) [.add 0 [1, 2, 3], .prepend 1 [4], .move 0 1]).2 a' ∧
        Refines (Lts.exec World.step (fun _ => OwnedImpl.empty)
          [.add 0 [1, 2, 3], .prepend 1 [4], .move 0 1]).1 a' :=
  have hv : Lts.Allowed World.Valid World.step (fun _ => OwnedImpl.empty)
      [.add 0 [1, 2, 3], .prepend 1 [4], .move 0 1] := ⟨trivial, trivial, Nat.zero_ne_one, trivial⟩
  ⟨Refines.empty, hv, ownedImpl_refines_bytes _ _ Refines.empty _ hv⟩

end Envoy.Buffer
