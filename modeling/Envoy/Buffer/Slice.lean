import Envoy.Lib.WriteAt

/-!
# `Buffer::Slice`

`source/common/buffer/buffer_impl.h` の `Slice` を、記憶域 `base_[0, capacity_)` の byte 列と
`data_`、`reservable_` の二つの位置で表す。区間 `[data_, reservable_)` が中身（Data）、
`[reservable_, capacity_)` が予約できる空き（Reservable）である。

位置の大小と記憶域の長さは構造体の欄として持つので、壊れた slice は作れない。
新しく確保した記憶域の中身は C++ では不定だが、外から読めないので 0 で埋める。
drain tracker と fragment の releasor は中身にも課金にも関わらないので持たない。
-/

namespace Envoy.Buffer

/-- buffer の中の byte の列。 -/
abbrev Bytes := List UInt8

/-- `BufferMemoryAccount::charge` と `credit` の呼び出し。account は番号で表す。 -/
inductive AccountOp where
  | charge (account : Nat) (amount : Nat)
  | credit (account : Nat) (amount : Nat)
  deriving DecidableEq, Repr

structure Slice where
  capacity : Nat
  data : Nat
  reservable : Nat
  mem : Bytes
  /-- `storage_ != nullptr`。fragment を指す slice は書き換えられない。 -/
  isMutable : Bool
  account : Option Nat
  data_le : data ≤ reservable
  reservable_le : reservable ≤ capacity
  mem_length : mem.length = capacity

namespace Slice

/-- `Slice::sliceSize`: 4096 の倍数への切り上げ。 -/
def sliceSize (dataSize : Nat) : Nat := (dataSize + 4096 - 1) / 4096 * 4096

/-- `Slice::default_slice_size_`。 -/
def defaultSliceSize : Nat := 16384

theorem le_sliceSize (n : Nat) : n ≤ sliceSize n := by
  unfold sliceSize; omega

def dataSize (s : Slice) : Nat := s.reservable - s.data

def reservableSize (s : Slice) : Nat := s.capacity - s.reservable

/-- 中身 `[data_, reservable_)` の byte 列。`data()` から `dataSize()` byte。 -/
def dataBytes (s : Slice) : Bytes := (s.mem.take s.reservable).drop s.data

/-- `Slice()`: 記憶域を持たない、capacity 0 の slice。 -/
def empty : Slice where
  capacity := 0
  data := 0
  reservable := 0
  mem := []
  isMutable := false
  account := none
  data_le := Nat.le_refl _
  reservable_le := Nat.le_refl _
  mem_length := rfl

/-- `Slice(min_capacity, account)`: 空の、書き換えられる slice。 -/
def create (minCapacity : Nat) (account : Option Nat) : Slice where
  capacity := sliceSize minCapacity
  data := 0
  reservable := 0
  mem := List.replicate (sliceSize minCapacity) 0
  isMutable := true
  account := account
  data_le := Nat.le_refl _
  reservable_le := Nat.zero_le _
  mem_length := List.length_replicate

/-- `Slice(SizedStorage, used_size, account)`。`ASSERT(reservable_ <= capacity_)` を前提に取る。 -/
def ofStorage (storage : Bytes) (usedSize : Nat) (account : Option Nat)
    (h : usedSize ≤ storage.length) : Slice where
  capacity := storage.length
  data := 0
  reservable := usedSize
  mem := storage
  isMutable := true
  account := account
  data_le := Nat.zero_le _
  reservable_le := h
  mem_length := rfl

/-- `Slice(BufferFragment&)`: 外の byte 列を指す、書き換えられない slice。 -/
def ofFragment (fragment : Bytes) : Slice where
  capacity := fragment.length
  data := 0
  reservable := fragment.length
  mem := fragment
  isMutable := false
  account := none
  data_le := Nat.zero_le _
  reservable_le := Nat.le_refl _
  mem_length := rfl

/-- 構築子が account に課金する額。`if (account) account->charge(capacity_)`。 -/
def chargeOps (s : Slice) : List AccountOp :=
  match s.account with
  | some a => [.charge a s.capacity]
  | none => []

/-- 破棄（と `callAndClearDrainTrackersAndCharges`）が返金する額。 -/
def creditOps (s : Slice) : List AccountOp :=
  match s.account with
  | some a => [.credit a s.capacity]
  | none => []

/-- `callAndClearDrainTrackersAndCharges`: 返金して account を外す。 -/
def callAndClearDrainTrackersAndCharges (s : Slice) : Slice × List AccountOp :=
  ({ s with account := none }, s.creditOps)

/-- `maybeChargeAccount`: まだ課金しておらず、記憶域を持ち、account が与えられたときだけ課金する。 -/
def maybeChargeAccount (s : Slice) (account : Option Nat) : Slice × List AccountOp :=
  match s.account, s.isMutable, account with
  | none, true, some a => ({ s with account := some a }, [.charge a s.capacity])
  | _, _, _ => (s, [])

/-- `drain(size)`。source は `data_ + size <= reservable_` を ASSERT する。使い切ると先頭へ戻す。 -/
def drain (s : Slice) (size : Nat) : Slice :=
  if h : s.data + size < s.reservable then
    { s with data := s.data + size, data_le := Nat.le_of_lt h }
  else
    { s with data := 0, reservable := 0, data_le := Nat.le_refl _, reservable_le := Nat.zero_le _ }

/-- `reserve(size)` が返す予約の長さ。予約は常に `base_ + reservable_` から始まる。 -/
def reserve (s : Slice) (size : Nat) : Nat :=
  if size = 0 then 0
  else if s.capacity - s.reservable = 0 then 0
  else min size (s.capacity - s.reservable)

/-- 予約した記憶域 `base_ + reservable_` に、呼び出し側が `w` を書く。 -/
def fillReservation (s : Slice) (w : Bytes) : Slice where
  capacity := s.capacity
  data := s.data
  reservable := s.reservable
  mem := s.mem.writeAt s.reservable w
  isMutable := s.isMutable
  account := s.account
  data_le := s.data_le
  reservable_le := s.reservable_le
  mem_length := by rw [List.length_writeAt, s.mem_length]

/-- `commit(reservation)`。予約がこの slice の空きに収まらなければ何もしない（`SafeCommit`）。 -/
def commit (s : Slice) (len : Nat) : Slice :=
  if h : s.reservable + len ≤ s.capacity then
    { s with reservable := s.reservable + len, data_le := by have := s.data_le; omega,
             reservable_le := h }
  else s

/-- `append(data, size)`: 末尾の空きに入るだけ写し、新しい slice と写した byte 数を返す。 -/
def append (s : Slice) (src : Bytes) : Slice × Nat :=
  let copySize := min src.length s.reservableSize
  if copySize = 0 then (s, 0)
  else
    ({ s with
        reservable := s.reservable + copySize
        mem := s.mem.writeAt s.reservable (src.take copySize)
        data_le := by have := s.data_le; omega
        reservable_le := by
          have := s.reservable_le
          have : copySize ≤ s.capacity - s.reservable := Nat.min_le_right _ _
          omega
        mem_length := by rw [List.length_writeAt, s.mem_length] },
     copySize)

/-- `prepend(data, size)`: 前の空きに、`src` の末尾から入るだけ写す。 -/
def prepend (s : Slice) (src : Bytes) : Slice × Nat :=
  if s.dataSize = 0 then
    -- 中身が空なら、後でさらに前へ足せるように記憶域の末尾に置く。
    let copySize := min src.length s.reservableSize
    ({ s with
        reservable := s.capacity
        data := s.capacity - copySize
        mem := s.mem.writeAt (s.capacity - copySize) (src.drop (src.length - copySize))
        data_le := Nat.sub_le _ _
        reservable_le := Nat.le_refl _
        mem_length := by rw [List.length_writeAt, s.mem_length] },
     copySize)
  else if s.data = 0 then (s, 0)
  else
    let copySize := min src.length s.data
    ({ s with
        data := s.data - copySize
        mem := s.mem.writeAt (s.data - copySize) (src.drop (src.length - copySize))
        data_le := by have := s.data_le; omega
        mem_length := by rw [List.length_writeAt, s.mem_length] },
     copySize)

/-! ## 中身の補題 -/

@[simp] theorem dataBytes_length (s : Slice) : s.dataBytes.length = s.dataSize := by
  have := s.reservable_le
  simp only [dataBytes, dataSize, List.length_drop, List.length_take, s.mem_length]
  omega

@[simp] theorem dataBytes_empty : empty.dataBytes = [] := rfl

@[simp] theorem dataBytes_create (n : Nat) (a : Option Nat) : (create n a).dataBytes = [] := by
  simp [create, dataBytes]

@[simp] theorem dataSize_create (n : Nat) (a : Option Nat) : (create n a).dataSize = 0 := rfl

@[simp] theorem reservableSize_create (n : Nat) (a : Option Nat) :
    (create n a).reservableSize = sliceSize n := by
  simp [create, reservableSize]

@[simp] theorem dataBytes_ofFragment (f : Bytes) : (ofFragment f).dataBytes = f := by
  simp [ofFragment, dataBytes]

@[simp] theorem dataBytes_ofStorage (st : Bytes) (u : Nat) (a : Option Nat) (h : u ≤ st.length) :
    (ofStorage st u a h).dataBytes = st.take u := by
  simp [ofStorage, dataBytes]

theorem dataBytes_drain (s : Slice) {n : Nat} (h : n ≤ s.dataSize) :
    (s.drain n).dataBytes = s.dataBytes.drop n := by
  unfold drain
  split
  · simp [dataBytes, List.drop_drop]
  · -- `data_ + size = reservable_`: 使い切ったので中身は空になる
    have hr : s.data + n = s.reservable := by have := s.data_le; unfold dataSize at h; omega
    simp [dataBytes, List.drop_drop, hr]

theorem append_snd (s : Slice) (src : Bytes) :
    (s.append src).2 = min src.length s.reservableSize := by
  dsimp only [append]
  split
  · rename_i h; exact h.symm
  · rfl

theorem dataBytes_append (s : Slice) (src : Bytes) :
    (s.append src).1.dataBytes = s.dataBytes ++ src.take (s.append src).2 := by
  dsimp only [append]
  split
  · simp
  · simp only [dataBytes]
    generalize hc : min src.length s.reservableSize = c
    have hc1 : c ≤ s.capacity - s.reservable := hc ▸ Nat.min_le_right _ _
    have hlen : (src.take c).length = c := by simp [← hc]
    have hr := s.reservable_le
    rw [List.drop_take_add_writeAt s.mem s.data_le (k := c) (by omega)
      (by rw [hlen, s.mem_length]; omega), List.take_take, Nat.min_self]

theorem prepend_snd (s : Slice) (src : Bytes) :
    (s.prepend src).2 =
      if s.dataSize = 0 then min src.length s.reservableSize else min src.length s.data := by
  dsimp only [prepend]
  split
  · rfl
  · split <;> simp_all

theorem dataBytes_prepend (s : Slice) (src : Bytes) :
    (s.prepend src).1.dataBytes = src.drop (src.length - (s.prepend src).2) ++ s.dataBytes := by
  dsimp only [prepend]
  split
  · -- 中身が空: 記憶域の末尾 `[capacity_ - copy, capacity_)` に置く
    rename_i h0
    simp only [dataBytes]
    generalize hc : min src.length s.reservableSize = c
    have hc1 : c ≤ src.length := hc ▸ Nat.min_le_left _ _
    have hc2 : c ≤ s.capacity - s.reservable := hc ▸ Nat.min_le_right _ _
    have hd : (s.mem.take s.reservable).drop s.data = [] :=
      List.eq_nil_of_length_eq_zero (by rw [← h0, ← dataBytes_length]; rfl)
    have hlen : (src.drop (src.length - c)).length = c := by simp; omega
    have hfit : s.capacity - c + (src.drop (src.length - c)).length ≤ s.mem.length := by
      rw [hlen, s.mem_length]; omega
    have hcap : s.capacity - c + (src.drop (src.length - c)).length = s.capacity := by
      rw [hlen]; omega
    rw [hd, List.append_nil]
    have h := List.drop_take_add_writeAt s.mem (Nat.le_refl (s.capacity - c)) (k := c) (by omega) hfit
    rw [Nat.sub_add_cancel (by omega)] at h
    rw [h, List.take_of_length_le (l := src.drop (src.length - c)) (by omega)]
    simp
  · split
    · simp
    · -- 前の空き `[data_ - copy, data_)` に書く
      simp only [dataBytes]
      generalize hc : min src.length s.data = c
      have hc1 : c ≤ src.length := hc ▸ Nat.min_le_left _ _
      have hc2 : c ≤ s.data := hc ▸ Nat.min_le_right _ _
      have hlen : (src.drop (src.length - c)).length = c := by simp; omega
      have hend : s.data - c + (src.drop (src.length - c)).length = s.data := by rw [hlen]; omega
      have hr := s.reservable_le
      have hdr := s.data_le
      rw [List.take_writeAt_of_le s.mem (by rw [hend]; exact s.data_le)
          (by rw [s.mem_length]; exact hr), hend,
        List.drop_append_of_le_length (by simp [s.mem_length]; omega),
        List.drop_left' (by simp [s.mem_length]; omega), List.drop_take]

theorem dataBytes_commit_fillReservation (s : Slice) (w : Bytes) {k : Nat}
    (hw : s.reservable + w.length ≤ s.capacity) (hk : k ≤ w.length) :
    ((s.fillReservation w).commit k).dataBytes = s.dataBytes ++ w.take k := by
  have hc : s.reservable + k ≤ s.capacity := by omega
  simp only [commit, fillReservation, hc, ↓reduceDIte, dataBytes]
  exact List.drop_take_add_writeAt s.mem s.data_le hk (by rw [s.mem_length]; exact hw)

@[simp] theorem dataBytes_callAndClearDrainTrackersAndCharges (s : Slice) :
    s.callAndClearDrainTrackersAndCharges.1.dataBytes = s.dataBytes := rfl

@[simp] theorem dataSize_callAndClearDrainTrackersAndCharges (s : Slice) :
    s.callAndClearDrainTrackersAndCharges.1.dataSize = s.dataSize := rfl

/-- 予約を書いただけでは中身は変わらない。 -/
@[simp] theorem dataBytes_fillReservation (s : Slice) (w : Bytes) :
    (s.fillReservation w).dataBytes = s.dataBytes := by
  have hr : s.reservable ≤ s.mem.length := by rw [s.mem_length]; exact s.reservable_le
  simp only [dataBytes, fillReservation, List.take_writeAt s.mem w hr]

@[simp] theorem reservableSize_fillReservation (s : Slice) (w : Bytes) :
    (s.fillReservation w).reservableSize = s.reservableSize := rfl

theorem reserve_le_reservableSize (s : Slice) (size : Nat) : s.reserve size ≤ s.reservableSize := by
  unfold reserve reservableSize
  split
  · exact Nat.zero_le _
  · split
    · exact Nat.zero_le _
    · exact Nat.min_le_right _ _

theorem reserve_le (s : Slice) (size : Nat) : s.reserve size ≤ size := by
  unfold reserve
  split
  · exact Nat.zero_le _
  · split
    · exact Nat.zero_le _
    · exact Nat.min_le_left _ _

/-- 空きが足りれば、頼んだ長さがそのまま予約される。 -/
theorem reserve_of_le (s : Slice) {size : Nat} (h : size ≤ s.reservableSize) :
    s.reserve size = size := by
  unfold reserve
  split
  · omega
  · split
    · unfold reservableSize at h; omega
    · exact Nat.min_eq_left h

theorem reserve_create (n : Nat) (a : Option Nat) : (create n a).reserve n = n :=
  reserve_of_le _ (by rw [reservableSize_create]; exact le_sliceSize n)

/-- 新しい slice を `w` の長さで作り、`w` を書いて予約を全部 commit すると、中身は `w` である。 -/
theorem dataBytes_create_commit (w : Bytes) {n : Nat} (a : Option Nat) (hn : w.length = n) :
    (((create n a).fillReservation w).commit ((create n a).reserve n)).dataBytes = w := by
  have hw : (create n a).reservable + w.length ≤ (create n a).capacity := by
    simp [create, hn, le_sliceSize]
  rw [reserve_create, dataBytes_commit_fillReservation _ w hw (Nat.le_of_eq hn.symm),
    dataBytes_create, List.nil_append, ← hn, List.take_length]

/-- 予約に `w` の先頭 `len` 個を書いて、その先頭 `k` 個を commit する。 -/
theorem dataBytes_commit_fillReservation_take (s : Slice) (w : Bytes) {len k : Nat}
    (hlen : len ≤ s.reservableSize) (hk : k ≤ len) (hw : k ≤ w.length) :
    ((s.fillReservation (w.take len)).commit k).dataBytes = s.dataBytes ++ w.take k := by
  have hl : (w.take len).length = min len w.length := List.length_take
  have hr := s.reservable_le
  unfold reservableSize at hlen
  rw [dataBytes_commit_fillReservation s (w.take len) (by omega) (by omega),
    List.take_take, Nat.min_eq_left hk]

end Slice

end Envoy.Buffer
