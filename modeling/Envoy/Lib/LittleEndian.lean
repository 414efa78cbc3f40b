import Envoy.Lib.WriteAt

/-!
# little endian の byte 列と、その bit

`ofBytes` は下位の byte から並べた byte 列の値、`toBytes v k` は値 `v` の下位 `k` byte。byte 列を bit の列と
みて、位置 `p` の bit を byte `p / 8` の bit `p % 8` とする（`bit`）。値の bit は byte 列の bit で、列を
切り出し、上書きすると bit がどう変わるかを、ここで一度だけ述べる。
-/

namespace LittleEndian

/-- 下位の byte から並べた byte 列の値。 -/
def ofBytes : List UInt8 → Nat
  | [] => 0
  | b :: bs => b.toNat + 2 ^ 8 * ofBytes bs

/-- 値 `v` の下位 `k` byte を、下位から並べる。 -/
def toBytes (v : Nat) : Nat → List UInt8
  | 0 => []
  | k + 1 => UInt8.ofNat v :: toBytes (v / 2 ^ 8) k

/-- byte 列の位置 `p` の bit（byte `p / 8` の bit `p % 8`）。列の外は 0。 -/
def bit (mem : List UInt8) (p : Nat) : Bool := (mem.getD (p / 8) 0).toNat.testBit (p % 8)

@[simp] theorem length_toBytes (v k : Nat) : (toBytes v k).length = k := by
  induction k generalizing v with
  | zero => rfl
  | succ k ih => simp [toBytes, ih]

@[simp] theorem bit_nil (p : Nat) : bit [] p = false := by
  simp [bit]

theorem bit_cons (b : UInt8) (bs : List UInt8) (p : Nat) :
    bit (b :: bs) p = if p < 8 then b.toNat.testBit p else bit bs (p - 8) := by
  unfold bit
  split
  · rename_i hp
    rw [Nat.div_eq_of_lt hp, Nat.mod_eq_of_lt hp]
    rfl
  · rename_i hp
    have hdiv : p / 8 = (p - 8) / 8 + 1 := by omega
    have hmod : p % 8 = (p - 8) % 8 := by omega
    rw [hdiv, hmod, List.getD_cons_succ]

/-- 値の bit は byte 列の bit。 -/
theorem testBit_ofBytes (bs : List UInt8) (i : Nat) : (ofBytes bs).testBit i = bit bs i := by
  induction bs generalizing i with
  | nil => simp [ofBytes]
  | cons b bs ih =>
    rw [ofBytes, Nat.add_comm, Nat.testBit_two_pow_mul_add _ (UInt8.toNat_lt b) i, bit_cons]
    split
    · rfl
    · exact ih (i - 8)

/-- 下位 `k` byte の bit は、値の下位 `8 * k` bit。 -/
theorem bit_toBytes (v k p : Nat) : bit (toBytes v k) p = (decide (p < 8 * k) && v.testBit p) := by
  induction k generalizing v p with
  | zero => simp [toBytes]
  | succ k ih =>
    rw [toBytes, bit_cons]
    split
    · rename_i hp
      rw [UInt8.toNat_ofNat', Nat.testBit_mod_two_pow]
      simp [hp, show p < 8 * (k + 1) by omega]
    · rename_i hp
      rw [ih, Nat.testBit_div_two_pow, Nat.sub_add_cancel (by omega)]
      congr 1
      simp only [decide_eq_decide]
      omega

theorem bit_drop (l : List UInt8) (off p : Nat) : bit (l.drop off) p = bit l (8 * off + p) := by
  unfold bit
  rw [List.getD_eq_getElem?_getD, List.getD_eq_getElem?_getD, List.getElem?_drop,
    show (8 * off + p) / 8 = off + p / 8 by omega, show (8 * off + p) % 8 = p % 8 by omega]

theorem bit_take (l : List UInt8) (n p : Nat) : bit (l.take n) p = (decide (p < 8 * n) && bit l p) := by
  unfold bit
  rw [List.getD_eq_getElem?_getD, List.getD_eq_getElem?_getD, List.getElem?_take]
  by_cases hp : p < 8 * n
  · rw [if_pos (by omega)]
    simp [hp]
  · rw [if_neg (by omega)]
    simp [hp]

theorem getD_writeAt (l : List UInt8) {off : Nat} {src : List UInt8} (h : off + src.length ≤ l.length)
    (i : Nat) :
    (l.writeAt off src).getD i 0 = if off ≤ i ∧ i < off + src.length then src.getD (i - off) 0 else l.getD i 0 := by
  rw [List.writeAt_eq l h, List.getD_eq_getElem?_getD, List.getD_eq_getElem?_getD, List.getD_eq_getElem?_getD]
  have htake : (l.take off).length = off := by simp; omega
  by_cases hlo : i < off
  · rw [if_neg (by omega), List.getElem?_append_left (by simp; omega), List.getElem?_append_left (by omega),
      List.getElem?_take, if_pos hlo]
  · by_cases hhi : i < off + src.length
    · rw [if_pos ⟨by omega, hhi⟩, List.getElem?_append_left (by simp; omega),
        List.getElem?_append_right (by omega), htake]
    · rw [if_neg (by omega), List.getElem?_append_right (by simp; omega), List.getElem?_drop]
      simp only [List.length_append, htake]
      congr 2
      omega

/-- 収まる上書きの後の bit は、書いた範囲では書いた列の bit、外では元の bit。 -/
theorem bit_writeAt (l : List UInt8) {off : Nat} {src : List UInt8} (h : off + src.length ≤ l.length)
    (p : Nat) :
    bit (l.writeAt off src) p =
      if 8 * off ≤ p ∧ p < 8 * (off + src.length) then bit src (p - 8 * off) else bit l p := by
  unfold bit
  rw [getD_writeAt l h]
  by_cases hp : 8 * off ≤ p ∧ p < 8 * (off + src.length)
  · rw [if_pos (by omega), if_pos hp, show (p - 8 * off) / 8 = p / 8 - off by omega,
      show (p - 8 * off) % 8 = p % 8 by omega]
  · rw [if_neg (by omega), if_neg hp]

end LittleEndian
