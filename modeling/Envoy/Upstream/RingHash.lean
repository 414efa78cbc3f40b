import Mathlib

/-!
# ring hash の host の選び方

`source/extensions/load_balancing_policies/ring_hash/ring_hash_lb.cc` の `Ring::chooseHost()`。ketama の
二分探索で、hash の順に並べた `ring_` のうち hash が `h` 以上になる最初の位置を探し、無ければ位置 0 を
取る。`lowp`、`highp`、`midp` は符号付きの `int64_t` で、`highp` は `ring_.size()` から始まり、`midp - 1`
で -1 にもなる。`Int` で表す。hash は `uint64_t` で、比べるだけなので `Nat` で表す。

探索の幅 `highp + 1 - lowp` は一回りごとに減るので、`while (true)` は必ず抜ける。抜けた位置は、hash が
`h` 以上になる最初の位置（無ければ 0）に等しい。
-/

namespace Envoy.Upstream.RingHash

/-- `RingEntry`: hash と host。 -/
structure RingEntry (η : Type _) where
  hash : Nat
  host : η

variable {η : Type _}

/-- `Ring::Ring()` の `std::sort` の後の `ring_`: hash の順に並ぶ。 -/
structure Ring (η : Type _) where
  ring : List (RingEntry η)
  sorted : ring.Pairwise fun a b => a.hash ≤ b.hash

/-- 作った entry を hash の順に並べる（`std::sort`）。同じ hash の entry の順は決まらないが、`Ring` は
どの順も許す。 -/
def Ring.ofEntries (entries : List (RingEntry η)) : Ring η :=
  ⟨entries.mergeSort fun a b => a.hash ≤ b.hash, by
    simpa using @List.pairwise_mergeSort _ (fun a b : RingEntry η => decide (a.hash ≤ b.hash))
      (fun a b c hab hbc => by simp only [decide_eq_true_eq] at *; omega)
      (fun a b => by simp only [Bool.or_eq_true, decide_eq_true_eq]; omega) entries⟩

/-- `while (true)` の一回り。`0 ≤ lowp ≤ highp ≤ ring_.size()` で入る。`midp` が `ring_.size()` なら 0 で
抜け、`ring_[midp - 1].hash_ < h ≤ ring_[midp].hash_`（`midp = 0` では前の値を 0 とする）なら `midp` で
抜ける。そうでなければ幅を縮め、`lowp > highp` になれば 0 で抜ける。 -/
def chooseHostLoop (ring : List (RingEntry η)) (h : Nat) (lowp highp : Int)
    (hlow : 0 ≤ lowp) (hle : lowp ≤ highp) (hhigh : highp ≤ ring.length) : Nat :=
  let midp := (lowp + highp) / 2
  if hmid : midp = ring.length then 0
  else
    let midval := (ring.get ⟨midp.toNat, by omega⟩).hash
    let midval1 := if hz : midp = 0 then 0 else (ring.get ⟨(midp - 1).toNat, by omega⟩).hash
    if h ≤ midval ∧ midval1 < h then midp.toNat
    else if hlt : midval < h then
      if hgt : highp < midp + 1 then 0
      else chooseHostLoop ring h (midp + 1) highp (by omega) (by omega) hhigh
    else
      if hgt : midp - 1 < lowp then 0
      else chooseHostLoop ring h lowp (midp - 1) hlow (by omega) (by omega)
termination_by (highp + 1 - lowp).toNat

/-- `Ring::chooseHost(h, attempt)`: 空の ring には host が無い。`attempt > 0` なら探した位置から
`attempt` 進める。 -/
def chooseHost (ring : List (RingEntry η)) (h attempt : Nat) : Option η :=
  if ring = [] then none
  else
    let midp := chooseHostLoop ring h 0 ring.length le_rfl (Int.natCast_nonneg _) le_rfl
    let midp := if 0 < attempt then (midp + attempt) % ring.length else midp
    ring[midp]?.map (·.host)

/-- hash が `h` 以上になる最初の位置。無ければ 0。 -/
def lowerBound (ring : List (RingEntry η)) (h : Nat) : Nat :=
  let i := ring.findIdx fun e => h ≤ e.hash
  if i < ring.length then i else 0

theorem lowerBound_of_lt {ring : List (RingEntry η)} {h : Nat}
    (hi : (ring.findIdx fun e => h ≤ e.hash) < ring.length) :
    lowerBound ring h = ring.findIdx fun e => h ≤ e.hash := if_pos hi

theorem lowerBound_of_not_lt {ring : List (RingEntry η)} {h : Nat}
    (hi : ¬ (ring.findIdx fun e => h ≤ e.hash) < ring.length) : lowerBound ring h = 0 := if_neg hi

/-! ## 並んだ ring の上の位置 -/

section Sorted

variable {ring : List (RingEntry η)} {h : Nat}

theorem hash_le_of_le (hs : ring.Pairwise fun a b => a.hash ≤ b.hash) {j k : Nat} (hjk : j ≤ k)
    (hk : k < ring.length) : ring[j].hash ≤ ring[k].hash := by
  rcases Nat.lt_or_eq_of_le hjk with hlt | rfl
  · exact List.pairwise_iff_getElem.mp hs j k (by omega) hk hlt
  · exact le_rfl

/-- 最初の位置より前の hash は `h` より小さい。 -/
theorem hash_lt_of_lt_findIdx {j : Nat} (hj : j < ring.findIdx fun e => h ≤ e.hash) (hjl : j < ring.length) :
    ring[j].hash < h := by
  have := List.not_of_lt_findIdx hj
  simpa using this

/-- hash が `h` 以上の位置は、最初の位置より前にない。 -/
theorem findIdx_le_of_le_hash {j : Nat} (hjl : j < ring.length) (hj : h ≤ ring[j].hash) :
    (ring.findIdx fun e => h ≤ e.hash) ≤ j := by
  by_contra hlt
  exact absurd (hash_lt_of_lt_findIdx (h := h) (by omega) hjl) (by omega)

/-- 並んだ ring で hash が `h` より小さい位置は、最初の位置より前にある。 -/
theorem lt_findIdx_of_hash_lt (hs : ring.Pairwise fun a b => a.hash ≤ b.hash) {m : Nat} (hm : m < ring.length)
    (hlt : ring[m].hash < h) : m < ring.findIdx fun e => h ≤ e.hash := by
  by_contra hle
  have hi : (ring.findIdx fun e => h ≤ e.hash) < ring.length := by omega
  have hmono := hash_le_of_le hs (Nat.le_of_not_lt hle) hm
  have hfound := List.findIdx_getElem (w := hi)
  simp only [decide_eq_true_eq] at hfound
  omega

end Sorted

/-! ## 探索の一回りごとの不変条件 -/

/-- 求める位置 `i`（hash が `h` 以上の最初、無ければ `ring_.size()`）は `lowp` 以上で、`highp` を初めの
`ring_.size()` から縮めた後は `highp` 以下。この間、ループは `i`（`i = ring_.size()` なら 0）で抜ける。 -/
theorem chooseHostLoop_eq (ring : List (RingEntry η)) (hs : ring.Pairwise fun a b => a.hash ≤ b.hash)
    (h : Nat) (lowp highp : Int) (hlow : 0 ≤ lowp) (hle : lowp ≤ highp) (hhigh : highp ≤ ring.length)
    (hlo : lowp ≤ ring.findIdx fun e => h ≤ e.hash)
    (hhi : (ring.findIdx fun e => h ≤ e.hash) ≤ highp ∨ highp = ring.length) :
    chooseHostLoop ring h lowp highp hlow hle hhigh = lowerBound ring h := by
  have hidx : (ring.findIdx fun e => h ≤ e.hash) ≤ ring.length := List.findIdx_le_length
  fun_induction chooseHostLoop ring h lowp highp hlow hle hhigh with
  | case1 lowp highp hlow hle hhigh midp hmid =>
    -- `midp = ring_.size()` は `lowp = highp = ring_.size()` の時だけなので、`i = ring_.size()`
    exact (lowerBound_of_not_lt (by omega)).symm
  | case2 lowp highp hlow hle hhigh midp hmid midval midval1 hbreak =>
    -- `ring_[midp - 1].hash_ < h ≤ ring_[midp].hash_` なので `midp` が最初の位置
    have hm : midp.toNat < ring.length := by omega
    have hfirst : ring.findIdx (fun e => h ≤ e.hash) = midp.toNat := by
      refine le_antisymm (findIdx_le_of_le_hash hm (by simpa [midval] using hbreak.1)) ?_
      by_cases hz : midp = 0
      · omega
      · have hprev : ring[(midp - 1).toNat].hash < h := by simpa [midval1, hz] using hbreak.2
        have := lt_findIdx_of_hash_lt hs (by omega) hprev
        omega
    rw [lowerBound_of_lt (by omega), hfirst]
  | case3 lowp highp hlow hle hhigh midp hmid midval midval1 hbreak hlt hgt =>
    -- `ring_[midp].hash_ < h` なので `i > midp`。幅が尽きるなら `i` は `highp` を越え、起こらない
    have := lt_findIdx_of_hash_lt hs (m := midp.toNat) (by omega) (by simpa [midval] using hlt)
    omega
  | case4 lowp highp hlow hle hhigh midp hmid midval midval1 hbreak hlt hgt ih =>
    have := lt_findIdx_of_hash_lt hs (m := midp.toNat) (by omega) (by simpa [midval] using hlt)
    exact ih (by omega) hhi
  | case5 lowp highp hlow hle hhigh midp hmid midval midval1 hbreak hlt hgt =>
    -- `h ≤ ring_[midp].hash_` で抜けなかったので、`midp = 0` なら `h = 0`、そうでなければ
    -- `h ≤ ring_[midp - 1].hash_`。幅が尽きるのは `midp = 0` の時だけで、最初の位置は 0
    have hle' : h ≤ ring[midp.toNat].hash := by simpa [midval] using hlt
    by_cases hz : midp = 0
    · have hi := findIdx_le_of_le_hash (by omega) hle'
      rw [show midp.toNat = 0 by omega] at hi
      by_cases hn : (ring.findIdx fun e => h ≤ e.hash) < ring.length
      · rw [lowerBound_of_lt hn]
        omega
      · exact (lowerBound_of_not_lt hn).symm
    · have hprev : h ≤ ring[(midp - 1).toNat].hash := by
        simpa [midval, midval1, hz, hle'] using hbreak
      have := findIdx_le_of_le_hash (by omega) hprev
      omega
  | case6 lowp highp hlow hle hhigh midp hmid midval midval1 hbreak hlt hgt ih =>
    have hle' : h ≤ ring[midp.toNat].hash := by simpa [midval] using hlt
    have hz : midp ≠ 0 := by omega
    have hprev : h ≤ ring[(midp - 1).toNat].hash := by
      simpa [midval, midval1, hz, hle'] using hbreak
    have := findIdx_le_of_le_hash (by omega) hprev
    exact ih hlo (.inl (by omega))


/-! ## `chooseHost` -/

theorem lowerBound_lt {ring : List (RingEntry η)} (hne : ring ≠ []) (h : Nat) :
    lowerBound ring h < ring.length := by
  have hpos : 0 < ring.length := List.length_pos_iff.mpr hne
  by_cases hi : (ring.findIdx fun e => h ≤ e.hash) < ring.length
  · rw [lowerBound_of_lt hi]
    exact hi
  · rw [lowerBound_of_not_lt hi]
    exact hpos

/-- 空でない並んだ ring で、`chooseHost(h, attempt)` は止まり、hash が `h` 以上になる最初の位置 `i`
（無ければ 0）から `attempt` 進めた位置 `(i + attempt) mod |ring_|` の host を返す。 -/
theorem chooseHost_eq (r : Ring η) (hne : r.ring ≠ []) (h attempt : Nat) :
    chooseHost r.ring h attempt =
      some (r.ring.get ⟨(lowerBound r.ring h + attempt) % r.ring.length,
        Nat.mod_lt _ (List.length_pos_iff.mpr hne)⟩).host := by
  have hloop := chooseHostLoop_eq r.ring r.sorted h 0 r.ring.length le_rfl (Int.natCast_nonneg _) le_rfl
    (Int.natCast_nonneg _) (.inr rfl)
  have hlt := lowerBound_lt hne h
  unfold chooseHost
  rw [if_neg hne, hloop]
  by_cases hatt : 0 < attempt
  · simp only [hatt, if_true]
    rw [List.getElem?_eq_getElem (Nat.mod_lt _ (List.length_pos_iff.mpr hne))]
    rfl
  · have hzero : attempt = 0 := by omega
    simp [hzero, Nat.mod_eq_of_lt hlt, hlt]

/-- 同じ hash の entry が三つ並ぶ ring: hash 5 は最初の 5 の位置 1 に当たり、二分探索が途中の 5 で
止まらないことを示す。hash 9 から三つ進めると、終わりを回って位置 2 に着く。 -/
theorem chooseHost_eq_first_of_duplicates :
    ([⟨3, 0⟩, ⟨5, 1⟩, ⟨5, 2⟩, ⟨5, 3⟩, ⟨9, 4⟩] : List (RingEntry Nat)) ≠ [] ∧
      chooseHost ([⟨3, 0⟩, ⟨5, 1⟩, ⟨5, 2⟩, ⟨5, 3⟩, ⟨9, 4⟩] : List (RingEntry Nat)) 5 0 = some 1 ∧
      chooseHost ([⟨3, 0⟩, ⟨5, 1⟩, ⟨5, 2⟩, ⟨5, 3⟩, ⟨9, 4⟩] : List (RingEntry Nat)) 9 3 = some 2 := by
  have hs : ([⟨3, 0⟩, ⟨5, 1⟩, ⟨5, 2⟩, ⟨5, 3⟩, ⟨9, 4⟩] : List (RingEntry Nat)).Pairwise
      fun a b => a.hash ≤ b.hash := by
    decide
  have hne : ([⟨3, 0⟩, ⟨5, 1⟩, ⟨5, 2⟩, ⟨5, 3⟩, ⟨9, 4⟩] : List (RingEntry Nat)) ≠ [] := List.cons_ne_nil _ _
  refine ⟨hne, ?_, ?_⟩
  · rw [chooseHost_eq ⟨_, hs⟩ hne 5 0]
    rfl
  · have hlb : lowerBound ([⟨3, 0⟩, ⟨5, 1⟩, ⟨5, 2⟩, ⟨5, 3⟩, ⟨9, 4⟩] : List (RingEntry Nat)) 9 = 4 := by decide
    rw [chooseHost_eq ⟨_, hs⟩ hne 9 3]
    simp [hlb]

end Envoy.Upstream.RingHash
