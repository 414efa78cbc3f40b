import Envoy.Http.Cache.Lemmas.RangeUtils

/-!
# `createRangeDetails` と RFC 9110 の一つの範囲

code は無い先頭位置を `UINT64_MAX` で表すので、`bytes=` の後に値が `UINT64_MAX` の数字の列と `-` を
書いた header（`MaxFirst`）は suffix の印と区別されない。そうでない header では、`createRangeDetails` は
RFC の一つの範囲をちょうど読み、その意味 `RangeSpec.details` で応える。`MaxFirst` の header では、
`A-B` を suffix `-B` と、`A-` を `UINT64_MAX` byte の suffix（内容全体）と読む。

読んだ数字の数 `bytes_consumed` は `uint32_t` なので、header は `2 ^ 32` 文字未満とし、内容の長さは
`uint64_t` の値とする。
-/

namespace Envoy.Cache

open Decimal RangeUtils RangeSpec

/-- header が `bytes=` の後、値が `UINT64_MAX` の数字の列と `-` で始まる。 -/
def MaxFirst (hdr : List Char) : Prop :=
  ∃ a rest, IsNumeral a ∧ value a = uint64Max ∧ hdr = "bytes=".toList ++ a ++ '-' :: rest

/-- `bytes=` の後の先頭の数字の列の値が `UINT64_MAX` でなければ `MaxFirst` でない。 -/
theorem not_maxFirst_of_value_ne {hdr : List Char}
    (h : value ((hdr.drop 6).takeWhile Char.isDigit) ≠ uint64Max) : ¬ MaxFirst hdr := by
  rintro ⟨a, rest, ha, hmax, rfl⟩
  have hdrop : ("bytes=".toList ++ a ++ '-' :: rest).drop 6 = a ++ '-' :: rest := by
    rw [List.append_assoc]
    exact List.drop_left' rfl
  rw [hdrop, takeWhile_append_of_stops ha.2 (stopsDigits_dash rest)] at h
  exact h hmax

/-- `MaxFirst` でない header に書いた範囲の先頭は `UINT64_MAX` でない。 -/
theorem firstPos_ne_of_not_maxFirst {r : RangeSpec} (hr : r.Accepted) {hdr : List Char}
    (hh : hdr = "bytes=".toList ++ r.render) (hs : ¬ MaxFirst hdr) : r.firstPos ≠ some uint64Max := by
  intro hmax
  cases r with
  | closed a b =>
    exact hs ⟨a, b, hr.1.1, by simpa [firstPos] using hmax, by simp [hh, render]⟩
  | openEnded a =>
    exact hs ⟨a, [], hr.1, by simpa [firstPos] using hmax, by simp [hh, render]⟩
  | suffix n => cases hmax

/-- `MaxFirst` でない header には、`createRangeDetails` は RFC 9110 の一つの範囲の意味で応える:
一つの範囲を書いたものでなければ `nullopt`、書いたものならその範囲の答え。 -/
theorem createRangeDetails_single_range (L : Nat) (hL : 0 < L) (hL64 : L < 2 ^ 64) (h : List Char)
    (hlen : h.length < 2 ^ 32) (hs : ¬ MaxFirst h) :
    (createRangeDetails h L = none ↔ ¬ ∃ r : RangeSpec, r.WellFormed ∧ h = "bytes=".toList ++ r.render) ∧
      ∀ r : RangeSpec, r.WellFormed → h = "bytes=".toList ++ r.render →
        (createRangeDetails h L).map RangeDetails.toPairs = some (r.details L) := by
  have hrender : ∀ r : RangeSpec, h = "bytes=".toList ++ r.render → r.render.length < 2 ^ 32 := by
    rintro r rfl
    simp only [List.length_append] at hlen
    omega
  have hdetails : ∀ r : RangeSpec, r.WellFormed → h = "bytes=".toList ++ r.render →
      (createRangeDetails h L).map RangeDetails.toPairs = some (r.details L) := by
    intro r hr hh
    rw [← rawDetails_rawPair hr (firstPos_ne_of_not_maxFirst hr.accepted hh hs) hL64, hh]
    exact createRangeDetails_render hr.accepted (hrender r hh) hL
  refine ⟨⟨?_, ?_⟩, hdetails⟩
  · rintro hnone ⟨r, hr, hh⟩
    have hsome := hdetails r hr hh
    rw [hnone] at hsome
    cases hsome
  · intro hno
    cases hc : createRangeDetails h L with
    | none => rfl
    | some d =>
      -- code が読んだ範囲は、先頭が `UINT64_MAX` でないので RFC の文法に合う
      obtain ⟨r, hr, hh⟩ := createRangeDetails_sound hlen hc
      exact absurd ⟨r, hr.wellFormed (firstPos_ne_of_not_maxFirst hr hh hs), hh⟩ hno

theorem createRangeDetails_single_range_closed :
    0 < 10 ∧ 10 < 2 ^ 64 ∧ "bytes=0-4".toList.length < 2 ^ 32 ∧ ¬ MaxFirst "bytes=0-4".toList ∧
      (createRangeDetails "bytes=0-4".toList 10 = none ↔
        ¬ ∃ r : RangeSpec, r.WellFormed ∧ "bytes=0-4".toList = "bytes=".toList ++ r.render) ∧
      ∀ r : RangeSpec, r.WellFormed → "bytes=0-4".toList = "bytes=".toList ++ r.render →
        (createRangeDetails "bytes=0-4".toList 10).map RangeDetails.toPairs = some (r.details 10) := by
  have hs : ¬ MaxFirst "bytes=0-4".toList := not_maxFirst_of_value_ne (by decide)
  exact ⟨by norm_num, by norm_num, by decide, hs,
    createRangeDetails_single_range 10 (by norm_num) (by norm_num) _ (by decide) hs⟩

/-- `MaxFirst` の header: 値が `UINT64_MAX` の先頭 `A` の `A-B` は suffix `-B` と、`A-` は
`UINT64_MAX` byte の suffix と読まれ、`A > B` でも応える。 -/
theorem createRangeDetails_max_first (L : Nat) (hL : 0 < L) (a b : List Char) (ha : IsUint64Numeral a)
    (hmax : value a = uint64Max) (hb : b = [] ∨ IsUint64Numeral b) (hlen : (a ++ '-' :: b).length < 2 ^ 32) :
    (createRangeDetails ("bytes=".toList ++ a ++ '-' :: b) L).map RangeDetails.toPairs =
      some (suffixDetails L (if b = [] then uint64Max else value b)) := by
  rw [List.append_assoc]
  rcases hb with rfl | hb
  · -- `A-`: 末尾も `UINT64_MAX`
    have hr : (RangeSpec.openEnded a).Accepted := ha
    rw [show a ++ ['-'] = (RangeSpec.openEnded a).render from rfl, createRangeDetails_render hr hlen hL]
    simp [rawDetails, rawPair, hmax]
  · -- `A-B`: `A ≤ B` は問われない
    have hr : (RangeSpec.closed a b).Accepted := ⟨ha, hb, .inl hmax⟩
    rw [show a ++ '-' :: b = (RangeSpec.closed a b).render from rfl, createRangeDetails_render hr hlen hL]
    simp [rawDetails, rawPair, hmax, hb.1.1]

theorem createRangeDetails_max_first_open :
    0 < 10 ∧ IsUint64Numeral "18446744073709551615".toList ∧ value "18446744073709551615".toList = uint64Max ∧
      (([] : List Char) = [] ∨ IsUint64Numeral []) ∧ ("18446744073709551615".toList ++ ['-']).length < 2 ^ 32 ∧
      (createRangeDetails ("bytes=".toList ++ "18446744073709551615".toList ++ ['-']) 10).map RangeDetails.toPairs =
        some (suffixDetails 10 (if ([] : List Char) = [] then uint64Max else value [])) := by
  have hmax : value "18446744073709551615".toList = uint64Max := by decide
  have hdigits : "18446744073709551615".toList.all Char.isDigit = true := by decide
  have ha : IsUint64Numeral "18446744073709551615".toList :=
    ⟨⟨List.cons_ne_nil _ _, List.all_eq_true.mp hdigits⟩, by rw [hmax]; decide⟩
  exact ⟨by norm_num, ha, hmax, .inl rfl, by decide,
    createRangeDetails_max_first 10 (by norm_num) _ [] ha hmax (.inl rfl) (by decide)⟩

/-- `bytes=18446744073709551615-5` は、先頭 `2 ^ 64 - 1` が末尾 `5` を越えるので RFC の一つの範囲でないが、
長さ 10 の内容に、code は末尾の 5 byte `[5, 10)` で応える。 -/
theorem createRangeDetails_max_first_reads_suffix :
    (createRangeDetails "bytes=18446744073709551615-5".toList 10).map RangeDetails.toPairs =
        some (true, [(5, 10)]) ∧
      ¬ ∃ r : RangeSpec, r.WellFormed ∧ "bytes=18446744073709551615-5".toList = "bytes=".toList ++ r.render := by
  refine ⟨by decide, ?_⟩
  rintro ⟨r, hr, hh⟩
  have hsplit : "bytes=18446744073709551615-5".toList = "bytes=".toList ++ "18446744073709551615-5".toList := rfl
  have hs : "18446744073709551615-5".toList = r.render := List.append_cancel_left (hsplit.symm.trans hh)
  cases r with
  | closed a b =>
    -- `A` は先頭の数字の列なので `18446744073709551615`、`B` は `5`
    obtain ⟨ha, -, hab⟩ := hr
    have hA := congrArg (List.takeWhile Char.isDigit) hs
    rw [render, takeWhile_append_of_stops ha.1.2 (stopsDigits_dash b)] at hA
    subst hA
    have hB : ['-', '5'] = '-' :: b := List.append_cancel_left (hs.symm.trans (by decide)).symm
    cases hB
    exact absurd hab (by decide)
  | openEnded a =>
    have hlast := congrArg List.getLast? hs
    rw [render, List.getLast?_concat] at hlast
    exact absurd hlast (by decide)
  | suffix n =>
    have hhead := congrArg List.head? hs
    rw [render, List.head?_cons] at hhead
    exact absurd hhead (by decide)

end Envoy.Cache
