import Envoy.Http.Cache.RangeSpec

/-!
# `Range` header の読み方の性質

`readAndRemoveLeadingDigits` は、先頭の数字の列の値が `2 ^ 64` 未満なら、その値を読んで残りを返し、
そうでなければ何も読まない。`new_val / 8 < val` の検査は、`val * 10 + d` が `2 ^ 64` を越える時ちょうどに
成り立つので、桁あふれを見逃さず、誤って見つけもしない。ただし読んだ数字の数 `bytes_consumed` は
`uint32_t` なので、先頭の数字の列が `2 ^ 32` 文字未満の時に限る。

その上で `parseRange` は一つの範囲の書き方 `RangeSpec` を読む。suffix の印 `UINT64_MAX` は、先頭に
書いた `18446744073709551615` と区別されない。
-/

namespace Envoy.Cache

open Decimal CacheHeadersUtils

/-! ## 桁あふれの検査 -/

/-- `new_val / 8 < val` は、`val * 10 + d` が `uint64_t` に収まらない時ちょうどに成り立つ。 -/
theorem overflow_test_iff {val d : Nat} (hd : d < 10) :
    (val * 10 + d) % 2 ^ 64 / 8 < val ↔ 2 ^ 64 ≤ val * 10 + d := by
  have h64 : (2 : Nat) ^ 64 = 18446744073709551616 := by norm_num
  rw [h64]
  omega

/-! ## `readAndRemoveLeadingDigits` -/

/-- loop は先頭の数字の列を読み、途中で `2 ^ 64` に届けば `nullopt` を返す。 -/
theorem readDigits_eq (str : List Char) {val bytesConsumed : Nat} (hval : val < 2 ^ 64)
    (hbc : bytesConsumed < 2 ^ 32) :
    readDigits val bytesConsumed str =
      if valueFrom val (str.takeWhile Char.isDigit) < 2 ^ 64 then
        some (valueFrom val (str.takeWhile Char.isDigit),
          (bytesConsumed + (str.takeWhile Char.isDigit).length) % 2 ^ 32)
      else none := by
  induction str generalizing val bytesConsumed with
  | nil =>
    simp only [readDigits, List.takeWhile_nil, valueFrom_nil, List.length_nil, add_zero, Nat.mod_eq_of_lt hbc,
      if_pos hval]
  | cons cur rest ih =>
    cases hcur : cur.isDigit with
    | false =>
      simp only [readDigits, hcur, Bool.not_false, if_true, List.takeWhile_cons, Bool.false_eq_true, if_false,
        valueFrom_nil, List.length_nil, add_zero, Nat.mod_eq_of_lt hbc, if_pos hval]
    | true =>
      have hd := digitValue_lt hcur
      have hdv : cur.toNat - '0'.toNat = digitValue cur := rfl
      simp only [readDigits, hcur, Bool.not_true, Bool.false_eq_true, if_false, hdv, List.takeWhile_cons,
        if_true, valueFrom_cons, List.length_cons]
      by_cases hover : 2 ^ 64 ≤ val * 10 + digitValue cur
      · -- 桁あふれ: 読み進めた値も `2 ^ 64` 以上
        have hge := le_trans hover (le_valueFrom (val * 10 + digitValue cur) (rest.takeWhile Char.isDigit))
        rw [if_pos ((overflow_test_iff hd).mpr hover), if_neg (not_lt.mpr hge)]
      · have hlt : val * 10 + digitValue cur < 2 ^ 64 := not_le.mp hover
        rw [if_neg (fun h => hover ((overflow_test_iff hd).mp h)), Nat.mod_eq_of_lt hlt,
          ih hlt (Nat.mod_lt _ (by norm_num))]
        have hmod : ((bytesConsumed + 1) % 2 ^ 32 + (rest.takeWhile Char.isDigit).length) % 2 ^ 32 =
            (bytesConsumed + ((rest.takeWhile Char.isDigit).length + 1)) % 2 ^ 32 := by
          rw [Nat.mod_add_mod]; ring_nf
        rw [hmod]

/-- `readAndRemoveLeadingDigits`: 先頭の数字の列が空でなく、値が `2 ^ 64` 未満なら、その値と残り。
そうでなければ `nullopt` で、文字列は変わらない。 -/
theorem readAndRemoveLeadingDigits_eq (str : List Char) (hlen : (str.takeWhile Char.isDigit).length < 2 ^ 32) :
    readAndRemoveLeadingDigits str =
      if str.takeWhile Char.isDigit ≠ [] ∧ value (str.takeWhile Char.isDigit) < 2 ^ 64 then
        (some (value (str.takeWhile Char.isDigit)), str.dropWhile Char.isDigit)
      else (none, str) := by
  have hsplit := List.takeWhile_append_dropWhile (p := Char.isDigit) (l := str)
  have hdrop : str.drop (str.takeWhile Char.isDigit).length = str.dropWhile Char.isDigit := by
    calc str.drop (str.takeWhile Char.isDigit).length
        = (str.takeWhile Char.isDigit ++ str.dropWhile Char.isDigit).drop (str.takeWhile Char.isDigit).length := by
          rw [hsplit]
      _ = str.dropWhile Char.isDigit := List.drop_left
  unfold readAndRemoveLeadingDigits
  rw [readDigits_eq str (by norm_num) (by norm_num), zero_add, Nat.mod_eq_of_lt hlen]
  by_cases hv : value (str.takeWhile Char.isDigit) < 2 ^ 64
  · rw [if_pos (show valueFrom 0 (str.takeWhile Char.isDigit) < 2 ^ 64 from hv)]
    dsimp only
    by_cases hnil : str.takeWhile Char.isDigit = []
    · simp [hnil]
    · have hlen0 : (str.takeWhile Char.isDigit).length ≠ 0 := by simpa using hnil
      rw [if_pos hlen0, if_pos ⟨hnil, hv⟩, hdrop]
      rfl
  · rw [if_neg (show ¬ valueFrom 0 (str.takeWhile Char.isDigit) < 2 ^ 64 from hv), if_neg (fun h => hv h.2)]

/-- 数字の列に、数字でない文字から始まる列が続けば、その数字の列を読んで残りを返す。 -/
theorem readAndRemoveLeadingDigits_numeral {ds rest : List Char} (hds : IsUint64Numeral ds)
    (hrest : StopsDigits rest) (hlen : ds.length < 2 ^ 32) :
    readAndRemoveLeadingDigits (ds ++ rest) = (some (value ds), rest) := by
  have htake := takeWhile_append_of_stops hds.1.2 hrest
  rw [readAndRemoveLeadingDigits_eq _ (by rw [htake]; exact hlen), htake, if_pos ⟨hds.1.1, hds.2⟩,
    dropWhile_append_of_stops hds.1.2 hrest]

/-- 数字でない文字から始まる列からは何も読まない。 -/
theorem readAndRemoveLeadingDigits_of_stops {rest : List Char} (hrest : StopsDigits rest) :
    readAndRemoveLeadingDigits rest = (none, rest) := by
  have htake := takeWhile_of_stops hrest
  rw [readAndRemoveLeadingDigits_eq _ (by rw [htake]; norm_num), if_neg (fun h => h.1 htake)]

/-- `readAndRemoveLeadingDigits` は、先頭の `2 ^ 64` 未満の数字の列を読むか、何も読まない。 -/
theorem readAndRemoveLeadingDigits_cases {str : List Char} (hlen : str.length < 2 ^ 32) :
    (∃ ds rest, IsUint64Numeral ds ∧ str = ds ++ rest ∧ readAndRemoveLeadingDigits str = (some (value ds), rest)) ∨
      readAndRemoveLeadingDigits str = (none, str) := by
  have htake : (str.takeWhile Char.isDigit).length < 2 ^ 32 :=
    lt_of_le_of_lt (List.takeWhile_sublist _).length_le hlen
  rw [readAndRemoveLeadingDigits_eq str htake]
  by_cases hds : str.takeWhile Char.isDigit ≠ [] ∧ value (str.takeWhile Char.isDigit) < 2 ^ 64
  · refine .inl ⟨_, _, ⟨⟨hds.1, fun c hc => List.mem_takeWhile_imp hc⟩, hds.2⟩,
      List.takeWhile_append_dropWhile.symm, if_pos hds⟩
  · exact .inr (if_neg hds)

/-! ## code が受け付ける一つの範囲 -/

theorem dash_toList : "-".toList = ['-'] := rfl

theorem dash_isPrefixOf_iff (l : List Char) : "-".toList.isPrefixOf l = true ↔ ∃ rest, l = '-' :: rest := by
  rw [dash_toList]
  cases l with
  | nil => simp [List.isPrefixOf]
  | cons c l =>
    simp only [List.isPrefixOf, Bool.and_true, beq_iff_eq, List.cons.injEq, exists_and_left, exists_eq', and_true]
    exact eq_comm

/-- `RawByteRange` を端の組で見る。 -/
def RawByteRange.toPair (x : RawByteRange) : Nat × Nat := (x.firstBytePos, x.lastBytePos)

namespace RangeSpec

/-- `parseRange` が受け付ける書き方: `WellFormed` の `A ≤ B` は、`A` が `UINT64_MAX` なら問わない。 -/
def Accepted : RangeSpec → Prop
  | closed a b => IsUint64Numeral a ∧ IsUint64Numeral b ∧ (value a = uint64Max ∨ value a ≤ value b)
  | openEnded a => IsUint64Numeral a
  | suffix n => IsUint64Numeral n

/-- `parseRange` が読む端の組。無い端は `UINT64_MAX`。 -/
def rawPair : RangeSpec → Nat × Nat
  | closed a b => (value a, value b)
  | openEnded a => (value a, uint64Max)
  | suffix n => (uint64Max, value n)

theorem WellFormed.accepted {r : RangeSpec} (hr : r.WellFormed) : r.Accepted := by
  cases r with
  | closed a b => exact ⟨hr.1, hr.2.1, .inr hr.2.2⟩
  | openEnded a => exact hr
  | suffix n => exact hr

/-- 先頭が `UINT64_MAX` でなければ、受け付ける書き方は RFC の文法に合う。 -/
theorem Accepted.wellFormed {r : RangeSpec} (hr : r.Accepted) (hmax : r.firstPos ≠ some uint64Max) :
    r.WellFormed := by
  cases r with
  | closed a b =>
    refine ⟨hr.1, hr.2.1, hr.2.2.resolve_left fun he => hmax ?_⟩
    simp [firstPos, he]
  | openEnded a => exact hr
  | suffix n => exact hr

/-- 受け付ける書き方には `,` が無い。 -/
theorem comma_not_mem_render {r : RangeSpec} (hr : r.Accepted) : ',' ∉ r.render := by
  have hcomma : ∀ {ds : List Char}, IsUint64Numeral ds → ',' ∉ ds := fun hds hc =>
    absurd (hds.1.2 _ hc) (by decide)
  cases r with
  | closed a b =>
    simp only [render, List.mem_append, List.mem_cons, not_or]
    exact ⟨hcomma hr.1, by decide, hcomma hr.2.1⟩
  | openEnded a => simpa [render] using hcomma hr
  | suffix n => simpa [render] using hcomma hr

end RangeSpec

open RangeUtils RangeSpec

/-- 完全性: 受け付ける書き方の範囲を、`parseRange` はその端の組で読む。 -/
theorem parseRange_render {r : RangeSpec} (hr : r.Accepted) (hlen : r.render.length < 2 ^ 32) :
    (parseRange r.render).map RawByteRange.toPair = some r.rawPair := by
  cases r with
  | closed a b =>
    obtain ⟨ha, hb, hab⟩ := hr
    simp only [render, List.length_append, List.length_cons] at hlen
    have h₁ := readAndRemoveLeadingDigits_numeral ha (stopsDigits_dash b) (by omega)
    have h₂ := readAndRemoveLeadingDigits_numeral hb stopsDigits_nil (by omega)
    rw [List.append_nil] at h₂
    have hlt : ¬ (value a ≠ uint64Max ∧ value a > value b) := by omega
    simp only [parseRange, render, h₁, dash_toList, List.isPrefixOf, List.drop_succ_cons, List.drop_zero, h₂]
    simp [hlt, RawByteRange.toPair, rawPair]
  | openEnded a =>
    simp only [render, List.length_append, List.length_cons, List.length_nil] at hlen
    have h₁ := readAndRemoveLeadingDigits_numeral hr (stopsDigits_dash []) (by omega)
    have hlt : ¬ (value a ≠ uint64Max ∧ value a > uint64Max) := by
      have := hr.2; simp only [uint64Max]; omega
    simp only [parseRange, render, h₁, dash_toList, List.isPrefixOf, List.drop_succ_cons, List.drop_zero,
      readAndRemoveLeadingDigits_of_stops stopsDigits_nil]
    simp [hlt, RawByteRange.toPair, rawPair]
  | suffix n =>
    simp only [render, List.length_cons] at hlen
    have h₂ := readAndRemoveLeadingDigits_numeral hr stopsDigits_nil (by omega)
    rw [List.append_nil] at h₂
    simp only [parseRange, render, readAndRemoveLeadingDigits_of_stops (stopsDigits_dash n),
      dash_toList, List.isPrefixOf, List.drop_succ_cons, List.drop_zero, h₂]
    simp [RawByteRange.toPair, rawPair]

/-- 健全性: `parseRange` が読めば、文字列は受け付ける書き方の範囲で、読んだのはその端の組である。 -/
theorem parseRange_sound {cur : List Char} {x : RawByteRange} (hlen : cur.length < 2 ^ 32)
    (h : parseRange cur = some x) : ∃ r : RangeSpec, r.Accepted ∧ cur = r.render ∧ x.toPair = r.rawPair := by
  unfold parseRange at h
  rcases readAndRemoveLeadingDigits_cases hlen with ⟨a, rest, ha, rfl, h₁⟩ | h₁
  · -- `A-` か `A-B`
    rw [h₁] at h
    dsimp only at h
    split at h
    case isFalse => cases h
    case isTrue hdash =>
    obtain ⟨rest, rfl⟩ := (dash_isPrefixOf_iff _).mp hdash
    have hlen' : rest.length < 2 ^ 32 := by simp only [List.length_append, List.length_cons] at hlen; omega
    simp only [List.drop_succ_cons, List.drop_zero] at h
    rcases readAndRemoveLeadingDigits_cases hlen' with ⟨b, rest', hb, rfl, h₂⟩ | h₂
    · -- `A-B`
      simp only [h₂, ne_eq, Option.isNone_some, Bool.false_eq_true, false_and, if_false, Option.getD_some] at h
      split at h
      case isTrue => cases h
      case isFalse hrest =>
      split at h
      case isTrue => cases h
      case isFalse hle =>
      simp only [Option.some.injEq] at h
      subst h
      refine ⟨.closed a b, ⟨ha, hb, ?_⟩, by simp [not_not.mp hrest, render], rfl⟩
      omega
    · -- `A-`
      simp only [h₂, ne_eq, Option.isNone_some, Option.isNone_none, Bool.false_eq_true, false_and, if_false,
        Option.getD_some, Option.getD_none] at h
      split at h
      case isTrue => cases h
      case isFalse hrest =>
      split at h
      case isTrue => cases h
      case isFalse =>
      simp only [Option.some.injEq] at h
      subst h
      exact ⟨.openEnded a, ha, by simp [not_not.mp hrest, render], rfl⟩
  · -- `-N`: 先頭に数字は無い
    rw [h₁] at h
    dsimp only at h
    split at h
    case isFalse => cases h
    case isTrue hdash =>
    obtain ⟨rest, rfl⟩ := (dash_isPrefixOf_iff _).mp hdash
    have hlen' : rest.length < 2 ^ 32 := by simp only [List.length_cons] at hlen; omega
    simp only [List.drop_succ_cons, List.drop_zero] at h
    rcases readAndRemoveLeadingDigits_cases hlen' with ⟨n, rest', hn, rfl, h₂⟩ | h₂
    · simp only [h₂, ne_eq, Option.isNone_some, Option.isNone_none, Bool.false_eq_true, and_false, if_false,
        Option.getD_some, Option.getD_none] at h
      split at h
      case isTrue => cases h
      case isFalse hrest =>
      split at h
      case isTrue hmax => exact absurd trivial hmax.1
      case isFalse =>
      simp only [Option.some.injEq] at h
      subst h
      exact ⟨.suffix n, hn, by simp [not_not.mp hrest, render], rfl⟩
    · -- 両端とも無い
      simp only [h₂, ne_eq, Option.isNone_none, and_self, if_true] at h
      split at h <;> cases h

/-! ## 範囲を一つまで読む header -/

/-- `bytes=` の後に `,` があれば範囲は二つ以上で読まず、無ければその一つの範囲を読む。 -/
theorem parseRangeHeader_one (s : List Char) :
    parseRangeHeader ("bytes=".toList ++ s) 1 = if ',' ∈ s then none else (parseRange s).map ([·]) := by
  have hpre : "bytes=".toList.isPrefixOf ("bytes=".toList ++ s) = true :=
    List.isPrefixOf_iff_prefix.mpr (List.prefix_append _ _)
  have hdrop : ("bytes=".toList ++ s).drop 6 = s := List.drop_left' rfl
  simp only [parseRangeHeader, hpre, if_true, hdrop, maxSplits]
  split
  · simp
  · simp only [List.length_singleton, gt_iff_lt, lt_self_iff_false, if_false, List.mapM_cons, List.mapM_nil]
    cases parseRange s <;> rfl

/-- `bytes=` で始まらない header は読まない。 -/
theorem parseRangeHeader_of_not_prefix {hdr : List Char} (h : ¬ "bytes=".toList <+: hdr) (n : Nat) :
    parseRangeHeader hdr n = none := by
  rw [parseRangeHeader, if_neg (fun hp => h (List.isPrefixOf_iff_prefix.mp hp))]

/-! ## 一つの範囲の内容の長さへの合わせ方 -/

/-- 端の組 `p` の `RawByteRange` の答え: 先頭が `UINT64_MAX` なら末尾の `p.2` byte、そうでなければ
閉区間 `[p.1, p.2]`。 -/
def rawDetails (L : Nat) (p : Nat × Nat) : Bool × List (Nat × Nat) :=
  if p.1 = uint64Max then suffixDetails L p.2 else byteRangeDetails L p.1 (some p.2)

theorem createAdjustedRangeDetails_singleton (x : RawByteRange) {L : Nat} (hL : 0 < L) :
    (createAdjustedRangeDetails [x] L).toPairs = rawDetails L x.toPair := by
  unfold createAdjustedRangeDetails
  rw [if_neg (List.cons_ne_nil _ _), dif_neg (Nat.pos_iff_ne_zero.mp hL)]
  by_cases hsuf : x.firstBytePos = uint64Max
  · -- suffix: 末尾の `suffixLength` byte
    simp only [adjustRanges, RawByteRange.isSuffix, hsuf, decide_true, dif_pos, RawByteRange.suffixLength,
      rawDetails, RawByteRange.toPair, if_true, suffixDetails]
    by_cases hzero : x.lastBytePos = 0
    · simp [hzero, RangeDetails.toPairs]
    · by_cases hall : L ≤ x.lastBytePos
      · simp [hzero, hall, RangeDetails.toPairs]
      · simp [hzero, hall, RangeDetails.toPairs]
  · -- 閉区間: 末尾は `L - 1` で切る
    have hns : ¬ x.isSuffix = true := by simpa [RawByteRange.isSuffix] using hsuf
    simp only [adjustRanges, dif_neg hns, rawDetails, RawByteRange.toPair, if_neg hsuf, byteRangeDetails,
      Option.mem_def, Option.some.injEq, forall_eq', Option.map_some, Option.getD_some]
    by_cases hfirst : L ≤ x.firstBytePos
    · simp [hfirst, RangeDetails.toPairs]
    · by_cases hlast : L - 1 ≤ x.lastBytePos
      · by_cases hzero : x.firstBytePos = 0
        · simp [hlast, hzero, hL.ne', RangeDetails.toPairs]
        · simp [hfirst, hlast, hzero, RangeDetails.toPairs]
          omega
      · have hmin : min x.lastBytePos (L - 1) = x.lastBytePos := by omega
        simp [hfirst, hlast, hmin, RangeDetails.toPairs]

/-- 末尾が `L - 1` 以上なら、末尾の無い範囲と同じ答え。 -/
theorem byteRangeDetails_some_of_le {L A b : Nat} (hb : L - 1 ≤ b) :
    byteRangeDetails L A (some b) = byteRangeDetails L A none := by
  have hc : (A = 0 ∧ ∀ x ∈ some b, L - 1 ≤ x) ↔ (A = 0 ∧ ∀ x ∈ (none : Option Nat), L - 1 ≤ x) := by
    simp only [Option.mem_def, Option.some.injEq, forall_eq', hb, and_true, reduceCtorEq, false_implies,
      implies_true]
  simp only [byteRangeDetails, hc, Option.map_some, Option.getD_some, Option.map_none, Option.getD_none,
    min_eq_right hb]

/-- 先頭が `UINT64_MAX` でない RFC の範囲では、code の答えはその範囲の意味である。 -/
theorem rawDetails_rawPair {r : RangeSpec} (hr : r.WellFormed) (hmax : r.firstPos ≠ some uint64Max)
    {L : Nat} (hL64 : L < 2 ^ 64) : rawDetails L r.rawPair = r.details L := by
  cases r with
  | closed a b =>
    have ha : value a ≠ uint64Max := fun he => hmax (by simp [firstPos, he])
    simp [rawDetails, rawPair, details, ha]
  | openEnded a =>
    have ha : value a ≠ uint64Max := fun he => hmax (by simp [firstPos, he])
    have hb : L - 1 ≤ uint64Max := by simp only [uint64Max]; omega
    simp only [rawDetails, rawPair, if_neg ha, details, byteRangeDetails_some_of_le hb]
  | suffix n => simp [rawDetails, rawPair, details]

/-! ## header 全体 -/

/-- 受け付ける書き方の範囲を一つ書いた header に、code はその端の組の答えで応える。 -/
theorem createRangeDetails_render {r : RangeSpec} (hr : r.Accepted) (hlen : r.render.length < 2 ^ 32)
    {L : Nat} (hL : 0 < L) :
    (createRangeDetails ("bytes=".toList ++ r.render) L).map RangeDetails.toPairs =
      some (rawDetails L r.rawPair) := by
  obtain ⟨x, hx, hpair⟩ := Option.map_eq_some_iff.mp (parseRange_render hr hlen)
  rw [createRangeDetails, parseRangeHeader_one, if_neg (comma_not_mem_render hr), hx]
  simp only [Option.map_some]
  rw [createAdjustedRangeDetails_singleton x hL, hpair]

/-- code が答える header は、受け付ける書き方の範囲を一つ書いたものである。 -/
theorem createRangeDetails_sound {hdr : List Char} (hlen : hdr.length < 2 ^ 32) {L : Nat} {d : RangeDetails}
    (h : createRangeDetails hdr L = some d) : ∃ r : RangeSpec, r.Accepted ∧ hdr = "bytes=".toList ++ r.render := by
  by_cases hpre : "bytes=".toList <+: hdr
  · obtain ⟨s, rfl⟩ := hpre
    rw [createRangeDetails, parseRangeHeader_one] at h
    split at h
    case isTrue => cases h
    case isFalse =>
    cases hx : parseRange s with
    | none => simp [hx] at h
    | some x =>
      have hlen' : s.length < 2 ^ 32 := by simp only [List.length_append] at hlen; omega
      obtain ⟨r, hr, rfl, -⟩ := parseRange_sound hlen' hx
      exact ⟨r, hr, rfl⟩
  · rw [createRangeDetails, parseRangeHeader_of_not_prefix hpre] at h
    cases h

end Envoy.Cache
