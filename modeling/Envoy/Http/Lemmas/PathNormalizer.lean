import Envoy.Http.PathNormalizer
import Envoy.Http.PathNormalizationSpec
import Envoy.Lib.InPlace

/-!
# 復号の pass と `/` の併合の pass

`decodePass` は仕様の段 1 を、`mergeSlashesPass` は段 2 を計算する。どちらも一つの文字列の上で読みながら
書く繰り返しなので、`InPlace.Cursor` で書いた出力と残りの入力を追い、残りの入力についての帰納法で
示す。loop を一回り展開する補題を分岐ごとに一度だけ述べ、帰納法の各場合はそれを引く。
-/

namespace Envoy.Http.PathNormalizer

open Utility.PercentEncoding (isXdigit)
open InPlace

/-! ## 十六進の桁と unreserved の表 -/

-- 256 通りの byte を並べて確かめる
set_option maxRecDepth 8000 in
theorem hexDigit_bounded : ∀ n, n < 256 → isXdigit (UInt8.ofNat n) = true →
    (nibbleValue (normalizeNibble (UInt8.ofNat n))).toNat = hexDigitValue (UInt8.ofNat n) ∧
      normalizeNibble (UInt8.ofNat n) = toUpperHex (UInt8.ofNat n) ∧ hexDigitValue (UInt8.ofNat n) < 16 := by
  decide

set_option maxRecDepth 8000 in
theorem kUnreservedCharTable_bounded : ∀ n, n < 256 → kUnreservedCharTable (UInt8.ofNat n) = decide (Unreserved n) := by
  decide

theorem hexDigit_of_isXdigit {a : UInt8} (ha : isXdigit a = true) :
    (nibbleValue (normalizeNibble a)).toNat = hexDigitValue a ∧ normalizeNibble a = toUpperHex a ∧ hexDigitValue a < 16 := by
  have h := hexDigit_bounded a.toNat (UInt8.toNat_lt a) (by rwa [UInt8.ofNat_toNat])
  rwa [UInt8.ofNat_toNat] at h

theorem kUnreservedCharTable_eq (ch : UInt8) : kUnreservedCharTable ch = decide (Unreserved ch.toNat) := by
  have h := kUnreservedCharTable_bounded ch.toNat (UInt8.toNat_lt ch)
  rwa [UInt8.ofNat_toNat] at h

/-- 復号した byte の値。 -/
theorem toNat_octet {a b : UInt8} (ha : isXdigit a = true) (hb : isXdigit b = true) :
    (16 * nibbleValue (normalizeNibble a) + nibbleValue (normalizeNibble b)).toNat = hexDigitValue a * 16 + hexDigitValue b := by
  obtain ⟨hva, -, hlta⟩ := hexDigit_of_isXdigit ha
  obtain ⟨hvb, -, hltb⟩ := hexDigit_of_isXdigit hb
  rw [UInt8.toNat_add, UInt8.toNat_mul, hva, hvb]
  have : (16 : UInt8).toNat = 16 := rfl
  rw [this]
  omega

theorem octet_lt {a b : UInt8} (ha : isXdigit a = true) (hb : isXdigit b = true) :
    hexDigitValue a * 16 + hexDigitValue b < 256 := by
  have := (hexDigit_of_isXdigit ha).2.2
  have := (hexDigit_of_isXdigit hb).2.2
  omega

theorem ofNat_ne_percent_of_unreserved {o : Nat} (hu : Unreserved o) (ho : o < 256) : UInt8.ofNat o ≠ 37 := by
  intro h
  have : (UInt8.ofNat o).toNat = o := by rw [UInt8.toNat_ofNat']; omega
  rw [h] at this
  simp only [Unreserved] at hu
  have : (37 : UInt8).toNat = 37 := rfl
  omega

/-! ## `normalizeAndDecodeOctet` -/

theorem octetLoop_hex (preserveCase : Bool) {path : Bytes} {iter : Nat} {a b : UInt8}
    (hlen : iter + 2 < path.length) (ha : path.getD (iter + 1) 0 = a) (hb : path.getD (iter + 2) 0 = b)
    (hxa : isXdigit a = true) (hxb : isXdigit b = true) :
    octetLoop preserveCase 2 path iter 0 =
      (some (16 * nibbleValue (normalizeNibble a) + nibbleValue (normalizeNibble b)),
        if preserveCase then path else (path.set (iter + 1) (normalizeNibble a)).set (iter + 2) (normalizeNibble b)) := by
  have hb₁ : path.getD (iter + 1 + 1) 0 = b := hb
  have hb₂ : (path.set (iter + 1) (normalizeNibble a)).getD (iter + 1 + 1) 0 = b := by
    rw [List.getD_eq_getElem?_getD, List.getElem?_set_ne (by omega), ← List.getD_eq_getElem?_getD, hb₁]
  have h1 : iter + 1 ≠ path.length := by omega
  have h2 : iter + 1 + 1 ≠ path.length := by omega
  cases preserveCase with
  | true =>
    simp only [octetLoop, h1, h2, ha, hb₁, hxa, hxb, Bool.not_true, Bool.false_eq_true, if_false, if_true]
    simp
  | false =>
    simp only [octetLoop, h1, ha, hb₂, hxa, hxb, Bool.not_true, Bool.not_false, Bool.false_eq_true, if_false,
      if_true]
    simp [h2]

/-- 十六進の二桁の `%XY` を読む。既定の escape された `/` の扱いでは、unreserved なら復号し、そうでなければ
残す。`preserve_case` でなければ文字列の桁を大文字にする。 -/
theorem normalizeAndDecodeOctet_hex {config : UriPathNormalizationOptions}
    (hcfg : config.pathWithEscapedSlashesAction = .implementationSpecificDefault ∨
      config.pathWithEscapedSlashesAction = .keepUnchanged)
    (overrides : ConfigOverrides) {path : Bytes} {iter : Nat} {a b : UInt8} (hlen : iter + 2 < path.length)
    (hp : path.getD iter 0 = 37) (ha : path.getD (iter + 1) 0 = a) (hb : path.getD (iter + 2) 0 = b)
    (hxa : isXdigit a = true) (hxb : isXdigit b = true) :
    normalizeAndDecodeOctet config overrides path iter =
      (if Unreserved (hexDigitValue a * 16 + hexDigitValue b) then
          ⟨.decoded, UInt8.ofNat (hexDigitValue a * 16 + hexDigitValue b)⟩
        else ⟨.normalized, 0⟩,
        if overrides.preserveUrlEncodedCase then path
        else (path.set (iter + 1) (toUpperHex a)).set (iter + 2) (toUpperHex b)) := by
  have hval := toNat_octet hxa hxb
  rw [← (hexDigit_of_isXdigit hxa).2.1, ← (hexDigit_of_isXdigit hxb).2.1]
  unfold normalizeAndDecodeOctet
  rw [if_neg (not_or.mpr ⟨by omega, not_not.mpr hp⟩), octetLoop_hex _ hlen ha hb hxa hxb]
  dsimp only
  rw [kUnreservedCharTable_eq, hval]
  by_cases hu : Unreserved (hexDigitValue a * 16 + hexDigitValue b)
  · rw [if_pos (by simpa using hu), if_pos hu, ← hval, UInt8.ofNat_toNat]
  · rw [if_neg (by simpa using hu), if_neg hu]
    split
    · rcases hcfg with h | h <;> rw [h]
    · rfl

/-! ## `decodePassLoop` の一回り -/

section DecodeLoop

variable {config : UriPathNormalizationOptions} {overrides : ConfigOverrides} {allow : Bool}
  {path : Bytes} {read write : Nat} {redirect : Bool}

theorem decodePassLoop_done (h : ¬read < path.length) :
    decodePassLoop config overrides allow path read write redirect = some (path, write, redirect) := by
  rw [decodePassLoop, if_neg h]

theorem decodePassLoop_copy (hr : read < path.length) (hc : path.getD read 0 ≠ 37) :
    decodePassLoop config overrides allow path read write redirect =
      decodePassLoop config overrides allow (path.set write (path.getD read 0)) (read + 1) (write + 1) redirect := by
  rw [decodePassLoop, if_pos hr, if_neg hc]

end DecodeLoop

/-! ## 段 1 の式 -/

theorem decodeUnreserved_cons_of_ne (upperCase : Bool) {c : UInt8} (hc : c ≠ 37) (rest : Bytes) :
    decodeUnreserved upperCase (c :: rest) = c :: decodeUnreserved upperCase rest := by
  match rest with
  | a :: b :: rest => simp [decodeUnreserved, hc]
  | [a] => simp [decodeUnreserved]
  | [] => simp [decodeUnreserved]

theorem decodeUnreserved_escape (upperCase : Bool) {a b : UInt8} (ha : isXdigit a = true) (hb : isXdigit b = true)
    (rest : Bytes) :
    decodeUnreserved upperCase (37 :: a :: b :: rest) =
      if Unreserved (hexDigitValue a * 16 + hexDigitValue b) then
        UInt8.ofNat (hexDigitValue a * 16 + hexDigitValue b) :: decodeUnreserved upperCase rest
      else 37 :: (if upperCase then toUpperHex a else a) :: (if upperCase then toUpperHex b else b) ::
        decodeUnreserved upperCase rest := by
  simp [decodeUnreserved, ha, hb]

/-- 大文字にした（`preserve_case` なら元のままの）`%XY` を残りの入力に持つ位置。 -/
theorem cursor_normalizedCase (preserveCase : Bool) {path out rest : Bytes} {read write : Nat} {a b : UInt8}
    (hc : Cursor path read write out (37 :: a :: b :: rest)) :
    Cursor (if preserveCase then path else (path.set (read + 1) (toUpperHex a)).set (read + 2) (toUpperHex b))
      read write out
      (37 :: (if !preserveCase then toUpperHex a else a) :: (if !preserveCase then toUpperHex b else b) :: rest) := by
  cases preserveCase with
  | true => simpa using hc
  | false => simpa using (hc.setAhead 1 (toUpperHex a)).setAhead 2 (toUpperHex b)

/-- `decodePass` の loop は、どの `%` の後にも十六進の二桁がある残りの入力を、段 1 で写す。 -/
theorem decodePassLoop_spec {config : UriPathNormalizationOptions}
    (hcfg : config.pathWithEscapedSlashesAction = .implementationSpecificDefault ∨
      config.pathWithEscapedSlashesAction = .keepUnchanged)
    (overrides : ConfigOverrides) (allow : Bool) {rest : Bytes} (hrest : WellEscaped rest) :
    ∀ {path : Bytes} {read write : Nat} {out : Bytes}, Cursor path read write out rest → ∀ redirect,
      ∃ path' write', decodePassLoop config overrides allow path read write redirect = some (path', write', redirect) ∧
        path'.take write' = out ++ decodeUnreserved (!overrides.preserveUrlEncodedCase) rest := by
  induction hrest with
  | nil =>
    intro path read write out hc redirect
    refine ⟨path, write, decodePassLoop_done hc.not_lt_length, ?_⟩
    simp [hc.take_eq, decodeUnreserved]
  | @cons c rest hc37 _ ih =>
    intro path read write out hc redirect
    rw [decodePassLoop_copy hc.lt_length (by rw [hc.getD_read]; exact hc37), hc.getD_read]
    obtain ⟨path', write', hloop, htake⟩ := ih hc.copy redirect
    refine ⟨path', write', hloop, ?_⟩
    rw [htake, decodeUnreserved_cons_of_ne _ hc37, List.append_assoc, List.singleton_append]
  | @escape a b rest hxa hxb _ ih =>
    intro path read write out hc redirect
    have hlen : read + 2 < path.length := (hc.skipAppend [37, a]).lt_length
    have h37 : path.getD read 0 = 37 := hc.getD_read 0
    have ha : path.getD (read + 1) 0 = a := hc.getD_read_add 1 0
    have hb : path.getD (read + 2) 0 = b := hc.getD_read_add 2 0
    have hcase := cursor_normalizedCase overrides.preserveUrlEncodedCase hc
    rw [decodePassLoop, if_pos (by omega), if_pos h37, normalizeAndDecodeOctet_hex hcfg overrides hlen h37 ha hb hxa hxb,
      decodeUnreserved_escape _ hxa hxb]
    generalize (if overrides.preserveUrlEncodedCase then path
      else (path.set (read + 1) (toUpperHex a)).set (read + 2) (toUpperHex b)) = path₁ at hcase ⊢
    by_cases hu : Unreserved (hexDigitValue a * 16 + hexDigitValue b)
    · -- 復号した byte を `read[2]` に置き、次の回にそれを写す
      simp only [if_pos hu]
      have hc₂ : Cursor (path₁.set (read + 2) (UInt8.ofNat (hexDigitValue a * 16 + hexDigitValue b))) (read + 2) write
          out (UInt8.ofNat (hexDigitValue a * 16 + hexDigitValue b) :: rest) := by
        simpa using (hcase.skipAppend [37, _]).setAhead 0 (UInt8.ofNat (hexDigitValue a * 16 + hexDigitValue b))
      rw [decodePassLoop_copy hc₂.lt_length (by rw [hc₂.getD_read]; exact ofNat_ne_percent_of_unreserved hu (octet_lt hxa hxb)),
        hc₂.getD_read]
      obtain ⟨path', write', hloop, htake⟩ := ih hc₂.copy redirect
      exact ⟨path', write', hloop, by rw [htake]; simp⟩
    · -- 残す `%XY` の三文字を写す
      simp only [if_neg hu]
      have hc₁ := hcase.copy
      have hc₂ := hc₁.copy
      have hc₃ := hc₂.copy
      simp only [hcase.getD_read, hc₁.getD_read, hc₂.getD_read]
      obtain ⟨path', write', hloop, htake⟩ := ih hc₃ redirect
      exact ⟨path', write', hloop, by rw [htake]; simp⟩

/-- 先頭の `/` の後の `p` を段 1 で写し、拒否も redirect もしない。 -/
theorem decodePass_spec {config : UriPathNormalizationOptions}
    (hcfg : config.pathWithEscapedSlashesAction = .implementationSpecificDefault ∨
      config.pathWithEscapedSlashesAction = .keepUnchanged)
    (overrides : ConfigOverrides) (allow : Bool) {p : Bytes} (hp : WellEscaped p) :
    decodePass config overrides allow (47 :: p) =
      (.success, 47 :: decodeUnreserved (!overrides.preserveUrlEncodedCase) p) := by
  have hc : Cursor (47 :: p) 1 1 [47] p := cursor_init (47 :: p) (by simp)
  obtain ⟨path', write', hloop, htake⟩ := decodePassLoop_spec hcfg overrides allow hp hc false
  rw [decodePass, hloop]
  simp only [Bool.false_eq_true, if_false, htake]
  rfl

/-! ## `mergeSlashesPassLoop` の一回り -/

section MergeLoop

variable {path : Bytes} {read write : Nat}

theorem mergeSlashesPassLoop_done (h : ¬read < path.length) : mergeSlashesPassLoop path read write = (path, write) := by
  rw [mergeSlashesPassLoop, if_neg h]

theorem mergeSlashesPassLoop_skip (hr : read < path.length) (hc : path.getD read 0 = 47)
    (hprev : path.getD (write - 1) 0 = 47) : mergeSlashesPassLoop path read write = mergeSlashesPassLoop path (read + 1) write := by
  rw [mergeSlashesPassLoop, if_pos hr, if_pos hc]
  simp only [hprev, if_true]

theorem mergeSlashesPassLoop_copy (hr : read < path.length) (hc : ¬(path.getD read 0 = 47 ∧ path.getD (write - 1) 0 = 47)) :
    mergeSlashesPassLoop path read write =
      mergeSlashesPassLoop (path.set write (path.getD read 0)) (read + 1) (write + 1) := by
  rw [mergeSlashesPassLoop, if_pos hr]
  by_cases h47 : path.getD read 0 = 47
  · rw [if_pos h47]
    simp only [if_neg (fun h => hc ⟨h47, h⟩)]
  · rw [if_neg h47]

end MergeLoop

/-! ## 段 2 の式 -/

@[simp] theorem mergeSlashRuns_singleton (c : UInt8) : mergeSlashRuns [c] = [c] := by
  simp [mergeSlashRuns]

theorem mergeSlashRuns_slash_slash (rest : Bytes) : mergeSlashRuns (47 :: 47 :: rest) = mergeSlashRuns (47 :: rest) := by
  simp [mergeSlashRuns]

theorem mergeSlashRuns_cons_cons {c d : UInt8} (h : ¬(c = 47 ∧ d = 47)) (rest : Bytes) :
    mergeSlashRuns (c :: d :: rest) = c :: mergeSlashRuns (d :: rest) := by
  rw [mergeSlashRuns, if_neg (by simpa using h)]

/-- `mergeSlashesPass` の loop は、出力の最後の byte `prev` に続く残りの入力を、段 2 で写す。 -/
theorem mergeSlashesPassLoop_spec {rest : Bytes} :
    ∀ {path : Bytes} {read write : Nat} {init : Bytes} {prev : UInt8}, Cursor path read write (init ++ [prev]) rest →
      (mergeSlashesPassLoop path read write).1.take (mergeSlashesPassLoop path read write).2 =
        init ++ mergeSlashRuns (prev :: rest) := by
  induction rest with
  | nil =>
    intro path read write init prev hc
    rw [mergeSlashesPassLoop_done hc.not_lt_length, hc.take_eq, mergeSlashRuns_singleton]
  | cons c rest ih =>
    intro path read write init prev hc
    have hread := hc.getD_read 0
    have hprev := hc.getD_last 0
    by_cases hss : c = 47 ∧ prev = 47
    · -- 二つ目の `/` は読み飛ばす
      obtain ⟨rfl, rfl⟩ := hss
      rw [mergeSlashesPassLoop_skip hc.lt_length hread hprev, ih hc.skip, mergeSlashRuns_slash_slash]
    · rw [mergeSlashesPassLoop_copy hc.lt_length (by rw [hread, hprev]; exact fun h => hss h), hread,
        ih hc.copy, mergeSlashRuns_cons_cons (fun h => hss ⟨h.2, h.1⟩), List.append_assoc,
        List.singleton_append]

/-- 先頭が `/` の path の `/` の並びを一つにする。 -/
theorem mergeSlashesPass_spec (d : Bytes) : mergeSlashesPass (47 :: d) = (.success, mergeSlashRuns (47 :: d)) := by
  have hc : Cursor (47 :: d) 1 1 ([] ++ [47]) d := cursor_init (47 :: d) (by simp)
  rw [mergeSlashesPass, mergeSlashesPassLoop_spec hc, List.nil_append]

end Envoy.Http.PathNormalizer
