import Envoy.Http.ConfiguredNormalization
import Envoy.Http.Lemmas.PathNormalizer

/-!
# すべての設定での復号の pass

`decodePass` は、escape された `/` のどの扱いでも、不正な `%` を許すかどうかに依らず、`decodeOctets` を
計算する。loop の結果と段 1 の結果の対応を `Agrees` で述べ、loop の一回りを `normalizeAndDecodeOctet` の
返す結果ごとに一度だけ展開して、`decodeOctets` の関数の帰納法の各場合でそれを引く。
-/

namespace Envoy.Http.PathNormalizer

open Utility.PercentEncoding (isXdigit)
open InPlace

/-! ## `normalizeAndDecodeOctet` -/

/-- 十六進の二桁の `%XY` に `normalizeAndDecodeOctet` が返す結果。 -/
def escapeResult (action : PathWithEscapedSlashesAction) (octet : Nat) : DecodedOctet :=
  if Unreserved octet then ⟨.decoded, UInt8.ofNat octet⟩
  else if octet = 47 ∨ octet = 92 then
    match action with
    | .implementationSpecificDefault | .keepUnchanged => ⟨.normalized, 0⟩
    | .rejectRequest => ⟨.reject, 0⟩
    | .unescapeAndForward => ⟨.decoded, UInt8.ofNat octet⟩
    | .unescapeAndRedirect => ⟨.decodedRedirect, UInt8.ofNat octet⟩
  else ⟨.normalized, 0⟩

theorem isXdigit_zero : isXdigit 0 = false := by decide

theorem lt_length_of_isXdigit {path : Bytes} {i : Nat} (h : isXdigit (path.getD i 0) = true) : i < path.length := by
  by_contra hi
  rw [List.getD_eq_default _ _ (by omega), isXdigit_zero] at h
  cases h

/-- 一桁目が十六進の桁でなければ、文字列を変えずに止まる。 -/
theorem octetLoop_notHex₁ (preserveCase : Bool) {path : Bytes} {iter : Nat}
    (h : isXdigit (path.getD (iter + 1) 0) = false) : octetLoop preserveCase 2 path iter 0 = (none, path) := by
  by_cases he : iter + 1 = path.length
  · simp only [octetLoop, he, if_true]
  · simp only [octetLoop, he, h, if_false, Bool.not_false, if_true]

/-- 二桁目で止まると、一桁目は（`preserve_case` でなければ）大文字にしてある。 -/
theorem octetLoop_notHex₂ (preserveCase : Bool) {path : Bytes} {iter : Nat} {a : UInt8}
    (ha : path.getD (iter + 1) 0 = a) (hxa : isXdigit a = true) (h : isXdigit (path.getD (iter + 2) 0) = false) :
    octetLoop preserveCase 2 path iter 0 =
      (none, if preserveCase then path else path.set (iter + 1) (normalizeNibble a)) := by
  have h1 : iter + 1 ≠ path.length := (Nat.ne_of_lt (lt_length_of_isXdigit (ha ▸ hxa)))
  have hb₂ : (path.set (iter + 1) (normalizeNibble a)).getD (iter + 1 + 1) 0 = path.getD (iter + 2) 0 := by
    rw [List.getD_eq_getElem?_getD, List.getElem?_set_ne (by omega), ← List.getD_eq_getElem?_getD]
  cases preserveCase with
  | true =>
    by_cases he : iter + 1 + 1 = path.length
    · simp only [octetLoop, h1, ha, hxa, he, Bool.not_true, Bool.false_eq_true, if_false, if_true]
    · simp only [octetLoop, h1, ha, hxa, he, show iter + 1 + 1 = iter + 2 from rfl, h, Bool.not_true,
        Bool.not_false, Bool.false_eq_true, if_false, if_true]
  | false =>
    by_cases he : iter + 1 + 1 = path.length
    · simp only [octetLoop, h1, ha, hxa, List.length_set, he, Bool.not_true, Bool.not_false, Bool.false_eq_true,
        if_false, if_true]
    · simp only [octetLoop, h1, ha, hxa, List.length_set, he, hb₂, h, Bool.not_true, Bool.not_false,
        Bool.false_eq_true, if_false, if_true]

theorem normalizeAndDecodeOctet_notHex₁ (config : UriPathNormalizationOptions) (overrides : ConfigOverrides)
    {path : Bytes} {iter : Nat} (hr : iter < path.length) (hp : path.getD iter 0 = 37)
    (h : isXdigit (path.getD (iter + 1) 0) = false) :
    normalizeAndDecodeOctet config overrides path iter = (⟨.invalid, 0⟩, path) := by
  unfold normalizeAndDecodeOctet
  rw [if_neg (not_or.mpr ⟨by omega, not_not.mpr hp⟩), octetLoop_notHex₁ _ h]

theorem normalizeAndDecodeOctet_notHex₂ (config : UriPathNormalizationOptions) (overrides : ConfigOverrides)
    {path : Bytes} {iter : Nat} {a : UInt8} (hr : iter < path.length) (hp : path.getD iter 0 = 37)
    (ha : path.getD (iter + 1) 0 = a) (hxa : isXdigit a = true) (h : isXdigit (path.getD (iter + 2) 0) = false) :
    normalizeAndDecodeOctet config overrides path iter =
      (⟨.invalid, 0⟩, if overrides.preserveUrlEncodedCase then path else path.set (iter + 1) (toUpperHex a)) := by
  unfold normalizeAndDecodeOctet
  rw [if_neg (not_or.mpr ⟨by omega, not_not.mpr hp⟩), octetLoop_notHex₂ _ ha hxa h, (hexDigit_of_isXdigit hxa).2.1]

theorem ofNat_octet_eq_iff {a b : UInt8} (hxa : isXdigit a = true) (hxb : isXdigit b = true) (k : UInt8) :
    UInt8.ofNat (hexDigitValue a * 16 + hexDigitValue b) = k ↔ hexDigitValue a * 16 + hexDigitValue b = k.toNat := by
  rw [← UInt8.toNat_inj, UInt8.toNat_ofNat', Nat.mod_eq_of_lt (octet_lt hxa hxb)]

/-- 十六進の二桁の `%XY` を読む。どの設定でも、結果は `escapeResult`。 -/
theorem normalizeAndDecodeOctet_escape (config : UriPathNormalizationOptions) (overrides : ConfigOverrides)
    {path : Bytes} {iter : Nat} {a b : UInt8} (hlen : iter + 2 < path.length)
    (hp : path.getD iter 0 = 37) (ha : path.getD (iter + 1) 0 = a) (hb : path.getD (iter + 2) 0 = b)
    (hxa : isXdigit a = true) (hxb : isXdigit b = true) :
    normalizeAndDecodeOctet config overrides path iter =
      (escapeResult config.pathWithEscapedSlashesAction (hexDigitValue a * 16 + hexDigitValue b),
        if overrides.preserveUrlEncodedCase then path
        else (path.set (iter + 1) (toUpperHex a)).set (iter + 2) (toUpperHex b)) := by
  have hch : 16 * nibbleValue (normalizeNibble a) + nibbleValue (normalizeNibble b) =
      UInt8.ofNat (hexDigitValue a * 16 + hexDigitValue b) := by
    rw [← toNat_octet hxa hxb, UInt8.ofNat_toNat]
  rw [← (hexDigit_of_isXdigit hxa).2.1, ← (hexDigit_of_isXdigit hxb).2.1]
  unfold normalizeAndDecodeOctet escapeResult
  rw [if_neg (not_or.mpr ⟨by omega, not_not.mpr hp⟩), octetLoop_hex _ hlen ha hb hxa hxb]
  dsimp only
  rw [hch, kUnreservedCharTable_eq, UInt8.toNat_ofNat', Nat.mod_eq_of_lt (octet_lt hxa hxb)]
  by_cases hu : Unreserved (hexDigitValue a * 16 + hexDigitValue b)
  · rw [if_pos (by simpa using hu), if_pos hu]
  · rw [if_neg (by simpa using hu), if_neg hu]
    -- `ch == '/' || ch == '\\'` を octet の値で
    have hslash : (UInt8.ofNat (hexDigitValue a * 16 + hexDigitValue b) = 47 ∨
        UInt8.ofNat (hexDigitValue a * 16 + hexDigitValue b) = 92) ↔
        (hexDigitValue a * 16 + hexDigitValue b = 47 ∨ hexDigitValue a * 16 + hexDigitValue b = 92) := by
      rw [ofNat_octet_eq_iff hxa hxb, ofNat_octet_eq_iff hxa hxb]
      rfl
    by_cases hs : hexDigitValue a * 16 + hexDigitValue b = 47 ∨ hexDigitValue a * 16 + hexDigitValue b = 92
    · rw [if_pos (hslash.mpr hs), if_pos hs]
      cases config.pathWithEscapedSlashesAction <;> rfl
    · rw [if_neg (mt hslash.mp hs), if_neg hs]

/-! ## `decodePassLoop` の一回り -/

section DecodeLoop

variable {config : UriPathNormalizationOptions} {overrides : ConfigOverrides} {allow : Bool}
  {path : Bytes} {read write : Nat} {redirect : Bool} {o : UInt8} {path' : Bytes}

theorem decodePassLoop_invalid (hr : read < path.length) (hp : path.getD read 0 = 37)
    (hres : normalizeAndDecodeOctet config overrides path read = (⟨.invalid, o⟩, path')) :
    decodePassLoop config overrides allow path read write redirect =
      if allow then decodePassLoop config overrides allow (path'.set write (path'.getD read 0)) (read + 1) (write + 1) redirect
      else none := by
  rw [decodePassLoop, if_pos hr, if_pos hp]
  simp only [hres]

theorem decodePassLoop_reject (hr : read < path.length) (hp : path.getD read 0 = 37)
    (hres : normalizeAndDecodeOctet config overrides path read = (⟨.reject, o⟩, path')) :
    decodePassLoop config overrides allow path read write redirect = none := by
  rw [decodePassLoop, if_pos hr, if_pos hp]
  simp only [hres]

theorem decodePassLoop_normalized (hr : read < path.length) (hp : path.getD read 0 = 37)
    (hres : normalizeAndDecodeOctet config overrides path read = (⟨.normalized, o⟩, path')) :
    decodePassLoop config overrides allow path read write redirect =
      decodePassLoop config overrides allow
        (((path'.set write (path'.getD read 0)).set (write + 1) ((path'.set write (path'.getD read 0)).getD (read + 1) 0)).set
          (write + 2)
          (((path'.set write (path'.getD read 0)).set (write + 1)
            ((path'.set write (path'.getD read 0)).getD (read + 1) 0)).getD (read + 2) 0))
        (read + 3) (write + 3) redirect := by
  rw [decodePassLoop, if_pos hr, if_pos hp]
  simp only [hres]

theorem decodePassLoop_decoded (hr : read < path.length) (hp : path.getD read 0 = 37)
    (hres : normalizeAndDecodeOctet config overrides path read = (⟨.decoded, o⟩, path')) :
    decodePassLoop config overrides allow path read write redirect =
      decodePassLoop config overrides allow (path'.set (read + 2) o) (read + 2) write redirect := by
  rw [decodePassLoop, if_pos hr, if_pos hp]
  simp only [hres]

theorem decodePassLoop_decodedRedirect (hr : read < path.length) (hp : path.getD read 0 = 37)
    (hres : normalizeAndDecodeOctet config overrides path read = (⟨.decodedRedirect, o⟩, path')) :
    decodePassLoop config overrides allow path read write redirect =
      decodePassLoop config overrides allow (path'.set (read + 2) o) (read + 2) write true := by
  rw [decodePassLoop, if_pos hr, if_pos hp]
  simp only [hres]

end DecodeLoop

/-! ## loop と段 1 の対応 -/

/-- loop の結果が段 1 の結果に合う: 段 1 が拒否すれば loop も拒否し、そうでなければ loop の書いた出力は
`out` の後に段 1 の出力で、redirect の印は入ってきた印と段 1 の印の or。 -/
def Agrees (loop : Option (Bytes × Nat × Bool)) (out : Bytes) (redirect : Bool) : Option (Bytes × Bool) → Prop
  | none => loop = none
  | some r => ∃ path write, loop = some (path, write, redirect || r.2) ∧ path.take write = out ++ r.1

theorem Agrees.prepend {loop : Option (Bytes × Nat × Bool)} {out pre : Bytes} {redirect flag : Bool}
    {res : Option (Bytes × Bool)} (h : Agrees loop (out ++ pre) (redirect || flag) res) :
    Agrees loop out redirect (prependDecoded pre flag res) := by
  cases res with
  | none => exact h
  | some r =>
    obtain ⟨path, write, hloop, htake⟩ := h
    exact ⟨path, write, by rw [hloop, Bool.or_assoc], by rw [htake, List.append_assoc]⟩

theorem ne_percent_of_isXdigit {a : UInt8} (h : isXdigit a = true) : a ≠ 37 := by
  rintro rfl
  cases h

set_option maxRecDepth 8000 in
theorem isXdigit_toUpperHex_bounded : ∀ n, n < 256 → isXdigit (UInt8.ofNat n) = true →
    isXdigit (toUpperHex (UInt8.ofNat n)) = true := by
  decide

theorem isXdigit_upperIf (upperCase : Bool) {a : UInt8} (h : isXdigit a = true) : isXdigit (upperIf upperCase a) = true := by
  cases upperCase with
  | false => exact h
  | true =>
    have := isXdigit_toUpperHex_bounded a.toNat (UInt8.toNat_lt a) (by rwa [UInt8.ofNat_toNat])
    rwa [UInt8.ofNat_toNat] at this

/-- 一桁目を（`preserve_case` でなければ）大文字にした文字列の上の位置。 -/
theorem cursor_upperFirst (preserveCase : Bool) {path out tl : Bytes} {read write : Nat} {a : UInt8}
    (hc : Cursor path read write out (37 :: a :: tl)) :
    Cursor (if preserveCase then path else path.set (read + 1) (toUpperHex a)) read write out
      (37 :: upperIf (!preserveCase) a :: tl) := by
  cases preserveCase with
  | true => simpa [upperIf] using hc
  | false => simpa [upperIf] using hc.setAhead 1 (toUpperHex a)

section Steps

variable {config : UriPathNormalizationOptions} {overrides : ConfigOverrides} {allow : Bool}
  {D : Option (Bytes × Bool)}

/-- 残りの入力 `rest` のどの位置からの loop も `D` に合う。帰納法の仮定の形。 -/
def LoopAgrees (config : UriPathNormalizationOptions) (overrides : ConfigOverrides) (allow : Bool) (rest : Bytes)
    (D : Option (Bytes × Bool)) : Prop :=
  ∀ {path : Bytes} {read write : Nat} {out : Bytes}, Cursor path read write out rest → ∀ redirect,
    Agrees (decodePassLoop config overrides allow path read write redirect) out redirect D

/-- 戻した byte `o` を `read[2]` に置くと、次の回にそれを写す。 -/
theorem agrees_decoded {path out rest : Bytes} {read write : Nat} {a b o : UInt8} (ho : o ≠ 37)
    (hc : Cursor path read write out (37 :: a :: b :: rest)) (ih : LoopAgrees config overrides allow rest D)
    (redirect flag : Bool) :
    Agrees (decodePassLoop config overrides allow (path.set (read + 2) o) (read + 2) write (redirect || flag)) out redirect
      (prependDecoded [o] flag D) := by
  have hc₂ : Cursor (path.set (read + 2) o) (read + 2) write out (o :: rest) := by
    simpa using (hc.skipAppend [37, a]).setAhead 0 o
  rw [decodePassLoop_copy hc₂.lt_length (by rw [hc₂.getD_read]; exact ho), hc₂.getD_read]
  exact Agrees.prepend (ih hc₂.copy (redirect || flag))

/-- 残す `%XY` の三文字を写す。 -/
theorem agrees_normalized {path out rest : Bytes} {read write : Nat} {a b : UInt8}
    (hc : Cursor path read write out (37 :: a :: b :: rest)) (ih : LoopAgrees config overrides allow rest D)
    (redirect : Bool) :
    Agrees
      (decodePassLoop config overrides allow
        (((path.set write (path.getD read 0)).set (write + 1) ((path.set write (path.getD read 0)).getD (read + 1) 0)).set
          (write + 2)
          (((path.set write (path.getD read 0)).set (write + 1)
            ((path.set write (path.getD read 0)).getD (read + 1) 0)).getD (read + 2) 0))
        (read + 3) (write + 3) redirect) out redirect (prependDecoded [37, a, b] false D) := by
  have hc₁ := hc.copy
  have hc₂ := hc₁.copy
  have hc₃ := hc₂.copy
  simp only [hc.getD_read, hc₁.getD_read, hc₂.getD_read]
  exact Agrees.prepend (by simpa using ih hc₃ redirect)

/-- 残す `%` を写す。 -/
theorem agrees_percent {path out tl : Bytes} {read write : Nat} (hc : Cursor path read write out (37 :: tl))
    (ih : LoopAgrees config overrides allow tl D) (redirect : Bool) :
    Agrees (decodePassLoop config overrides allow (path.set write (path.getD read 0)) (read + 1) (write + 1) redirect)
      out redirect (prependDecoded [37] false D) := by
  rw [hc.getD_read]
  exact Agrees.prepend (by simpa using ih hc.copy redirect)

/-- 残す `%` と、続く一桁の十六進の桁を写す。 -/
theorem agrees_percentDigit {path out tl : Bytes} {read write : Nat} {a : UInt8} (ha : a ≠ 37)
    (hc : Cursor path read write out (37 :: a :: tl)) (ih : LoopAgrees config overrides allow tl D) (redirect : Bool) :
    Agrees (decodePassLoop config overrides allow (path.set write (path.getD read 0)) (read + 1) (write + 1) redirect)
      out redirect (prependDecoded [37, a] false D) := by
  rw [hc.getD_read]
  have hc₁ := hc.copy
  rw [decodePassLoop_copy hc₁.lt_length (by rw [hc₁.getD_read]; exact ha), hc₁.getD_read]
  exact Agrees.prepend (by simpa using ih hc₁.copy redirect)

end Steps

section Invalid

variable {config : UriPathNormalizationOptions} {overrides : ConfigOverrides} {allow : Bool}
  {D : Option (Bytes × Bool)} {path out : Bytes} {read write : Nat}

/-- 十六進の二桁が続かない `%` は、許さなければ拒否。 -/
theorem decodePassLoop_invalid_reject (hallow : allow = false) {tl : Bytes}
    (htl : ∀ a b rest, tl = a :: b :: rest → ¬(isXdigit a = true ∧ isXdigit b = true))
    (hc : Cursor path read write out (37 :: tl)) (redirect : Bool) :
    decodePassLoop config overrides allow path read write redirect = none := by
  have hr := hc.lt_length
  have hp : path.getD read 0 = 37 := hc.getD_read 0
  have h₁ : path.getD (read + 1) 0 = tl.getD 0 0 := hc.getD_read_add 1 0
  have h₂ : path.getD (read + 2) 0 = tl.getD 1 0 := hc.getD_read_add 2 0
  cases hxa : isXdigit (tl.getD 0 0) with
  | false =>
    rw [decodePassLoop_invalid hr hp (normalizeAndDecodeOctet_notHex₁ config overrides hr hp (h₁ ▸ hxa)), hallow]
    rfl
  | true =>
    -- 一桁目は十六進の桁なので、二桁目が十六進の桁でない
    have hxb : isXdigit (tl.getD 1 0) = false := by
      match tl, htl, hxa with
      | a :: b :: rest, htl, hxa =>
        cases hb : isXdigit b with
        | false => exact hb
        | true => exact absurd ⟨hxa, hb⟩ (htl a b rest rfl)
      | [_], _, _ => rfl
      | [], _, hxa => cases hxa
    rw [decodePassLoop_invalid hr hp
      (normalizeAndDecodeOctet_notHex₂ config overrides hr hp h₁ hxa (h₂ ▸ hxb)), hallow]
    rfl

/-- 続く一桁だけが十六進の桁の `%` を、許せば写す。 -/
theorem agrees_invalidDigit (hallow : allow = true) {a : UInt8} {tl : Bytes} (hxa : isXdigit a = true)
    (htl : ∀ b rest, tl = b :: rest → isXdigit b = false) (hc : Cursor path read write out (37 :: a :: tl))
    (ih : LoopAgrees config overrides allow tl D) (redirect : Bool) :
    Agrees (decodePassLoop config overrides allow path read write redirect) out redirect
      (prependDecoded [37, upperIf (!overrides.preserveUrlEncodedCase) a] false D) := by
  have hr := hc.lt_length
  have hp : path.getD read 0 = 37 := hc.getD_read 0
  have hxb : isXdigit (path.getD (read + 2) 0) = false := by
    rw [hc.getD_read_add 2 0]
    match tl, htl with
    | b :: rest, htl => exact htl b rest rfl
    | [], _ => rfl
  rw [decodePassLoop_invalid hr hp
    (normalizeAndDecodeOctet_notHex₂ config overrides hr hp (hc.getD_read_add 1 0) hxa hxb), if_pos hallow]
  exact agrees_percentDigit (ne_percent_of_isXdigit (isXdigit_upperIf _ hxa))
    (cursor_upperFirst overrides.preserveUrlEncodedCase hc) ih redirect

/-- 十六進の桁が続かない `%` を、許せば写す。 -/
theorem agrees_invalidPercent (hallow : allow = true) {tl : Bytes} (htl : ∀ a rest, tl = a :: rest → isXdigit a = false)
    (hc : Cursor path read write out (37 :: tl)) (ih : LoopAgrees config overrides allow tl D) (redirect : Bool) :
    Agrees (decodePassLoop config overrides allow path read write redirect) out redirect (prependDecoded [37] false D) := by
  have hr := hc.lt_length
  have hp : path.getD read 0 = 37 := hc.getD_read 0
  have hxa : isXdigit (path.getD (read + 1) 0) = false := by
    rw [hc.getD_read_add 1 0]
    match tl, htl with
    | a :: rest, htl => exact htl a rest rfl
    | [], _ => rfl
  rw [decodePassLoop_invalid hr hp (normalizeAndDecodeOctet_notHex₁ config overrides hr hp hxa), if_pos hallow]
  exact agrees_percent hc ih redirect

end Invalid

/-- 十六進の二桁の `%XY` の一回り: `escapeResult` の場合ごとに、戻した byte を写すか、三文字を写すか、拒否する。 -/
theorem agrees_escape {config : UriPathNormalizationOptions} {overrides : ConfigOverrides} {allow : Bool}
    {D : Option (Bytes × Bool)} {path out rest : Bytes} {read write : Nat} {a b : UInt8}
    (hxa : isXdigit a = true) (hxb : isXdigit b = true) (hc : Cursor path read write out (37 :: a :: b :: rest))
    (ih : LoopAgrees config overrides allow rest D) (redirect : Bool) :
    Agrees (decodePassLoop config overrides allow path read write redirect) out redirect
      (decodeEscape config.pathWithEscapedSlashesAction (!overrides.preserveUrlEncodedCase) a b D) := by
  have hr := hc.lt_length
  have hp : path.getD read 0 = 37 := hc.getD_read 0
  have ha : path.getD (read + 1) 0 = a := hc.getD_read_add 1 0
  have hb : path.getD (read + 2) 0 = b := hc.getD_read_add 2 0
  have hres := normalizeAndDecodeOctet_escape config overrides (hc.skipAppend [37, a]).lt_length hp ha hb hxa hxb
  have hcase := cursor_normalizedCase overrides.preserveUrlEncodedCase hc
  generalize (if overrides.preserveUrlEncodedCase then path
    else (path.set (read + 1) (toUpperHex a)).set (read + 2) (toUpperHex b)) = path₁ at hres hcase
  have hdecoded := fun (o : UInt8) (ho : o ≠ 37) (flag : Bool) => agrees_decoded ho hcase ih redirect flag
  unfold decodeEscape
  dsimp only
  by_cases hu : Unreserved (hexDigitValue a * 16 + hexDigitValue b)
  · simp only [escapeResult, if_pos hu] at hres
    rw [if_pos hu, decodePassLoop_decoded hr hp hres]
    simpa using hdecoded _ (ofNat_ne_percent_of_unreserved hu (octet_lt hxa hxb)) false
  by_cases hs : hexDigitValue a * 16 + hexDigitValue b = 47 ∨ hexDigitValue a * 16 + hexDigitValue b = 92
  · have hslash : UInt8.ofNat (hexDigitValue a * 16 + hexDigitValue b) ≠ 37 := by
      rw [Ne, ofNat_octet_eq_iff hxa hxb]
      rcases hs with h | h <;> rw [h] <;> decide
    simp only [escapeResult, if_neg hu, if_pos hs] at hres
    rw [if_neg hu, if_pos hs]
    cases haction : config.pathWithEscapedSlashesAction <;> rw [haction] at hres <;> dsimp only at hres ⊢
    · rw [decodePassLoop_normalized hr hp hres]
      exact agrees_normalized hcase ih redirect
    · rw [decodePassLoop_normalized hr hp hres]
      exact agrees_normalized hcase ih redirect
    · exact decodePassLoop_reject hr hp hres
    · rw [decodePassLoop_decoded hr hp hres]
      simpa using hdecoded _ hslash false
    · rw [decodePassLoop_decodedRedirect hr hp hres]
      simpa using hdecoded _ hslash true
  · simp only [escapeResult, if_neg hu, if_neg hs] at hres
    rw [if_neg hu, if_neg hs, decodePassLoop_normalized hr hp hres]
    exact agrees_normalized hcase ih redirect

/-- どの位置からの loop も、残りの入力の段 1 に合う。`decodeOctets` の関数の帰納法で。 -/
theorem loopAgrees_decodeOctets (config : UriPathNormalizationOptions) (overrides : ConfigOverrides) (allow : Bool)
    (rest : Bytes) :
    LoopAgrees config overrides allow rest
      (decodeOctets config.pathWithEscapedSlashesAction allow (!overrides.preserveUrlEncodedCase) rest) := by
  fun_induction decodeOctets config.pathWithEscapedSlashesAction allow (!overrides.preserveUrlEncodedCase) rest with
  | case1 =>
    intro path read write out hc redirect
    exact ⟨path, write, by simp [decodePassLoop_done hc.not_lt_length], by simp [hc.take_eq]⟩
  | case2 a b rest hab ih =>
    intro path read write out hc redirect
    exact agrees_escape hab.1 hab.2 hc ih redirect
  | case3 a b rest hab hallow =>
    have htl : ∀ x y z, a :: b :: rest = x :: y :: z → ¬(isXdigit x = true ∧ isXdigit y = true) := by
      intro x y z h
      obtain ⟨rfl, rfl, rfl⟩ : a = x ∧ b = y ∧ rest = z := by simpa using h
      exact hab
    intro path read write out hc redirect
    exact decodePassLoop_invalid_reject (by simpa using hallow) htl hc redirect
  | case4 a b rest hab hallow hxa ih =>
    have hxb : isXdigit b = false := by simpa [hxa] using hab
    have htl : ∀ y z, b :: rest = y :: z → isXdigit y = false := by
      intro y z h
      obtain ⟨rfl, rfl⟩ : b = y ∧ rest = z := by simpa using h
      exact hxb
    intro path read write out hc redirect
    exact agrees_invalidDigit (by simpa using hallow) hxa htl hc ih redirect
  | case5 a b rest hab hallow hxa ih =>
    have htl : ∀ y z, a :: b :: rest = y :: z → isXdigit y = false := by
      intro y z h
      obtain ⟨rfl, rfl⟩ : a = y ∧ b :: rest = z := by simpa using h
      simpa using hxa
    intro path read write out hc redirect
    exact agrees_invalidPercent (by simpa using hallow) htl hc ih redirect
  | case6 a hallow =>
    intro path read write out hc redirect
    exact decodePassLoop_invalid_reject (by simpa using hallow) (by simp) hc redirect
  | case7 a hallow hxa ih =>
    intro path read write out hc redirect
    exact agrees_invalidDigit (by simpa using hallow) hxa (by simp) hc ih redirect
  | case8 a hallow hxa ih =>
    have htl : ∀ y z, [a] = y :: z → isXdigit y = false := by
      intro y z h
      obtain ⟨rfl, rfl⟩ : a = y ∧ [] = z := by simpa using h
      simpa using hxa
    intro path read write out hc redirect
    exact agrees_invalidPercent (by simpa using hallow) htl hc ih redirect
  | case9 hallow ih =>
    intro path read write out hc redirect
    exact agrees_invalidPercent hallow (by simp) hc ih redirect
  | case10 hallow =>
    intro path read write out hc redirect
    exact decodePassLoop_invalid_reject (by simpa using hallow) (by simp) hc redirect
  | case11 c tl hc37 ih =>
    intro path read write out hc redirect
    rw [decodePassLoop_copy hc.lt_length (by rw [hc.getD_read]; exact hc37), hc.getD_read]
    exact Agrees.prepend (by simpa using ih hc.copy redirect)

/-- 先頭の `/` の後の `p` を、どの設定でも段 1 の一般形で写す。 -/
theorem decodePass_eq (config : UriPathNormalizationOptions) (overrides : ConfigOverrides) (allow : Bool) (p : Bytes) :
    decodePass config overrides allow (47 :: p) =
      match decodeOctets config.pathWithEscapedSlashesAction allow (!overrides.preserveUrlEncodedCase) p with
      | none => (⟨.reject, invalidUrl⟩, 47 :: p)
      | some (d, redirect) => (if redirect then ⟨.redirect, redirectNormalized⟩ else .success, 47 :: d) := by
  have hc : Cursor (47 :: p) 1 1 [47] p := cursor_init (47 :: p) (by simp)
  have h := loopAgrees_decodeOctets config overrides allow p hc false
  unfold decodePass
  cases hd : decodeOctets config.pathWithEscapedSlashesAction allow (!overrides.preserveUrlEncodedCase) p with
  | none =>
    rw [hd] at h
    rw [show decodePassLoop config overrides allow (47 :: p) 1 1 false = none from h]
  | some r =>
    obtain ⟨d, redirect⟩ := r
    rw [hd] at h
    obtain ⟨path, write, hloop, htake⟩ := h
    rw [hloop]
    dsimp only
    rw [htake, Bool.false_or]
    rfl

end Envoy.Http.PathNormalizer
