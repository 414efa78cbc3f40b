import Envoy.Http.Utility

/-!
# percent-encoding の往復

`PercentEncoding::encode` の速い道（符号化する文字が無ければ写すだけ）は、先頭から一文字ずつ
符号化する遅い道 `encode(value, 0, reserved_char_set)` と同じで、出力は `[' ', '~')` の予約されていない
byte と、大文字の十六進二桁の `%XX` だけからなる。`%` を予約した時、`decode` は `encode` の出力を元に
戻す。`char` の符号で `0x80` 以上の byte は `' '` より小さいとされ、符号化される。
-/

namespace Envoy.Http.Utility.PercentEncoding

/-- `%{:02X}` の出す大文字の十六進の数字。 -/
def upperHexDigits : Bytes := lit "0123456789ABCDEF"

variable {reservedChars : Bytes} {ch : UInt8}

/-! ## 一桁の十六進 -/

theorem hexDigit_fin :
    ∀ k : Fin 16, hexDigit (UInt8.ofNat k) ∈ upperHexDigits ∧ isXdigit (hexDigit (UInt8.ofNat k)) = true ∧
      hexValue (hexDigit (UInt8.ofNat k)) = UInt8.ofNat k := by
  decide

/-- 16 未満の値の `%X` の一桁は大文字の十六進の数字で、`decode` はそれを読んで値に戻す。 -/
theorem hexDigit_spec {n : UInt8} (h : n.toNat < 16) :
    hexDigit n ∈ upperHexDigits ∧ isXdigit (hexDigit n) = true ∧ hexValue (hexDigit n) = n := by
  simpa using hexDigit_fin ⟨n.toNat, h⟩

theorem toNat_div_sixteen_lt (ch : UInt8) : (ch / 16).toNat < 16 := by
  have : ch.toNat < 256 := UInt8.toNat_lt_size ch
  simp [UInt8.toNat_div]
  omega

theorem toNat_mod_sixteen_lt (ch : UInt8) : (ch % 16).toNat < 16 := by
  simp [UInt8.toNat_mod]
  omega

theorem div_mul_add_mod_sixteen (ch : UInt8) : ch / 16 * 16 + ch % 16 = ch := by
  apply UInt8.toNat_inj.mp
  have : ch.toNat < 256 := UInt8.toNat_lt_size ch
  simp [UInt8.toNat_add, UInt8.toNat_mul, UInt8.toNat_div, UInt8.toNat_mod]
  omega

/-! ## 一文字の符号化 -/

theorem encodeChar_of_needsEncoding (h : needsEncoding reservedChars ch = true) :
    encodeChar reservedChars ch = [37, hexDigit (ch / 16), hexDigit (ch % 16)] := if_pos h

theorem encodeChar_of_not_needsEncoding (h : needsEncoding reservedChars ch = false) :
    encodeChar reservedChars ch = [ch] := if_neg (by simp [h])

/-- 符号化しない文字だけの列は、一文字ずつ符号化しても変わらない。 -/
theorem flatMap_encodeChar_of_forall {l : Bytes} (h : ∀ ch ∈ l, needsEncoding reservedChars ch = false) :
    l.flatMap (encodeChar reservedChars) = l := by
  induction l with
  | nil => rfl
  | cons c l ih =>
    rw [List.flatMap_cons, encodeChar_of_not_needsEncoding (h c List.mem_cons_self),
      ih fun x hx => h x (List.mem_cons_of_mem c hx)]
    rfl

/-- 一文字の符号化は、予約されていない `[' ', '~')` の一文字か、大文字の十六進二桁の `%XX`。 -/
theorem encodeChar_shape (reservedChars : Bytes) (ch : UInt8) :
    (∃ c, encodeChar reservedChars ch = [c] ∧ 32 ≤ c ∧ c < 126 ∧ c ∉ reservedChars) ∨
      ∃ hi lo, encodeChar reservedChars ch = [37, hi, lo] ∧ hi ∈ upperHexDigits ∧ lo ∈ upperHexDigits := by
  cases hn : needsEncoding reservedChars ch with
  | true =>
    exact .inr ⟨_, _, encodeChar_of_needsEncoding hn, (hexDigit_spec (toNat_div_sixteen_lt ch)).1,
      (hexDigit_spec (toNat_mod_sixteen_lt ch)).1⟩
  | false =>
    -- `ch < ' ' || ch >= '~' || reserved_char_set.contains(ch)` が偽
    have hn' := hn
    simp only [needsEncoding, Bool.or_eq_false_iff, decide_eq_false_iff_not] at hn'
    exact .inl ⟨ch, encodeChar_of_not_needsEncoding hn, UInt8.not_lt.mp hn'.1.1, UInt8.not_le.mp hn'.1.2,
      hn'.2⟩

/-! ## 速い道と遅い道 -/

/-- 速い道は、先頭から一文字ずつ符号化するのと同じ。 -/
theorem encode_eq_flatMap (value reservedChars : Bytes) :
    encode value reservedChars = value.flatMap (encodeChar reservedChars) := by
  unfold encode
  split
  case h_1 hf =>
    -- 符号化する文字が無い
    exact (flatMap_encodeChar_of_forall fun c hc => by
      simpa using List.findIdx?_eq_none_iff.mp hf c hc).symm
  case h_2 index hf =>
    -- `index` の前には符号化する文字が無い
    obtain ⟨hlt, -, hbefore⟩ := List.findIdx?_eq_some_iff_getElem.mp hf
    have hprefix : (value.take index).flatMap (encodeChar reservedChars) = value.take index := by
      refine flatMap_encodeChar_of_forall fun c hc => ?_
      obtain ⟨j, hj, rfl⟩ := List.getElem_of_mem hc
      simp only [List.length_take] at hj
      simpa [List.getElem_take] using hbefore j (by omega)
    conv_rhs => rw [← List.take_append_drop index value]
    rw [List.flatMap_append, hprefix]

theorem encodeFrom_zero (value reservedChars : Bytes) :
    encodeFrom value 0 reservedChars = value.flatMap (encodeChar reservedChars) := by
  simp [encodeFrom]

/-! ## 読み戻し -/

theorem decode_cons_of_ne {c : UInt8} (h : c ≠ 37) (rest : Bytes) : decode (c :: rest) = c :: decode rest := by
  rw [decode.eq_def]
  split <;> simp_all

/-- `%` を予約すれば、一文字の符号化は `decode` でその一文字に戻る。 -/
theorem decode_encodeChar_append (h37 : 37 ∈ reservedChars) (ch : UInt8) (rest : Bytes) :
    decode (encodeChar reservedChars ch ++ rest) = ch :: decode rest := by
  cases hn : needsEncoding reservedChars ch with
  | true =>
    obtain ⟨-, hhi, hvhi⟩ := hexDigit_spec (toNat_div_sixteen_lt ch)
    obtain ⟨-, hlo, hvlo⟩ := hexDigit_spec (toNat_mod_sixteen_lt ch)
    rw [encodeChar_of_needsEncoding hn]
    simp only [List.cons_append, List.nil_append, decode, hhi, hlo, Bool.and_self, if_true, hvhi, hvlo,
      div_mul_add_mod_sixteen]
  | false =>
    -- 写した文字は `%` でない
    have hne : ch ≠ 37 := by
      rintro rfl
      simp [needsEncoding, h37] at hn
    rw [encodeChar_of_not_needsEncoding hn, List.singleton_append, decode_cons_of_ne hne]

theorem decode_flatMap_encodeChar (h37 : 37 ∈ reservedChars) (l rest : Bytes) :
    decode (l.flatMap (encodeChar reservedChars) ++ rest) = l ++ decode rest := by
  induction l with
  | nil => rfl
  | cons c l ih =>
    rw [List.flatMap_cons, List.append_assoc, decode_encodeChar_append h37, ih, List.cons_append]

/-- `%` を予約した `encode` は `decode` で元に戻り、出力は予約されていない `[' ', '~')` の byte と
大文字の `%XX` を一文字ずつ並べたもので、速い道は先頭からの遅い道 `encode(value, 0, …)` と同じ。 -/
theorem decode_encode (value reservedChars : Bytes) (h37 : 37 ∈ reservedChars) :
    decode (encode value reservedChars) = value ∧
      encode value reservedChars = (value.map (encodeChar reservedChars)).flatten ∧
      (∀ piece ∈ value.map (encodeChar reservedChars),
        (∃ c, piece = [c] ∧ 32 ≤ c ∧ c < 126 ∧ c ∉ reservedChars) ∨
          ∃ hi lo, piece = [37, hi, lo] ∧ hi ∈ upperHexDigits ∧ lo ∈ upperHexDigits) ∧
      encode value reservedChars = encodeFrom value 0 reservedChars := by
  have hflat := encode_eq_flatMap value reservedChars
  refine ⟨?_, by rw [hflat, List.flatMap_def], ?_, by rw [hflat, encodeFrom_zero]⟩
  · have hdec := decode_flatMap_encodeChar h37 value []
    rwa [List.append_nil, show decode [] = [] from rfl, List.append_nil, ← hflat] at hdec
  · intro piece hp
    obtain ⟨ch, -, rfl⟩ := List.mem_map.mp hp
    exact encodeChar_shape reservedChars ch

theorem decode_encode_default :
    (37 : UInt8) ∈ lit "%" ∧
      decode (encode (lit "a%b") (lit "%")) = lit "a%b" ∧
      encode (lit "a%b") (lit "%") = ((lit "a%b").map (encodeChar (lit "%"))).flatten ∧
      (∀ piece ∈ (lit "a%b").map (encodeChar (lit "%")),
        (∃ c, piece = [c] ∧ 32 ≤ c ∧ c < 126 ∧ c ∉ lit "%") ∨
          ∃ hi lo, piece = [37, hi, lo] ∧ hi ∈ upperHexDigits ∧ lo ∈ upperHexDigits) ∧
      encode (lit "a%b") (lit "%") = encodeFrom (lit "a%b") 0 (lit "%") :=
  ⟨by decide, decode_encode _ _ (by decide)⟩

example : encode (lit "a%b") (lit "%") = lit "a%25b" := by decide

end Envoy.Http.Utility.PercentEncoding
