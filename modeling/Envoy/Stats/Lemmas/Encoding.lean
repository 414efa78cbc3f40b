import Envoy.Stats.Encoding

/-!
# 可変長の数と字句の列の往復

`appendEncoding` で書いた数は `decodeNumber` で読み戻せ、字句の符号を並べた `StatName` は
`decodeTokens` で同じ字句の列に戻る。`join` は字句の列をつなぐ。
-/

namespace Envoy.Stats

namespace SymbolTable.Encoding

/-! ## 可変長の数 -/

theorem shiftRight_seven (n : Nat) : n >>> 7 = n / 128 := by
  rw [Nat.shiftRight_eq_div_pow]

theorem toNat_encodingByte_of_lt {n : Nat} (h : n < 128) : (encodingByte n).toNat = n := by
  have h' : n < 1 <<< 7 := h
  rw [encodingByte, if_pos h', Nat.toUInt8_eq, UInt8.toNat_ofNat']
  omega

theorem toNat_encodingByte_of_le {n : Nat} (h : 128 ≤ n) : (encodingByte n).toNat = n % 128 + 128 := by
  have h' : ¬n < 1 <<< 7 := by simpa using Nat.not_lt.mpr h
  have hand : n &&& low7Bits = n % 128 := Nat.and_two_pow_sub_one_eq_mod n 7
  have hor : n % 128 ||| spilloverMask = n % 128 + 128 := by
    rw [show spilloverMask = 2 ^ 7 * 1 from rfl, Nat.lor_comm,
      ← Nat.two_pow_add_eq_or_of_lt (Nat.mod_lt n (by omega))]
    omega
  rw [encodingByte, if_neg h', Nat.toUInt8_eq, UInt8.toNat_ofNat', hand, hor]
  omega

theorem appendEncodingLoop_eq_of_lt {fuel fuel' number : Nat} (h : number < fuel) (h' : number < fuel') :
    appendEncodingLoop fuel number = appendEncodingLoop fuel' number := by
  induction fuel generalizing fuel' number with
  | zero => omega
  | succ fuel ih =>
    cases fuel' with
    | zero => omega
    | succ fuel' =>
      simp only [appendEncodingLoop]
      split
      · rfl
      · rename_i hne
        have : number >>> 7 < number := by rw [shiftRight_seven] at hne ⊢; omega
        congr 1
        exact ih (by omega) (by omega)

/-- `do ... while` の一回を剥がす。 -/
theorem appendEncoding_eq (number : Nat) :
    appendEncoding number =
      if number >>> 7 = 0 then [encodingByte number]
      else encodingByte number :: appendEncoding (number >>> 7) := by
  rw [appendEncoding, appendEncodingLoop]
  split
  · rfl
  · rename_i hne
    have : number >>> 7 < number := by rw [shiftRight_seven] at hne ⊢; omega
    congr 1
    exact appendEncodingLoop_eq_of_lt (by omega) (by omega)

theorem encodingSizeBytesLoop_eq {fuel number : Nat} (h : number < fuel) :
    encodingSizeBytesLoop fuel number = (appendEncodingLoop fuel number).length := by
  induction fuel generalizing number with
  | zero => omega
  | succ fuel ih =>
    simp only [encodingSizeBytesLoop, appendEncodingLoop]
    split
    · rfl
    · rename_i hne
      have : number >>> 7 < number := by rw [shiftRight_seven] at hne ⊢; omega
      rw [ih (by omega), List.length_cons]

/-- `encodingSizeBytes()` は `appendEncoding()` の書く byte の数。 -/
@[simp] theorem encodingSizeBytes_eq (number : Nat) :
    encodingSizeBytes number = (appendEncoding number).length :=
  encodingSizeBytesLoop_eq (Nat.lt_succ_self number)

theorem appendEncoding_ne_nil (number : Nat) : appendEncoding number ≠ [] := by
  rw [appendEncoding_eq]
  split <;> simp

/-- 正の数の符号の先頭は `LiteralStringIndicator` でない。 -/
theorem appendEncoding_head {number : Nat} (h : 0 < number) :
    ∃ b rest, appendEncoding number = b :: rest ∧ b ≠ literalStringIndicator := by
  rw [appendEncoding_eq]
  have hb : encodingByte number ≠ literalStringIndicator := by
    intro he
    have := congrArg UInt8.toNat he
    by_cases hlt : number < 128
    · rw [toNat_encodingByte_of_lt hlt] at this
      simp [literalStringIndicator] at this
      omega
    · rw [toNat_encodingByte_of_le (by omega)] at this
      simp [literalStringIndicator] at this
  split
  · exact ⟨_, _, rfl, hb⟩
  · exact ⟨_, _, rfl, hb⟩

/-- 可変長の数の往復: 後ろに何が続いても、書いた数とその byte の数を読む。 -/
theorem decodeNumber_appendEncoding (number : Nat) (rest : Bytes) :
    decodeNumber (appendEncoding number ++ rest) = (number, (appendEncoding number).length) := by
  induction number using Nat.strong_induction_on with
  | _ number ih =>
    rw [appendEncoding_eq]
    split
    · rename_i h0
      have hlt : number < 128 := by rw [shiftRight_seven] at h0; omega
      have hb := toNat_encodingByte_of_lt hlt
      simp only [List.cons_append, List.nil_append, decodeNumber, hb, spilloverMask, List.length_singleton]
      rw [if_pos hlt]
    · rename_i h0
      have hle : 128 ≤ number := by rw [shiftRight_seven] at h0; omega
      have hb := toNat_encodingByte_of_le hle
      have hlt : number >>> 7 < number := by rw [shiftRight_seven]; omega
      simp only [List.cons_append, decodeNumber, hb, spilloverMask, ih _ hlt, List.length_cons]
      rw [if_neg (by omega)]
      -- 下の 7 bit と、残りを 7 bit ずらしたものの or
      have hand : (number % 128 + 128) &&& low7Bits = number % 128 := by
        rw [show low7Bits = 2 ^ 7 - 1 from rfl, Nat.and_two_pow_sub_one_eq_mod]
        omega
      have hor : number % 128 ||| number >>> 7 <<< 7 = number := by
        rw [Nat.lor_comm, ← Nat.shiftLeft_add_eq_or_of_lt (Nat.mod_lt number (by omega)),
          Nat.shiftLeft_eq, shiftRight_seven]
        omega
      rw [hand, hor]

/-- 符号の byte の数は `1 + ⌊log₁₂₈ number⌋`: 一 byte ごとに 7 bit ずらす。 -/
theorem length_appendEncoding (number : Nat) : (appendEncoding number).length = 1 + Nat.log 128 number := by
  induction number using Nat.strong_induction_on with
  | _ number ih =>
    rw [appendEncoding_eq]
    split
    · rename_i h0
      have hlt : number < 128 := by rw [shiftRight_seven] at h0; omega
      rw [Nat.log_of_lt hlt]
      rfl
    · rename_i h0
      have hle : 128 ≤ number := by rw [shiftRight_seven] at h0; omega
      have hlt : number >>> 7 < number := by rw [shiftRight_seven]; omega
      rw [List.length_cons, ih _ hlt, shiftRight_seven, Nat.log_of_one_lt_of_le (by norm_num) hle]
      omega

end SymbolTable.Encoding

/-! ## 字句の列 -/

namespace Token

open SymbolTable.Encoding

/-- 字句の符号: symbol は可変長の数、文字列は `LiteralStringIndicator`、長さ、中身の順。 -/
def encode : Token → Bytes
  | .symbol s => appendEncoding s
  | .stringView sv => literalStringIndicator :: appendEncoding sv.length ++ sv

/-- symbol 0 は使わない（`FirstValidSymbol`）。 -/
def Valid : Token → Prop
  | .symbol s => 0 < s
  | .stringView _ => True

theorem length_encode_pos (t : Token) : 0 < t.encode.length := by
  cases t with
  | symbol s => exact List.length_pos_iff.mpr (appendEncoding_ne_nil s)
  | stringView sv => simp [encode]

end Token

open SymbolTable.Encoding

/-- 字句の符号をつないだ中身。 -/
def tokensBytes (ts : List Token) : Bytes := ts.flatMap Token.encode

/-- 字句の列からなる `StatName`: 中身の長さに中身が続く。 -/
def ofTokens (ts : List Token) : StatName := appendEncoding (tokensBytes ts).length ++ tokensBytes ts

@[simp] theorem tokensBytes_nil : tokensBytes [] = [] := rfl

@[simp] theorem tokensBytes_cons (t : Token) (ts : List Token) :
    tokensBytes (t :: ts) = t.encode ++ tokensBytes ts := rfl

theorem tokensBytes_append (ts ts' : List Token) :
    tokensBytes (ts ++ ts') = tokensBytes ts ++ tokensBytes ts' := List.flatMap_append

theorem tokensBytes_flatten (tss : List (List Token)) :
    tokensBytes tss.flatten = (tss.map tokensBytes).flatten := by
  induction tss with
  | nil => rfl
  | cons ts tss ih => rw [List.flatten_cons, tokensBytes_append, ih, List.map_cons, List.flatten_cons]

theorem length_le_length_tokensBytes (ts : List Token) : ts.length ≤ (tokensBytes ts).length := by
  induction ts with
  | nil => simp
  | cons t ts ih =>
    have := t.length_encode_pos
    simp only [tokensBytes_cons, List.length_append, List.length_cons]
    omega

namespace SymbolTable.Encoding.TokenIter

/-- 一つの字句の符号を読むと、その字句が出て、読んだ byte の分だけ進む。 -/
theorem next_encode {t : Token} (ht : t.Valid) (rest : Bytes) (k : Nat) :
    next ⟨t.encode ++ rest, t.encode.length + k⟩ = some (t, ⟨rest, k⟩) := by
  cases t with
  | symbol s =>
    obtain ⟨b, bs, heq, hb⟩ := appendEncoding_head (show 0 < s from ht)
    have hsize : (appendEncoding s).length + k ≠ 0 := by simp [heq]
    have hhead : (appendEncoding s ++ rest).head? ≠ some literalStringIndicator := by simp [heq, hb]
    simp only [next, Token.encode, if_neg hsize, if_neg hhead, decodeNumber_appendEncoding,
      List.drop_left, Nat.add_sub_cancel_left]
  | stringView sv =>
    simp only [next, Token.encode, List.length_cons, List.length_append, List.cons_append,
      List.head?_cons, List.drop_succ_cons, List.drop_zero, List.append_assoc,
      decodeNumber_appendEncoding, List.drop_left, List.take_left, List.drop_left]
    rw [if_pos trivial, if_neg (by omega)]
    simp only [Option.some.injEq, Prod.mk.injEq, TokenIter.mk.injEq, true_and]
    omega

end SymbolTable.Encoding.TokenIter

/-- 字句の符号の列は、十分な回数の `while` で同じ字句の列に戻る。 -/
theorem decodeTokensLoop_tokensBytes {ts : List Token} (hv : ∀ t ∈ ts, t.Valid) (rest : Bytes)
    {fuel : Nat} (hfuel : ts.length ≤ fuel) :
    decodeTokensLoop fuel ⟨tokensBytes ts ++ rest, (tokensBytes ts).length⟩ = ts := by
  induction ts generalizing fuel with
  | nil =>
    cases fuel with
    | zero => rfl
    | succ fuel => simp [decodeTokensLoop, TokenIter.next]
  | cons t ts ih =>
    cases fuel with
    | zero => simp at hfuel
    | succ fuel =>
      have hnext := TokenIter.next_encode (hv t (by simp)) (tokensBytes ts ++ rest) (tokensBytes ts).length
      simp only [tokensBytes_cons, List.append_assoc, List.length_append]
      rw [decodeTokensLoop, hnext]
      simp only [List.cons.injEq, true_and]
      exact ih (fun t' ht' => hv t' (by simp [ht'])) (by simpa using hfuel)

theorem dataAsStringView_ofTokens_append (ts : List Token) (rest : Bytes) :
    StatName.dataAsStringView (ofTokens ts ++ rest) = tokensBytes ts := by
  simp [StatName.dataAsStringView, ofTokens, decodeNumber_appendEncoding]

@[simp] theorem dataAsStringView_ofTokens (ts : List Token) :
    StatName.dataAsStringView (ofTokens ts) = tokensBytes ts := by
  simpa using dataAsStringView_ofTokens_append ts []

theorem size_ofTokens_append (ts : List Token) (rest : Bytes) :
    StatName.size (ofTokens ts ++ rest) = (ofTokens ts).length := by
  rw [StatName.size, StatName.dataSize, dataAsStringView_ofTokens_append, totalSizeBytes,
    encodingSizeBytes_eq, ofTokens, List.length_append]

@[simp] theorem size_ofTokens (ts : List Token) : StatName.size (ofTokens ts) = (ofTokens ts).length := by
  simpa using size_ofTokens_append ts []

@[simp] theorem empty_ofTokens (ts : List Token) : StatName.empty (ofTokens ts) = ts.isEmpty := by
  cases ts with
  | nil => decide
  | cons t ts =>
    have hpos : 0 < (tokensBytes (t :: ts)).length := by
      have := t.length_encode_pos
      simp only [tokensBytes_cons, List.length_append]
      omega
    obtain ⟨b, bs, heq, hb⟩ := appendEncoding_head hpos
    simp only [StatName.empty, ofTokens, heq, List.cons_append, List.head?_cons, List.isEmpty_cons]
    simpa [literalStringIndicator] using hb

/-- `decodeTokens()` の往復。 -/
theorem decodeTokens_ofTokens {ts : List Token} (hv : ∀ t ∈ ts, t.Valid) :
    decodeTokens (ofTokens ts) = ts := by
  have hcreate : TokenIter.create (ofTokens ts) = ⟨tokensBytes ts, (tokensBytes ts).length⟩ := by
    simp [TokenIter.create, ofTokens, decodeNumber_appendEncoding]
  have hfuel : ts.length ≤ (ofTokens ts).length := by
    have := length_le_length_tokensBytes ts
    simp only [ofTokens, List.length_append]
    omega
  rw [decodeTokens, hcreate]
  simpa using decodeTokensLoop_tokensBytes hv [] hfuel

/-! ## 名前を作る関数は字句の列を作る -/

/-- `encode()` の塊: symbol の字句の列。 -/
theorem moveToMemBlock_addSymbols (symbols : List Symbol) :
    moveToMemBlock (addSymbols symbols) = ofTokens (symbols.map .symbol) := by
  have hbytes : tokensBytes (symbols.map .symbol) = symbols.flatMap appendEncoding := by
    simp [tokensBytes, List.flatMap_map, Token.encode]
  have hsize : encodingSizeBytes = fun a => (appendEncoding a).length := funext encodingSizeBytes_eq
  have hsum : (symbols.map encodingSizeBytes).sum = (symbols.flatMap appendEncoding).length := by
    simp [hsize, List.length_flatMap]
  rw [moveToMemBlock, addSymbols, ofTokens, hbytes]
  dsimp only
  rw [hsum]

/-- `makeDynamicStorage()` の塊: 一つの文字列の字句。 -/
theorem makeDynamicStorage_eq (name : Bytes) :
    SymbolTable.makeDynamicStorage name = ofTokens [.stringView (removeTrailingCharacters name dot)] := by
  simp [SymbolTable.makeDynamicStorage, ofTokens, Token.encode, totalSizeBytes]

/-- `join()` は字句の列をつなぐ。空の名前は何も足さない。 -/
theorem join_ofTokens (tss : List (List Token)) :
    SymbolTable.join (tss.map ofTokens) = ofTokens tss.flatten := by
  have hsize : ∀ ts, (if (ofTokens ts).empty then 0 else (ofTokens ts).dataSize) = (tokensBytes ts).length := by
    intro ts
    cases ts with
    | nil => rfl
    | cons t ts => simp [StatName.dataSize]
  have hsum : ((tss.map ofTokens).map fun s => if s.empty then 0 else s.dataSize).sum =
      (tokensBytes tss.flatten).length := by
    rw [List.map_map, tokensBytes_flatten, List.length_flatten, List.map_map]
    exact congrArg List.sum (List.map_congr_left fun ts _ => hsize ts)
  simp only [SymbolTable.join, ofTokens]
  rw [hsum, tokensBytes_flatten, List.flatMap_map]
  simp only [dataAsStringView_ofTokens]
  rfl

/-! ## `StatNameList` -/

theorem iterateLoop_ofTokens (tss : List (List Token)) (rest : Bytes) :
    StatNameList.iterateLoop tss.length ((tss.map ofTokens).flatten ++ rest) = tss.map ofTokens := by
  induction tss with
  | nil => rfl
  | cons ts tss ih =>
    simp only [List.length_cons, List.map_cons, List.flatten_cons, List.append_assoc,
      StatNameList.iterateLoop, size_ofTokens_append, List.take_left, List.drop_left, ih]

/-- `populateList()` が書いた塊を `iterate()` で読むと、置いた名前が順に出る。 -/
theorem iterate_populate (tss : List (List Token)) (h : tss.length < 256) :
    StatNameList.iterate (tss.length.toUInt8 :: (tss.map ofTokens).flatMap fun n => n.take n.size) =
      tss.map ofTokens := by
  have hcount : tss.length.toUInt8.toNat = tss.length := by
    rw [Nat.toUInt8_eq, UInt8.toNat_ofNat']
    omega
  have htake : ((tss.map ofTokens).flatMap fun n => n.take n.size) = (tss.map ofTokens).flatten := by
    simp [List.flatMap_map, List.flatten_eq_flatMap]
  rw [StatNameList.iterate, hcount, htake]
  simpa using iterateLoop_ofTokens tss []

/-! ## 書く byte の数 -/

/-- 空の名前（先頭の byte が 0）の中身は空。 -/
theorem dataAsStringView_of_empty {s : StatName} (h : s.empty = true) : s.dataAsStringView = [] := by
  cases s with
  | nil => simp [StatName.empty] at h
  | cons b rest =>
    have hb : b = 0 := by simpa [StatName.empty] using h
    subst hb
    simp [StatName.dataAsStringView, decodeNumber, spilloverMask]

/-- `join()` の書く byte の数は、書いた中身の byte の数 `k` について `totalSizeBytes k`。 -/
theorem length_join (statNames : List StatName) :
    (SymbolTable.join statNames).length = totalSizeBytes (statNames.flatMap StatName.dataAsStringView).length := by
  -- 空の名前は数えないが、その中身も空
  have hsize : ∀ s : StatName, (if s.empty then 0 else s.dataSize) = s.dataAsStringView.length := by
    intro s
    split
    case isTrue h => rw [dataAsStringView_of_empty h]; rfl
    case isFalse => rfl
  have hsum : (statNames.map fun s => if s.empty then 0 else s.dataSize).sum =
      (statNames.flatMap StatName.dataAsStringView).length := by
    rw [List.length_flatMap]
    exact congrArg List.sum (List.map_congr_left fun s _ => hsize s)
  simp only [SymbolTable.join, List.length_append, hsum, ← encodingSizeBytes_eq, totalSizeBytes]

/-- `encode()` の `moveToMemBlock()` の書く byte の数は `totalSizeBytes(data_bytes_required_)`。 -/
theorem length_moveToMemBlock_addSymbols (symbols : List Symbol) :
    (moveToMemBlock (addSymbols symbols)).length = totalSizeBytes (addSymbols symbols).dataBytesRequired := by
  have hsize : encodingSizeBytes = fun a => (appendEncoding a).length := funext encodingSizeBytes_eq
  have hblock : (addSymbols symbols).memBlock.length = (addSymbols symbols).dataBytesRequired := by
    simp [addSymbols, List.length_flatMap, hsize]
  rw [moveToMemBlock, List.length_append, hblock, ← encodingSizeBytes_eq, totalSizeBytes]

/-- 可変長の数の符号: 書く byte の数は `encodingSizeBytes` で `1 + ⌊log₁₂₈ n⌋`、0 でない数の先頭の byte は
0 でなく、後ろに何が続いても読めば数と byte の数に戻る。`join()` と `encode()` の書く byte の数は、中身の
byte の数 `k` の `totalSizeBytes k`。 -/
theorem varint_round_trip (number : Nat) (rest : Bytes) :
    (appendEncoding number).length = encodingSizeBytes number ∧
    encodingSizeBytes number = 1 + Nat.log 128 number ∧
    (number ≠ 0 → ∃ b bs, appendEncoding number = b :: bs ∧ b ≠ 0) ∧
    decodeNumber (appendEncoding number ++ rest) = (number, encodingSizeBytes number) ∧
    (∀ statNames : List StatName,
      (SymbolTable.join statNames).length = totalSizeBytes (statNames.flatMap StatName.dataAsStringView).length) ∧
    (∀ symbols : List Symbol,
      (moveToMemBlock (addSymbols symbols)).length = totalSizeBytes (addSymbols symbols).dataBytesRequired) := by
  refine ⟨(encodingSizeBytes_eq number).symm, ?_, fun h => ?_, ?_, length_join, length_moveToMemBlock_addSymbols⟩
  · rw [encodingSizeBytes_eq, length_appendEncoding]
  · exact appendEncoding_head (Nat.pos_of_ne_zero h)
  · rw [decodeNumber_appendEncoding, encodingSizeBytes_eq]

end Envoy.Stats
