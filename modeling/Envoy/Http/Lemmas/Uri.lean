import Envoy.Http.Lemmas.PercentEncoding

/-!
# URI の分解と query の読み

`%` を予約した `encode` の出力には、予約した文字のうち `%` と十六進の数字でないものは現れない。
`extractSchemeHostPathFromUri()` は、`:` を含まない scheme と `://` の後から最初の `/` の前までを
host とする。`parseParameters()` の `while` は、`&` を含まない空でない片を `&` でつないだ文字列を
片ごとに `=` で分けて `add()` する。`add()` は無い鍵を一つ足すので、鍵の重ならない片の列からは、
片ごとの鍵と値の組を並べ替えたものができる。
-/

namespace Envoy.Http

namespace Utility

namespace PercentEncoding

variable {reservedChars : Bytes} {c : UInt8}

@[simp] theorem decode_nil : decode [] = [] := rfl

theorem decode_encode_self (h37 : 37 ∈ reservedChars) (value : Bytes) :
    decode (encode value reservedChars) = value := by
  have h := decode_flatMap_encodeChar h37 value []
  rwa [List.append_nil, decode_nil, List.append_nil, ← encode_eq_flatMap] at h

/-- 予約した文字のうち、`%` でも十六進の数字でもないものは符号化の後に残らない。 -/
theorem not_mem_encode (hc : c ∈ reservedChars) (h37 : c ≠ 37) (hhex : c ∉ upperHexDigits) (value : Bytes) :
    c ∉ encode value reservedChars := by
  rw [encode_eq_flatMap, List.mem_flatMap]
  rintro ⟨ch, -, hch⟩
  rcases encodeChar_shape reservedChars ch with ⟨c', he, -, -, hc'⟩ | ⟨hi, lo, he, hhi, hlo⟩
  · rw [he, List.mem_singleton] at hch
    exact hc' (hch ▸ hc)
  · rw [he] at hch
    rcases List.mem_cons.mp hch with h | h
    · exact h37 h
    rcases List.mem_cons.mp h with h | h
    · exact hhex (h ▸ hhi)
    · exact hhex ((List.mem_singleton.mp h) ▸ hlo)

theorem length_le_length_encode (value reservedChars : Bytes) :
    value.length ≤ (encode value reservedChars).length := by
  rw [encode_eq_flatMap, List.length_flatMap]
  induction value with
  | nil => simp
  | cons ch value ih =>
    have : 1 ≤ (encodeChar reservedChars ch).length := by
      rcases encodeChar_shape reservedChars ch with ⟨c', he, -⟩ | ⟨hi, lo, he, -⟩ <;> simp [he]
    simp only [List.length_cons, List.map_cons, List.sum_cons]
    omega

theorem encode_eq_nil_iff {value : Bytes} : encode value reservedChars = [] ↔ value = [] := by
  constructor
  · intro h
    have := length_le_length_encode value reservedChars
    rw [h, List.length_nil, Nat.le_zero, List.length_eq_zero_iff] at this
    exact this
  · rintro rfl
    rfl

end PercentEncoding

/-! ## 文字の位置 -/

theorem findIdx?_beq_eq_none {a : UInt8} {l : Bytes} (h : a ∉ l) : l.findIdx? (· == a) = none :=
  List.findIdx?_eq_none_iff.mpr fun _ hx => beq_false_of_ne fun he => h (he ▸ hx)

theorem idxOf?_eq_none {a : UInt8} {l : Bytes} (h : a ∉ l) : l.idxOf? a = none :=
  findIdx?_beq_eq_none h

theorem idxOf?_append_cons {a : UInt8} {l : Bytes} (h : a ∉ l) (r : Bytes) :
    (l ++ a :: r).idxOf? a = some l.length := by
  simp [List.idxOf?, List.findIdx?_append, List.findIdx?_cons, findIdx?_beq_eq_none h]

/-! ## host と path -/

theorem findSeq_scheme {scheme : Bytes} (hscheme : 58 ∉ scheme) (rest : Bytes) :
    findSeq (lit "://") (scheme ++ lit "://" ++ rest) = some scheme.length := by
  induction scheme with
  | nil => simp [findSeq, lit, List.isPrefixOf]
  | cons c scheme ih =>
    have hc : c ≠ 58 := fun h => hscheme (h ▸ List.mem_cons_self)
    rw [List.cons_append, List.cons_append, findSeq, if_neg (by simp [lit, List.isPrefixOf, hc.symm]),
      ih fun h => hscheme (List.mem_cons_of_mem c h)]
    rfl

theorem findFrom_append_slash {s host : Bytes} (hhost : 47 ∉ host) (rest : Bytes) :
    findFrom (s ++ host ++ 47 :: rest) 47 s.length = some (s.length + host.length) := by
  simp [findFrom, List.findIdx?_append, List.findIdx?_cons, findIdx?_beq_eq_none hhost, Nat.add_comm]

/-- `scheme://host/rest` の host と path。 -/
theorem extractHostPathFromUri_scheme {scheme host : Bytes} (hscheme : 58 ∉ scheme) (hhost : 47 ∉ host)
    (rest : Bytes) :
    extractHostPathFromUri (scheme ++ lit "://" ++ host ++ 47 :: rest) = (host, 47 :: rest) := by
  have hpos := findSeq_scheme hscheme (host ++ 47 :: rest)
  have hlen : (scheme ++ lit "://").length = scheme.length + 3 := by simp [lit]
  have hfind := findFrom_append_slash (s := scheme ++ lit "://") hhost rest
  have hdrop : (scheme ++ lit "://" ++ host ++ 47 :: rest).drop (scheme.length + 3) = host ++ 47 :: rest := by
    rw [← hlen, List.append_assoc]
    exact List.drop_left
  rw [hlen] at hfind
  rw [← List.append_assoc] at hpos
  simp only [extractHostPathFromUri, extractSchemeHostPathFromUri, hpos, Option.getD_some, hfind,
    Nat.add_sub_cancel_left, hdrop, List.take_left, Prod.mk.injEq, true_and]
  rw [← List.drop_drop, hdrop, List.drop_left]

/-! ## query -/

namespace QueryParamsMulti

/-- `parseParameters()` が一つの片 `param` から `add()` に渡す鍵と値: 最初の `=` の前と後、`=` が無ければ
片全体と空の値。 -/
def splitParam (param : Bytes) : Bytes × Bytes :=
  match param.idxOf? 61 with
  | some equal => (param.take equal, param.drop (equal + 1))
  | none => (param, [])

theorem splitParam_append {name : Bytes} (hname : 61 ∉ name) (value : Bytes) :
    splitParam (name ++ lit "=" ++ value) = (name, value) := by
  have h : name ++ lit "=" ++ value = name ++ 61 :: value := by simp [lit]
  simp [splitParam, h, idxOf?_append_cons hname]

/-- `while` の一周: 最初の `&` の前の片を足し、その `&` の後へ進む。 -/
theorem parseParametersLoop_succ {data : Bytes} (hdata : data ≠ []) (fuel : Nat) (params : QueryParamsMulti) :
    parseParametersLoop false (fuel + 1) data params =
      parseParametersLoop false fuel (data.drop ((data.takeWhile (· != 38)).length + 1))
        (add params (splitParam (data.takeWhile (· != 38))).1 (splitParam (data.takeWhile (· != 38))).2) := by
  obtain ⟨x, xs, rfl⟩ := List.exists_cons_of_ne_nil hdata
  simp only [parseParametersLoop, splitParam, Bool.false_eq_true, if_false]
  cases (List.takeWhile (· != 38) (x :: xs)).idxOf? 61 <;> rfl

theorem parseParametersLoop_nil (fuel : Nat) (params : QueryParamsMulti) :
    parseParametersLoop false fuel [] params = params := by
  cases fuel <;> rfl

theorem takeWhile_ne_amp {param : Bytes} (h38 : 38 ∉ param) (rest : Bytes) :
    (param ++ rest).takeWhile (· != 38) = param ++ rest.takeWhile (· != 38) :=
  List.takeWhile_append_of_pos fun _ hx => bne_iff_ne.mpr fun he => h38 (he ▸ hx)

/-- `&` を含まない空でない片を `&` でつないだ文字列は、片ごとに `add()` される。 -/
theorem parseParametersLoop_intercalate :
    ∀ (comps : List Bytes), (∀ c ∈ comps, 38 ∉ c ∧ c ≠ []) → ∀ (fuel : Nat), comps.length ≤ fuel →
      ∀ (params : QueryParamsMulti), parseParametersLoop false fuel ((lit "&").intercalate comps) params =
        comps.foldl (fun ps c => add ps (splitParam c).1 (splitParam c).2) params
  | [], _, fuel, _, params => parseParametersLoop_nil fuel params
  | [c], hc, fuel + 1, _, params => by
    obtain ⟨h38, hne⟩ := hc c List.mem_cons_self
    have htake : c.takeWhile (· != 38) = c := by
      simpa using takeWhile_ne_amp h38 []
    rw [List.intercalate_singleton, parseParametersLoop_succ hne, htake, List.drop_eq_nil_of_le (by omega),
      parseParametersLoop_nil]
    rfl
  | c :: c' :: rest, hc, fuel + 1, hfuel, params => by
    obtain ⟨h38, hne⟩ := hc c List.mem_cons_self
    have hdata : (lit "&").intercalate (c :: c' :: rest) = c ++ 38 :: (lit "&").intercalate (c' :: rest) := by
      simp [List.intercalate_cons_cons, lit]
    have htake : (c ++ 38 :: (lit "&").intercalate (c' :: rest)).takeWhile (· != 38) = c := by
      simp [takeWhile_ne_amp h38]
    have hdrop : (c ++ 38 :: (lit "&").intercalate (c' :: rest)).drop (c.length + 1) =
        (lit "&").intercalate (c' :: rest) := by
      simp
    rw [hdata, parseParametersLoop_succ (by simp), htake, hdrop,
      parseParametersLoop_intercalate (c' :: rest) (fun x hx => hc x (List.mem_cons_of_mem c hx)) fuel
        (by simp at hfuel ⊢; omega)]
    rfl

/-- `add()` は無い鍵 `key` を、値 `[value]` と共に一つ足す。 -/
theorem add_perm_of_not_mem {ps : QueryParamsMulti} {key : Bytes} (h : key ∉ ps.map Prod.fst) (value : Bytes) :
    (add ps key value).Perm ((key, [value]) :: ps) := by
  induction ps with
  | nil => rfl
  | cons p rest ih =>
    obtain ⟨k, values⟩ := p
    have hk : k ≠ key := fun he => h (he ▸ List.mem_cons_self)
    have hrest : key ∉ rest.map Prod.fst := fun hm => h (List.mem_cons_of_mem _ hm)
    simp only [add, if_neg hk]
    split_ifs
    · rfl
    · exact ((ih hrest).cons _).trans (List.Perm.swap _ _ _)

/-- 鍵の重ならない組を順に `add()` すると、組ごとの鍵と値を並べ替えたものが前に足される。 -/
theorem foldl_add_perm :
    ∀ (l : List (Bytes × Bytes)) (acc : QueryParamsMulti), (l.map Prod.fst).Nodup →
      (∀ p ∈ l, p.1 ∉ acc.map Prod.fst) →
      (l.foldl (fun ps p => add ps p.1 p.2) acc).Perm (l.map (fun p => (p.1, [p.2])) ++ acc)
  | [], _, _, _ => List.Perm.refl _
  | p :: l, acc, hnd, hdisj => by
    obtain ⟨hp, hl⟩ := List.nodup_cons.mp hnd
    have hadd := add_perm_of_not_mem (hdisj p List.mem_cons_self) p.2
    -- 後の組の鍵は `p.1` とも `acc` の鍵とも違う
    have hdisj' : ∀ q ∈ l, q.1 ∉ (add acc p.1 p.2).map Prod.fst := by
      intro q hq hm
      rcases List.mem_cons.mp ((hadd.map Prod.fst).subset hm) with he | hm'
      · exact hp (he ▸ List.mem_map_of_mem hq)
      · exact hdisj q (List.mem_cons_of_mem p hq) hm'
    rw [List.foldl_cons, List.map_cons]
    exact (foldl_add_perm l _ hl hdisj').trans ((hadd.append_left _).trans List.perm_middle)

theorem length_le_length_intercalate :
    ∀ (comps : List Bytes), (∀ c ∈ comps, c ≠ []) → comps.length ≤ ((lit "&").intercalate comps).length
  | [], _ => Nat.le_refl 0
  | [c], hc => by
    rw [List.intercalate_singleton]
    exact List.length_pos_iff.mpr (hc c List.mem_cons_self)
  | c :: c' :: rest, hc => by
    have ih := length_le_length_intercalate (c' :: rest) fun x hx => hc x (List.mem_cons_of_mem c hx)
    have hc0 := List.length_pos_iff.mpr (hc c List.mem_cons_self)
    simp only [List.intercalate_cons_cons, List.length_append, List.length_cons] at ih ⊢
    omega

theorem parseQueryString_question (data : Bytes) :
    parseQueryString (lit "?" ++ data) = parseParametersLoop false data.length data [] := by
  simp [parseQueryString, lit, List.idxOf?, parseParameters, List.findIdx?_cons]

/-- `?` の後に、`&` を含まない空でない片を `&` でつないだ query は、片ごとの鍵と値に読まれる。 -/
theorem parseQueryString_intercalate (comps : List Bytes) (hcomps : ∀ c ∈ comps, 38 ∉ c ∧ c ≠ [])
    (hnd : (comps.map fun c => (splitParam c).1).Nodup) :
    (parseQueryString (lit "?" ++ (lit "&").intercalate comps)).Perm
      (comps.map fun c => ((splitParam c).1, [(splitParam c).2])) := by
  have hlen := length_le_length_intercalate comps fun c hc => (hcomps c hc).2
  rw [parseQueryString_question, parseParametersLoop_intercalate comps hcomps _ hlen]
  have h := foldl_add_perm (comps.map splitParam) [] (by rwa [List.map_map]) (by simp)
  rwa [List.append_nil, List.map_map, List.foldl_map] at h

end QueryParamsMulti

end Utility

end Envoy.Http
