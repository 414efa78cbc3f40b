import Envoy.Http.Lemmas.ConfiguredNormalizePathUri

/-!
# 正規化した `:path` の形

`/` を併合する設定で受け付けた request の `:path` の path の部分は、`/` で始まり、`/` が二つ続かず、`.` と
`..` の片を持たず、`?` も `#` も持たない。段 3 の出力は、残した片（空でなく、`/` を含まず、`.` でも `..`
でもない片）を `/` で繋いだもので、その形を段ごとに一度だけ述べる。
-/

namespace Envoy.Http.PathNormalizer

open Utility.PercentEncoding (isXdigit)
open Segments

/-! ## 段 3 が残す片 -/

/-- 段 3 が積む片: 空でも `.` でも `..` でもない。 -/
def KeptSegment (s : Bytes) : Prop := s ≠ [] ∧ s ≠ [46] ∧ s ≠ [46, 46]

theorem mem_dotSegmentStep {stack stack' : List Bytes} {segment : Bytes} (h : dotSegmentStep stack segment = some stack')
    {s : Bytes} (hs : s ∈ stack') : s ∈ stack ∨ (s = segment ∧ KeptSegment segment) := by
  unfold dotSegmentStep at h
  split at h
  · cases h
    exact .inl hs
  split at h
  · split at h
    · cases h
    · cases h
      exact .inl (List.mem_of_mem_dropLast hs)
  split at h
  · cases h
    exact .inl hs
  cases h
  rcases List.mem_append.mp hs with hs | hs
  · exact .inl hs
  · exact .inr ⟨List.mem_singleton.mp hs, by assumption, by assumption, by assumption⟩

/-- 段 3 の積んだ片は、始めに積んであった片か、読んだ片のうち残す片。 -/
theorem mem_foldlM_dotSegmentStep :
    ∀ (segs : List Bytes) {stack stack' : List Bytes}, segs.foldlM dotSegmentStep stack = some stack' →
      ∀ s ∈ stack', s ∈ stack ∨ (s ∈ segs ∧ KeptSegment s)
  | [], _, _, h, s, hs => by
    cases h
    exact .inl hs
  | segment :: segs, stack, stack', h, s, hs => by
    rw [List.foldlM_cons] at h
    obtain ⟨mid, hmid, hrest⟩ := Option.bind_eq_some_iff.mp h
    rcases mem_foldlM_dotSegmentStep segs hrest s hs with hs | ⟨hs, hk⟩
    · rcases mem_dotSegmentStep hmid hs with hs | ⟨rfl, hk⟩
      · exact .inl hs
      · exact .inr ⟨List.mem_cons_self, hk⟩
    · exact .inr ⟨List.mem_cons_of_mem segment hs, hk⟩

/-- 段 3 の結果の片は、読んだ片のうち残す片。 -/
theorem mem_removeDotSegments {segs stack : List Bytes} (h : removeDotSegments segs = some stack) {s : Bytes}
    (hs : s ∈ stack) : s ∈ segs ∧ KeptSegment s := by
  rcases mem_foldlM_dotSegmentStep segs h s hs with hs | hk
  · cases hs
  · exact hk

/-! ## 段 3 の出力 -/

section JoinPath

variable {stack : List Bytes}

theorem head?_joinPath (stack : List Bytes) (trailing : Bool) : (joinPath stack trailing).head? = some 47 := rfl

theorem joinPath_nil (trailing : Bool) : joinPath [] trailing = [47] := by
  cases trailing <;> rfl

theorem joinPath_cons (s : Bytes) (rest : List Bytes) (trailing : Bool) :
    joinPath (s :: rest) trailing = 47 :: ([47].intercalate (s :: rest) ++ if trailing then [47] else []) := by
  simp [joinPath]

/-- 残す片を `/` で繋いだ出力では、`/` が二つ続かない。 -/
theorem noDoubleSep_joinPath (hs : ∀ s ∈ stack, Piece 47 s) (trailing : Bool) : NoDoubleSep 47 (joinPath stack trailing) := by
  cases stack with
  | nil =>
    rw [joinPath_nil]
    exact List.isChain_singleton _
  | cons s rest =>
    obtain ⟨x, hx, hx47⟩ := head?_intercalate hs (List.cons_ne_nil s rest)
    obtain ⟨y, hy, hy47⟩ := getLast?_intercalate hs (List.cons_ne_nil s rest)
    rw [joinPath_cons]
    -- 先頭の `/` の次も、最後の片の次の `/` の前も、片の端
    have hbody : NoDoubleSep 47 ([47].intercalate (s :: rest) ++ if trailing then [47] else []) := by
      refine List.isChain_append.mpr ⟨noDoubleSep_intercalate hs, ?_, ?_⟩
      · split <;> simp
      · intro a ha _ _ hab
        rw [hy] at ha
        cases ha
        exact hy47 hab.1
    refine List.IsChain.cons hbody fun z hz hz' => hx47 ?_
    rw [List.head?_append_of_ne_nil _ (fun h => by simp [h] at hx), hx] at hz
    cases hz
    exact hz'.2

/-- 出力を `/` で分けると、先頭の空の片、残した片、最後の `/` があればその後の空の片。 -/
theorem splitOn_joinPath_cons {s : Bytes} {rest : List Bytes} (hs : ∀ t ∈ s :: rest, 47 ∉ t) (trailing : Bool) :
    (joinPath (s :: rest) trailing).splitOn 47 = [] :: ((s :: rest) ++ if trailing then [[]] else []) := by
  rw [joinPath_cons, show (47 : UInt8) :: ([47].intercalate (s :: rest) ++ if trailing then [47] else []) =
    [] ++ 47 :: ([47].intercalate (s :: rest) ++ if trailing then [47] else []) from rfl,
    splitOn_append_cons List.not_mem_nil]
  congr 1
  cases trailing with
  | false => simpa using List.splitOn_intercalate 47 hs (List.cons_ne_nil s rest)
  | true =>
    have hall : ∀ t ∈ (s :: rest) ++ [[]], (47 : UInt8) ∉ t := by
      intro t ht
      rcases List.mem_append.mp ht with ht | ht
      · exact hs t ht
      · rw [List.mem_singleton.mp ht]
        exact List.not_mem_nil
    have h := List.splitOn_intercalate 47 hall (by simp)
    rw [intercalate_append_singleton (List.cons_ne_nil s rest), List.append_nil] at h
    simpa using h

/-- 出力の byte は `/` か、残した片の byte。 -/
theorem mem_joinPath {x : UInt8} {trailing : Bool} (hx : x ∈ joinPath stack trailing) : x = 47 ∨ ∃ s ∈ stack, x ∈ s := by
  unfold joinPath at hx
  rcases List.mem_cons.mp hx with hx | hx
  · exact .inl hx
  rcases List.mem_append.mp hx with hx | hx
  · exact mem_intercalate hx
  · split at hx
    · exact .inl (List.mem_singleton.mp hx)
    · cases hx

end JoinPath

/-! ## 正規形 -/

/-- 正規化した path の形: `/` で始まり、`/` が二つ続かず、`.` と `..` の片が無い。 -/
structure NormalPath (n : Bytes) : Prop where
  head : n.head? = some 47
  noDoubleSep : NoDoubleSep 47 n
  noDotSegment : ∀ s ∈ n.splitOn 47, s ≠ [46] ∧ s ≠ [46, 46]

/-- 残す片を `/` で繋いだ出力は正規形。 -/
theorem normalPath_joinPath {stack : List Bytes} (hs : ∀ s ∈ stack, 47 ∉ s ∧ KeptSegment s) (trailing : Bool) :
    NormalPath (joinPath stack trailing) where
  head := head?_joinPath stack trailing
  noDoubleSep := noDoubleSep_joinPath (fun s h => ⟨(hs s h).2.1, (hs s h).1⟩) trailing
  noDotSegment := by
    have hempty : ([] : Bytes) ≠ [46] ∧ ([] : Bytes) ≠ [46, 46] :=
      ⟨List.cons_ne_nil _ _ ∘ Eq.symm, List.cons_ne_nil _ _ ∘ Eq.symm⟩
    cases stack with
    | nil =>
      intro s h
      -- `/` だけの出力の片は二つの空の片
      rw [joinPath_nil, show ([47] : Bytes).splitOn 47 = [[], []] by decide] at h
      obtain rfl : s = [] := by simpa using h
      exact hempty
    | cons t rest =>
      intro s h
      rw [splitOn_joinPath_cons (fun u hu => (hs u hu).1)] at h
      rcases List.mem_cons.mp h with rfl | h
      · exact hempty
      rcases List.mem_append.mp h with h | h
      · exact ⟨(hs s h).2.2.1, (hs s h).2.2.2⟩
      · split at h
        · rw [List.mem_singleton.mp h]
          exact hempty
        · cases h

/-! ## 段 1 が作らない byte -/

/-- 段 1 が作らない byte: `%`、`/`、`\`、十六進の桁、unreserved な byte のどれでもない。`?` と `#` がそう。 -/
def Inert (c : UInt8) : Prop := c ≠ 37 ∧ c ≠ 47 ∧ c ≠ 92 ∧ isXdigit c = false ∧ ¬Unreserved c.toNat

instance (c : UInt8) : Decidable (Inert c) := inferInstanceAs (Decidable (_ ∧ _))

theorem inert_question : Inert 63 := by decide

theorem inert_hash : Inert 35 := by decide

/-- 段 1 の結果が `P` を満たす。 -/
def OnDecoded (P : Bytes → Prop) (res : Option (Bytes × Bool)) : Prop := ∀ d redirect, res = some (d, redirect) → P d

theorem OnDecoded.none (P : Bytes → Prop) : OnDecoded P none := fun _ _ h => by cases h

theorem OnDecoded.prepend {P : Bytes → Prop} {res : Option (Bytes × Bool)} {pre : Bytes} (hpre : ∀ d, P d → P (pre ++ d))
    (h : OnDecoded P res) (flag : Bool) : OnDecoded P (prependDecoded pre flag res) := by
  intro d redirect hd
  obtain ⟨⟨d', r'⟩, hres, heq⟩ := Option.map_eq_some_iff.mp hd
  cases heq
  exact hpre d' (h d' r' hres)

section Avoids

variable {c : UInt8}

theorem OnDecoded.prepend_not_mem {res : Option (Bytes × Bool)} {pre : Bytes} (hpre : c ∉ pre) (h : OnDecoded (c ∉ ·) res)
    (flag : Bool) : OnDecoded (c ∉ ·) (prependDecoded pre flag res) := by
  refine h.prepend ?_ flag
  intro d hd hm
  exact (List.mem_append.mp hm).elim hpre hd

theorem not_mem_upperIf (hc : Inert c) (upperCase : Bool) {a : UInt8} (ha : isXdigit a = true) : c ≠ upperIf upperCase a := by
  intro h
  have hx := hc.2.2.2.1
  rw [h, isXdigit_upperIf upperCase ha] at hx
  cases hx

/-- 戻した byte は unreserved か `/` か `\` で、段 1 が作らない byte ではない。 -/
theorem ne_ofNat_octet (hc : Inert c) {a b : UInt8} (hxa : isXdigit a = true) (hxb : isXdigit b = true)
    (ho : Unreserved (hexDigitValue a * 16 + hexDigitValue b) ∨
      hexDigitValue a * 16 + hexDigitValue b = 47 ∨ hexDigitValue a * 16 + hexDigitValue b = 92) :
    c ∉ [UInt8.ofNat (hexDigitValue a * 16 + hexDigitValue b)] := by
  intro h
  have hk := (ofNat_octet_eq_iff hxa hxb c).mp (List.mem_singleton.mp h).symm
  obtain ⟨-, h47, h92, -, hu⟩ := hc
  rw [hk] at ho
  rcases ho with ho | ho | ho
  · exact hu ho
  · exact h47 (UInt8.toNat_inj.mp (by rw [ho]; rfl))
  · exact h92 (UInt8.toNat_inj.mp (by rw [ho]; rfl))

theorem OnDecoded.decodeEscape_not_mem (hc : Inert c) (action : PathWithEscapedSlashesAction) (upperCase : Bool)
    {a b : UInt8} (hxa : isXdigit a = true) (hxb : isXdigit b = true) {tail : Option (Bytes × Bool)}
    (h : OnDecoded (c ∉ ·) tail) : OnDecoded (c ∉ ·) (decodeEscape action upperCase a b tail) := by
  -- 残す `%XY` は `%` と十六進の桁
  have hkeep : c ∉ [37, upperIf upperCase a, upperIf upperCase b] := by
    simp only [List.mem_cons, List.not_mem_nil, or_false, not_or]
    exact ⟨hc.1, not_mem_upperIf hc upperCase hxa, not_mem_upperIf hc upperCase hxb⟩
  dsimp only [PathNormalizer.decodeEscape]
  split_ifs with hu hs
  · exact h.prepend_not_mem (ne_ofNat_octet hc hxa hxb (.inl hu)) false
  · cases action with
    | implementationSpecificDefault => exact h.prepend_not_mem hkeep false
    | keepUnchanged => exact h.prepend_not_mem hkeep false
    | rejectRequest => exact fun _ _ hd => by cases hd
    | unescapeAndForward => exact h.prepend_not_mem (ne_ofNat_octet hc hxa hxb (.inr hs)) false
    | unescapeAndRedirect => exact h.prepend_not_mem (ne_ofNat_octet hc hxa hxb (.inr hs)) true
  · exact h.prepend_not_mem hkeep false

/-- 段 1 は、段 1 が作らない byte を、元に無ければ作らない。 -/
theorem avoids_decodeOctets (hc : Inert c) (action : PathWithEscapedSlashesAction) (allowInvalid upperCase : Bool)
    (p : Bytes) (hp : c ∉ p) : OnDecoded (c ∉ ·) (decodeOctets action allowInvalid upperCase p) := by
  have hpct : c ∉ [(37 : UInt8)] := fun h => hc.1 (List.mem_singleton.mp h)
  have hdigit : ∀ {a : UInt8}, isXdigit a = true → c ∉ [37, upperIf upperCase a] := fun ha h => by
    rcases List.mem_cons.mp h with h | h
    · exact hc.1 h
    · exact not_mem_upperIf hc upperCase ha (List.mem_singleton.mp h)
  fun_induction decodeOctets action allowInvalid upperCase p with
  | case1 => exact fun _ _ h => by cases h; exact List.not_mem_nil
  | case2 a b rest hab ih =>
    exact OnDecoded.decodeEscape_not_mem hc action upperCase hab.1 hab.2 (ih fun h => hp (by simp [h]))
  | case3 => exact OnDecoded.none _
  | case4 a b rest _ _ hxa ih => exact (ih fun h => hp (by simp_all)).prepend_not_mem (hdigit hxa) false
  | case5 a b rest _ _ _ ih => exact (ih fun h => hp (by simp_all)).prepend_not_mem hpct false
  | case6 => exact OnDecoded.none _
  | case7 a _ hxa ih => exact (ih List.not_mem_nil).prepend_not_mem (hdigit hxa) false
  | case8 a _ _ ih => exact (ih fun h => hp (by simp_all)).prepend_not_mem hpct false
  | case9 _ ih => exact (ih List.not_mem_nil).prepend_not_mem hpct false
  | case10 => exact OnDecoded.none _
  | case11 c' tl _ ih =>
    exact (ih fun h => hp (List.mem_cons_of_mem c' h)).prepend_not_mem (fun h => hp (by simp_all)) false

end Avoids

theorem sublist_mergeSlashRuns (l : Bytes) : (mergeSlashRuns l).Sublist l := by
  induction l with
  | nil => exact List.Sublist.slnil
  | cons c tl ih =>
    rw [mergeSlashRuns]
    split
    · exact ih.cons c
    · exact ih.cons_cons c

theorem not_mem_translateBackToForwardSlashes {c : UInt8} (h47 : c ≠ 47) {path : Bytes} (hp : c ∉ path) :
    c ∉ translateBackToForwardSlashes path := by
  intro h
  obtain ⟨x, hx, hcx⟩ := List.mem_map.mp h
  split at hcx
  · exact h47 hcx.symm
  · exact hp (hcx ▸ hx)

/-! ## `normalizePathWith` の結果の形 -/

/-- `normalizePathWith` が受け付けるのは、段 1 が受け付け、段 3 が拒否しないときで、結果は段 3 の出力。 -/
theorem normalizePathWith_eq_some {action : PathWithEscapedSlashesAction} {allowInvalid upperCase translate : Bool}
    {p n : Bytes} {redirect : Bool} (h : normalizePathWith action allowInvalid upperCase translate p = some (n, redirect)) :
    ∃ d stack, decodeOctets action allowInvalid upperCase p = some (d, redirect) ∧
      removeDotSegments ((mergeSlashRuns (if translate then translateBackToForwardSlashes (47 :: d) else 47 :: d)).splitOn 47)
        = some stack ∧
      n = joinPath stack (endsInDirectory
        ((mergeSlashRuns (if translate then translateBackToForwardSlashes (47 :: d) else 47 :: d)).splitOn 47)) := by
  obtain ⟨⟨d, r⟩, hd, h⟩ := Option.bind_eq_some_iff.mp h
  obtain ⟨stack, hstack, heq⟩ := Option.map_eq_some_iff.mp h
  cases heq
  exact ⟨d, stack, hd, hstack, rfl⟩

/-- 段 3 が積んだ片は `/` を含まない残す片。 -/
theorem kept_of_removeDotSegments {l : Bytes} {stack : List Bytes} (h : removeDotSegments (l.splitOn 47) = some stack) :
    ∀ s ∈ stack, 47 ∉ s ∧ KeptSegment s := fun _ hs =>
  ⟨not_mem_of_mem_splitOn (mem_removeDotSegments h hs).1, (mem_removeDotSegments h hs).2⟩

/-- `/` でない byte は、段 2 の入力に無ければ段 3 の出力に無い。 -/
theorem not_mem_joinPath_of_removeDotSegments {c : UInt8} (h47 : c ≠ 47) {path : Bytes} (hc : c ∉ path)
    {stack : List Bytes} (hstack : removeDotSegments ((mergeSlashRuns path).splitOn 47) = some stack) (trailing : Bool) :
    c ∉ joinPath stack trailing := by
  intro hn
  rcases mem_joinPath hn with h | ⟨s, hs, hcs⟩
  · exact h47 h
  · exact hc ((sublist_mergeSlashRuns _).subset (mem_of_mem_splitOn (mem_removeDotSegments hstack hs).1 hcs))

/-- `normalizePathWith` の結果は正規形で、段 1 が作らない byte を、元に無ければ持たない。 -/
theorem normalizePathWith_normal {action : PathWithEscapedSlashesAction} {allowInvalid upperCase translate : Bool}
    {p n : Bytes} {redirect : Bool} (h : normalizePathWith action allowInvalid upperCase translate p = some (n, redirect)) :
    NormalPath n ∧ ∀ c, Inert c → c ∉ p → c ∉ n := by
  obtain ⟨d, stack, hd, hstack, rfl⟩ := normalizePathWith_eq_some h
  refine ⟨normalPath_joinPath (kept_of_removeDotSegments hstack) _, fun c hc hp => ?_⟩
  refine not_mem_joinPath_of_removeDotSegments hc.2.1 ?_ hstack _
  have hd' : c ∉ 47 :: d := fun h => (List.mem_cons.mp h).elim hc.2.1 (avoids_decodeOctets hc _ _ _ p hp d redirect hd)
  split
  · exact not_mem_translateBackToForwardSlashes hc.2.1 hd'
  · exact hd'

/-! ## 受け付けた `:path` -/

/-- `:path` の path の部分には `?` も `#` も無い。 -/
theorem not_mem_splitPathAndQueryParams_fst (x : Bytes) {c : UInt8} (hc : (c == 63 || c == 35) = true) :
    c ∉ (splitPathAndQueryParams x).1 := by
  unfold splitPathAndQueryParams
  split
  · rename_i h
    intro hx
    have := List.findIdx?_eq_none_iff.mp h c hx
    rw [hc] at this
    cases this
  · rename_i k h
    -- 最初の `?` か `#` より前で切る
    obtain ⟨hk, -, hbefore⟩ := List.findIdx?_eq_some_iff_getElem.mp h
    intro hx
    obtain ⟨j, hj, rfl⟩ := List.mem_take_iff_getElem.mp hx
    exact hbefore j (by omega) hc

/-- query の部分は空か、`?` か `#` で始まる。 -/
theorem splitPathAndQueryParams_snd (x : Bytes) :
    (splitPathAndQueryParams x).2 = [] ∨ (splitPathAndQueryParams x).2.head? = some 63 ∨
      (splitPathAndQueryParams x).2.head? = some 35 := by
  unfold splitPathAndQueryParams
  split
  · exact .inl rfl
  · rename_i k h
    obtain ⟨hk, hdelim, -⟩ := List.findIdx?_eq_some_iff_getElem.mp h
    rw [List.head?_drop, List.getElem?_eq_getElem hk]
    simp only [Bool.or_eq_true, beq_iff_eq] at hdelim
    rcases hdelim with h | h
    · exact .inr (.inl (by rw [h]))
    · exact .inr (.inr (by rw [h]))

theorem not_mem_of_splitPathAndQueryParams {x p : Bytes} (hsplit : (splitPathAndQueryParams x).1 = 47 :: p) :
    63 ∉ p ∧ 35 ∉ p :=
  ⟨fun h => not_mem_splitPathAndQueryParams_fst x rfl (hsplit ▸ List.mem_cons_of_mem 47 h),
    fun h => not_mem_splitPathAndQueryParams_fst x rfl (hsplit ▸ List.mem_cons_of_mem 47 h)⟩

/-- 空でない `:path` の CONNECT は拒否する。 -/
theorem isStandardConnectRequest_of_accepted {config : UriPathNormalizationOptions} {overrides : ConfigOverrides}
    {allow : Bool} {headers : RequestHeaderMap} (hpath : headers.path.head? = some 47)
    (hacc : (normalizePathUri config overrides allow headers).1.action ≠ .reject) : isStandardConnectRequest headers = false := by
  cases hconnect : isStandardConnectRequest headers with
  | false => rfl
  | true =>
    have hnotStar : ¬(headers.path = lit "*" ∧ headers.method = lit "OPTIONS") := fun h => by
      rw [h.1] at hpath
      simp [lit] at hpath
    have hne : headers.path.isEmpty = false := by
      cases h : headers.path with
      | nil => rw [h] at hpath; cases hpath
      | cons => rfl
    simp [normalizePathUri, hnotStar, hconnect, hne] at hacc

/-- 受け付けた request の新しい `:path` は、`normalizePathWith` の結果と元の query の部分。 -/
theorem normalizePathUri_accepted {config : UriPathNormalizationOptions} {overrides : ConfigOverrides} {allow : Bool}
    {headers : RequestHeaderMap} (hmerge : config.skipMergingSlashes = false) (hpath : headers.path.head? = some 47)
    (hacc : (normalizePathUri config overrides allow headers).1.action ≠ .reject) :
    ∃ p n redirect, (splitPathAndQueryParams headers.path).1 = 47 :: p ∧
      normalizePathWith config.pathWithEscapedSlashesAction allow (!overrides.preserveUrlEncodedCase)
        overrides.allowNonCompliantCharactersInPath p = some (n, redirect) ∧
      (normalizePathUri config overrides allow headers).2 =
        { headers with path := n ++ (splitPathAndQueryParams headers.path).2 } := by
  obtain ⟨p, hsplit⟩ := splitPathAndQueryParams_slash hpath
  have heq := normalizePathUri_eq_normalizePathWith config overrides allow headers hmerge
    (isStandardConnectRequest_of_accepted hpath hacc) hsplit
  rw [heq] at hacc ⊢
  cases hn : normalizePathWith config.pathWithEscapedSlashesAction allow (!overrides.preserveUrlEncodedCase)
      overrides.allowNonCompliantCharactersInPath p with
  | none =>
    rw [hn] at hacc
    exact absurd rfl hacc
  | some r =>
    obtain ⟨n, redirect⟩ := r
    exact ⟨p, n, redirect, hsplit, hn, rfl⟩

/-- `/` を併合する設定では、escape された `/` のどの扱いでも、不正な `%` を許すかどうか、`\` を直すかどうかに
依らず、`/` で始まる `:path` の request を拒否しなければ、新しい `:path` は正規形の path に元の query の部分を
続けたもので、その path は `?` も `#` も持たない。 -/
theorem normalizePathUri_normal_form (config : UriPathNormalizationOptions) (overrides : ConfigOverrides)
    (allow : Bool) (headers : RequestHeaderMap) (hmerge : config.skipMergingSlashes = false)
    (hpath : headers.path.head? = some 47)
    (hacc : (normalizePathUri config overrides allow headers).1.action ≠ .reject) :
    ∃ P, (normalizePathUri config overrides allow headers).2 =
        { headers with path := P ++ (splitPathAndQueryParams headers.path).2 } ∧
      NormalPath P ∧ 63 ∉ P ∧ 35 ∉ P := by
  obtain ⟨p, n, redirect, hsplit, hn, hheaders⟩ := normalizePathUri_accepted hmerge hpath hacc
  obtain ⟨hnormal, hinert⟩ := normalizePathWith_normal hn
  have hp := not_mem_of_splitPathAndQueryParams hsplit
  exact ⟨n, hheaders, hnormal, hinert 63 inert_question hp.1, hinert 35 inert_hash hp.2⟩

/-- `/a%2Fb/../%7e%2f%za?q` を、escape された `/` を戻して redirect し、不正な `%` を残す設定で受け付けた
`:path` の path の部分。 -/
theorem normalizePathUri_unescape_redirect_normal :
    ∃ P, (normalizePathUri ⟨false, .unescapeAndRedirect⟩ ⟨false, true⟩ true
        ⟨lit "GET", lit "/a%2Fb/../%7e%2f%za?q", lit "HTTP/1.1"⟩).2 =
        { (⟨lit "GET", lit "/a%2Fb/../%7e%2f%za?q", lit "HTTP/1.1"⟩ : RequestHeaderMap) with
          path := P ++ (splitPathAndQueryParams (lit "/a%2Fb/../%7e%2f%za?q")).2 } ∧
      NormalPath P ∧ 63 ∉ P ∧ 35 ∉ P :=
  normalizePathUri_normal_form _ _ true _ rfl (by decide +kernel) (by decide +kernel)

end Envoy.Http.PathNormalizer
