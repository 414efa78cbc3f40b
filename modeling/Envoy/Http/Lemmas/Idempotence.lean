import Envoy.Http.Lemmas.NormalForm

/-!
# 正規化の冪等性

不正な `%` を拒否する設定では、段 1 の出力は段 1 の不動点（`Stable`）で、`\` の書き直し、段 2、段 3 は
`Stable` を保つ。段 3 の出力をもう一度正規化すると、段 1 は何も変えず、段 2 と段 3 も正規形を変えない。
不正な `%` を残す設定では冪等でない: `/%%346` は `/%46` に、それは `/F` になる。
-/

namespace Envoy.Http.PathNormalizer

open Utility.PercentEncoding (isXdigit)
open Segments

/-! ## 十六進の桁の大文字 -/

set_option maxRecDepth 8000 in
theorem toUpperHex_hex_bounded : ∀ n, n < 256 → isXdigit (UInt8.ofNat n) = true →
    toUpperHex (toUpperHex (UInt8.ofNat n)) = toUpperHex (UInt8.ofNat n) ∧
      hexDigitValue (toUpperHex (UInt8.ofNat n)) = hexDigitValue (UInt8.ofNat n) := by
  decide

theorem toUpperHex_hex {a : UInt8} (h : isXdigit a = true) :
    toUpperHex (toUpperHex a) = toUpperHex a ∧ hexDigitValue (toUpperHex a) = hexDigitValue a := by
  have := toUpperHex_hex_bounded a.toNat (UInt8.toNat_lt a) (by rwa [UInt8.ofNat_toNat])
  rwa [UInt8.ofNat_toNat] at this

theorem upperIf_upperIf (upperCase : Bool) {a : UInt8} (h : isXdigit a = true) :
    upperIf upperCase (upperIf upperCase a) = upperIf upperCase a := by
  cases upperCase with
  | false => rfl
  | true => exact (toUpperHex_hex h).1

theorem hexDigitValue_upperIf (upperCase : Bool) {a : UInt8} (h : isXdigit a = true) :
    hexDigitValue (upperIf upperCase a) = hexDigitValue a := by
  cases upperCase with
  | false => rfl
  | true => exact (toUpperHex_hex h).2

/-! ## 段 1 の不動点 -/

/-- 段 1 が `%XY` のまま残す値: unreserved でなく、`/` か `\` なら残す扱い。 -/
def KeptEscape (action : PathWithEscapedSlashesAction) (octet : Nat) : Prop :=
  ¬Unreserved octet ∧ (octet = 47 ∨ octet = 92 → action = .implementationSpecificDefault ∨ action = .keepUnchanged)

/-- 段 1 の不動点: どの `%` も、段 1 が残す `%XY` の始まりで、その桁は段 1 の書き方のまま。 -/
inductive Stable (action : PathWithEscapedSlashesAction) (upperCase : Bool) : Bytes → Prop
  | nil : Stable action upperCase []
  | cons {c : UInt8} {rest : Bytes} : c ≠ 37 → Stable action upperCase rest → Stable action upperCase (c :: rest)
  | escape {a b : UInt8} {rest : Bytes} : isXdigit a = true → isXdigit b = true → upperIf upperCase a = a →
      upperIf upperCase b = b → KeptEscape action (hexDigitValue a * 16 + hexDigitValue b) →
      Stable action upperCase rest → Stable action upperCase (37 :: a :: b :: rest)

theorem decodeEscape_kept {action : PathWithEscapedSlashesAction} {upperCase : Bool} {a b : UInt8}
    (hk : KeptEscape action (hexDigitValue a * 16 + hexDigitValue b)) (tail : Option (Bytes × Bool)) :
    decodeEscape action upperCase a b tail = prependDecoded [37, upperIf upperCase a, upperIf upperCase b] false tail := by
  dsimp only [decodeEscape]
  rw [if_neg hk.1]
  split_ifs with hs
  · rcases hk.2 hs with h | h <;> rw [h]
  · rfl

section Stable

variable {action : PathWithEscapedSlashesAction} {upperCase : Bool}

theorem Stable.append {x y : Bytes} (hx : Stable action upperCase x) (hy : Stable action upperCase y) :
    Stable action upperCase (x ++ y) := by
  induction hx with
  | nil => exact hy
  | cons hc _ ih => exact .cons hc ih
  | escape hxa hxb hua hub hk _ ih => exact .escape hxa hxb hua hub hk ih

theorem stable_slash : Stable action upperCase [47] := .cons (by decide) .nil

theorem stable_ite_slash (b : Bool) : Stable action upperCase (if b then [47] else []) := by
  cases b with
  | false => exact .nil
  | true => exact stable_slash

theorem stable_intercalate {segs : List Bytes} (h : ∀ s ∈ segs, Stable action upperCase s) :
    Stable action upperCase ([47].intercalate segs) := by
  induction segs with
  | nil => exact .nil
  | cons s rest ih =>
    cases rest with
    | nil => simpa using h s List.mem_cons_self
    | cons t rest =>
      rw [List.intercalate_cons_cons, List.append_assoc]
      exact (h s List.mem_cons_self).append (stable_slash.append (ih fun u hu => h u (List.mem_cons_of_mem s hu)))

/-- 段 1 は不動点を変えず、redirect の印も立てない。 -/
theorem decodeOctets_of_stable {p : Bytes} (hp : Stable action upperCase p) (allowInvalid : Bool) :
    decodeOctets action allowInvalid upperCase p = some (p, false) := by
  induction hp with
  | nil => exact decodeOctets_nil
  | cons hc _ ih =>
    rw [decodeOctets_cons_of_ne hc, ih]
    rfl
  | escape hxa hxb hua hub hk _ ih =>
    rw [decodeOctets_escape ⟨hxa, hxb⟩, ih, decodeEscape_kept hk, hua, hub]
    rfl

/-- 残した `%XY` は、もう一度読んでも残す。 -/
theorem stable_kept {a b : UInt8} (hxa : isXdigit a = true) (hxb : isXdigit b = true)
    (hk : KeptEscape action (hexDigitValue a * 16 + hexDigitValue b)) {d : Bytes} (hd : Stable action upperCase d) :
    Stable action upperCase ([37, upperIf upperCase a, upperIf upperCase b] ++ d) := by
  refine .escape (isXdigit_upperIf upperCase hxa) (isXdigit_upperIf upperCase hxb) (upperIf_upperIf upperCase hxa)
    (upperIf_upperIf upperCase hxb) ?_ hd
  rwa [hexDigitValue_upperIf upperCase hxa, hexDigitValue_upperIf upperCase hxb]

theorem OnDecoded.prepend_stable {res : Option (Bytes × Bool)} {c : UInt8} (hc : c ≠ 37)
    (h : OnDecoded (Stable action upperCase) res) (flag : Bool) :
    OnDecoded (Stable action upperCase) (prependDecoded [c] flag res) :=
  h.prepend (fun _ hd => .cons hc hd) flag

theorem OnDecoded.decodeEscape_stable {a b : UInt8} (hxa : isXdigit a = true) (hxb : isXdigit b = true)
    {tail : Option (Bytes × Bool)} (h : OnDecoded (Stable action upperCase) tail) :
    OnDecoded (Stable action upperCase) (decodeEscape action upperCase a b tail) := by
  -- 戻した byte は `%` でない
  have hdecoded : hexDigitValue a * 16 + hexDigitValue b = 47 ∨ hexDigitValue a * 16 + hexDigitValue b = 92 →
      UInt8.ofNat (hexDigitValue a * 16 + hexDigitValue b) ≠ 37 := fun hs h37 => by
    have := (ofNat_octet_eq_iff hxa hxb 37).mp h37
    rcases hs with hs | hs <;> rw [hs] at this <;> exact absurd this (by decide)
  have hkept := fun hk => h.prepend (fun _ hd => stable_kept hxa hxb hk hd) false
  by_cases hk : KeptEscape action (hexDigitValue a * 16 + hexDigitValue b)
  · rw [decodeEscape_kept hk]
    exact hkept hk
  dsimp only [decodeEscape]
  split_ifs with hu hs
  · exact h.prepend_stable (ofNat_ne_percent_of_unreserved hu (octet_lt hxa hxb)) false
  · cases action with
    | implementationSpecificDefault => exact absurd ⟨hu, fun _ => .inl rfl⟩ hk
    | keepUnchanged => exact absurd ⟨hu, fun _ => .inr rfl⟩ hk
    | rejectRequest => exact OnDecoded.none _
    | unescapeAndForward => exact h.prepend_stable (hdecoded hs) false
    | unescapeAndRedirect => exact h.prepend_stable (hdecoded hs) true
  · exact absurd ⟨hu, fun h' => absurd h' hs⟩ hk

/-- 不正な `%` を拒否する段 1 の出力は、段 1 の不動点。 -/
theorem stable_decodeOctets {allowInvalid : Bool} (hallow : allowInvalid = false) (p : Bytes) :
    OnDecoded (Stable action upperCase) (decodeOctets action allowInvalid upperCase p) := by
  fun_induction decodeOctets action allowInvalid upperCase p with
  | case1 => exact fun _ _ h => by cases h; exact .nil
  | case2 a b rest hab ih => exact OnDecoded.decodeEscape_stable hab.1 hab.2 ih
  | case3 => exact OnDecoded.none _
  | case4 _ _ _ _ hinv => simp [hallow] at hinv
  | case5 _ _ _ _ hinv => simp [hallow] at hinv
  | case6 => exact OnDecoded.none _
  | case7 _ hinv => simp [hallow] at hinv
  | case8 _ hinv => simp [hallow] at hinv
  | case9 hinv => simp [hallow] at hinv
  | case10 => exact OnDecoded.none _
  | case11 c tl hc ih => exact ih.prepend_stable hc false

/-! ## 段 2 と段 3 は不動点を保つ -/

theorem Stable.translate {p : Bytes} (hp : Stable action upperCase p) :
    Stable action upperCase (translateBackToForwardSlashes p) := by
  -- 十六進の桁は `\` でない
  have hhex : ∀ {a : UInt8}, isXdigit a = true → (if a = 92 then 47 else a) = a := fun ha => by
    rw [if_neg]
    rintro rfl
    cases ha
  induction hp with
  | nil => exact .nil
  | cons hc _ ih =>
    simp only [translateBackToForwardSlashes, List.map_cons] at ih ⊢
    refine .cons ?_ ih
    split
    · decide
    · exact hc
  | escape hxa hxb hua hub hk _ ih =>
    simp only [translateBackToForwardSlashes, List.map_cons] at ih ⊢
    rw [if_neg (by decide), hhex hxa, hhex hxb]
    exact .escape hxa hxb hua hub hk ih

theorem mergeSlashRuns_cons_of_ne {c : UInt8} (hc : c ≠ 47) (tl : Bytes) : mergeSlashRuns (c :: tl) = c :: mergeSlashRuns tl := by
  rw [mergeSlashRuns, if_neg fun h => hc h.1]

theorem Stable.mergeSlashRuns {p : Bytes} (hp : Stable action upperCase p) :
    Stable action upperCase (mergeSlashRuns p) := by
  have hhex : ∀ {a : UInt8}, isXdigit a = true → a ≠ 47 := fun ha h => by
    rw [h] at ha
    cases ha
  induction hp with
  | nil => exact .nil
  | cons hc _ ih =>
    rw [PathNormalizer.mergeSlashRuns]
    split
    · exact ih
    · exact .cons hc ih
  | escape hxa hxb hua hub hk _ ih =>
    rw [mergeSlashRuns_cons_of_ne (by decide), mergeSlashRuns_cons_of_ne (hhex hxa), mergeSlashRuns_cons_of_ne (hhex hxb)]
    exact .escape hxa hxb hua hub hk ih

/-- 不動点を `/` で分けた片は不動点。`%XY` は `/` を跨がない。 -/
theorem Stable.splitOn {p : Bytes} (hp : Stable action upperCase p) : ∀ s ∈ p.splitOn 47, Stable action upperCase s := by
  have hhex : ∀ {a : UInt8}, isXdigit a = true → a ≠ 47 := fun ha h => by
    rw [h] at ha
    cases ha
  induction hp with
  | nil =>
    intro s hs
    rw [List.splitOn_nil, List.mem_singleton] at hs
    rw [hs]
    exact .nil
  | @cons c rest hc hrest ih =>
    obtain ⟨s₀, tl, hsplit⟩ := List.exists_cons_of_ne_nil (List.splitOn_ne_nil 47 rest)
    intro s hs
    by_cases h47 : c = 47
    · rw [h47, splitOn_sep_cons] at hs
      rcases List.mem_cons.mp hs with rfl | hs
      · exact .nil
      · exact ih s hs
    · rw [splitOn_cons_of_ne h47 hsplit] at hs
      rcases List.mem_cons.mp hs with rfl | hs
      · exact .cons hc (ih s₀ (by rw [hsplit]; exact List.mem_cons_self))
      · exact ih s (by rw [hsplit]; exact List.mem_cons_of_mem s₀ hs)
  | @escape a b rest hxa hxb hua hub hk hrest ih =>
    obtain ⟨s₀, tl, hsplit⟩ := List.exists_cons_of_ne_nil (List.splitOn_ne_nil 47 rest)
    intro s hs
    -- `%`、`a`、`b` は最初の片に付く
    rw [splitOn_cons_of_ne (by decide) (splitOn_cons_of_ne (hhex hxa) (splitOn_cons_of_ne (hhex hxb) hsplit))] at hs
    rcases List.mem_cons.mp hs with rfl | hs
    · exact .escape hxa hxb hua hub hk (ih s₀ (by rw [hsplit]; exact List.mem_cons_self))
    · exact ih s (by rw [hsplit]; exact List.mem_cons_of_mem s₀ hs)

end Stable

/-! ## 正規形の上の段 2 と段 3 -/

theorem mergeSlashRuns_of_noDoubleSep {l : Bytes} (h : NoDoubleSep 47 l) : mergeSlashRuns l = l := by
  induction l with
  | nil => rfl
  | cons c tl ih =>
    rw [mergeSlashRuns, if_neg, ih h.tail]
    rintro ⟨rfl, htl⟩
    obtain ⟨tl', rfl⟩ : ∃ tl', tl = 47 :: tl' := by
      cases tl with
      | nil => cases htl
      | cons d tl' =>
        cases htl
        exact ⟨tl', rfl⟩
    exact List.rel_of_isChain_cons_cons h ⟨rfl, rfl⟩

/-- 残す片だけを読む段 3 は、片を全て積む。 -/
theorem foldlM_dotSegmentStep_kept : ∀ (segs : List Bytes) (stack : List Bytes), (∀ s ∈ segs, KeptSegment s) →
    segs.foldlM dotSegmentStep stack = some (stack ++ segs)
  | [], stack, _ => by simp
  | s :: segs, stack, h => by
    obtain ⟨hne, h1, h2⟩ := h s List.mem_cons_self
    rw [List.foldlM_cons, dotSegmentStep_push stack hne h1 h2, Option.bind_eq_bind, Option.bind_some,
      foldlM_dotSegmentStep_kept segs _ fun u hu => h u (List.mem_cons_of_mem s hu), List.append_assoc,
      List.singleton_append]

/-- 正規形をもう一度段 3 で読むと、積んだ片がそのまま残る。 -/
theorem removeDotSegments_joinPath {stack : List Bytes} (hs : ∀ s ∈ stack, 47 ∉ s ∧ KeptSegment s) (trailing : Bool) :
    removeDotSegments ((joinPath stack trailing).splitOn 47) = some stack := by
  cases stack with
  | nil => cases trailing <;> rfl
  | cons s rest =>
    -- 先頭の空の片と最後の空の片は何も積まない
    rw [splitOn_joinPath_cons (fun u hu => (hs u hu).1), removeDotSegments, List.foldlM_cons, dotSegmentStep_nil,
      Option.bind_eq_bind, Option.bind_some, List.foldlM_append, foldlM_dotSegmentStep_kept _ _ fun u hu => (hs u hu).2,
      List.nil_append, Option.bind_eq_bind, Option.bind_some]
    cases trailing <;> rfl

theorem endsInDirectory_append_singleton (segs : List Bytes) (s : Bytes) :
    endsInDirectory (segs ++ [s]) = endsInDirectory [s] := by
  simp [endsInDirectory]

/-- 正規形を段 3 で読むと、最後の `/` も元のまま。 -/
theorem joinPath_endsInDirectory {stack : List Bytes} (hs : ∀ s ∈ stack, 47 ∉ s ∧ KeptSegment s) (trailing : Bool) :
    joinPath stack (endsInDirectory ((joinPath stack trailing).splitOn 47)) = joinPath stack trailing := by
  cases stack with
  | nil => rw [joinPath_nil, joinPath_nil]
  | cons s rest =>
    rw [splitOn_joinPath_cons (fun u hu => (hs u hu).1)]
    cases trailing with
    | true =>
      rw [if_pos rfl, ← List.cons_append, endsInDirectory_append_singleton]
      rfl
    | false =>
      -- 最後の片は残す片で、空でも `.` でも `..` でもない
      obtain ⟨-, hne, h1, h2⟩ := hs _ (List.getLast_mem (List.cons_ne_nil s rest))
      have hend : endsInDirectory (s :: rest) = false := by
        rw [← List.dropLast_append_getLast (List.cons_ne_nil s rest), endsInDirectory_append_singleton,
          endsInDirectory_singleton]
        simp [hne, h1, h2]
      rw [if_neg Bool.false_ne_true, List.append_nil, endsInDirectory_cons _ (List.cons_ne_nil s rest), hend]

/-! ## 正規形をもう一度正規化する -/

theorem translateBackToForwardSlashes_of_not_mem {path : Bytes} (h : 92 ∉ path) : translateBackToForwardSlashes path = path := by
  conv_rhs => rw [← List.map_id path]
  exact List.map_congr_left fun x hx => if_neg fun h92 : x = 92 => h (h92 ▸ hx)

theorem backslash_not_mem_translateBackToForwardSlashes (path : Bytes) : 92 ∉ translateBackToForwardSlashes path := by
  intro h
  obtain ⟨x, -, hx⟩ := List.mem_map.mp h
  split at hx
  · exact absurd hx (by decide)
  · exact ‹¬x = 92› hx

/-- 段 3 の出力の `/` の後が段 1 の不動点で、`\` を直すなら `\` を持たなければ、もう一度 `normalizePathWith` で
正規化しても変わらず、redirect もしない。 -/
theorem normalizePathWith_joinPath {action : PathWithEscapedSlashesAction} {upperCase translate : Bool}
    {stack : List Bytes} {trailing : Bool} (hs : ∀ s ∈ stack, 47 ∉ s ∧ KeptSegment s)
    (hst : Stable action upperCase (joinPath stack trailing).tail) (htr : translate = true → 92 ∉ joinPath stack trailing)
    (allowInvalid : Bool) :
    normalizePathWith action allowInvalid upperCase translate (joinPath stack trailing).tail =
      some (joinPath stack trailing, false) := by
  have hcons : 47 :: (joinPath stack trailing).tail = joinPath stack trailing := rfl
  have hpath : (if translate then translateBackToForwardSlashes (47 :: (joinPath stack trailing).tail)
      else 47 :: (joinPath stack trailing).tail) = joinPath stack trailing := by
    rw [hcons]
    split
    · exact translateBackToForwardSlashes_of_not_mem (htr ‹_›)
    · rfl
  have hmerge := mergeSlashRuns_of_noDoubleSep (noDoubleSep_joinPath (fun s h => ⟨(hs s h).2.1, (hs s h).1⟩) trailing)
  simp only [normalizePathWith, decodeOctets_of_stable hst allowInvalid, Option.bind_some, hpath, hmerge,
    removeDotSegments_joinPath hs, Option.map_some, joinPath_endsInDirectory hs]

/-- 不正な `%` を拒否する `normalizePathWith` の結果を、`/` の後からもう一度正規化すると、不正な `%` を
許すかどうかに依らず、結果は変わらず redirect もしない。 -/
theorem normalizePathWith_idem {action : PathWithEscapedSlashesAction} {upperCase translate : Bool} {p n : Bytes}
    {redirect : Bool} (h : normalizePathWith action false upperCase translate p = some (n, redirect)) (allowInvalid : Bool) :
    ∃ n', n = 47 :: n' ∧ normalizePathWith action allowInvalid upperCase translate n' = some (n, false) := by
  obtain ⟨d, stack, hd, hstack, rfl⟩ := normalizePathWith_eq_some h
  -- 段 1 の出力は不動点で、`\` の書き直しと段 2 と `/` で分けることが、それを片ごとに保つ
  have hpath : Stable action upperCase (if translate then translateBackToForwardSlashes (47 :: d) else 47 :: d) := by
    have h0 : Stable action upperCase (47 :: d) := .cons (by decide) (stable_decodeOctets rfl p d redirect hd)
    split
    · exact h0.translate
    · exact h0
  have hseg : ∀ s ∈ stack, Stable action upperCase s := fun s hs =>
    hpath.mergeSlashRuns.splitOn s (mem_removeDotSegments hstack hs).1
  have htail : Stable action upperCase (joinPath stack (endsInDirectory
      ((mergeSlashRuns (if translate then translateBackToForwardSlashes (47 :: d) else 47 :: d)).splitOn 47))).tail := by
    exact (stable_intercalate hseg).append (stable_ite_slash _)
  refine ⟨_, rfl, normalizePathWith_joinPath (kept_of_removeDotSegments hstack) htail (fun htr => ?_) allowInvalid⟩
  refine not_mem_joinPath_of_removeDotSegments (by decide) ?_ hstack _
  rw [if_pos htr]
  exact backslash_not_mem_translateBackToForwardSlashes _

/-! ## `normalizePathUri` の冪等性 -/

/-- `/` を併合し不正な `%` を拒否する設定では、escape された `/` のどの扱いでも、`\` を直すかどうかに依らず、
`/` で始まる `:path` の request を拒否しなければ、正規化した header をもう一度正規化すると、不正な `%` を許す
かどうかに依らず、redirect せずに受け付けて header を変えない。 -/
theorem normalizePathUri_idempotent (config : UriPathNormalizationOptions) (overrides : ConfigOverrides)
    (headers : RequestHeaderMap) (hmerge : config.skipMergingSlashes = false) (hpath : headers.path.head? = some 47)
    (hacc : (normalizePathUri config overrides false headers).1.action ≠ .reject) (allow : Bool) :
    normalizePathUri config overrides allow (normalizePathUri config overrides false headers).2 =
      (.success, (normalizePathUri config overrides false headers).2) := by
  obtain ⟨p, n, redirect, hsplit, hn, hheaders⟩ := normalizePathUri_accepted hmerge hpath hacc
  obtain ⟨n', rfl, hn'⟩ := normalizePathWith_idem hn allow
  -- 新しい `:path` は `/n' q` で、`n'` は `?` も `#` も持たない
  have hp := not_mem_of_splitPathAndQueryParams hsplit
  have hinert := (normalizePathWith_normal hn).2
  have hn'q : 63 ∉ n' ∧ 35 ∉ n' :=
    ⟨fun h => hinert 63 inert_question hp.1 (List.mem_cons_of_mem 47 h),
      fun h => hinert 35 inert_hash hp.2 (List.mem_cons_of_mem 47 h)⟩
  have hsplit' := splitPathAndQueryParams_eq hn'q (splitPathAndQueryParams_snd headers.path)
  have hconnect : isStandardConnectRequest headers = false := isStandardConnectRequest_of_accepted hpath hacc
  rw [hheaders, normalizePathUri_eq_normalizePathWith config overrides allow
    { headers with path := 47 :: n' ++ (splitPathAndQueryParams headers.path).2 } hmerge hconnect
    (congrArg Prod.fst hsplit'), hn']
  simp only [hsplit', Bool.false_eq_true, if_false]

/-- `/a%2Fb/./%7e%2f%5c?q` を、escape された `/` を戻して redirect し、`\` を `/` に直す設定で正規化した header
は、もう一度正規化しても変わらない。 -/
theorem normalizePathUri_unescape_redirect_idempotent :
    normalizePathUri ⟨false, .unescapeAndRedirect⟩ ⟨false, true⟩ true
        (normalizePathUri ⟨false, .unescapeAndRedirect⟩ ⟨false, true⟩ false
          ⟨lit "GET", lit "/a%2Fb/./%7e%2f%5c?q", lit "HTTP/1.1"⟩).2 =
      (.success, (normalizePathUri ⟨false, .unescapeAndRedirect⟩ ⟨false, true⟩ false
          ⟨lit "GET", lit "/a%2Fb/./%7e%2f%5c?q", lit "HTTP/1.1"⟩).2) :=
  normalizePathUri_idempotent _ _ _ rfl (by decide +kernel) (by decide +kernel) true

-- 不正な `%` を残す設定では冪等でない: `/%%346` は `/%46` になり、それは `/F` になる
example : (normalizePathUri ⟨false, .keepUnchanged⟩ ⟨false, false⟩ true
    ⟨lit "GET", lit "/%%346", lit "HTTP/1.1"⟩).2.path = lit "/%46" := by
  decide +kernel

example : (normalizePathUri ⟨false, .keepUnchanged⟩ ⟨false, false⟩ true
    ⟨lit "GET", lit "/%46", lit "HTTP/1.1"⟩).2.path = lit "/F" := by
  decide +kernel

end Envoy.Http.PathNormalizer
