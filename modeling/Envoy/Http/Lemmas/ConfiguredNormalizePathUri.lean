import Envoy.Http.Lemmas.DecodePass
import Envoy.Http.Lemmas.NormalizePathUri

/-!
# すべての設定での `normalizePathUri`

`/` を併合する設定では、escape された `/` のどの扱いでも、不正な `%` を許すかどうか、`\` を `/` に直すか
どうかに依らず、`normalizePathUri` は path の部分を `normalizePathWith` で写し、query の部分を残す。拒否は
段 1 か段 3 の拒否で、redirect は段 1 の印による。
-/

namespace Envoy.Http.PathNormalizer

open Utility.PercentEncoding (isXdigit)
open Segments

/-! ## path と query の部分 -/

theorem splitPathAndQueryParams_append (x : Bytes) : (splitPathAndQueryParams x).1 ++ (splitPathAndQueryParams x).2 = x := by
  unfold splitPathAndQueryParams
  split
  · exact List.append_nil x
  · exact List.take_append_drop _ x

/-- `/` で始まる `:path` を切ると、path の部分も `/` で始まる。 -/
theorem splitPathAndQueryParams_slash {x : Bytes} (hx : x.head? = some 47) :
    ∃ p, (splitPathAndQueryParams x).1 = 47 :: p := by
  obtain ⟨x', rfl⟩ : ∃ x', x = 47 :: x' := by
    cases x with
    | nil => cases hx
    | cons c x' =>
      cases hx
      exact ⟨x', rfl⟩
  unfold splitPathAndQueryParams
  rw [List.findIdx?_cons, if_neg (by decide)]
  cases x'.findIdx? (fun c => c == 63 || c == 35) with
  | none => exact ⟨x', rfl⟩
  | some k => exact ⟨x'.take k, rfl⟩

theorem translateBackToForwardSlashes_cons_slash (d : Bytes) :
    translateBackToForwardSlashes (47 :: d) = 47 :: translateBackToForwardSlashes d := by
  simp [translateBackToForwardSlashes]

/-! ## `normalizePathUri` -/

/-- `/` を併合する設定で、path の部分が `/p` の CONNECT でない request を正規化すると、`normalizePathWith` が
拒否するときに限り拒否し、そうでなければ段 1 の印で redirect を選び、`:path` を結果と query の部分にする。 -/
theorem normalizePathUri_eq_normalizePathWith (config : UriPathNormalizationOptions) (overrides : ConfigOverrides)
    (allow : Bool) (headers : RequestHeaderMap) (hmerge : config.skipMergingSlashes = false)
    (hconnect : isStandardConnectRequest headers = false) {p : Bytes}
    (hsplit : (splitPathAndQueryParams headers.path).1 = 47 :: p) :
    normalizePathUri config overrides allow headers =
      match normalizePathWith config.pathWithEscapedSlashesAction allow (!overrides.preserveUrlEncodedCase)
          overrides.allowNonCompliantCharactersInPath p with
      | none => (⟨.reject, invalidUrl⟩, headers)
      | some (n, redirect) => (if redirect then ⟨.redirect, redirectNormalized⟩ else .success,
          { headers with path := n ++ (splitPathAndQueryParams headers.path).2 }) := by
  have hpath : headers.path = 47 :: (p ++ (splitPathAndQueryParams headers.path).2) := by
    rw [← List.cons_append, ← hsplit, splitPathAndQueryParams_append]
  have hnotStar : ¬(headers.path = lit "*" ∧ headers.method = lit "OPTIONS") := fun h => by
    have := h.1
    rw [hpath] at this
    simp [lit] at this
  have hslash : ¬(headers.path.isEmpty = true ∨ ¬headers.path.head? = some 47) := by
    rw [hpath]
    simp
  unfold normalizePathUri
  simp only [if_neg hnotStar, hconnect, Bool.false_eq_true, if_false, if_neg hslash, hsplit, decodePass_eq, hmerge,
    Bool.not_false, if_true]
  cases hd : decodeOctets config.pathWithEscapedSlashesAction allow (!overrides.preserveUrlEncodedCase) p with
  | none => simp [normalizePathWith, hd]
  | some r =>
    obtain ⟨d, redirect⟩ := r
    have hne : ¬(if redirect = true then (⟨.redirect, redirectNormalized⟩ : PathNormalizationResult)
        else .success).action = .reject := by
      cases redirect <;> decide
    -- 段 1 の後の `\` の書き直しも、先頭の `/` を残す
    obtain ⟨d', hd'⟩ : ∃ d', (if overrides.allowNonCompliantCharactersInPath = true then
        translateBackToForwardSlashes (47 :: d) else 47 :: d) = 47 :: d' := by
      cases overrides.allowNonCompliantCharactersInPath
      · exact ⟨d, rfl⟩
      · exact ⟨_, translateBackToForwardSlashes_cons_slash d⟩
    obtain ⟨t, ht⟩ := mergeSlashRuns_slash_cons d'
    have hnd : NoDoubleSep 47 (47 :: t) := ht ▸ noDoubleSep_mergeSlashRuns _
    simp only [normalizePathWith, hd, Option.bind_some, if_neg hne, hd', mergeSlashesPass_spec, ht,
      collapseDotSegmentsPass_spec hnd]
    -- 残るのは段 3 の結果と段 1 の印による場合分け
    cases removeDotSegments ((47 :: t).splitOn 47) with
    | none => rfl
    | some stack => cases redirect <;> rfl

/-- `/` を併合する設定では、escape された `/` のどの扱いでも、不正な `%` を許すかどうか、`\` を直すかどうかに
依らず、`:path` が `/p q`（`q` は空か最初の `?` か `#` から）の CONNECT でない request の正規化は、
`normalizePathWith` が拒否するときに限り `uhv.invalid_url` で拒否して header を変えず、そうでなければ段 1 の
印が立ったときに限り redirect し、`:path` を `normalizePathWith` の結果と `q` にする。 -/
theorem normalizePathUri_computes_normalizePathWith (config : UriPathNormalizationOptions)
    (overrides : ConfigOverrides) (allow : Bool) (headers : RequestHeaderMap) (p q : Bytes)
    (hmerge : config.skipMergingSlashes = false) (hconnect : isStandardConnectRequest headers = false)
    (hpath : headers.path = 47 :: p ++ q) (hp : 63 ∉ p ∧ 35 ∉ p)
    (hq : q = [] ∨ q.head? = some 63 ∨ q.head? = some 35) :
    normalizePathUri config overrides allow headers =
      match normalizePathWith config.pathWithEscapedSlashesAction allow (!overrides.preserveUrlEncodedCase)
          overrides.allowNonCompliantCharactersInPath p with
      | none => (⟨.reject, invalidUrl⟩, headers)
      | some (n, redirect) => (if redirect then ⟨.redirect, redirectNormalized⟩ else .success,
          { headers with path := n ++ q }) := by
  have hsplit := splitPathAndQueryParams_eq hp hq
  rw [normalizePathUri_eq_normalizePathWith config overrides allow headers hmerge hconnect (by rw [hpath, hsplit]),
    hpath, hsplit]

/-- `/a%2Fb/../%7e%2f%za?q` を、escape された `/` を戻して redirect し、不正な `%` を残す設定で正規化する。 -/
theorem normalizePathUri_unescape_redirect :
    normalizePathUri ⟨false, .unescapeAndRedirect⟩ ⟨false, true⟩ true
        ⟨lit "GET", lit "/a%2Fb/../%7e%2f%za?q", lit "HTTP/1.1"⟩ =
      (⟨.redirect, redirectNormalized⟩, ⟨lit "GET", lit "/a/~/%za?q", lit "HTTP/1.1"⟩) :=
  (normalizePathUri_computes_normalizePathWith _ _ true _ (lit "a%2Fb/../%7e%2f%za") (lit "?q") rfl
    (by decide +kernel) (by decide +kernel) (by decide +kernel) (.inr (.inl (by decide +kernel)))).trans
    (by decide +kernel)

end Envoy.Http.PathNormalizer
