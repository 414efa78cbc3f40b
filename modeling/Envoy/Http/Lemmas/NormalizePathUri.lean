import Envoy.Http.Lemmas.PathNormalizer
import Envoy.Http.Lemmas.DotSegments

/-!
# `normalizePathUri` は `N(p)` を計算する

既定の正規化の設定（`/` を併合し、escape された `/` は `IMPLEMENTATION_SPECIFIC_DEFAULT` か
`KEEP_UNCHANGED`、`allow_non_compliant_characters_in_path` は切）で、`:path` が `/p q` の request を正規化すると、
三つの pass が仕様の三つの段を順に計算する。拒否は段 3 の拒否だけで、redirect はしない。十六進の桁を
大文字にするのは `preserve_url_encoded_case` が切のときだけで、その既定は入である。
-/

namespace Envoy.Http.PathNormalizer

open Utility.PercentEncoding (isXdigit)
open Segments

/-! ## path と query の分け方 -/

theorem splitPathAndQueryParams_eq {p q : Bytes} (hp : 63 ∉ p ∧ 35 ∉ p)
    (hq : q = [] ∨ q.head? = some 63 ∨ q.head? = some 35) :
    splitPathAndQueryParams (47 :: p ++ q) = (47 :: p, q) := by
  have hnone : (47 :: p).findIdx? (fun c => c == 63 || c == 35) = none := by
    rw [List.findIdx?_eq_none_iff]
    intro c hc
    rcases List.mem_cons.mp hc with rfl | hc
    · rfl
    · have h63 : c ≠ 63 := fun h => hp.1 (h ▸ hc)
      have h35 : c ≠ 35 := fun h => hp.2 (h ▸ hc)
      simp [h63, h35]
  rw [splitPathAndQueryParams, List.findIdx?_append, hnone, Option.none_or]
  rcases hq with rfl | hq
  · simp
  · obtain ⟨c, q', rfl⟩ : ∃ c q', q = c :: q' := List.exists_cons_of_ne_nil (by rintro rfl; simp at hq)
    have hc : (c == 63 || c == 35) = true := by
      rcases hq with hq | hq <;> simp at hq <;> simp [hq]
    rw [List.findIdx?_cons, if_pos hc]
    simp

/-! ## `%` の後の二桁 -/

/-- どの `%` の後にも十六進の二桁があれば、`WellEscaped`。 -/
theorem wellEscaped_of_forall {p : Bytes}
    (h : ∀ xs ys, p = xs ++ 37 :: ys → ∃ a b zs, ys = a :: b :: zs ∧ isXdigit a = true ∧ isXdigit b = true) :
    WellEscaped p := by
  -- `%XY` は三つ先へ進むので、長さについての帰納法
  induction hlen : p.length using Nat.strong_induction_on generalizing p with
  | _ n ih =>
    match p with
    | [] => exact .nil
    | c :: rest =>
      by_cases hc : c = 37
      · subst hc
        obtain ⟨a, b, zs, rfl, ha, hb⟩ := h [] rest rfl
        refine .escape ha hb (ih zs.length (by rw [← hlen]; simp; omega) (fun xs ys hzs => ?_) rfl)
        exact h (37 :: a :: b :: xs) ys (by rw [hzs]; rfl)
      · exact .cons hc (ih rest.length (by rw [← hlen]; simp) (fun xs ys hrest => h (c :: xs) ys (by rw [hrest]; rfl)) rfl)

/-- 逆に、`WellEscaped` ならどの `%` の後にも十六進の二桁がある。 -/
theorem escape_followed_of_wellEscaped {p : Bytes} (h : WellEscaped p) :
    ∀ xs ys, p = xs ++ 37 :: ys → ∃ a b zs, ys = a :: b :: zs ∧ isXdigit a = true ∧ isXdigit b = true := by
  have hpct : isXdigit 37 = false := by decide
  induction h with
  | nil => intro xs ys h; cases xs <;> cases h
  | @cons c rest hc _ ih =>
    intro xs ys h
    cases xs with
    | nil => cases h; exact absurd rfl hc
    | cons x xs => exact ih xs ys (List.cons.inj h).2
  | @escape a b rest ha hb _ ih =>
    intro xs ys h
    -- `%` が `%XY` の `%` か、`X` か `Y` か、その後ろか
    match xs, h with
    | [], h => cases h; exact ⟨a, b, rest, rfl, ha, hb⟩
    | [_], h => cases h; rw [hpct] at ha; cases ha
    | [_, _], h => cases h; rw [hpct] at hb; cases hb
    | _ :: _ :: _ :: xs, h => exact ih xs ys (List.cons.inj (List.cons.inj (List.cons.inj h).2).2).2

/-! ## 段 2 の出力の形 -/

theorem head?_mergeSlashRuns (l : Bytes) : (mergeSlashRuns l).head? = l.head? := by
  induction l with
  | nil => rfl
  | cons c tl ih =>
    rw [mergeSlashRuns]
    split
    · rename_i h
      rw [ih, h.2, h.1]
      rfl
    · rfl

/-- 段 2 の出力では `/` が二つ続かない。 -/
theorem noDoubleSep_mergeSlashRuns (l : Bytes) : NoDoubleSep 47 (mergeSlashRuns l) := by
  induction l with
  | nil => exact List.isChain_nil
  | cons c tl ih =>
    rw [mergeSlashRuns]
    split
    · exact ih
    · rename_i h
      refine List.IsChain.cons ih fun y hy => ?_
      rw [head?_mergeSlashRuns] at hy
      rw [Option.mem_def] at hy
      exact fun hcy => h ⟨hcy.1, hcy.2 ▸ hy⟩

theorem mergeSlashRuns_slash_cons (d : Bytes) : ∃ t, mergeSlashRuns (47 :: d) = 47 :: t := by
  have h := head?_mergeSlashRuns (47 :: d)
  cases hm : mergeSlashRuns (47 :: d) with
  | nil => rw [hm] at h; cases h
  | cons c t =>
    rw [hm] at h
    cases h
    exact ⟨t, rfl⟩

/-! ## `normalizePathUri` -/

/-- 段 1 から段 3 までの合成を、三つの pass の言葉で書いたもの。 -/
theorem normalizePath_eq (upperCase : Bool) (p : Bytes) :
    normalizePath upperCase p =
      (removeDotSegments ((mergeSlashRuns (47 :: decodeUnreserved upperCase p)).splitOn 47)).map fun stack =>
        joinPath stack (endsInDirectory ((mergeSlashRuns (47 :: decodeUnreserved upperCase p)).splitOn 47)) := rfl

/-- 既定の正規化の設定で、`:path` が `/p q`（`q` は空か最初の `?` か `#` から）で、`p` のどの `%` の後にも
十六進の二桁がある CONNECT でない request を正規化すると、`N(p)` が拒否するときに限り拒否し、そうでなければ
redirect せずに受け付けて `:path` を `N(p) q` にする。`N` の段 1 で十六進の桁を大文字にするのは、
`preserve_url_encoded_case` が切のときだけ。 -/
theorem normalizePathUri_computes_normalizePath (config : UriPathNormalizationOptions) (overrides : ConfigOverrides)
    (allowMalformedUrlEncoding : Bool) (headers : RequestHeaderMap) (p q : Bytes)
    (hmerge : config.skipMergingSlashes = false)
    (haction : config.pathWithEscapedSlashesAction = .implementationSpecificDefault ∨
      config.pathWithEscapedSlashesAction = .keepUnchanged)
    (hcompliant : overrides.allowNonCompliantCharactersInPath = false)
    (hconnect : isStandardConnectRequest headers = false)
    (hpath : headers.path = 47 :: p ++ q) (hp : 63 ∉ p ∧ 35 ∉ p)
    (hq : q = [] ∨ q.head? = some 63 ∨ q.head? = some 35)
    (hesc : ∀ xs ys, p = xs ++ 37 :: ys → ∃ a b zs, ys = a :: b :: zs ∧ isXdigit a = true ∧ isXdigit b = true) :
    normalizePathUri config overrides allowMalformedUrlEncoding headers =
      match normalizePath (!overrides.preserveUrlEncodedCase) p with
      | none => (⟨.reject, invalidUrl⟩, headers)
      | some n => (.success, { headers with path := n ++ q }) := by
  obtain ⟨t, ht⟩ := mergeSlashRuns_slash_cons (decodeUnreserved (!overrides.preserveUrlEncodedCase) p)
  have hnd : NoDoubleSep 47 (47 :: t) := ht ▸ noDoubleSep_mergeSlashRuns _
  have hdecode := decodePass_spec haction overrides allowMalformedUrlEncoding (wellEscaped_of_forall hesc)
  have hmerged := mergeSlashesPass_spec (decodeUnreserved (!overrides.preserveUrlEncodedCase) p)
  rw [ht] at hmerged
  have hnotStar : ¬(47 :: p ++ q = lit "*" ∧ headers.method = lit "OPTIONS") := fun h => by
    have := h.1
    simp [lit] at this
  have hslash : ¬((47 :: p ++ q).isEmpty = true ∨ ¬(47 :: p ++ q).head? = some 47) := by simp
  rw [normalizePath_eq, ht]
  simp only [normalizePathUri, hpath, if_neg hnotStar, hconnect, Bool.false_eq_true, if_false, if_neg hslash,
    splitPathAndQueryParams_eq hp hq, hdecode, hcompliant, hmerge, Bool.not_false, if_true, hmerged,
    collapseDotSegmentsPass_spec hnd]
  -- 残るのは段 3 の結果による場合分けだけ
  cases (removeDotSegments ((47 :: t).splitOn 47)).map fun stack =>
      joinPath stack (endsInDirectory ((47 :: t).splitOn 47)) with
  | none => rfl
  | some n => rfl

/-- `/a/%2e%2E/b?x` では、段 1 が `%2e%2E` を `..` に戻し、段 3 が `a` を降ろす。 -/
theorem normalizePathUri_decoded_dot_dot :
    normalizePathUri ⟨false, .implementationSpecificDefault⟩ ⟨true, false⟩ false
        ⟨lit "GET", lit "/a/%2e%2E/b?x", lit "HTTP/1.1"⟩ =
      (.success, ⟨lit "GET", lit "/b?x", lit "HTTP/1.1"⟩) :=
  (normalizePathUri_computes_normalizePath _ _ false _ (lit "a/%2e%2E/b") (lit "?x") rfl (.inl rfl) rfl
    (by decide +kernel) (by decide +kernel) (by decide +kernel) (.inr (.inl (by decide +kernel)))
    (escape_followed_of_wellEscaped (by decide +kernel))).trans (by decide +kernel)

/-- `preserve_url_encoded_case` の既定（入）では、decode しない escape の十六進の桁は大文字にならない:
`/%2f` は `/%2f` のまま受け付けられるが、大文字にする `N` は `/%2F` を返す。 -/
theorem normalizePathUri_keeps_escape_case :
    normalizePathUri ⟨false, .implementationSpecificDefault⟩ ⟨true, false⟩ false
        ⟨lit "GET", lit "/%2f", lit "HTTP/1.1"⟩ =
      (.success, ⟨lit "GET", lit "/%2f", lit "HTTP/1.1"⟩) ∧
    normalizePath true (lit "%2f") = some (lit "/%2F") := by
  decide +kernel

end Envoy.Http.PathNormalizer
