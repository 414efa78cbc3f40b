import Envoy.Http.Utility

/-!
# `PathNormalizer`

`source/extensions/http/header_validators/envoy_default/path_normalizer.cc` の `:path` の正規化。
`std::string` は byte の列で、iterator は `path.begin()` からの位置で表す（`begin` は 0）。三つの pass は
どれも一つの文字列の上で読む位置 `read` と書く位置 `write` を進め（始めはどちらも先頭の `/` の次）、
最後に `path.resize(write)` で切る。`*iter` は `path.getD iter 0`。

`HeaderValidatorConfig` と `ConfigOverrides` は、ここで読む欄だけを持つ。
`Runtime::runtimeFeatureEnabled("envoy.reloadable_features.uhv_allow_malformed_url_encoding")` は引数
`allowMalformedUrlEncoding` で渡す。文字は byte の値で書く: `%` 37、`/` 47、`.` 46、`\` 92、`?` 63、
`#` 35、`A` 65、`a` 97、`0` 48。
-/

namespace Envoy.Http.PathNormalizer

open Utility.PercentEncoding (isXdigit)

inductive PathWithEscapedSlashesAction
  | implementationSpecificDefault
  | keepUnchanged
  | rejectRequest
  | unescapeAndForward
  | unescapeAndRedirect
  deriving DecidableEq, Repr

/-- `HeaderValidatorConfig::uri_path_normalization_options()` の読む欄。 -/
structure UriPathNormalizationOptions where
  skipMergingSlashes : Bool
  pathWithEscapedSlashesAction : PathWithEscapedSlashesAction
  deriving DecidableEq, Repr

/-- `ConfigOverrides` の、正規化が読む欄。 -/
structure ConfigOverrides where
  preserveUrlEncodedCase : Bool
  allowNonCompliantCharactersInPath : Bool
  deriving DecidableEq, Repr

/-- `ConfigOverrides()`: どちらの欄も既定は `true`。 -/
def ConfigOverrides.default : ConfigOverrides := ⟨true, true⟩

inductive PercentDecodeResult
  | invalid
  | reject
  | normalized
  | decoded
  | decodedRedirect
  deriving DecidableEq, Repr

/-- `DecodedOctet(result, octet = '\0')`。 -/
structure DecodedOctet where
  result : PercentDecodeResult
  octet : UInt8
  deriving DecidableEq, Repr

/-- `RejectOrRedirectAction`。 -/
inductive Action
  | accept
  | reject
  | redirect
  deriving DecidableEq, Repr

/-- `RejectOrRedirectResult`: 動作と詳細。 -/
structure PathNormalizationResult where
  action : Action
  details : String
  deriving DecidableEq, Repr

def PathNormalizationResult.success : PathNormalizationResult := ⟨.accept, ""⟩

/-- `UhvResponseCodeDetail::get().InvalidUrl`。 -/
def invalidUrl : String := "uhv.invalid_url"

/-- `PathNormalizerResponseCodeDetail::get().RedirectNormalized`。 -/
def redirectNormalized : String := "uhv.path_normalization_redirect"

/-- `RequestHeaderMap` の、正規化が読み書きする値。 -/
structure RequestHeaderMap where
  method : Bytes
  path : Bytes
  protocol : Bytes
  deriving DecidableEq, Repr

/-- `HeaderUtility::isStandardConnectRequest()`。 -/
def isStandardConnectRequest (headers : RequestHeaderMap) : Bool :=
  headers.method == lit "CONNECT" && headers.protocol.isEmpty

/-- `kUnreservedCharTable.hasChar(ch)`: `kAlphanumeric | fromChars("-._~")`。 -/
def kUnreservedCharTable (ch : UInt8) : Bool :=
  (65 ≤ ch && ch ≤ 90) || (97 ≤ ch && ch ≤ 122) || (48 ≤ ch && ch ≤ 57) || (lit "-._~").contains ch

/-! ## `normalizeAndDecodeOctet` -/

/-- `nibble >= 'a' ? nibble ^ 0x20 : nibble`。 -/
def normalizeNibble (nibble : UInt8) : UInt8 := if nibble ≥ 97 then nibble ^^^ 0x20 else nibble

/-- `nibble >= 'A' ? (nibble - 'A' + 10) : (nibble - '0')`。 -/
def nibbleValue (nibble : UInt8) : UInt8 := if nibble ≥ 65 then nibble - 65 + 10 else nibble - 48

/-- `for (int i = 0; i < 2; ++i)`: 残りの桁の数 `k`（`i = 2 - k`）で回す。桁を大文字にし、
`preserve_case` でなければ文字列にも書き戻し、`ch` に足す。`ch` は `char` で 256 で回る。 -/
def octetLoop (preserveCase : Bool) : Nat → Bytes → Nat → UInt8 → Option UInt8 × Bytes
  | 0, path, _, ch => (some ch, path)
  | k + 1, path, iter, ch =>
    let iter := iter + 1
    if iter = path.length then (none, path)
    else
      let nibble := path.getD iter 0
      if !isXdigit nibble then (none, path)
      else
        let nibble := normalizeNibble nibble
        let path := if !preserveCase then path.set iter nibble else path
        let factor : UInt8 := if k + 1 = 2 then 16 else 1
        octetLoop preserveCase k path iter (ch + factor * nibbleValue nibble)

def normalizeAndDecodeOctet (config : UriPathNormalizationOptions) (overrides : ConfigOverrides) (path : Bytes)
    (iter : Nat) : DecodedOctet × Bytes :=
  if iter = path.length ∨ path.getD iter 0 ≠ 37 then (⟨.invalid, 0⟩, path)
  else
    match octetLoop overrides.preserveUrlEncodedCase 2 path iter 0 with
    | (none, path) => (⟨.invalid, 0⟩, path)
    | (some ch, path) =>
      if kUnreservedCharTable ch then (⟨.decoded, ch⟩, path)
      else if ch = 47 ∨ ch = 92 then
        match config.pathWithEscapedSlashesAction with
        | .implementationSpecificDefault => (⟨.normalized, 0⟩, path)
        | .keepUnchanged => (⟨.normalized, 0⟩, path)
        | .rejectRequest => (⟨.reject, 0⟩, path)
        | .unescapeAndForward => (⟨.decoded, ch⟩, path)
        | .unescapeAndRedirect => (⟨.decodedRedirect, ch⟩, path)
      else (⟨.normalized, 0⟩, path)

@[simp] theorem length_octetLoop (preserveCase : Bool) (k : Nat) (path : Bytes) (iter : Nat) (ch : UInt8) :
    (octetLoop preserveCase k path iter ch).2.length = path.length := by
  induction k generalizing path iter ch with
  | zero => rfl
  | succ k ih =>
    simp only [octetLoop]
    split
    · rfl
    · split
      · rfl
      · rw [ih]
        split <;> simp

@[simp] theorem length_normalizeAndDecodeOctet (config : UriPathNormalizationOptions) (overrides : ConfigOverrides)
    (path : Bytes) (iter : Nat) : (normalizeAndDecodeOctet config overrides path iter).2.length = path.length := by
  unfold normalizeAndDecodeOctet
  split
  · rfl
  · have := length_octetLoop overrides.preserveUrlEncodedCase 2 path iter 0
    split
    · simp_all
    · rename_i ch path' heq
      rw [heq] at this
      split
      · exact this
      · split
        · split <;> exact this
        · exact this

/-! ## pass 1: `decodePass` -/

/-- `decodePass` の `while (read != end)`。`none` は拒否。 -/
def decodePassLoop (config : UriPathNormalizationOptions) (overrides : ConfigOverrides) (allowInvalidUrlEncoding : Bool)
    (path : Bytes) (read write : Nat) (redirect : Bool) : Option (Bytes × Nat × Bool) :=
  if read < path.length then
    if path.getD read 0 = 37 then
      let decodeResult := normalizeAndDecodeOctet config overrides path read
      let path := decodeResult.2
      match decodeResult.1.result with
      | .invalid =>
        if allowInvalidUrlEncoding then
          decodePassLoop config overrides allowInvalidUrlEncoding (path.set write (path.getD read 0)) (read + 1)
            (write + 1) redirect
        else none
      | .reject => none
      | .normalized =>
        -- `*write++ = *read++` を三回
        let path := path.set write (path.getD read 0)
        let path := path.set (write + 1) (path.getD (read + 1) 0)
        let path := path.set (write + 2) (path.getD (read + 2) 0)
        decodePassLoop config overrides allowInvalidUrlEncoding path (read + 3) (write + 3) redirect
      | .decodedRedirect =>
        decodePassLoop config overrides allowInvalidUrlEncoding (path.set (read + 2) decodeResult.1.octet) (read + 2)
          write true
      | .decoded =>
        -- 復号した byte を `read[2]` に置き、次の回にそこから読む
        decodePassLoop config overrides allowInvalidUrlEncoding (path.set (read + 2) decodeResult.1.octet) (read + 2)
          write redirect
    else
      decodePassLoop config overrides allowInvalidUrlEncoding (path.set write (path.getD read 0)) (read + 1)
        (write + 1) redirect
  else some (path, write, redirect)
termination_by path.length - read
decreasing_by all_goals simp only [List.length_set, length_normalizeAndDecodeOctet]; omega

/-- `decodePass`。拒否の後の文字列は呼び出し側が読まないので、元の文字列を返す。 -/
def decodePass (config : UriPathNormalizationOptions) (overrides : ConfigOverrides) (allowInvalidUrlEncoding : Bool)
    (path : Bytes) : PathNormalizationResult × Bytes :=
  match decodePassLoop config overrides allowInvalidUrlEncoding path 1 1 false with
  | none => (⟨.reject, invalidUrl⟩, path)
  | some (path, write, redirect) =>
    (if redirect then ⟨.redirect, redirectNormalized⟩ else .success, path.take write)

def translateBackToForwardSlashes (path : Bytes) : Bytes := path.map fun character => if character = 92 then 47 else character

/-! ## pass 2: `mergeSlashesPass` -/

def mergeSlashesPassLoop (path : Bytes) (read write : Nat) : Bytes × Nat :=
  if read < path.length then
    if path.getD read 0 = 47 then
      let prev := path.getD (write - 1) 0
      if prev = 47 then mergeSlashesPassLoop path (read + 1) write
      else mergeSlashesPassLoop (path.set write (path.getD read 0)) (read + 1) (write + 1)
    else mergeSlashesPassLoop (path.set write (path.getD read 0)) (read + 1) (write + 1)
  else (path, write)
termination_by path.length - read
decreasing_by all_goals (try simp only [List.length_set]); omega

def mergeSlashesPass (path : Bytes) : PathNormalizationResult × Bytes :=
  let result := mergeSlashesPassLoop path 1 1
  (.success, result.1.take result.2)

/-! ## pass 3: `collapseDotSegmentsPass` -/

/-- `findStartOfPreviousSegment(current, begin)` の `for (; current != begin; --current)`。 -/
def findStartOfPreviousSegmentLoop (path : Bytes) (seenSegmentChar : Bool) : Nat → Nat
  | 0 => if seenSegmentChar then 1 else 0
  | current + 1 =>
    if path.getD (current + 1) 0 = 47 ∧ seenSegmentChar then current + 2
    else
      let seenSegmentChar := if path.getD (current + 1) 0 ≠ 47 ∧ !seenSegmentChar then true else seenSegmentChar
      findStartOfPreviousSegmentLoop path seenSegmentChar current

def findStartOfPreviousSegment (path : Bytes) (current : Nat) : Nat := findStartOfPreviousSegmentLoop path false current

/-- `collapseDotSegmentsPass` の `while (read != end)`。`path_view` は書き換え中の文字列を見る。 -/
def collapseDotSegmentsPassLoop (path : Bytes) (read write : Nat) : Option (Bytes × Nat) :=
  if read < path.length then
    if path.getD read 0 = 46 then
      let prev := path.getD (write - 1) 0
      if prev = 47 then
        let dotSegment := (path.drop read).take 3
        if (lit "./").isPrefixOf dotSegment ∨ dotSegment = lit "." then
          collapseDotSegmentsPassLoop path (read + min dotSegment.length 2) write
        else if dotSegment = lit "../" ∨ dotSegment = lit ".." then
          let newWrite := findStartOfPreviousSegment path (write - 1)
          if newWrite = 0 then none
          else collapseDotSegmentsPassLoop path (read + min dotSegment.length 3) newWrite
        else collapseDotSegmentsPassLoop (path.set write (path.getD read 0)) (read + 1) (write + 1)
      else collapseDotSegmentsPassLoop (path.set write (path.getD read 0)) (read + 1) (write + 1)
    else collapseDotSegmentsPassLoop (path.set write (path.getD read 0)) (read + 1) (write + 1)
  else some (path, write)
termination_by path.length - read
decreasing_by all_goals simp only [List.length_set, List.length_take, List.length_drop]; omega

def collapseDotSegmentsPass (path : Bytes) : PathNormalizationResult × Bytes :=
  match collapseDotSegmentsPassLoop path 1 1 with
  | none => (⟨.reject, invalidUrl⟩, path)
  | some (path, write) => (.success, path.take write)

/-! ## `normalizePathUri` -/

/-- `find_first_of("?#")` で切る。 -/
def splitPathAndQueryParams (pathAndQueryParams : Bytes) : Bytes × Bytes :=
  match pathAndQueryParams.findIdx? (fun c => c == 63 || c == 35) with
  | none => (pathAndQueryParams, [])
  | some delim => (pathAndQueryParams.take delim, pathAndQueryParams.drop delim)

def normalizePathUri (config : UriPathNormalizationOptions) (overrides : ConfigOverrides)
    (allowMalformedUrlEncoding : Bool) (headerMap : RequestHeaderMap) : PathNormalizationResult × RequestHeaderMap :=
  let originalPath := headerMap.path
  if originalPath = lit "*" ∧ headerMap.method = lit "OPTIONS" then (.success, headerMap)
  else if isStandardConnectRequest headerMap then
    if originalPath.isEmpty then (.success, headerMap) else (⟨.reject, invalidUrl⟩, headerMap)
  else if originalPath.isEmpty ∨ originalPath.head? ≠ some 47 then (⟨.reject, invalidUrl⟩, headerMap)
  else
    let split := splitPathAndQueryParams originalPath
    let query := split.2
    let decoded := decodePass config overrides allowMalformedUrlEncoding split.1
    if decoded.1.action = .reject then (decoded.1, headerMap)
    else
      let redirect := decoded.1.action = .redirect
      let path := if overrides.allowNonCompliantCharactersInPath then translateBackToForwardSlashes decoded.2
        else decoded.2
      let merged := if !config.skipMergingSlashes then mergeSlashesPass path else (.success, path)
      if merged.1.action = .reject then (merged.1, headerMap)
      else
        let redirect := redirect || merged.1.action = .redirect
        let collapsed := collapseDotSegmentsPass merged.2
        if collapsed.1.action = .reject then (collapsed.1, headerMap)
        else
          let redirect := redirect || collapsed.1.action = .redirect
          let headerMap := { headerMap with path := collapsed.2 ++ query }
          if redirect then (⟨.redirect, redirectNormalized⟩, headerMap) else (.success, headerMap)

end Envoy.Http.PathNormalizer
