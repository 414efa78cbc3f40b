import Envoy.Http.Utility

/-!
# `XdsResourceIdentifier`

`source/common/config/xds_resource.cc`。`xds::core::v3::ResourceName`（URN）と
`ResourceLocator`（URL）の文字列への符号化と、文字列からの復号。各部分は予約文字の違う
percent 符号で包み、復号は最初の `/`、`?`、`#` と、`&`、`=`、`,` で切る。`alt` の指示は中に
`ResourceLocator` を持ち、符号化は二重になる。proto の `map<string, string>` の `ContextParams` は
`AList` で、`repeated Directive` は列で表す。`decodeUrl()` の再帰は `alt` の中の、もとより短い
文字列へ下りるので、文字列の長さを燃料にする。
-/

namespace Envoy.Config

open Http Http.Utility

abbrev ContextParams := AList fun _ : Bytes => Bytes

inductive Scheme where
  | xdstp
  | http
  | file
deriving DecidableEq, Repr

structure ResourceName where
  resourceType : Bytes
  authority : Bytes
  id : Bytes
  context : ContextParams

mutual

inductive ResourceLocator where
  | mk (scheme : Scheme) (authority resourceType id : Bytes) (exactContext : ContextParams)
    (directives : List Directive)

inductive Directive where
  | alt (locator : ResourceLocator)
  | entry (entry : Bytes)

end

namespace ResourceLocator

def scheme : ResourceLocator → Scheme
  | .mk scheme .. => scheme

def id : ResourceLocator → Bytes
  | .mk _ _ _ id .. => id

def directives : ResourceLocator → List Directive
  | .mk _ _ _ _ _ directives => directives

end ResourceLocator

/-- `decodeUrn()` と `decodeUrl()` が返す `absl::InvalidArgumentError`。 -/
inductive DecodeError where
  /-- `{} does not have an xdstp: scheme` -/
  | noXdsTpScheme (resourceUrn : Bytes)
  /-- `{} does not have a xdstp:, http: or file: scheme` -/
  | unknownScheme (resourceUrl : Bytes)
  /-- `Resource type missing from {}` -/
  | resourceTypeMissing (path : Bytes)
  /-- `Unknown fragment component {}` -/
  | unknownFragmentComponent (fragmentComponent : Bytes)
deriving DecidableEq, Repr

namespace XdsResourceIdentifier

/-! ## 符号化 -/

def encodeAuthority (authority : Bytes) : Bytes := PercentEncoding.encode authority (lit "%/?#")

def encodeIdPath (id : Bytes) : Bytes :=
  let path := PercentEncoding.encode id (lit "%?#[]")
  if path.isEmpty then [] else lit "/" ++ path

def encodeContextParams (contextParams : ContextParams) (sortContextParams : Bool) : Bytes :=
  let components := contextParams.entries.map fun p =>
    PercentEncoding.encode p.1 (lit "%#[]&=") ++ lit "=" ++ PercentEncoding.encode p.2 (lit "%#[]&=")
  let components := if sortContextParams then components.mergeSort (fun a b => decide (a ≤ b)) else components
  if components.isEmpty then [] else lit "?" ++ (lit "&").intercalate components

def directiveEscapeChars : Bytes := lit "%#[],"

mutual

/-- `encodeUrl()`。`alt` の中は既定の `EncodeOptions`（並べ替えない）で符号化する。 -/
def encodeUrl (sortContextParams : Bool) : ResourceLocator → Bytes
  | .mk scheme authority resourceType id exactContext directives =>
    let idPath := encodeIdPath id
    let fragmentComponents := encodeDirectives directives
    let fragment := if fragmentComponents.isEmpty then [] else lit "#" ++ (lit ",").intercalate fragmentComponents
    match scheme with
    | .http | .xdstp =>
      (if scheme = .http then lit "http:" else lit "xdstp:") ++ lit "//" ++ encodeAuthority authority ++ lit "/" ++
        resourceType ++ idPath ++ encodeContextParams exactContext sortContextParams ++ fragment
    | .file => lit "file://" ++ idPath ++ fragment

/-- `encodeDirectives()` の `fragment_components`。 -/
def encodeDirectives : List Directive → List Bytes
  | [] => []
  | .alt locator :: directives =>
    (lit "alt=" ++ PercentEncoding.encode (encodeUrl false locator) directiveEscapeChars) :: encodeDirectives directives
  | .entry entry :: directives =>
    (lit "entry=" ++ PercentEncoding.encode entry directiveEscapeChars) :: encodeDirectives directives

end

def encodeUrn (resourceName : ResourceName) (sortContextParams : Bool) : Bytes :=
  lit "xdstp://" ++ encodeAuthority resourceName.authority ++ lit "/" ++ resourceName.resourceType ++
    encodeIdPath resourceName.id ++ encodeContextParams resourceName.context sortContextParams

/-! ## 復号 -/

def hasXdsTpScheme (resourceName : Bytes) : Bool := (lit "xdstp:").isPrefixOf resourceName

/-- `decodePath()`。`withResourceType` は `resource_type != nullptr`。 -/
def decodePath (path : Bytes) (withResourceType : Bool) : Except DecodeError (Bytes × Bytes) :=
  -- 先頭の `/` は `extractHostPathFromUri()` が保証する
  let pathComponents := (path.drop 1).splitOn 47
  if withResourceType then
    let resourceType := pathComponents.headD []
    if resourceType.isEmpty then .error (.resourceTypeMissing path)
    else .ok (resourceType, PercentEncoding.decode ((lit "/").intercalate pathComponents.tail))
  else .ok ([], PercentEncoding.decode ((lit "/").intercalate pathComponents))

/-- `decodeQueryParams()`: 各鍵の最初の値を、鍵の順に書く。 -/
def decodeQueryParams (queryParams : Bytes) (contextParams : ContextParams) : ContextParams :=
  (QueryParamsMulti.parseQueryString queryParams).foldl
    (fun params it => params.insert (PercentEncoding.decode it.1) (PercentEncoding.decode (it.2.headD []))) contextParams

/-- `decodeFragment()` の `for`。`decodeUrl` は一段下の復号。 -/
def decodeFragmentComponents (decodeUrl : Bytes → Except DecodeError ResourceLocator) :
    List Bytes → Except DecodeError (List Directive)
  | [] => .ok []
  | fragmentComponent :: rest =>
    if (lit "alt=").isPrefixOf fragmentComponent then do
      let url ← decodeUrl (PercentEncoding.decode (fragmentComponent.drop 4))
      let directives ← decodeFragmentComponents decodeUrl rest
      return .alt url :: directives
    else if (lit "entry=").isPrefixOf fragmentComponent then do
      let directives ← decodeFragmentComponents decodeUrl rest
      return .entry (PercentEncoding.decode (fragmentComponent.drop 6)) :: directives
    else .error (.unknownFragmentComponent fragmentComponent)

/-- `?` から後を文脈の鍵と値に、前を path にする。 -/
def splitQuery (path : Bytes) : Bytes × ContextParams :=
  match path.idxOf? 63 with
  | some queryParamsStart => (path.take queryParamsStart, decodeQueryParams (path.drop queryParamsStart) ∅)
  | none => (path, ∅)

/-- `decodeUrl()`。燃料が尽きることは無い（`decodeUrl` を見よ）。 -/
def decodeUrlFuel : Nat → Bytes → Except DecodeError ResourceLocator
  | 0, resourceUrl => .error (.unknownScheme resourceUrl)
  | fuel + 1, resourceUrl => do
    let (host, path) := extractHostPathFromUri resourceUrl
    let (path, directives) ← match path.idxOf? 35 with
      | some fragmentStart => do
        let directives ← decodeFragmentComponents (decodeUrlFuel fuel) ((path.drop (fragmentStart + 1)).splitOn 44)
        pure (path.take fragmentStart, directives)
      | none => pure (path, [])
    let scheme ← if hasXdsTpScheme resourceUrl then pure Scheme.xdstp
      else if (lit "http:").isPrefixOf resourceUrl then pure Scheme.http
      else if (lit "file:").isPrefixOf resourceUrl then pure Scheme.file
      else .error (.unknownScheme resourceUrl)
    match scheme with
    | .file =>
      -- file の URL は path と fragment だけ
      let (_, id) ← decodePath path false
      return .mk .file [] [] id ∅ directives
    | _ =>
      let (path, exactContext) := splitQuery path
      let (resourceType, id) ← decodePath path true
      return .mk scheme (PercentEncoding.decode host) resourceType id exactContext directives

/-- `alt` の中の文字列は、もとの URL より短い。 -/
def decodeUrl (resourceUrl : Bytes) : Except DecodeError ResourceLocator :=
  decodeUrlFuel (resourceUrl.length + 1) resourceUrl

def decodeUrn (resourceUrn : Bytes) : Except DecodeError ResourceName := do
  if !hasXdsTpScheme resourceUrn then .error (.noXdsTpScheme resourceUrn)
  let (host, path) := extractHostPathFromUri resourceUrn
  let (path, context) := splitQuery path
  let (resourceType, id) ← decodePath path true
  return ⟨resourceType, PercentEncoding.decode host, id, context⟩

/-- id の無い file の URL では、fragment が `//` の後の host に入り、path は `/` になる:
`file://#entry=x` の `entry` の指示は復号で消える。 -/
theorem decodeUrl_file_without_id_drops_directives :
    encodeUrl false (.mk .file [] [] [] ∅ [.entry (lit "x")]) = lit "file://#entry=x" ∧
    extractHostPathFromUri (lit "file://#entry=x") = (lit "#entry=x", lit "/") ∧
    ((decodeUrl (lit "file://#entry=x")).toOption.map fun l => (l.scheme, l.id, l.directives.length)) =
      some (.file, [], 0) := by
  decide

end XdsResourceIdentifier

end Envoy.Config
