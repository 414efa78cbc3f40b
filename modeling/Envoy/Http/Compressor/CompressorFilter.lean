import Envoy.Common.StringUtil
import Envoy.Lib.KeyedList

/-!
# compressor filter の encoding の選び方

`source/extensions/filters/http/compressor/compressor_filter.cc` の `CompressorFilter::chooseEncoding()`、
`shouldCompress()`。chain の compressor filter の config を登録の順に見て、応答の Content-Type に
許されたものを encoding ごとに一つ `allowed_compressors`（`std::map`、鍵の順）に入れ、Accept-Encoding の
token を `{encoding, q_value}` に読み、q-value が 0 の encoding を `allowed_compressors` から除き、q-value の
最も大きい token を選ぶ。

q-value は `float` で `absl::SimpleAtof` が読む。ここでは読み手 `simpleAtof` と値の型 `Q`（全順序）を
引数とする。`float` の NaN は `!q` が偽で、`>` も `==` も偽なので、0 でない負の値と同じく、除かれず
選ばれもしない。

選ぶ時の同じ q-value の比べ方 `allowed_compressors[name].choose_first_` は `std::map::operator[]` で、
`identity` や `*` のように無い鍵には値 `{0, false}` の要素を入れる。
-/

namespace Envoy.Http.Compressor

open StringUtil

/-- `CompressorFilterConfig` のうち `chooseEncoding()` の読むもの。`id` は `filter_config.get()` の指す先で、
`contentTypeValues` は `responseDirectionConfig().contentTypeValues()`（大文字と小文字を区別しない集合）。 -/
structure CompressorFilterConfig where
  id : Nat
  contentEncoding : List Char
  contentTypeValues : List (List Char)
  chooseFirst : Bool
deriving DecidableEq

/-- `CompressorFilter` のうち `chooseEncoding()` の読むもの: 自分の config と、route ごとの content encoding。 -/
structure CompressorFilter where
  config : CompressorFilterConfig
  perRouteContentEncoding : Option (List Char)

/-- `getContentEncoding()`: route ごとの content encoding があればそれ、無ければ config のもの。 -/
def CompressorFilter.getContentEncoding (f : CompressorFilter) : List Char :=
  f.perRouteContentEncoding.getD f.config.contentEncoding

/-- `CompressorInChain`。`operator[]` の入れる値は `{0, false}`。 -/
structure CompressorInChain where
  registrationCount : Nat
  chooseFirst : Bool
deriving DecidableEq

/-- `EncodingDecision::HeaderStat`。 -/
inductive HeaderStat
  | notValid
  | identity
  | wildcard
  | validCompressor
deriving DecidableEq

structure EncodingDecision where
  encoding : List Char
  stat : HeaderStat
deriving DecidableEq

/-- `AcceptEncodingValues.Identity`。 -/
def identity : List Char := "identity".toList

/-- `AcceptEncodingValues.Wildcard`。 -/
def wildcard : List Char := "*".toList

/-- `std::map<std::string, CompressorInChain>`: 鍵の順に並べた、鍵と値の列。 -/
abbrev AllowedCompressors := List (List Char × CompressorInChain)

namespace AllowedCompressors

/-- `find()`。 -/
def find (m : AllowedCompressors) (k : List Char) : Option CompressorInChain :=
  (KeyedList.lookup Prod.fst m k).map Prod.snd

/-- `insert()`: 鍵が無ければ鍵の順の位置に入れる。 -/
def insert (m : AllowedCompressors) (k : List Char) (v : CompressorInChain) : AllowedCompressors :=
  KeyedList.insertOrdered Prod.fst (· ≤ ·) m (k, v)

/-- `erase()`。 -/
def erase (m : AllowedCompressors) (k : List Char) : AllowedCompressors := KeyedList.erase Prod.fst m k

/-- `operator[]`: 鍵があればその値、無ければ値 `{0, false}` の要素を入れてその値。 -/
def get (m : AllowedCompressors) (k : List Char) : CompressorInChain × AllowedCompressors :=
  match m.find k with
  | some v => (v, m)
  | none => (⟨0, false⟩, m.insert k ⟨0, false⟩)

end AllowedCompressors

/-- `trim(cropRight(content_type, ";"))`。Content-Type が無ければ空。 -/
def contentTypeValueOf (contentType : Option (List Char)) : List Char :=
  match contentType with
  | some value => trim (cropRight value ';')
  | none => []

/-- 応答の Content-Type が空か、config に Content-Type の制限が無いか、制限に含まれる。 -/
def contentTypeAllowed (contentTypeValue : List Char) (filterConfig : CompressorFilterConfig) : Bool :=
  contentTypeValue.isEmpty || filterConfig.contentTypeValues.isEmpty ||
    filterConfig.contentTypeValues.any (equalsIgnoreCase · contentTypeValue)

/-- 登録の一つの config の encoding: 自分の config なら route ごとのもの。 -/
def encodingOf (self : CompressorFilter) (filterConfig : CompressorFilterConfig) : List Char :=
  if filterConfig.id = self.config.id then self.getContentEncoding else filterConfig.contentEncoding

/-- `filter_configs_` を見る一回り: 許された config の encoding が無ければ、登録の数と `chooseFirst()` で入れる。 -/
def registerCompressor (self : CompressorFilter) (contentTypeValue : List Char)
    (acc : AllowedCompressors × Nat) (filterConfig : CompressorFilterConfig) : AllowedCompressors × Nat :=
  if contentTypeAllowed contentTypeValue filterConfig then
    match acc.1.find (encodingOf self filterConfig) with
    | none => (acc.1.insert (encodingOf self filterConfig) ⟨acc.2, filterConfig.chooseFirst⟩, acc.2 + 1)
    | some _ => acc
  else acc

/-- 登録の後の `allowed_compressors`。 -/
def registeredCompressors (self : CompressorFilter) (contentTypeValue : List Char)
    (filterConfigs : List CompressorFilterConfig) : AllowedCompressors :=
  (filterConfigs.foldl (registerCompressor self contentTypeValue) ([], 0)).1

variable {Q : Type _} [LinearOrder Q] [Zero Q] [One Q]

/-- Accept-Encoding の一つの token の `{encoding, q_value}`。`;` の後が `q=` で、q-value が読めなければ
`none`（`continue`）。 -/
def parseToken (simpleAtof : List Char → Option Q) (token : List Char) : Option (List Char × Q) :=
  let name := trim (cropRight token ';')
  let params := cropLeft token ';'
  if params ≠ token then
    let qValue := cropLeft params '='
    if qValue ≠ params ∧ equalsIgnoreCase "q".toList (trim (cropRight params '=')) = true then
      (simpleAtof (trim qValue)).map fun q => (name, q)
    else some (name, 1)
  else some (name, 1)

/-- token を見る一回り: 読めた pair を `pairs` に足し、q-value が 0 ならその encoding を除く。 -/
def acceptStep (simpleAtof : List Char → Option Q) (acc : List (List Char × Q) × AllowedCompressors)
    (token : List Char) : List (List Char × Q) × AllowedCompressors :=
  match parseToken simpleAtof token with
  | none => acc
  | some pair => (acc.1 ++ [pair], if pair.2 = 0 then acc.2.erase pair.1 else acc.2)

/-- pair を見る一回り: `allowed_compressors` にあるか `identity` か `*` の pair の q-value が今の選択より
大きければ選び直し、同じなら `allowed_compressors[name].choose_first_` を見る。 -/
def chooseStep (acc : (List Char × Q) × AllowedCompressors) (pair : List Char × Q) :
    (List Char × Q) × AllowedCompressors :=
  if (acc.2.find pair.1).isSome ∨ pair.1 = identity ∨ pair.1 = wildcard then
    if acc.1.2 < pair.2 then (pair, acc.2)
    else if pair.2 = acc.1.2 then
      let entry := acc.2.get pair.1
      (if entry.1.chooseFirst then pair else acc.1, entry.2)
    else acc
  else acc

/-- `CompressorFilter::chooseEncoding()`。`allowed_compressors` が空でない時だけ `*` に至るので、
`std::min_element` の結果は要素で、その先頭の最小（鍵の順で最初）を `List.argmin` で取る。 -/
def chooseEncoding (simpleAtof : List Char → Option Q) (self : CompressorFilter)
    (filterConfigs : List CompressorFilterConfig) (acceptEncoding : List Char) (contentType : Option (List Char)) :
    EncodingDecision :=
  let allowed := registeredCompressors self (contentTypeValueOf contentType) filterConfigs
  let accepted := (splitToken acceptEncoding ',').foldl (acceptStep simpleAtof) ([], allowed)
  if accepted.1.isEmpty ∨ accepted.2.isEmpty then ⟨identity, .notValid⟩
  else
    let chosen := accepted.1.foldl chooseStep ((identity, 0), accepted.2)
    if chosen.1.2 = 0 then ⟨identity, .notValid⟩
    else if chosen.1.1 = identity then ⟨identity, .identity⟩
    else if chosen.1.1 = wildcard then
      match chosen.2.argmin (·.2.registrationCount) with
      | some firstRegistered => ⟨firstRegistered.1, .wildcard⟩
      | none => ⟨identity, .notValid⟩
    else ⟨chosen.1.1, .validCompressor⟩

/-- `shouldCompress()` の増やす統計。 -/
inductive ResponseStat
  | headerCompressorUsed
  | headerCompressorOvershadowed
  | headerIdentity
  | headerWildcard
  | headerNotValid
deriving DecidableEq

/-- `CompressorFilter::shouldCompress()`: 自分の encoding が選ばれた encoding と（大文字と小文字を区別せずに）
等しければ圧縮する。 -/
def shouldCompress (self : CompressorFilter) (decision : EncodingDecision) : Bool × ResponseStat :=
  let compress := equalsIgnoreCase self.getContentEncoding decision.encoding
  (compress, match decision.stat with
    | .validCompressor => if compress then .headerCompressorUsed else .headerCompressorOvershadowed
    | .identity => .headerIdentity
    | .wildcard => .headerWildcard
    | .notValid => .headerNotValid)

end Envoy.Http.Compressor
