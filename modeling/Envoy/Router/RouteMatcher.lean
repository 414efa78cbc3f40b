import Envoy.Http.Utility
import Envoy.Lib.LengthBuckets

/-!
# `RouteMatcher` の virtual host の選び方

`source/common/router/config_impl.cc` の `RouteMatcher::RouteMatcher`、`findVirtualHost()`、
`findWildcardVirtualHost()` と、`source/common/http/header_utility.cc` の `HeaderUtility::getPortStart()`。
文字列は byte の列で表す。

domain は小文字にして、`*` だけなら既定の virtual host、`*` で始まれば残りを鍵として長さの bucket の表
`wildcard_virtual_host_suffixes_` に、`*` で終われば `wildcard_virtual_host_prefixes_` に、他は完全一致の
表 `virtual_hosts_` に入れる。`VirtualHostImpl` の構築は route の側の話なので、構築した virtual host
`V` を受け取る。

request の header は名前と値の組の列で、`Host()` は `:authority` の最初の値。
-/

namespace Envoy.Router

open Http (Bytes lit)

/-- `'*'`。 -/
def asterisk : UInt8 := '*'.toUInt8

/-- `absl::ascii_isupper`。 -/
def asciiIsUpper (c : UInt8) : Bool := 'A'.toUInt8 ≤ c && c ≤ 'Z'.toUInt8

/-- `absl::ascii_tolower`。 -/
def asciiToLower (c : UInt8) : UInt8 := if asciiIsUpper c then c + 32 else c

/-- `absl::AsciiStrToLower`、`Http::LowerCaseString`。 -/
def asciiStrToLower (s : Bytes) : Bytes := s.map asciiToLower

/-- `fmt::format` の `{}` に置く文字列。 -/
def bytesToString (s : Bytes) : String := String.ofList (s.map fun c => Char.ofNat c.toNat)

/-- `s.rfind(ch)`: 最後に現れる位置。 -/
def rfind (s : Bytes) (ch : UInt8) : Option Nat :=
  (s.reverse.findIdx? (· == ch)).map (s.length - 1 - ·)

/-- `HeaderUtility::getPortStart()`: 最後の `:` の位置。ただし最後の `]` がその後にあれば（v6 の address の中）
無い。 -/
def getPortStart (host : Bytes) : Option Nat :=
  match rfind host ':'.toUInt8 with
  | none => none
  | some portStart =>
    if (rfind host ']'.toUInt8).all (· < portStart) then
      if portStart + 1 > host.length then none else some portStart
    else none

/-- `absl::flat_hash_map<std::string, VirtualHostImplSharedPtr>`。 -/
abbrev VirtualHostMap (V : Type _) := List (Bytes × V)

/-- `find()`。 -/
def VirtualHostMap.find {V : Type _} (m : VirtualHostMap V) (k : Bytes) : Option V :=
  (KeyedList.lookup Prod.fst m k).map Prod.snd

/-- `WildcardVirtualHosts`: `std::map<int64_t, absl::flat_hash_map<...>, std::greater<>>`。 -/
abbrev WildcardVirtualHosts (V : Type _) := LengthBuckets.Buckets UInt8 V

structure RouteMatcher (V : Type _) where
  virtualHosts : VirtualHostMap V
  wildcardVirtualHostSuffixes : WildcardVirtualHosts V
  wildcardVirtualHostPrefixes : WildcardVirtualHosts V
  defaultVirtualHost : Option V
  ignorePortInHostMatching : Bool
  vhostHeader : Bytes

namespace RouteMatcher

variable {V : Type _}

/-- 小文字の domain を表に入れる: `*` で始まれば suffix の表、`*` で終われば prefix の表、他は完全一致の表。
二つ目は入れたか（`emplace(...).second`）。 -/
def insertDomain (virtualHost : V) (rm : RouteMatcher V) (domain : Bytes) : RouteMatcher V × Bool :=
  if domain ≠ [] ∧ domain.head? = some asterisk then
    let r := LengthBuckets.emplace rm.wildcardVirtualHostSuffixes (domain.length - 1) (domain.drop 1) virtualHost
    ({ rm with wildcardVirtualHostSuffixes := r.1 }, r.2)
  else if domain ≠ [] ∧ domain.getLast? = some asterisk then
    let r := LengthBuckets.emplace rm.wildcardVirtualHostPrefixes (domain.length - 1)
      (domain.take (domain.length - 1)) virtualHost
    ({ rm with wildcardVirtualHostPrefixes := r.1 }, r.2)
  else
    let r := KeyedList.emplace Prod.fst rm.virtualHosts (domain, virtualHost)
    ({ rm with virtualHosts := r.1 }, r.2)

/-- `virtual_host_config.domains()` を見る一回り。 -/
def addDomain (routeName : String) (virtualHost : V) (rm : RouteMatcher V) (domainName : Bytes) :
    Except String (RouteMatcher V) :=
  let domain := asciiStrToLower domainName
  if domain = lit "*" then
    match rm.defaultVirtualHost with
    | some _ => .error ("Only a single wildcard domain is permitted in route " ++ routeName)
    | none => .ok { rm with defaultVirtualHost := some virtualHost }
  else
    match insertDomain virtualHost rm domain with
    | (rm', true) => .ok rm'
    | (_, false) =>
      .error ("Only unique values for domains are permitted. Duplicate entry of domain " ++ bytesToString domain ++
        " in route " ++ routeName)

/-- `RouteMatcher::create()`: virtual host ごとに、その domain を順に入れる。最初の誤りで止まる。 -/
def create (routeName : String) (ignorePortInHostMatching : Bool) (vhostHeader : Bytes)
    (virtualHosts : List (V × List Bytes)) : Except String (RouteMatcher V) :=
  virtualHosts.foldlM (fun rm virtualHost => virtualHost.2.foldlM (addDomain routeName virtualHost.1) rm)
    ⟨[], [], [], none, ignorePortInHostMatching, vhostHeader⟩

/-- `findWildcardVirtualHost()`: 長さの大きい順に、host より短い長さの bucket で、host のその長さの部分を引く。 -/
def findWildcardVirtualHost (host : Bytes) (wildcardVirtualHosts : WildcardVirtualHosts V)
    (substringFunction : Bytes → Nat → Bytes) : Option V :=
  match wildcardVirtualHosts with
  | [] => none
  | (wildcardLength, wildcardMap) :: rest =>
    -- `>=`: `*.foo.com` は `.foo.com` に当たらない
    if wildcardLength ≥ host.length then findWildcardVirtualHost host rest substringFunction
    else
      match VirtualHostMap.find wildcardMap (substringFunction host wildcardLength) with
      | some virtualHost => some virtualHost
      | none => findWildcardVirtualHost host rest substringFunction

/-- `findVirtualHost()` の読む header の値: `vhost_header_` があればその最初の値、無ければ `Host()`。 -/
def hostHeaderValue (rm : RouteMatcher V) (headers : List (Bytes × Bytes)) : Option Bytes :=
  if rm.vhostHeader ≠ [] then ((headers.filter (·.1 = rm.vhostHeader)).map (·.2)).head?
  else (headers.find? (·.1 = lit ":authority")).map (·.2)

/-- `findVirtualHost()`。 -/
def findVirtualHost (rm : RouteMatcher V) (headers : List (Bytes × Bytes)) : Option V :=
  -- 既定の virtual host しか無ければ header を見ない
  if rm.virtualHosts.isEmpty ∧ rm.wildcardVirtualHostSuffixes.isEmpty ∧ rm.wildcardVirtualHostPrefixes.isEmpty then
    rm.defaultVirtualHost
  else
    match rm.hostHeaderValue headers with
    | none => none
    | some hostHeaderValue =>
      let hostHeaderValue :=
        if rm.ignorePortInHostMatching then
          match getPortStart hostHeaderValue with
          | some portStart => hostHeaderValue.take portStart
          | none => hostHeaderValue
        else hostHeaderValue
      let host := if hostHeaderValue.any asciiIsUpper then asciiStrToLower hostHeaderValue else hostHeaderValue
      (rm.virtualHosts.find host).or <|
        (if rm.wildcardVirtualHostSuffixes.isEmpty then none
          else findWildcardVirtualHost host rm.wildcardVirtualHostSuffixes fun h l => h.drop (h.length - l)).or <|
        (if rm.wildcardVirtualHostPrefixes.isEmpty then none
          else findWildcardVirtualHost host rm.wildcardVirtualHostPrefixes fun h l => h.take l).or
        rm.defaultVirtualHost

end RouteMatcher

end Envoy.Router
