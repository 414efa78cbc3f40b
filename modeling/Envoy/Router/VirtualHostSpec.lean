import Envoy.Router.RouteMatcher

/-!
# virtual host の選び方の仕様

config の domain の形（完全一致、`*s`、`p*`、`*`）と、request の host `h` に対して選ぶべき virtual host:
`h` に完全一致する domain があればその virtual host、無ければ `h` の真の suffix である最長の `s` の `*s`、
それも無ければ `h` の真の prefix である最長の `p` の `p*`、それも無ければ `*` の virtual host。
-/

namespace Envoy.Router

open Http (Bytes lit)

/-- 小文字にした domain の形。 -/
inductive DomainPattern
  | any
  | suffixWildcard (s : Bytes)
  | prefixWildcard (p : Bytes)
  | exact (d : Bytes)
deriving DecidableEq

/-- `*` だけなら `any`、`*` で始まれば残りの `suffixWildcard`、`*` で終われば残りの `prefixWildcard`、
他は `exact`。 -/
def DomainPattern.ofDomain (domain : Bytes) : DomainPattern :=
  match domain with
  | [] => .exact []
  | c :: s =>
    if c = asterisk then (if s = [] then .any else .suffixWildcard s)
    else if domain.getLast? = some asterisk then .prefixWildcard domain.dropLast
    else .exact domain

variable {V : Type _}

/-- config の全ての domain の形と、その virtual host。 -/
def domainEntries (virtualHosts : List (V × List Bytes)) : List (DomainPattern × V) :=
  virtualHosts.flatMap fun virtualHost =>
    virtualHost.2.map fun domain => (DomainPattern.ofDomain (asciiStrToLower domain), virtualHost.1)

/-- 選ぶのに使う host: `ignore_port_in_host_matching` なら `getPortStart` の位置から後を除き、小文字にする。 -/
def hostKey (ignorePortInHostMatching : Bool) (value : Bytes) : Bytes :=
  asciiStrToLower <|
    if ignorePortInHostMatching then
      match getPortStart value with
      | some portStart => value.take portStart
      | none => value
    else value

/-- `*s` の `s` が host `h` の真の suffix。 -/
def SuffixHit (entries : List (DomainPattern × V)) (h s : Bytes) (vh : V) : Prop :=
  (.suffixWildcard s, vh) ∈ entries ∧ s.length < h.length ∧ s <:+ h

/-- `p*` の `p` が host `h` の真の prefix。 -/
def PrefixHit (entries : List (DomainPattern × V)) (h p : Bytes) (vh : V) : Prop :=
  (.prefixWildcard p, vh) ∈ entries ∧ p.length < h.length ∧ p <+: h

/-- `*` の virtual host。 -/
def defaultOf (entries : List (DomainPattern × V)) : Option V :=
  (entries.find? (·.1 = .any)).map (·.2)

end Envoy.Router
