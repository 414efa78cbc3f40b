import Mathlib

/-!
# `DeltaSubscriptionState`

`source/extensions/config_subscription/grpc/delta_subscription_state.{h,cc}`。delta xDS の
購読の状態と、次の `DeltaDiscoveryRequest` を作る関数。三つの `node_hash_map` は `AList`、
`names_added_` と `names_removed_`（`std::set`）は重複の無い列で表す。`ResourceState` は
`version_` の `std::optional<std::string>` で、`none` が waitingForServer。
ASSERT は release build と同じく何もせず、`isInitialRequestForLegacyWildcard()` が頼る
ASSERT の条件は `legacyWildcardAssumption` として別に書く。
TTL の時計と `watch_map_`・`xds_config_tracker_` への通知は状態を変えないので持たず、
TTL が切れた時の状態の変化だけを `ttlExpired` で表す。
-/

namespace Envoy.Config

def wildcard : String := "*"

/-- `ResourceState::version_`。 -/
abbrev ResourceState := Option String

/-- `handleGoodResponse()` が投げる `EnvoyException` の中身。 -/
inductive ResponseError where
  /-- `duplicate name {} found among added/updated resources` -/
  | duplicateName (name : String)
  /-- `duplicate name {} found in the union of added+removed resources` -/
  | duplicateAddedRemoved (name : String)
  /-- `type URL {} embedded in an individual Any does not match the message-wide type URL {} ...` -/
  | typeUrlMismatch (resourceTypeUrl messageTypeUrl : String)
  /-- `watch_map_.onConfigUpdate()` が投げた誤り: 購読者が設定を拒んだ。 -/
  | rejected (message : String)
deriving DecidableEq, Repr

/-- `envoy::service::discovery::v3::Resource` の、読まれる欄。`typeUrl` は `resource().type_url()`。 -/
structure Resource where
  name : String
  version : String
  hasResource : Bool
  typeUrl : String
  aliasesSize : Nat
deriving DecidableEq, Repr

structure DeltaDiscoveryResponse where
  typeUrl : String
  nonce : String
  resources : List Resource
  removedResources : List String

/-- `UpdateAck`。`errorDetail` の `none` は `Ok`。 -/
structure UpdateAck where
  nonce : String
  typeUrl : String
  errorDetail : Option ResponseError

structure DeltaDiscoveryRequest where
  typeUrl : String
  resourceNamesSubscribe : List String
  resourceNamesUnsubscribe : List String
  initialResourceVersions : AList fun _ : String => String
  responseNonce : String
  errorDetail : Option ResponseError

structure DeltaSubscriptionState where
  typeUrl : String
  requestedResourceState : AList fun _ : String => ResourceState
  wildcardResourceState : AList fun _ : String => String
  ambiguousResourceState : AList fun _ : String => String
  inInitialLegacyWildcard : Bool
  anyRequestSentYetInCurrentStream : Bool
  shouldSendInitialResourceVersions : Bool
  dynamicContextChanged : Bool
  namesAdded : List String
  namesRemoved : List String

namespace DeltaSubscriptionState

/-- コンストラクタ: `in_initial_legacy_wildcard_{true}`、`should_send_initial_resource_versions_{true}`。 -/
def create (typeUrl : String) : DeltaSubscriptionState := ⟨typeUrl, ∅, ∅, ∅, true, false, true, false, [], []⟩

/-- `supports_heartbeats_`。VHDS は空の応答を更新として使う。 -/
def supportsHeartbeats (s : DeltaSubscriptionState) : Bool := s.typeUrl != "envoy.config.route.v3.VirtualHost"

/-! ## `updateSubscriptionInterest()` -/

/-- `cur_added` の `for` の一回。 -/
def addInterest (s : DeltaSubscriptionState) (a : String) : DeltaSubscriptionState :=
  let s := if s.inInitialLegacyWildcard && a != wildcard then { s with inInitialLegacyWildcard := false } else s
  -- wildcard か曖昧な資源として持っていた版は、要求した資源の版になる
  let s := match s.wildcardResourceState.lookup a with
    | some version =>
      { s with
        requestedResourceState := s.requestedResourceState.insert a (some version)
        wildcardResourceState := s.wildcardResourceState.erase a }
    | none =>
      match s.ambiguousResourceState.lookup a with
      | some version =>
        { s with
          requestedResourceState := s.requestedResourceState.insert a (some version)
          ambiguousResourceState := s.ambiguousResourceState.erase a }
      | none => { s with requestedResourceState := s.requestedResourceState.insert a none }
  { s with namesRemoved := s.namesRemoved.erase a, namesAdded := s.namesAdded.insert a }

/-- `cur_removed` の `for` の一回。wildcard を購読していれば、版のある資源は曖昧な資源に移す。 -/
def removeInterest (s : DeltaSubscriptionState) (r : String) : DeltaSubscriptionState :=
  let (s, actuallyErased) :=
    if wildcard ∈ s.requestedResourceState then
      match s.requestedResourceState.lookup r with
      | some state =>
        let s := match state with
          | some version => { s with ambiguousResourceState := s.ambiguousResourceState.insert r version }
          | none => s
        ({ s with requestedResourceState := s.requestedResourceState.erase r }, true)
      | none => (s, false)
    else ({ s with requestedResourceState := s.requestedResourceState.erase r }, decide (r ∈ s.requestedResourceState))
  let s := { s with namesAdded := s.namesAdded.erase r }
  if actuallyErased then { s with namesRemoved := s.namesRemoved.insert r, inInitialLegacyWildcard := false }
  else s

def updateSubscriptionInterest (s : DeltaSubscriptionState) (curAdded curRemoved : List String) :
    DeltaSubscriptionState :=
  let s := curAdded.foldl addInterest s
  let s := curRemoved.foldl removeInterest s
  -- wildcard をやめたら、wildcard から来た資源と曖昧な資源を捨てる
  if wildcard ∈ curRemoved then { s with wildcardResourceState := ∅, ambiguousResourceState := ∅ } else s

/-! ## 応答と TTL -/

def isHeartbeatResponse (s : DeltaSubscriptionState) (resource : Resource) : Bool :=
  if !s.supportsHeartbeats then false
  else if resource.hasResource then false
  else match s.requestedResourceState.lookup resource.name with
    | some state => state.isSome && state == some resource.version
    | none =>
      match s.wildcardResourceState.lookup resource.name with
      | some version => resource.version == version
      | none =>
        match s.ambiguousResourceState.lookup resource.name with
        | some version => resource.version == version
        | none => false

/-- 要求した資源なら版を置き、そうでなければ wildcard の資源として置く。 -/
def addResourceStateFromServer (s : DeltaSubscriptionState) (resource : Resource) : DeltaSubscriptionState :=
  match s.requestedResourceState.lookup resource.name with
  | some _ => { s with requestedResourceState := s.requestedResourceState.insert resource.name (some resource.version) }
  | none =>
    { s with
      wildcardResourceState := s.wildcardResourceState.insert resource.name resource.version
      ambiguousResourceState := s.ambiguousResourceState.erase resource.name }

/-- `handleGoodResponse()` の検査: 名前の重複と、中身の型 URL。 -/
def checkResponse (s : DeltaSubscriptionState) (message : DeltaDiscoveryResponse) : Except ResponseError Unit := do
  let names ← message.resources.foldlM (fun (names : List String) resource => do
    if resource.name ∈ names then throw (.duplicateName resource.name)
    let names := resource.name :: names
    if s.isHeartbeatResponse resource then return names
    -- 解けない別名の応答は中身を持たない
    if !resource.hasResource && resource.aliasesSize > 0 then return names
    if message.typeUrl != resource.typeUrl then throw (.typeUrlMismatch resource.typeUrl message.typeUrl)
    return names) []
  let _ ← message.removedResources.foldlM (fun (names : List String) name => do
    if name ∈ names then throw (.duplicateAddedRemoved name)
    return name :: names) names

/-- 消された資源: 要求した資源なら版を忘れ、そうでなければ曖昧な資源か wildcard の資源から消す。 -/
def removeResourceState (s : DeltaSubscriptionState) (name : String) : DeltaSubscriptionState :=
  match s.requestedResourceState.lookup name with
  | some _ => { s with requestedResourceState := s.requestedResourceState.insert name none }
  | none =>
    if name ∈ s.ambiguousResourceState then { s with ambiguousResourceState := s.ambiguousResourceState.erase name }
    else { s with wildcardResourceState := s.wildcardResourceState.erase name }

/-- `onConfigUpdate` は `watch_map_.onConfigUpdate()` の結果で、投げれば状態は変わらない。 -/
def handleGoodResponse (s : DeltaSubscriptionState) (message : DeltaDiscoveryResponse)
    (onConfigUpdate : Except String Unit) : Except ResponseError DeltaSubscriptionState := do
  s.checkResponse message
  match onConfigUpdate with
  | .error e => throw (.rejected e)
  | .ok () => pure ()
  -- `std::stable_partition`: heartbeat でない資源を前に
  let resources := message.resources.filter (fun r => !s.isHeartbeatResponse r) ++
    message.resources.filter s.isHeartbeatResponse
  let s := if wildcard ∈ s.requestedResourceState then resources.foldl addResourceStateFromServer s
    else resources.foldl (fun s r => if r.name ∈ s.requestedResourceState then s.addResourceStateFromServer r else s) s
  return message.removedResources.foldl removeResourceState s

/-- `handleResponse()`: 悪い応答（`handleBadResponse()`）は状態を変えず、ack に誤りを載せる。 -/
def handleResponse (s : DeltaSubscriptionState) (message : DeltaDiscoveryResponse)
    (onConfigUpdate : Except String Unit) : UpdateAck × DeltaSubscriptionState :=
  match s.handleGoodResponse message onConfigUpdate with
  | .ok s' => (⟨message.nonce, s.typeUrl, none⟩, s')
  | .error e => (⟨message.nonce, s.typeUrl, some e⟩, s)

/-- TTL の callback の一回: 要求した資源は版を忘れ、そうでなければ wildcard と曖昧な資源から消す。 -/
def ttlExpiredOne (s : DeltaSubscriptionState) (resource : String) : DeltaSubscriptionState :=
  match s.requestedResourceState.lookup resource with
  | some _ => { s with requestedResourceState := s.requestedResourceState.insert resource none }
  | none =>
    { s with
      wildcardResourceState := s.wildcardResourceState.erase resource
      ambiguousResourceState := s.ambiguousResourceState.erase resource }

def ttlExpired (s : DeltaSubscriptionState) (expired : List String) : DeltaSubscriptionState :=
  expired.foldl ttlExpiredOne s

/-! ## 要求を作る -/

def subscriptionUpdatePending (s : DeltaSubscriptionState) : Bool :=
  if !s.namesAdded.isEmpty || !s.namesRemoved.isEmpty then true
  else if !s.anyRequestSentYetInCurrentStream then
    if !s.requestedResourceState.keys.isEmpty then true else s.inInitialLegacyWildcard
  else s.dynamicContextChanged

def markStreamFresh (s : DeltaSubscriptionState) (shouldSendInitialResourceVersions : Bool) :
    DeltaSubscriptionState :=
  { s with anyRequestSentYetInCurrentStream := false, shouldSendInitialResourceVersions }

def isInitialRequestForLegacyWildcard (s : DeltaSubscriptionState) : Bool × DeltaSubscriptionState :=
  if s.inInitialLegacyWildcard then
    (true, { s with requestedResourceState := s.requestedResourceState.insert wildcard none })
  else if !s.namesAdded.isEmpty || !s.namesRemoved.isEmpty then (false, s)
  -- `size() == 1 && begin()->first == Wildcard`
  else (s.requestedResourceState.keys == [wildcard], s)

/-- `isInitialRequestForLegacyWildcard()` の `ASSERT(!requested_resource_state_.empty())`。
`subscriptionUpdatePending()` が真なら要求した資源がある、という前提。 -/
def legacyWildcardAssumption (s : DeltaSubscriptionState) : Bool :=
  s.inInitialLegacyWildcard || !s.requestedResourceState.keys.isEmpty

/-- 最初の要求の `initial_resource_versions`: 版のある要求した資源、wildcard の資源、曖昧な資源の順に書く。 -/
def initialResourceVersions (s : DeltaSubscriptionState) : AList fun _ : String => String :=
  let versions := s.requestedResourceState.entries.foldl (fun m e =>
    match e.2 with
    | some version => m.insert e.1 version
    | none => m) ∅
  let versions := s.wildcardResourceState.entries.foldl (fun m e => m.insert e.1 e.2) versions
  s.ambiguousResourceState.entries.foldl (fun m e => m.insert e.1 e.2) versions

def getNextRequestAckless (s : DeltaSubscriptionState) : DeltaDiscoveryRequest × DeltaSubscriptionState :=
  let (versions, s) :=
    if !s.anyRequestSentYetInCurrentStream then
      let s := { s with anyRequestSentYetInCurrentStream := true }
      let (isLegacyWildcard, s) := s.isInitialRequestForLegacyWildcard
      let versions := if s.shouldSendInitialResourceVersions then s.initialResourceVersions else ∅
      -- 新しい stream では購読のすべてを言い直す
      let namesAdded := s.requestedResourceState.keys.foldl (fun names n => names.insert n) s.namesAdded
      (versions, { s with namesAdded := if isLegacyWildcard then [] else namesAdded, namesRemoved := [] })
    else (∅, s)
  (⟨s.typeUrl, s.namesAdded, s.namesRemoved, versions, "", none⟩, { s with namesAdded := [], namesRemoved := [] })

def getNextRequestWithAck (s : DeltaSubscriptionState) (ack : UpdateAck) :
    DeltaDiscoveryRequest × DeltaSubscriptionState :=
  let r := s.getNextRequestAckless
  ({ r.1 with responseNonce := ack.nonce, errorDetail := ack.errorDetail }, r.2)

end DeltaSubscriptionState

end Envoy.Config
