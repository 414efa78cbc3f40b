import Envoy.Config.DeltaSubscriptionState
import Envoy.Lib.Simulation

/-!
# delta xDS の stream と、server が見る購読

client の `DeltaSubscriptionState` と、それが送った要求から server が計算する購読を並べた系。
server は、stream の最初の要求で購読を `resource_names_subscribe` にし（空なら legacy wildcard の
`{*}`）、後の要求で `(購読 ∪ subscribe) \ unsubscribe` にする。`markStreamFresh()` は新しい stream
で、server の見る購読は空から始まる。要求は `subscriptionUpdatePending()` が真の時にだけ作られる。
-/

namespace Envoy.Config

/-- delta xDS の規約で、server が要求から計算する購読。 -/
def applyRequest (streamStarted : Bool) (view : List String) (request : DeltaDiscoveryRequest) : List String :=
  if streamStarted then (view ++ request.resourceNamesSubscribe).filter (· ∉ request.resourceNamesUnsubscribe)
  else if request.resourceNamesSubscribe.isEmpty then [wildcard] else request.resourceNamesSubscribe

structure Session where
  state : DeltaSubscriptionState
  serverView : List String
  /-- 今の stream で server が要求を受けたか。 -/
  streamStarted : Bool

inductive Event where
  | updateSubscriptionInterest (added removed : List String)
  | markStreamFresh (shouldSendInitialResourceVersions : Bool)
  | handleResponse (message : DeltaDiscoveryResponse) (onConfigUpdate : Except String Unit)
  | ttlExpired (expired : List String)
  | getNextRequestAckless
  | getNextRequestWithAck (ack : UpdateAck)

namespace Session

def create (typeUrl : String) : Session := ⟨DeltaSubscriptionState.create typeUrl, [], false⟩

/-- 要求を送る: server は購読を計算し直す。 -/
def send (w : Session) (r : DeltaDiscoveryRequest × DeltaSubscriptionState) : Session × Option DeltaDiscoveryRequest :=
  (⟨r.2, applyRequest w.streamStarted w.serverView r.1, true⟩, some r.1)

/-- 一つの出来事と、送った要求。 -/
def step (w : Session) : Event → Session × Option DeltaDiscoveryRequest
  | .updateSubscriptionInterest added removed => ({ w with state := w.state.updateSubscriptionInterest added removed }, none)
  | .markStreamFresh flag => (⟨w.state.markStreamFresh flag, [], false⟩, none)
  | .handleResponse message onConfigUpdate => ({ w with state := (w.state.handleResponse message onConfigUpdate).2 }, none)
  | .ttlExpired expired => ({ w with state := w.state.ttlExpired expired }, none)
  | .getNextRequestAckless => w.send w.state.getNextRequestAckless
  | .getNextRequestWithAck ack => w.send (w.state.getNextRequestWithAck ack)

/-- 出来事の前提: 足す名前と外す名前は重ならない集合で、要求は `subscriptionUpdatePending()` の時だけ。 -/
def Valid (w : Session) : Event → Prop
  | .updateSubscriptionInterest added removed => added.Nodup ∧ removed.Nodup ∧ ∀ n ∈ added, n ∉ removed
  | .getNextRequestAckless | .getNextRequestWithAck _ => w.state.subscriptionUpdatePending = true
  | .markStreamFresh _ | .handleResponse _ _ | .ttlExpired _ => True

/-- 購読をすべて外してから stream を作り直すと、最初の要求は空で、server はそれを legacy wildcard
と読む: client の購読は空なのに server の購読は `{*}` になる。この要求を作る時、
`isInitialRequestForLegacyWildcard()` の ASSERT の条件は破れている。 -/
theorem unsubscribe_all_then_fresh_stream :
    Lts.Allowed Valid step (create "t") [.updateSubscriptionInterest ["a"] [], .getNextRequestAckless,
      .updateSubscriptionInterest [] ["a"], .markStreamFresh false, .getNextRequestAckless] ∧
    (Lts.exec step (create "t") [.updateSubscriptionInterest ["a"] [], .getNextRequestAckless,
      .updateSubscriptionInterest [] ["a"], .markStreamFresh false]).1.state.legacyWildcardAssumption = false ∧
    (Lts.exec step (create "t") [.updateSubscriptionInterest ["a"] [], .getNextRequestAckless,
      .updateSubscriptionInterest [] ["a"], .markStreamFresh false, .getNextRequestAckless]).2.map
      (Option.map fun r => (r.resourceNamesSubscribe, r.resourceNamesUnsubscribe)) =
      [none, some (["a"], []), none, none, some ([], [])] ∧
    (Lts.exec step (create "t") [.updateSubscriptionInterest ["a"] [], .getNextRequestAckless,
      .updateSubscriptionInterest [] ["a"], .markStreamFresh false, .getNextRequestAckless]).1.serverView =
      [wildcard] ∧
    (Lts.exec step (create "t") [.updateSubscriptionInterest ["a"] [], .getNextRequestAckless,
      .updateSubscriptionInterest [] ["a"], .markStreamFresh false,
      .getNextRequestAckless]).1.state.requestedResourceState.keys = [] := by
  refine ⟨?_, by decide, by decide, by decide, by decide⟩
  simp only [Lts.allowed_cons, Lts.allowed_nil, Valid, and_true]
  decide

end Session

end Envoy.Config
