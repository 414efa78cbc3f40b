import Envoy.Config.DeltaXds

/-!
# server の購読は client の購読と、wildcard を除いて一致する

どの出来事の列の後でも、今の stream で要求を送っていれば、server の購読に client がまだ送っていない
足す名前と外す名前を施したものは、`*` でない名前について client の要求した名前と一致し、client が `*` を
要求していれば server も `*` を持つ。`*` だけは、要求した名前が空の時に新しい stream の最初の要求が空になり、
server が legacy wildcard と読むので、client に無いまま server に残ることがある。

証明は不変条件 `Agreement` を出来事ごとに保つことによる。応答と TTL は要求した名前の集まりも送っていない名前も
変えない（`SameInterest`）。
-/

namespace Envoy.Config

namespace DeltaSubscriptionState

variable (s : DeltaSubscriptionState)

/-! ## 購読を変える操作 -/

theorem mem_requested_addInterest (a n : String) :
    n ∈ (s.addInterest a).requestedResourceState ↔ n = a ∨ n ∈ s.requestedResourceState := by
  unfold addInterest
  cases h1 : s.wildcardResourceState.lookup a <;> cases h2 : s.ambiguousResourceState.lookup a <;> split_ifs <;>
    simp [h1, h2, AList.mem_insert]

theorem addInterest_names (a : String) :
    (s.addInterest a).namesAdded = s.namesAdded.insert a ∧ (s.addInterest a).namesRemoved = s.namesRemoved.erase a ∧
      (s.addInterest a).inInitialLegacyWildcard = (s.inInitialLegacyWildcard && a == wildcard) ∧
      (s.addInterest a).anyRequestSentYetInCurrentStream = s.anyRequestSentYetInCurrentStream := by
  unfold addInterest
  cases h1 : s.wildcardResourceState.lookup a <;> cases h2 : s.ambiguousResourceState.lookup a <;> split_ifs <;>
    simp_all

/-- `removeInterest` は `r` を要求から外し、要求していた時だけ外す名前に足して legacy wildcard を終える。 -/
theorem removeInterest_spec (r : String) :
    (∀ n, n ∈ (s.removeInterest r).requestedResourceState ↔ n ≠ r ∧ n ∈ s.requestedResourceState) ∧
      (s.removeInterest r).namesAdded = s.namesAdded.erase r ∧
      (s.removeInterest r).namesRemoved =
        (if r ∈ s.requestedResourceState then s.namesRemoved.insert r else s.namesRemoved) ∧
      (s.removeInterest r).inInitialLegacyWildcard =
        (s.inInitialLegacyWildcard && !decide (r ∈ s.requestedResourceState)) ∧
      (s.removeInterest r).anyRequestSentYetInCurrentStream = s.anyRequestSentYetInCurrentStream := by
  unfold removeInterest
  rcases h1 : s.requestedResourceState.lookup r with _ | (_ | v)
  · have hr : r ∉ s.requestedResourceState := AList.lookup_eq_none.mp h1
    by_cases hw : wildcard ∈ s.requestedResourceState
    · simp [hw, hr]
      exact fun n hn he => hr (he ▸ hn)
    · simp [hw, hr, AList.mem_erase]
  all_goals
    have hr : r ∈ s.requestedResourceState := AList.lookup_isSome.mp (by simp [h1])
    by_cases hw : wildcard ∈ s.requestedResourceState <;> simp [hw, hr, AList.mem_erase]

/-! ## 購読を変えない操作 -/

/-- 要求した名前の集まり、送っていない足す名前と外す名前、legacy wildcard の印、今の stream で送ったかが同じ。 -/
structure SameInterest (s s' : DeltaSubscriptionState) : Prop where
  requested : ∀ n, n ∈ s'.requestedResourceState ↔ n ∈ s.requestedResourceState
  namesAdded : s'.namesAdded = s.namesAdded
  namesRemoved : s'.namesRemoved = s.namesRemoved
  legacy : s'.inInitialLegacyWildcard = s.inInitialLegacyWildcard
  sent : s'.anyRequestSentYetInCurrentStream = s.anyRequestSentYetInCurrentStream

namespace SameInterest

variable {s} {s₁ s₂ : DeltaSubscriptionState}

theorem refl (s : DeltaSubscriptionState) : SameInterest s s := ⟨fun _ => Iff.rfl, rfl, rfl, rfl, rfl⟩

theorem trans (h₁ : SameInterest s s₁) (h₂ : SameInterest s₁ s₂) : SameInterest s s₂ :=
  ⟨fun n => (h₂.requested n).trans (h₁.requested n), h₂.namesAdded.trans h₁.namesAdded,
    h₂.namesRemoved.trans h₁.namesRemoved, h₂.legacy.trans h₁.legacy, h₂.sent.trans h₁.sent⟩

/-- 一回ずつ購読を変えない `for` は、全体でも購読を変えない。 -/
theorem foldl {α : Type _} {f : DeltaSubscriptionState → α → DeltaSubscriptionState}
    (hf : ∀ s x, SameInterest s (f s x)) : ∀ (l : List α) (s : DeltaSubscriptionState), SameInterest s (l.foldl f s)
  | [], s => refl s
  | x :: l, s => (hf s x).trans (foldl hf l (f s x))

end SameInterest

/-- 要求した名前の版を置き直しても、名前の集まりは変わらない。 -/
theorem mem_insert_of_lookup_isSome {β : Type _} {m : AList fun _ : String => β} {a : String} (h : (m.lookup a).isSome)
    (b : β) (n : String) : n ∈ m.insert a b ↔ n ∈ m := by
  rw [AList.mem_insert]
  exact ⟨fun h' => h'.elim (fun he => he ▸ AList.lookup_isSome.mp h) id, Or.inr⟩

theorem sameInterest_addResourceStateFromServer (resource : Resource) :
    SameInterest s (s.addResourceStateFromServer resource) := by
  unfold addResourceStateFromServer
  cases h : s.requestedResourceState.lookup resource.name with
  | none => exact ⟨fun _ => Iff.rfl, rfl, rfl, rfl, rfl⟩
  | some _ => exact ⟨mem_insert_of_lookup_isSome (by simp [h]) _, rfl, rfl, rfl, rfl⟩

theorem sameInterest_removeResourceState (name : String) : SameInterest s (s.removeResourceState name) := by
  unfold removeResourceState
  cases h : s.requestedResourceState.lookup name with
  | none => split_ifs <;> exact ⟨fun _ => Iff.rfl, rfl, rfl, rfl, rfl⟩
  | some _ => exact ⟨mem_insert_of_lookup_isSome (by simp [h]) _, rfl, rfl, rfl, rfl⟩

theorem sameInterest_ttlExpiredOne (resource : String) : SameInterest s (s.ttlExpiredOne resource) := by
  unfold ttlExpiredOne
  cases h : s.requestedResourceState.lookup resource with
  | none => exact ⟨fun _ => Iff.rfl, rfl, rfl, rfl, rfl⟩
  | some _ => exact ⟨mem_insert_of_lookup_isSome (by simp [h]) _, rfl, rfl, rfl, rfl⟩

theorem sameInterest_handleGoodResponse {message : DeltaDiscoveryResponse} {onConfigUpdate : Except String Unit}
    {s' : DeltaSubscriptionState} (h : s.handleGoodResponse message onConfigUpdate = .ok s') : SameInterest s s' := by
  unfold handleGoodResponse at h
  cases hc : s.checkResponse message with
  | error e => simp [hc] at h
  | ok u =>
    cases onConfigUpdate with
    | error e =>
      simp only [hc] at h
      cases h
    | ok v =>
      simp only [hc] at h
      obtain rfl := Except.ok.inj h
      -- 応答の資源を置き、次に消された資源を消す
      refine SameInterest.trans ?_ (SameInterest.foldl (sameInterest_removeResourceState) _ _)
      split_ifs
      · exact SameInterest.foldl sameInterest_addResourceStateFromServer _ _
      · refine SameInterest.foldl (fun s r => ?_) _ _
        split_ifs
        · exact sameInterest_addResourceStateFromServer s r
        · exact SameInterest.refl s

theorem sameInterest_handleResponse (message : DeltaDiscoveryResponse) (onConfigUpdate : Except String Unit) :
    SameInterest s (s.handleResponse message onConfigUpdate).2 := by
  unfold handleResponse
  cases h : s.handleGoodResponse message onConfigUpdate with
  | ok s' => exact sameInterest_handleGoodResponse s h
  | error e => exact SameInterest.refl s

theorem sameInterest_ttlExpired (expired : List String) : SameInterest s (s.ttlExpired expired) :=
  SameInterest.foldl sameInterest_ttlExpiredOne expired s

/-! ## 要求を作る -/

theorem mem_foldl_insert (l acc : List String) (n : String) :
    n ∈ l.foldl (fun names x => names.insert x) acc ↔ n ∈ l ∨ n ∈ acc := by
  induction l generalizing acc with
  | nil => simp
  | cons x l ih =>
    rw [List.foldl_cons, ih, List.mem_insert_iff, List.mem_cons]
    tauto

/-- stream の二つ目からの要求: 送っていない名前をそのまま送り、空にする。 -/
theorem getNextRequestAckless_of_sent (h : s.anyRequestSentYetInCurrentStream = true) :
    s.getNextRequestAckless =
      (⟨s.typeUrl, s.namesAdded, s.namesRemoved, ∅, "", none⟩, { s with namesAdded := [], namesRemoved := [] }) := by
  simp [getNextRequestAckless, h]

theorem isInitialRequestForLegacyWildcard_eq :
    s.isInitialRequestForLegacyWildcard =
      (s.inInitialLegacyWildcard ||
          (s.namesAdded.isEmpty && s.namesRemoved.isEmpty && s.requestedResourceState.keys == [wildcard]),
        if s.inInitialLegacyWildcard then
          { s with requestedResourceState := s.requestedResourceState.insert wildcard none }
        else s) := by
  unfold isInitialRequestForLegacyWildcard
  cases s.inInitialLegacyWildcard <;> cases s.namesAdded.isEmpty <;> cases s.namesRemoved.isEmpty <;> simp

/-- stream の最初の要求: 要求した名前のすべてを送り直す。legacy wildcard の要求は空で、その時は `*` を要求に足す。 -/
theorem getNextRequestAckless_of_not_sent (h : s.anyRequestSentYetInCurrentStream = false) :
    let requested := if s.inInitialLegacyWildcard then s.requestedResourceState.insert wildcard none
      else s.requestedResourceState
    s.getNextRequestAckless.1.resourceNamesSubscribe =
        (if s.inInitialLegacyWildcard ||
            (s.namesAdded.isEmpty && s.namesRemoved.isEmpty && s.requestedResourceState.keys == [wildcard]) then []
          else requested.keys.foldl (fun names n => names.insert n) s.namesAdded) ∧
      s.getNextRequestAckless.1.resourceNamesUnsubscribe = [] ∧
      s.getNextRequestAckless.2 =
        { s with
          requestedResourceState := requested
          anyRequestSentYetInCurrentStream := true
          namesAdded := []
          namesRemoved := [] } := by
  unfold getNextRequestAckless
  simp only [h, Bool.not_false, if_true, isInitialRequestForLegacyWildcard_eq]
  cases s.inInitialLegacyWildcard <;> simp

/-! ## 送っていない名前の不変条件 -/

/-- 送っていない足す名前は要求した名前、外す名前は要求していない名前で、どちらも重複が無い。
legacy wildcard の間、要求した名前は `*` だけ。 -/
structure Wf (s : DeltaSubscriptionState) : Prop where
  addedNodup : s.namesAdded.Nodup
  removedNodup : s.namesRemoved.Nodup
  added : ∀ n ∈ s.namesAdded, n ∈ s.requestedResourceState
  removed : ∀ n ∈ s.namesRemoved, n ∉ s.requestedResourceState
  legacy : s.inInitialLegacyWildcard = true → ∀ n ∈ s.requestedResourceState, n = wildcard

namespace Wf

variable {s}

theorem create (typeUrl : String) : (create typeUrl).Wf where
  addedNodup := List.nodup_nil
  removedNodup := List.nodup_nil
  added _ h := by cases h
  removed _ h := by cases h
  legacy _ n h := by simp [DeltaSubscriptionState.create] at h

theorem of_sameInterest {s' : DeltaSubscriptionState} (hw : s.Wf) (h : SameInterest s s') : s'.Wf where
  addedNodup := h.namesAdded ▸ hw.addedNodup
  removedNodup := h.namesRemoved ▸ hw.removedNodup
  added n hn := (h.requested n).mpr (hw.added n (h.namesAdded ▸ hn))
  removed n hn h' := hw.removed n (h.namesRemoved ▸ hn) ((h.requested n).mp h')
  legacy hl n hn := hw.legacy (h.legacy ▸ hl) n ((h.requested n).mp hn)

theorem addInterest (hw : s.Wf) (a : String) : (s.addInterest a).Wf := by
  obtain ⟨hA, hD, hL, -⟩ := addInterest_names s a
  have hR := mem_requested_addInterest s a
  constructor
  · rw [hA]
    exact hw.addedNodup.insert
  · rw [hD]
    exact hw.removedNodup.erase a
  · intro n hn
    rw [hA, List.mem_insert_iff] at hn
    exact (hR n).mpr (hn.imp id (hw.added n))
  · intro n hn h'
    rw [hD, hw.removedNodup.mem_erase_iff] at hn
    exact ((hR n).mp h').elim hn.1 (hw.removed n hn.2)
  · intro hl n hn
    rw [hL, Bool.and_eq_true, beq_iff_eq] at hl
    exact ((hR n).mp hn).elim (fun h => h.trans hl.2) (hw.legacy hl.1 n)

theorem removeInterest (hw : s.Wf) (r : String) : (s.removeInterest r).Wf := by
  obtain ⟨hR, hA, hD, hL, -⟩ := removeInterest_spec s r
  constructor
  · rw [hA]
    exact hw.addedNodup.erase r
  · rw [hD]
    split_ifs
    · exact hw.removedNodup.insert
    · exact hw.removedNodup
  · intro n hn
    rw [hA, hw.addedNodup.mem_erase_iff] at hn
    exact (hR n).mpr ⟨hn.1, hw.added n hn.2⟩
  · intro n hn h'
    rw [hR] at h'
    rw [hD] at hn
    split_ifs at hn
    · rcases List.mem_insert_iff.mp hn with rfl | hn
      · exact h'.1 rfl
      · exact hw.removed n hn h'.2
    · exact hw.removed n hn h'.2
  · intro hl n hn
    rw [hL, Bool.and_eq_true] at hl
    exact hw.legacy hl.1 n ((hR n).mp hn).2

/-- 要求を作った後は、送っていない名前が無い。 -/
theorem getNextRequestAckless (hw : s.Wf) : s.getNextRequestAckless.2.Wf := by
  cases hS : s.anyRequestSentYetInCurrentStream
  · obtain ⟨-, -, hs'⟩ := getNextRequestAckless_of_not_sent s hS
    rw [hs']
    refine ⟨List.nodup_nil, List.nodup_nil, (fun _ h => by cases h), (fun _ h => by cases h), fun hl n hn => ?_⟩
    simp only at hl
    simp only [hl, if_true, AList.mem_insert] at hn
    exact hn.elim id (hw.legacy hl n)
  · rw [getNextRequestAckless_of_sent s hS]
    exact ⟨List.nodup_nil, List.nodup_nil, (fun _ h => by cases h), (fun _ h => by cases h), hw.legacy⟩

/-- stream の最初の要求が足す名前は要求した名前。要求した名前はすべて足すか、足す名前が空で要求した名前が `*`
だけか。 -/
theorem initialRequest (hw : s.Wf) (h : s.anyRequestSentYetInCurrentStream = false) :
    (∀ n ∈ s.getNextRequestAckless.1.resourceNamesSubscribe, n ∈ s.getNextRequestAckless.2.requestedResourceState) ∧
      ∀ n ∈ s.getNextRequestAckless.2.requestedResourceState,
        (s.getNextRequestAckless.1.resourceNamesSubscribe = [] ∧ n = wildcard) ∨
          n ∈ s.getNextRequestAckless.1.resourceNamesSubscribe := by
  obtain ⟨hsub, -, hs'⟩ := getNextRequestAckless_of_not_sent s h
  rw [hsub, hs']
  cases hL : s.inInitialLegacyWildcard
  · simp only [Bool.false_or, Bool.false_eq_true, ↓reduceIte]
    split_ifs with hk
    · -- 送っていない名前が無く、要求した名前が `*` だけの時も、要求は空
      simp only [Bool.and_eq_true, List.isEmpty_iff, beq_iff_eq] at hk
      refine ⟨(fun _ h => by cases h), fun n hn => Or.inl ⟨rfl, ?_⟩⟩
      have hn' : n ∈ s.requestedResourceState.keys := hn
      rw [hk.2] at hn'
      exact List.mem_singleton.mp hn'
    · refine ⟨fun n hn => ?_, fun n hn => Or.inr ((mem_foldl_insert _ _ n).mpr (Or.inl hn))⟩
      exact ((mem_foldl_insert _ _ n).mp hn).elim id (hw.added n)
  · simp only [Bool.true_or, ↓reduceIte]
    refine ⟨(fun _ h => by cases h), fun n hn => Or.inl ⟨trivial, ?_⟩⟩
    rw [AList.mem_insert] at hn
    exact hn.elim id (hw.legacy hL n)

end Wf

theorem getNextRequestAckless_names :
    s.getNextRequestAckless.2.namesAdded = [] ∧ s.getNextRequestAckless.2.namesRemoved = [] := by
  cases hS : s.anyRequestSentYetInCurrentStream
  · obtain ⟨-, -, hs'⟩ := getNextRequestAckless_of_not_sent s hS
    simp [hs']
  · simp [getNextRequestAckless_of_sent s hS]

end DeltaSubscriptionState

namespace Session

open DeltaSubscriptionState

theorem mem_applyRequest_false (view : List String) (request : DeltaDiscoveryRequest) (n : String) :
    n ∈ applyRequest false view request ↔
      (request.resourceNamesSubscribe = [] ∧ n = wildcard) ∨ n ∈ request.resourceNamesSubscribe := by
  unfold applyRequest
  cases request.resourceNamesSubscribe <;> simp

/-- `getNextRequestWithAck()` は ack の欄だけが違い、server の購読は同じに変わる。 -/
theorem send_getNextRequestWithAck (w : Session) (ack : UpdateAck) :
    (w.send (w.state.getNextRequestWithAck ack)).1 = (w.send w.state.getNextRequestAckless).1 := rfl

/-- server が、client のまだ送っていない足す名前と外す名前を受けた後の購読。 -/
def flushedView (w : Session) : List String :=
  (w.serverView ++ w.state.namesAdded).filter (· ∉ w.state.namesRemoved)

theorem mem_flushedView {w : Session} {n : String} :
    n ∈ w.flushedView ↔ (n ∈ w.serverView ∨ n ∈ w.state.namesAdded) ∧ n ∉ w.state.namesRemoved := by
  simp [flushedView, or_and_right]

theorem flushedView_of_nil {w : Session} (hA : w.state.namesAdded = []) (hD : w.state.namesRemoved = []) :
    w.flushedView = w.serverView := by
  simp [flushedView, hA, hD]

/-- 今の stream で要求を送っていれば、server が送っていない名前を受けた後の購読は、client の要求した名前を
すべて持ち、それ以外には `*` しか持たない。 -/
structure Agreement (w : Session) : Prop where
  wf : w.state.Wf
  started : w.streamStarted = w.state.anyRequestSentYetInCurrentStream
  complete : w.streamStarted = true → ∀ n ∈ w.state.requestedResourceState, n ∈ w.flushedView
  sound : w.streamStarted = true → ∀ n ∈ w.flushedView, n ∈ w.state.requestedResourceState ∨ n = wildcard

theorem agreement_create (typeUrl : String) : Agreement (create typeUrl) where
  wf := Wf.create typeUrl
  started := rfl
  complete h := by cases h
  sound h := by cases h

namespace Agreement

variable {w : Session}

theorem of_sameInterest {s' : DeltaSubscriptionState} (h : Agreement w) (hs : SameInterest w.state s') :
    Agreement { w with state := s' } := by
  have hv : ({ w with state := s' } : Session).flushedView = w.flushedView := by
    simp [flushedView, hs.namesAdded, hs.namesRemoved]
  refine ⟨h.wf.of_sameInterest hs, hs.sent ▸ h.started, fun ht n hn => ?_, fun ht n hn => ?_⟩
  · rw [hv]
    exact h.complete ht n ((hs.requested n).mp hn)
  · rw [hv] at hn
    exact (h.sound ht n hn).imp_left (hs.requested n).mpr

theorem addInterest (h : Agreement w) (a : String) : Agreement { w with state := w.state.addInterest a } := by
  obtain ⟨hA, hD, -, hS⟩ := addInterest_names w.state a
  have hR := mem_requested_addInterest w.state a
  refine ⟨h.wf.addInterest a, hS ▸ h.started, fun ht n hn => ?_, fun ht n hn => ?_⟩
  · simp only [mem_flushedView, hA, hD, List.mem_insert_iff]
    rcases (hR n).mp hn with rfl | hn
    · exact ⟨Or.inr (Or.inl rfl), h.wf.removedNodup.not_mem_erase⟩
    · obtain ⟨hv, hd⟩ := mem_flushedView.mp (h.complete ht n hn)
      exact ⟨hv.imp_right Or.inr, fun h' => hd (List.mem_of_mem_erase h')⟩
  · simp only [mem_flushedView, hA, hD, List.mem_insert_iff] at hn
    by_cases hna : n = a
    · exact Or.inl ((hR n).mpr (Or.inl hna))
    · rw [List.mem_erase_of_ne hna] at hn
      have hv : n ∈ w.serverView ∨ n ∈ w.state.namesAdded := hn.1.imp_right (fun h' => h'.resolve_left hna)
      exact (h.sound ht n (mem_flushedView.mpr ⟨hv, hn.2⟩)).imp_left fun h' => (hR n).mpr (Or.inr h')

theorem removeInterest (h : Agreement w) (r : String) :
    Agreement { w with state := w.state.removeInterest r } := by
  obtain ⟨hR, hA, hD, -, hS⟩ := removeInterest_spec w.state r
  -- 外す名前は増えるだけ
  have hsub : ∀ n ∈ w.state.namesRemoved, n ∈ (w.state.removeInterest r).namesRemoved := by
    intro n hn
    rw [hD]
    split_ifs
    · exact List.mem_insert_of_mem hn
    · exact hn
  refine ⟨h.wf.removeInterest r, hS ▸ h.started, fun ht n hn => ?_, fun ht n hn => ?_⟩
  · obtain ⟨hnr, hn⟩ := (hR n).mp hn
    obtain ⟨hv, hd⟩ := mem_flushedView.mp (h.complete ht n hn)
    refine mem_flushedView.mpr ⟨?_, ?_⟩
    · rw [hA, List.mem_erase_of_ne hnr]
      exact hv
    · rw [hD]
      split_ifs
      · exact fun h' => (List.mem_insert_iff.mp h').elim hnr hd
      · exact hd
  · obtain ⟨hv, hd⟩ := mem_flushedView.mp hn
    rw [hA] at hv
    by_cases hnr : n = r
    · -- 外した名前が server に残るのは、要求していなかった `*` だけ
      subst hnr
      have hv' : n ∈ w.serverView := hv.resolve_right h.wf.addedNodup.not_mem_erase
      have hnR : n ∉ w.state.requestedResourceState := by
        intro hnR
        rw [hD, if_pos hnR] at hd
        exact hd (List.mem_insert_self ..)
      have hold := h.sound ht n (mem_flushedView.mpr ⟨Or.inl hv', fun h' => hd (hsub n h')⟩)
      exact Or.inr (hold.resolve_left hnR)
    · rw [List.mem_erase_of_ne hnr] at hv
      have hold := h.sound ht n (mem_flushedView.mpr ⟨hv, fun h' => hd (hsub n h')⟩)
      exact hold.imp_left fun h' => (hR n).mpr ⟨hnr, h'⟩

/-- 一回ずつ保たれる `for` は、全体でも不変条件を保つ。 -/
theorem foldl {α : Type _} {f : DeltaSubscriptionState → α → DeltaSubscriptionState}
    (hf : ∀ w x, Agreement w → Agreement { w with state := f w.state x }) :
    ∀ (l : List α) (w : Session), Agreement w → Agreement { w with state := l.foldl f w.state }
  | [], _, h => h
  | x :: l, w, h => foldl hf l _ (hf w x h)

theorem updateSubscriptionInterest (h : Agreement w) (added removed : List String) :
    Agreement { w with state := w.state.updateSubscriptionInterest added removed } := by
  have h₂ := foldl (fun w r h => h.removeInterest r) removed _ (foldl (fun w a h => h.addInterest a) added w h)
  unfold DeltaSubscriptionState.updateSubscriptionInterest
  split_ifs
  · exact h₂.of_sameInterest ⟨fun _ => Iff.rfl, rfl, rfl, rfl, rfl⟩
  · exact h₂

theorem markStreamFresh (h : Agreement w) (flag : Bool) : Agreement ⟨w.state.markStreamFresh flag, [], false⟩ where
  wf := ⟨h.wf.addedNodup, h.wf.removedNodup, h.wf.added, h.wf.removed, h.wf.legacy⟩
  started := rfl
  complete h := by cases h
  sound h := by cases h

theorem getNextRequestAckless (h : Agreement w) : Agreement (w.send w.state.getNextRequestAckless).1 := by
  cases hT : w.streamStarted
  · -- stream の最初の要求: server の購読は要求が足す名前だけで決まる
    have hS : w.state.anyRequestSentYetInCurrentStream = false := h.started.symm.trans hT
    obtain ⟨-, -, hs'⟩ := getNextRequestAckless_of_not_sent w.state hS
    obtain ⟨hsubR, hRsub⟩ := h.wf.initialRequest hS
    have hv : ∀ n, n ∈ (w.send w.state.getNextRequestAckless).1.flushedView ↔
        (w.state.getNextRequestAckless.1.resourceNamesSubscribe = [] ∧ n = wildcard) ∨
          n ∈ w.state.getNextRequestAckless.1.resourceNamesSubscribe := by
      intro n
      rw [mem_flushedView, ← mem_applyRequest_false w.serverView]
      simp [send, hT, hs']
    refine ⟨h.wf.getNextRequestAckless, by simp [send, hs'], fun _ n hn => (hv n).mpr (hRsub n hn), fun _ n hn => ?_⟩
    rcases (hv n).mp hn with ⟨-, hn⟩ | hn
    · exact Or.inr hn
    · exact Or.inl (hsubR n hn)
  · -- 続きの要求: server は送っていない名前を受け、送っていない名前を受けた後の購読は変わらない
    have hS : w.state.anyRequestSentYetInCurrentStream = true := h.started.symm.trans hT
    have hv : (w.send w.state.getNextRequestAckless).1.flushedView = w.flushedView := by
      simp [send, getNextRequestAckless_of_sent w.state hS, flushedView, applyRequest, hT]
    have hR : (w.send w.state.getNextRequestAckless).1.state.requestedResourceState =
        w.state.requestedResourceState := by
      simp [send, getNextRequestAckless_of_sent w.state hS]
    refine ⟨h.wf.getNextRequestAckless, ?_, fun _ n hn => ?_, fun _ n hn => ?_⟩
    · simp [send, getNextRequestAckless_of_sent w.state hS, hS]
    · rw [hR] at hn
      rw [hv]
      exact h.complete hT n hn
    · rw [hv] at hn
      rw [hR]
      exact h.sound hT n hn

theorem step (h : Agreement w) : ∀ e, Agreement (w.step e).1
  | .updateSubscriptionInterest added removed => h.updateSubscriptionInterest added removed
  | .markStreamFresh flag => h.markStreamFresh flag
  | .handleResponse message onConfigUpdate => h.of_sameInterest (sameInterest_handleResponse _ message onConfigUpdate)
  | .ttlExpired expired => h.of_sameInterest (sameInterest_ttlExpired _ expired)
  | .getNextRequestAckless => h.getNextRequestAckless
  | .getNextRequestWithAck ack => send_getNextRequestWithAck w ack ▸ h.getNextRequestAckless

end Agreement

theorem agreement_exec (typeUrl : String) (events : List Event) :
    Agreement (Lts.exec step (create typeUrl) events).1 :=
  Lts.exec_preserves (fun _ e h => h.step e) (agreement_create typeUrl) events

/-- どの出来事の列の後でも、送っていない足す名前は要求した名前、外す名前は要求していない名前で、どちらも重複が
無い。 -/
theorem pendingNames_exec (typeUrl : String) (events : List Event) :
    (Lts.exec step (create typeUrl) events).1.state.Wf :=
  (agreement_exec typeUrl events).wf

/-- どの出来事の列の後でも、client が次の要求を送れば、server の購読は client の要求した名前をすべて持ち、
それ以外には `*` しか持たない。 -/
theorem serverView_next_request (typeUrl : String) (events : List Event) (n : String) :
    (n ∈ (Lts.exec step (create typeUrl) (events ++ [.getNextRequestAckless])).1.state.requestedResourceState →
        n ∈ (Lts.exec step (create typeUrl) (events ++ [.getNextRequestAckless])).1.serverView) ∧
      (n ∈ (Lts.exec step (create typeUrl) (events ++ [.getNextRequestAckless])).1.serverView →
        n ∈ (Lts.exec step (create typeUrl) (events ++ [.getNextRequestAckless])).1.state.requestedResourceState ∨
          n = wildcard) := by
  have h := agreement_exec typeUrl (events ++ [.getNextRequestAckless])
  rw [Lts.exec_append] at h ⊢
  set w := (Lts.exec step (create typeUrl) events).1
  simp only [Lts.exec_cons, Lts.exec_nil] at h ⊢
  obtain ⟨hA, hD⟩ := getNextRequestAckless_names (s := w.state)
  have hv : (w.step .getNextRequestAckless).1.flushedView = (w.step .getNextRequestAckless).1.serverView :=
    flushedView_of_nil hA hD
  exact ⟨fun hn => hv ▸ h.complete rfl n hn, fun hn => h.sound rfl n (hv ▸ hn)⟩

end Session

end Envoy.Config
