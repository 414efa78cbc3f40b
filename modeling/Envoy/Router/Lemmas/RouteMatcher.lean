import Envoy.Router.VirtualHostSpec
import Envoy.Lib.Simulation

/-!
# `findVirtualHost` は完全一致、最長の suffix、最長の prefix、既定の順に選ぶ

誤り無く作った `RouteMatcher` の表は config の domain の形をちょうど持つ（`BuildInv`）: 完全一致の表の要素は
`exact` の domain、二つの wildcard の表は長さの bucket の表（`LengthBuckets.WF`）でその要素は `*s` と `p*`
の domain、既定の virtual host は `*` の domain のもの。同じ形の domain が二つあれば作るのは誤りで止まるので、
表の鍵は重ならない。`findWildcardVirtualHost` は長い順に見るので、当たる鍵のうち最長のものを返す。
-/

namespace Envoy.Router

open Http (Bytes lit)

variable {V : Type _}

/-! ## host -/

theorem asciiToLower_of_not_upper {c : UInt8} (h : asciiIsUpper c = false) : asciiToLower c = c := by
  simp [asciiToLower, h]

/-- 大文字がある時だけ小文字にするのは、いつも小文字にするのと同じ。 -/
theorem lower_if_upper (value : Bytes) :
    (if value.any asciiIsUpper then asciiStrToLower value else value) = asciiStrToLower value := by
  split
  case isTrue => rfl
  case isFalse hup =>
    have hall : ∀ c ∈ value, asciiIsUpper c = false := by simpa using hup
    unfold asciiStrToLower
    exact (List.map_congr_left fun c hc => asciiToLower_of_not_upper (hall c hc)).trans (List.map_id _) |>.symm

/-! ## domain の形 -/

namespace DomainPattern

theorem ofDomain_eq_any_iff {domain : Bytes} : ofDomain domain = .any ↔ domain = lit "*" := by
  have hlit : lit "*" = [asterisk] := rfl
  rw [hlit]
  cases domain with
  | nil => simp [ofDomain]
  | cons c s =>
    by_cases hc : c = asterisk
    · by_cases hs : s = [] <;> simp [ofDomain, hc, hs]
    · simp only [ofDomain, hc, if_false]
      split <;> simp [hc]

/-- `*` で始まる domain は `suffixWildcard`。 -/
theorem ofDomain_of_head {domain : Bytes} (hstar : domain ≠ lit "*") (h : domain ≠ [] ∧ domain.head? = some asterisk) :
    ofDomain domain = .suffixWildcard (domain.drop 1) := by
  obtain ⟨c, s, rfl⟩ := List.exists_cons_of_ne_nil h.1
  have hc : c = asterisk := by simpa using h.2
  have hs : s ≠ [] := fun hs => hstar (by rw [hs, hc]; rfl)
  simp [ofDomain, hc, hs]

/-- `*` で終わり、`*` で始まらない domain は `prefixWildcard`。 -/
theorem ofDomain_of_getLast {domain : Bytes} (h₁ : ¬ (domain ≠ [] ∧ domain.head? = some asterisk))
    (h₂ : domain ≠ [] ∧ domain.getLast? = some asterisk) :
    ofDomain domain = .prefixWildcard (domain.take (domain.length - 1)) := by
  obtain ⟨c, s, rfl⟩ := List.exists_cons_of_ne_nil h₂.1
  have hc : c ≠ asterisk := fun hc => h₁ ⟨h₂.1, by simp [hc]⟩
  rw [← List.dropLast_eq_take]
  simp [ofDomain, hc, h₂.2]

/-- `*` で始まらず終わらない domain は `exact`。 -/
theorem ofDomain_of_not {domain : Bytes} (h₁ : ¬ (domain ≠ [] ∧ domain.head? = some asterisk))
    (h₂ : ¬ (domain ≠ [] ∧ domain.getLast? = some asterisk)) : ofDomain domain = .exact domain := by
  cases domain with
  | nil => rfl
  | cons c s =>
    have hc : c ≠ asterisk := fun hc => h₁ ⟨List.cons_ne_nil c s, by simp [hc]⟩
    have hl : (c :: s).getLast? ≠ some asterisk := fun hl => h₂ ⟨List.cons_ne_nil c s, hl⟩
    simp [ofDomain, hc, hl]

end DomainPattern

/-! ## 作った表 -/

theorem VirtualHostMap.find_eq_some_iff {m : VirtualHostMap V} (hnd : (m.map Prod.fst).Nodup) {k : Bytes} {v : V} :
    m.find k = some v ↔ (k, v) ∈ m := by
  unfold VirtualHostMap.find
  constructor
  · intro h
    obtain ⟨e, he, rfl⟩ := Option.map_eq_some_iff.mp h
    rw [← KeyedList.key_of_lookup he]
    exact KeyedList.mem_of_lookup he
  · intro h
    rw [show k = ((k, v) : Bytes × V).1 from rfl, KeyedList.lookup_of_mem hnd h]
    rfl

theorem VirtualHostMap.find_eq_none_iff {m : VirtualHostMap V} {k : Bytes} : m.find k = none ↔ ∀ v, (k, v) ∉ m := by
  simp only [VirtualHostMap.find, Option.map_eq_none_iff, KeyedList.lookup_eq_none]
  exact ⟨fun h v hv => h _ hv rfl, fun h e he hk => h e.2 (hk ▸ he)⟩

/-- 見た domain の形 `E` と表: 完全一致の表、二つの wildcard の表、既定の virtual host が、それぞれ `E` の
`exact`、`suffixWildcard`、`prefixWildcard`、`any` の要素をちょうど持ち、表の鍵は重ならない。 -/
structure BuildInv (ignorePort : Bool) (vhostHeader : Bytes) (E : List (DomainPattern × V)) (rm : RouteMatcher V) :
    Prop where
  ignorePort_eq : rm.ignorePortInHostMatching = ignorePort
  vhostHeader_eq : rm.vhostHeader = vhostHeader
  exact_nodup : (rm.virtualHosts.map Prod.fst).Nodup
  mem_exact : ∀ d vh, (d, vh) ∈ rm.virtualHosts ↔ (.exact d, vh) ∈ E
  suffixes_wf : LengthBuckets.WF rm.wildcardVirtualHostSuffixes
  mem_suffixes : ∀ s vh, (s, vh) ∈ LengthBuckets.entries rm.wildcardVirtualHostSuffixes ↔ (.suffixWildcard s, vh) ∈ E
  prefixes_wf : LengthBuckets.WF rm.wildcardVirtualHostPrefixes
  mem_prefixes : ∀ p vh, (p, vh) ∈ LengthBuckets.entries rm.wildcardVirtualHostPrefixes ↔ (.prefixWildcard p, vh) ∈ E
  default_eq : ∀ vh, rm.defaultVirtualHost = some vh ↔ (.any, vh) ∈ E

variable {ignorePort : Bool} {vhostHeader : Bytes} {E : List (DomainPattern × V)} {rm rm' : RouteMatcher V}

theorem buildInv_init (ignorePort : Bool) (vhostHeader : Bytes) :
    BuildInv ignorePort vhostHeader ([] : List (DomainPattern × V)) ⟨[], [], [], none, ignorePort, vhostHeader⟩ :=
  ⟨rfl, rfl, List.nodup_nil, by simp, LengthBuckets.wf_nil, by simp, LengthBuckets.wf_nil, by simp, by simp⟩

/-- 長さの bucket の表に入れた時: `WF` のまま、要素は形 `P` の要素に `(k, v)` を足したもの。 -/
theorem emplace_step {b : WildcardVirtualHosts V} {P : Bytes → DomainPattern} (hP : Function.Injective P)
    (hb : LengthBuckets.WF b) (hiff : ∀ s vh, (s, vh) ∈ LengthBuckets.entries b ↔ (P s, vh) ∈ E)
    {len : Nat} {k : Bytes} {v : V} (hk : k.length = len) (hins : (LengthBuckets.emplace b len k v).2 = true) :
    LengthBuckets.WF (LengthBuckets.emplace b len k v).1 ∧
      ∀ s vh, (s, vh) ∈ LengthBuckets.entries (LengthBuckets.emplace b len k v).1 ↔ (P s, vh) ∈ E ++ [(P k, v)] := by
  refine ⟨hb.emplace hk, fun s vh => ?_⟩
  rw [LengthBuckets.mem_entries_emplace_of_snd hb hk hins, hiff]
  simp [hP.eq_iff]

/-- 小文字の domain を入れて成功すれば、その形を足した `BuildInv`。 -/
theorem BuildInv.insertDomain (hI : BuildInv ignorePort vhostHeader E rm) {v : V} {domain : Bytes}
    (hstar : domain ≠ lit "*") (hins : rm.insertDomain v domain = (rm', true)) :
    BuildInv ignorePort vhostHeader (E ++ [(DomainPattern.ofDomain domain, v)]) rm' := by
  unfold RouteMatcher.insertDomain at hins
  dsimp only at hins
  split_ifs at hins with h₁ h₂
  · -- `*s`: suffix の表に入れる
    obtain ⟨hfst, hsnd⟩ := Prod.mk.inj hins
    subst hfst
    rw [DomainPattern.ofDomain_of_head hstar h₁]
    obtain ⟨hwf, hmem⟩ := emplace_step (fun _ _ h => DomainPattern.suffixWildcard.inj h) hI.suffixes_wf
      hI.mem_suffixes (by simp) hsnd
    exact ⟨hI.ignorePort_eq, hI.vhostHeader_eq, hI.exact_nodup, by simpa using hI.mem_exact, hwf, hmem,
      hI.prefixes_wf, by simpa using hI.mem_prefixes, by simpa using hI.default_eq⟩
  · -- `p*`: prefix の表に入れる
    obtain ⟨hfst, hsnd⟩ := Prod.mk.inj hins
    subst hfst
    rw [DomainPattern.ofDomain_of_getLast h₁ h₂]
    obtain ⟨hwf, hmem⟩ := emplace_step (fun _ _ h => DomainPattern.prefixWildcard.inj h) hI.prefixes_wf
      hI.mem_prefixes (by simp) hsnd
    exact ⟨hI.ignorePort_eq, hI.vhostHeader_eq, hI.exact_nodup, by simpa using hI.mem_exact, hI.suffixes_wf,
      by simpa using hI.mem_suffixes, hwf, hmem, by simpa using hI.default_eq⟩
  · -- 完全一致の表に入れる
    obtain ⟨hfst, hsnd⟩ := Prod.mk.inj hins
    subst hfst
    rw [DomainPattern.ofDomain_of_not h₁ h₂]
    refine ⟨hI.ignorePort_eq, hI.vhostHeader_eq, KeyedList.nodup_emplace hI.exact_nodup _, fun d vh => ?_,
      hI.suffixes_wf, by simpa using hI.mem_suffixes, hI.prefixes_wf, by simpa using hI.mem_prefixes,
      by simpa using hI.default_eq⟩
    rw [KeyedList.mem_emplace_of_snd hsnd, hI.mem_exact]
    simp

/-- domain を見る一回りは `BuildInv` を保つ。 -/
theorem BuildInv.addDomain (hI : BuildInv ignorePort vhostHeader E rm) {routeName : String} {v : V} {d : Bytes}
    (h : rm.addDomain routeName v d = .ok rm') :
    BuildInv ignorePort vhostHeader (E ++ [(DomainPattern.ofDomain (asciiStrToLower d), v)]) rm' := by
  unfold RouteMatcher.addDomain at h
  dsimp only at h
  split at h
  case isTrue hstar =>
    -- `*`: 既定の virtual host は一つだけ
    rw [DomainPattern.ofDomain_eq_any_iff.mpr hstar]
    split at h
    case h_1 => cases h
    case h_2 hnone =>
      cases h
      have hno : ∀ vh, (DomainPattern.any, vh) ∉ E := fun vh hvh => by
        simpa [hnone] using (hI.default_eq vh).mpr hvh
      refine ⟨hI.ignorePort_eq, hI.vhostHeader_eq, hI.exact_nodup, by simpa using hI.mem_exact, hI.suffixes_wf,
        by simpa using hI.mem_suffixes, hI.prefixes_wf, by simpa using hI.mem_prefixes, fun vh => ?_⟩
      simp only [List.mem_append, List.mem_singleton, Prod.mk.injEq, true_and, Option.some.injEq]
      exact ⟨fun h => .inr h.symm, fun h => h.elim (fun h => absurd h (hno vh)) Eq.symm⟩
  case isFalse hstar =>
    split at h
    case h_1 rm'' hins => cases h; exact hI.insertDomain hstar hins
    case h_2 => cases h

/-- 誤り無く作った `RouteMatcher` は、config の全ての domain の形の `BuildInv`。 -/
theorem buildInv_create {routeName : String} {virtualHosts : List (V × List Bytes)}
    (h : RouteMatcher.create routeName ignorePort vhostHeader virtualHosts = .ok rm) :
    BuildInv ignorePort vhostHeader (domainEntries virtualHosts) rm := by
  -- 外の一回り: 見た virtual host の domain の形で添字を付ける
  have houter := @Lts.foldlM_except_trace _ _ _ _ (fun seen rm => BuildInv ignorePort vhostHeader (domainEntries seen) rm)
    (fun seen rm virtualHost rm' hI hstep => by
      -- 内の一回り: その virtual host の見た domain の形を足す
      have hinner := @Lts.foldlM_except_trace _ _ _ _
        (fun ds rm => BuildInv ignorePort vhostHeader
          (domainEntries seen ++ ds.map fun d => (DomainPattern.ofDomain (asciiStrToLower d), virtualHost.1)) rm)
        (fun ds rm d rm' hI hd => by simpa using hI.addDomain hd) [] rm rm' (by simpa using hI) _ hstep
      simpa [domainEntries] using hinner)
    [] _ rm (buildInv_init ignorePort vhostHeader) virtualHosts h
  simpa using houter

/-! ## 長い順の探索 -/

section Wildcard

variable {b : WildcardVirtualHosts V} {host : Bytes} {f : Bytes → Nat → Bytes}

/-- host より短く、host のその長さの部分に一致する鍵。 -/
def Hit (host : Bytes) (f : Bytes → Nat → Bytes) (k : Bytes) : Prop := k.length < host.length ∧ f host k.length = k

/-- 当たる鍵が無ければ、何も選ばない。 -/
theorem findWildcardVirtualHost_eq_none (hb : LengthBuckets.WF b)
    (hno : ∀ k vh, (k, vh) ∈ LengthBuckets.entries b → ¬ Hit host f k) :
    RouteMatcher.findWildcardVirtualHost host b f = none := by
  induction b with
  | nil => rfl
  | cons x rest ih =>
    obtain ⟨len, bucket⟩ := x
    have ih' := ih hb.tail fun k vh hk => hno k vh (by simp [hk])
    unfold RouteMatcher.findWildcardVirtualHost
    split
    case isTrue => exact ih'
    case isFalse hlen =>
      split
      case h_1 vh hfind =>
        -- 引けた鍵は、この bucket の長さの当たる鍵
        obtain ⟨e, he, hek⟩ := Option.map_eq_some_iff.mp hfind
        have hmem := KeyedList.mem_of_lookup he
        have hkey := KeyedList.key_of_lookup he
        have hlen' : e.1.length = len := hb.length_eq _ List.mem_cons_self e hmem
        exact absurd ⟨by omega, hlen'.symm ▸ hkey.symm⟩ (hno e.1 e.2 (by simp [hmem]))
      case h_2 => exact ih'

/-- 当たる鍵のうち最長の `k` の virtual host を選ぶ。 -/
theorem findWildcardVirtualHost_eq_some (hb : LengthBuckets.WF b) {k : Bytes} {vh : V}
    (hk : (k, vh) ∈ LengthBuckets.entries b) (hhit : Hit host f k)
    (hmax : ∀ k' vh', (k', vh') ∈ LengthBuckets.entries b → Hit host f k' → k'.length ≤ k.length) :
    RouteMatcher.findWildcardVirtualHost host b f = some vh := by
  induction b with
  | nil => simp at hk
  | cons x rest ih =>
    obtain ⟨len, bucket⟩ := x
    unfold RouteMatcher.findWildcardVirtualHost
    -- `k` がこの bucket に無ければ、後の bucket で選ぶ
    have hrest : (k, vh) ∉ bucket → RouteMatcher.findWildcardVirtualHost host rest f = some vh := fun hnot =>
      ih hb.tail (by simpa [hnot] using hk) fun k' vh' hk' => hmax k' vh' (by simp [hk'])
    split
    case isTrue hlen =>
      refine hrest fun hkb => ?_
      have := hb.length_eq _ List.mem_cons_self _ hkb
      simp only at this
      exact absurd hhit.1 (by omega)
    case isFalse hlen =>
      split
      case h_1 vh' hfind =>
        -- 引けた鍵 `e` は長さ `len` の当たる鍵: 最長なので `k` もこの bucket にあり、`e` と同じ
        obtain ⟨e, he, rfl⟩ := Option.map_eq_some_iff.mp hfind
        have hmem := KeyedList.mem_of_lookup he
        have hlen' : e.1.length = len := hb.length_eq _ List.mem_cons_self e hmem
        have hkey : e.1 = f host len := KeyedList.key_of_lookup he
        have hehit : Hit host f e.1 := ⟨by omega, by rw [hlen']; exact hkey.symm⟩
        have hle := hmax e.1 e.2 (by simp [hmem]) hehit
        have hkb : (k, vh) ∈ bucket := by
          by_contra hnot
          have hlt := hb.length_lt_of_mem_tail (by simpa [hnot] using hk)
          simp only at hlt
          omega
        have hklen : k.length = len := hb.length_eq _ List.mem_cons_self _ hkb
        have heq : e = (k, vh) := List.inj_on_of_nodup_map (hb.nodup _ List.mem_cons_self) hmem hkb
          (by rw [← hehit.2, ← hhit.2, hlen', hklen])
        rw [heq]
      case h_2 hfind =>
        refine hrest fun hkb => ?_
        have hklen : k.length = len := hb.length_eq _ List.mem_cons_self _ hkb
        have hnone := VirtualHostMap.find_eq_none_iff.mp hfind vh
        rw [← hklen, hhit.2] at hnone
        exact hnone hkb

/-- 空の表を飛ばすのは、空の表を引くのと同じ。 -/
theorem ite_isEmpty_findWildcardVirtualHost :
    (if b.isEmpty then none else RouteMatcher.findWildcardVirtualHost host b f) =
      RouteMatcher.findWildcardVirtualHost host b f := by
  split
  case isTrue h => rw [List.isEmpty_iff.mp h]; rfl
  case isFalse => rfl

end Wildcard

/-! ## 選ぶ virtual host -/

/-- 既定の virtual host は `*` の domain のもの。 -/
theorem BuildInv.defaultVirtualHost_eq (hI : BuildInv ignorePort vhostHeader E rm) :
    rm.defaultVirtualHost = defaultOf E := by
  unfold defaultOf
  cases hd : rm.defaultVirtualHost with
  | none =>
    have hno : ∀ e ∈ E, ¬ e.1 = .any := fun e he hany => by
      have := (hI.default_eq e.2).mpr (by rw [← hany]; exact he)
      simp [hd] at this
    rw [List.find?_eq_none.mpr fun e he => by simpa using hno e he]
    rfl
  | some vh =>
    have hmem := (hI.default_eq vh).mp hd
    cases hf : E.find? (fun e => decide (e.1 = .any)) with
    | none =>
      have := List.find?_eq_none.mp hf _ hmem
      simp at this
    | some e =>
      -- 最初の `*` の要素も既定の virtual host
      have heany : e.1 = .any := by simpa using List.find?_some hf
      have hev := (hI.default_eq e.2).mpr (by rw [← heany]; exact List.mem_of_find?_eq_some hf)
      rw [hd] at hev
      simpa using hev

/-- host の値があれば、`findVirtualHost` は完全一致の表、suffix の表、prefix の表、既定の virtual host の順に
引く。既定しか無い時の近道も同じ結果。 -/
theorem findVirtualHost_eq_or {rm : RouteMatcher V} {headers : List (Bytes × Bytes)} {v : Bytes}
    (hv : rm.hostHeaderValue headers = some v) :
    rm.findVirtualHost headers =
      let h := hostKey rm.ignorePortInHostMatching v
      (rm.virtualHosts.find h).or <|
        (RouteMatcher.findWildcardVirtualHost h rm.wildcardVirtualHostSuffixes fun h l => h.drop (h.length - l)).or <|
        (RouteMatcher.findWildcardVirtualHost h rm.wildcardVirtualHostPrefixes fun h l => h.take l).or
        rm.defaultVirtualHost := by
  unfold RouteMatcher.findVirtualHost
  split
  case isTrue hempty =>
    obtain ⟨h₁, h₂, h₃⟩ := hempty
    rw [List.isEmpty_iff.mp h₁, List.isEmpty_iff.mp h₂, List.isEmpty_iff.mp h₃]
    rfl
  case isFalse =>
    rw [hv]
    dsimp only
    rw [lower_if_upper, ite_isEmpty_findWildcardVirtualHost, ite_isEmpty_findWildcardVirtualHost]
    rfl

/-- `*s` が当たるのは、`s` が host の真の suffix であること。 -/
theorem hit_drop_iff {h s : Bytes} : Hit h (fun h l => h.drop (h.length - l)) s ↔ s.length < h.length ∧ s <:+ h := by
  rw [Hit, List.suffix_iff_eq_drop, eq_comm]

/-- `p*` が当たるのは、`p` が host の真の prefix であること。 -/
theorem hit_take_iff {h p : Bytes} : Hit h (fun h l => h.take l) p ↔ p.length < h.length ∧ p <+: h := by
  rw [Hit, List.prefix_iff_eq_take, eq_comm]

theorem findVirtualHost_exact_then_longest_wildcard {routeName : String} {virtualHosts : List (V × List Bytes)}
    {headers : List (Bytes × Bytes)} {v : Bytes}
    (hrm : RouteMatcher.create routeName ignorePort vhostHeader virtualHosts = .ok rm)
    (hv : rm.hostHeaderValue headers = some v) :
    let h := hostKey ignorePort v
    let E := domainEntries virtualHosts
    (∀ vh, (.exact h, vh) ∈ E → rm.findVirtualHost headers = some vh) ∧
    ((∀ vh, (.exact h, vh) ∉ E) → ∀ s vh, SuffixHit E h s vh →
      (∀ s' vh', SuffixHit E h s' vh' → s'.length ≤ s.length) → rm.findVirtualHost headers = some vh) ∧
    ((∀ vh, (.exact h, vh) ∉ E) → (∀ s vh, ¬ SuffixHit E h s vh) → ∀ p vh, PrefixHit E h p vh →
      (∀ p' vh', PrefixHit E h p' vh' → p'.length ≤ p.length) → rm.findVirtualHost headers = some vh) ∧
    ((∀ vh, (.exact h, vh) ∉ E) → (∀ s vh, ¬ SuffixHit E h s vh) → (∀ p vh, ¬ PrefixHit E h p vh) →
      rm.findVirtualHost headers = defaultOf E) := by
  have hI := buildInv_create hrm
  have heq := findVirtualHost_eq_or hv
  dsimp only at heq ⊢
  rw [hI.ignorePort_eq] at heq
  set h := hostKey ignorePort v
  set E := domainEntries virtualHosts
  -- 表の要素と仕様の domain の形
  have hsuffix : ∀ s vh, SuffixHit E h s vh ↔
      (s, vh) ∈ LengthBuckets.entries rm.wildcardVirtualHostSuffixes ∧ Hit h (fun h l => h.drop (h.length - l)) s :=
    fun s vh => by rw [SuffixHit, hit_drop_iff, hI.mem_suffixes]
  have hpfx : ∀ p vh, PrefixHit E h p vh ↔
      (p, vh) ∈ LengthBuckets.entries rm.wildcardVirtualHostPrefixes ∧ Hit h (fun h l => h.take l) p :=
    fun p vh => by rw [PrefixHit, hit_take_iff, hI.mem_prefixes]
  have hexact : (∀ vh, (.exact h, vh) ∉ E) → rm.virtualHosts.find h = none := fun hnx =>
    VirtualHostMap.find_eq_none_iff.mpr fun vh hvh => hnx vh ((hI.mem_exact h vh).mp hvh)
  have hnone_suffix : (∀ s vh, ¬ SuffixHit E h s vh) →
      RouteMatcher.findWildcardVirtualHost h rm.wildcardVirtualHostSuffixes (fun h l => h.drop (h.length - l)) = none :=
    fun hns => findWildcardVirtualHost_eq_none hI.suffixes_wf fun s vh hs hhit => hns s vh ((hsuffix s vh).mpr ⟨hs, hhit⟩)
  refine ⟨fun vh hvh => ?_, fun hnx s vh hs hmax => ?_, fun hnx hns p vh hp hmax => ?_, fun hnx hns hnp => ?_⟩
  · -- 完全一致
    rw [heq, (VirtualHostMap.find_eq_some_iff hI.exact_nodup).mpr ((hI.mem_exact h vh).mpr hvh)]
    rfl
  · -- 最長の `*s`
    obtain ⟨hmem, hhit⟩ := (hsuffix s vh).mp hs
    rw [heq, hexact hnx, findWildcardVirtualHost_eq_some hI.suffixes_wf hmem hhit
      fun s' vh' hs' hhit' => hmax s' vh' ((hsuffix s' vh').mpr ⟨hs', hhit'⟩)]
    rfl
  · -- 最長の `p*`
    obtain ⟨hmem, hhit⟩ := (hpfx p vh).mp hp
    rw [heq, hexact hnx, hnone_suffix hns, findWildcardVirtualHost_eq_some hI.prefixes_wf hmem hhit
      fun p' vh' hp' hhit' => hmax p' vh' ((hpfx p' vh').mpr ⟨hp', hhit'⟩)]
    rfl
  · -- 既定
    rw [heq, hexact hnx, hnone_suffix hns, findWildcardVirtualHost_eq_none hI.prefixes_wf
      fun p vh hp hhit => hnp p vh ((hpfx p vh).mpr ⟨hp, hhit⟩)]
    exact hI.defaultVirtualHost_eq

theorem findVirtualHost_exact_foo :
    ∃ rm : RouteMatcher Nat,
      RouteMatcher.create "local" false [] [(1, [lit "foo.com"]), (2, [lit "*.com"]), (3, [lit "*"])] = .ok rm ∧
      rm.hostHeaderValue [(lit ":authority", lit "Foo.com")] = some (lit "Foo.com") ∧
      rm.findVirtualHost [(lit ":authority", lit "Foo.com")] = some 1 := by
  refine ⟨_, rfl, by decide, ?_⟩
  exact (@findVirtualHost_exact_then_longest_wildcard Nat false [] _ "local"
    [(1, [lit "foo.com"]), (2, [lit "*.com"]), (3, [lit "*"])] [(lit ":authority", lit "Foo.com")] (lit "Foo.com")
    rfl (by decide)).1 1 (by decide)

end Envoy.Router
