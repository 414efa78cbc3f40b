import Envoy.Http.Compressor.CompressorFilter
import Envoy.Lib.Preference
import Envoy.Lib.Decimal

/-!
# `chooseEncoding` の性質

登録の一回り `registerCompressor` は、許された config の encoding ごとに、最初の config の
`chooseFirst()` と、登録の順に増える数を持つ要素を一つ入れる。token の一回りは、q-value が 0 の encoding を
除く。pair の一回り `chooseStep` の選択は、`operator[]` の入れる要素に関わらず、選べる pair の中で最大の
q-value の pair を選ぶ畳み込み（`Preference.pick`）と同じで、入れる要素は `identity` か `*` を鍵とし、
値が `{0, false}` である。

そのため `*` を選んだ時の `std::min_element` は、登録の最も早い残った compressor の他に、入れられた
`identity` か `*` の要素を返すことがある。
-/

namespace Envoy.Http.Compressor

open StringUtil KeyedList

namespace AllowedCompressors

variable {m : AllowedCompressors} {k k' : List Char} {v : CompressorInChain} {e : List Char × CompressorInChain}

theorem find_eq_some_iff (hnd : (m.map Prod.fst).Nodup) : m.find k = some v ↔ (k, v) ∈ m := by
  unfold find
  constructor
  · intro h
    obtain ⟨e, he, rfl⟩ := Option.map_eq_some_iff.mp h
    have hk := key_of_lookup he
    rw [← hk]
    exact mem_of_lookup he
  · intro h
    rw [show k = ((k, v) : List Char × CompressorInChain).1 from rfl, lookup_of_mem hnd h]
    rfl

theorem find_eq_none_iff : m.find k = none ↔ ∀ e ∈ m, e.1 ≠ k := by
  simp only [find, Option.map_eq_none_iff]
  exact lookup_eq_none

theorem find_isSome_iff : (m.find k).isSome ↔ ∃ e ∈ m, e.1 = k := by
  cases h : m.find k with
  | none =>
    simp only [Option.isSome_none, Bool.false_eq_true, false_iff, not_exists, not_and]
    exact find_eq_none_iff.mp h
  | some v =>
    obtain ⟨e, he, -⟩ := Option.map_eq_some_iff.mp h
    exact ⟨fun _ => ⟨e, mem_of_lookup he, key_of_lookup he⟩, fun _ => rfl⟩

theorem mem_insert : e ∈ m.insert k v ↔ e ∈ m ∨ m.find k = none ∧ e = (k, v) := by
  rw [insert, KeyedList.mem_insertOrdered]
  simp [find]

theorem nodup_insert (hnd : (m.map Prod.fst).Nodup) : ((m.insert k v).map Prod.fst).Nodup :=
  nodup_insertOrdered hnd _

theorem find_insert (hnd : (m.map Prod.fst).Nodup) :
    (m.insert k v).find k' = if m.find k = none ∧ k = k' then some v else m.find k' := by
  unfold find insert
  rw [lookup_insertOrdered hnd]
  simp only [Option.map_eq_none_iff]
  split <;> rfl

theorem mem_erase : e ∈ m.erase k ↔ e ∈ m ∧ e.1 ≠ k := KeyedList.mem_erase

theorem nodup_erase (hnd : (m.map Prod.fst).Nodup) : ((m.erase k).map Prod.fst).Nodup :=
  KeyedList.nodup_erase hnd k

theorem get_fst (m : AllowedCompressors) (k : List Char) : (m.get k).1 = (m.find k).getD ⟨0, false⟩ := by
  unfold get
  split <;> simp_all

theorem get_snd (m : AllowedCompressors) (k : List Char) :
    (m.get k).2 = if m.find k = none then m.insert k ⟨0, false⟩ else m := by
  unfold get
  split <;> simp_all

end AllowedCompressors

/-! ## 登録 -/

section Registration

variable (flt : CompressorFilter) (contentTypeValue : List Char)

/-- 応答の Content-Type に許された config の encoding を、chain の順に並べたもの（同じ encoding も並ぶ）。 -/
def registeredEncodings (filterConfigs : List CompressorFilterConfig) : List (List Char) :=
  (filterConfigs.filter (contentTypeAllowed contentTypeValue)).map (encodingOf flt)

/-- encoding `e` を持つ最初の許された config の `chooseFirst()`。 -/
def firstChooseFirst (filterConfigs : List CompressorFilterConfig) (e : List Char) : Bool :=
  ((filterConfigs.filter (contentTypeAllowed contentTypeValue)).find? (encodingOf flt · = e)).any (·.chooseFirst)

/-- 登録の途中の `allowed_compressors` と登録の数: 見た config の許された encoding ごとに要素が一つあり、
数は登録の順に増え、`chooseFirst` はその encoding の最初の config のもの。 -/
structure RegInv (seen : List CompressorFilterConfig) (acc : AllowedCompressors × Nat) : Prop where
  nodup : (acc.1.map Prod.fst).Nodup
  count_lt : ∀ e ∈ acc.1, e.2.registrationCount < acc.2
  isSome_iff : ∀ k, (acc.1.find k).isSome ↔ k ∈ registeredEncodings flt contentTypeValue seen
  count_lt_of_idxOf_lt : ∀ e ∈ acc.1, ∀ e' ∈ acc.1,
    (registeredEncodings flt contentTypeValue seen).idxOf e.1 <
        (registeredEncodings flt contentTypeValue seen).idxOf e'.1 →
      e.2.registrationCount < e'.2.registrationCount
  chooseFirst_eq : ∀ e ∈ acc.1, e.2.chooseFirst = firstChooseFirst flt contentTypeValue seen e.1

variable {flt contentTypeValue}

theorem registeredEncodings_append_singleton (seen : List CompressorFilterConfig) (fc : CompressorFilterConfig) :
    registeredEncodings flt contentTypeValue (seen ++ [fc]) =
      registeredEncodings flt contentTypeValue seen ++
        if contentTypeAllowed contentTypeValue fc then [encodingOf flt fc] else [] := by
  unfold registeredEncodings
  rw [List.filter_append, List.map_append]
  split <;> simp_all

/-- 見た config に encoding `e` があれば、最初の config は前のまま。 -/
theorem firstChooseFirst_append_of_mem {seen : List CompressorFilterConfig} {e : List Char}
    (he : e ∈ registeredEncodings flt contentTypeValue seen) (fc : CompressorFilterConfig) :
    firstChooseFirst flt contentTypeValue (seen ++ [fc]) e = firstChooseFirst flt contentTypeValue seen e := by
  have hsome : ((seen.filter (contentTypeAllowed contentTypeValue)).find? (encodingOf flt · = e)).isSome := by
    obtain ⟨c, hc, rfl⟩ := List.mem_map.mp he
    exact List.find?_isSome.mpr ⟨c, hc, by simp⟩
  unfold firstChooseFirst
  rw [List.filter_append, List.find?_append]
  obtain ⟨c, hc⟩ := Option.isSome_iff_exists.mp hsome
  rw [hc]
  rfl

/-- 新しい encoding の最初の config は、足した config。 -/
theorem firstChooseFirst_append_of_not_mem {seen : List CompressorFilterConfig} {fc : CompressorFilterConfig}
    (hfc : contentTypeAllowed contentTypeValue fc = true)
    (hnew : encodingOf flt fc ∉ registeredEncodings flt contentTypeValue seen) :
    firstChooseFirst flt contentTypeValue (seen ++ [fc]) (encodingOf flt fc) = fc.chooseFirst := by
  have hnone : ((seen.filter (contentTypeAllowed contentTypeValue)).find? (encodingOf flt · = encodingOf flt fc)) =
      none := by
    refine List.find?_eq_none.mpr fun c hc heq => hnew ?_
    exact List.mem_map.mpr ⟨c, hc, by simpa using heq⟩
  unfold firstChooseFirst
  rw [List.filter_append, List.find?_append, hnone]
  simp [hfc]

/-- 登録の一回りは `RegInv` を保つ。 -/
theorem RegInv.register {seen : List CompressorFilterConfig} {acc : AllowedCompressors × Nat}
    (h : RegInv flt contentTypeValue seen acc) (fc : CompressorFilterConfig) :
    RegInv flt contentTypeValue (seen ++ [fc]) (registerCompressor flt contentTypeValue acc fc) := by
  rw [registerCompressor]
  by_cases hfc : contentTypeAllowed contentTypeValue fc = true
  · rw [if_pos hfc]
    have hR := @registeredEncodings_append_singleton flt contentTypeValue seen fc
    rw [if_pos hfc] at hR
    split
    case h_1 hnone =>
      -- 新しい encoding: 数 `acc.2` で鍵の順の位置に入る
      have hnew : encodingOf flt fc ∉ registeredEncodings flt contentTypeValue seen := fun hmem =>
        by simpa [hnone] using (h.isSome_iff _).mpr hmem
      have hmem : ∀ e, e ∈ acc.1.insert (encodingOf flt fc) ⟨acc.2, fc.chooseFirst⟩ ↔
          e ∈ acc.1 ∨ e = (encodingOf flt fc, ⟨acc.2, fc.chooseFirst⟩) := fun e => by
        rw [AllowedCompressors.mem_insert]
        simp [hnone]
      have hold : ∀ e ∈ acc.1, e.1 ∈ registeredEncodings flt contentTypeValue seen := fun e he =>
        (h.isSome_iff e.1).mp (AllowedCompressors.find_isSome_iff.mpr ⟨e, he, rfl⟩)
      have hidx_old : ∀ e ∈ acc.1, (registeredEncodings flt contentTypeValue (seen ++ [fc])).idxOf e.1 =
          (registeredEncodings flt contentTypeValue seen).idxOf e.1 := fun e he => by
        rw [hR, List.idxOf_append_of_mem (hold e he)]
      have hidx_new : (registeredEncodings flt contentTypeValue (seen ++ [fc])).idxOf (encodingOf flt fc) =
          (registeredEncodings flt contentTypeValue seen).length := by
        rw [hR, List.idxOf_append_of_notMem hnew]
        simp
      refine ⟨AllowedCompressors.nodup_insert h.nodup, fun e he => ?_, fun k => ?_, fun e he e' he' hlt => ?_,
        fun e he => ?_⟩
      · rcases (hmem e).mp he with he | rfl
        · exact Nat.lt_succ_of_lt (h.count_lt e he)
        · exact Nat.lt_succ_self _
      · rw [AllowedCompressors.find_insert h.nodup, hR, List.mem_append, List.mem_singleton]
        by_cases hk : encodingOf flt fc = k
        · subst hk
          simp [hnone]
        · rw [if_neg (by simp [hk]), h.isSome_iff]
          simp [Ne.symm hk]
      · rcases (hmem e).mp he with he | rfl <;> rcases (hmem e').mp he' with he' | rfl
        · exact h.count_lt_of_idxOf_lt e he e' he' (by rwa [hidx_old e he, hidx_old e' he'] at hlt)
        · exact h.count_lt e he
        · -- 新しい encoding の位置は見た encoding の後
          rw [hidx_new, hidx_old e' he'] at hlt
          exact absurd hlt (not_lt.mpr List.idxOf_le_length)
        · exact absurd hlt (lt_irrefl _)
      · rcases (hmem e).mp he with he | rfl
        · rw [h.chooseFirst_eq e he, firstChooseFirst_append_of_mem (hold e he)]
        · exact (firstChooseFirst_append_of_not_mem hfc hnew).symm
    case h_2 v hsome =>
      -- 同じ encoding は既にある: 何も変えない
      have hold : encodingOf flt fc ∈ registeredEncodings flt contentTypeValue seen :=
        (h.isSome_iff _).mp (by simp [hsome])
      have hmemR : ∀ e ∈ acc.1, e.1 ∈ registeredEncodings flt contentTypeValue seen := fun e he =>
        (h.isSome_iff e.1).mp (AllowedCompressors.find_isSome_iff.mpr ⟨e, he, rfl⟩)
      refine ⟨h.nodup, h.count_lt, fun k => ?_, fun e he e' he' hlt => ?_, fun e he => ?_⟩
      · rw [h.isSome_iff, hR, List.mem_append, List.mem_singleton]
        constructor
        · exact .inl
        · rintro (hk | rfl)
          · exact hk
          · exact hold
      · rw [hR, List.idxOf_append_of_mem (hmemR e he), List.idxOf_append_of_mem (hmemR e' he')] at hlt
        exact h.count_lt_of_idxOf_lt e he e' he' hlt
      · rw [h.chooseFirst_eq e he, firstChooseFirst_append_of_mem (hmemR e he)]
  · -- Content-Type に許されない config は飛ばす
    rw [if_neg hfc]
    have hR : registeredEncodings flt contentTypeValue (seen ++ [fc]) = registeredEncodings flt contentTypeValue seen := by
      rw [registeredEncodings_append_singleton, if_neg hfc, List.append_nil]
    have hcf : ∀ e, firstChooseFirst flt contentTypeValue (seen ++ [fc]) e = firstChooseFirst flt contentTypeValue seen e := by
      intro e
      simp [firstChooseFirst, List.filter_append, hfc]
    exact ⟨h.nodup, h.count_lt, fun k => by rw [hR]; exact h.isSome_iff k, fun e he e' he' hlt => by
      rw [hR] at hlt; exact h.count_lt_of_idxOf_lt e he e' he' hlt, fun e he => by rw [hcf]; exact h.chooseFirst_eq e he⟩

theorem regInv_foldl (filterConfigs : List CompressorFilterConfig) :
    RegInv flt contentTypeValue filterConfigs (filterConfigs.foldl (registerCompressor flt contentTypeValue) ([], 0)) := by
  induction filterConfigs using List.reverseRecOn with
  | nil => exact ⟨List.nodup_nil, by simp, fun k => by simp [AllowedCompressors.find, registeredEncodings], by simp,
      by simp⟩
  | append_singleton seen fc ih =>
    rw [List.foldl_append, List.foldl_cons, List.foldl_nil]
    exact ih.register fc

end Registration

/-! ## Accept-Encoding の token -/

section Accept

variable {Q : Type _} [LinearOrder Q] [Zero Q] [One Q] (simpleAtof : List Char → Option Q)

/-- Accept-Encoding の読めた pair（q-value の読めない token は飛ばす）。 -/
def acceptedPairs (acceptEncoding : List Char) : List (List Char × Q) :=
  (splitToken acceptEncoding ',').filterMap (parseToken simpleAtof)

omit [One Q] in
/-- q-value が 0 の pair の encoding を除くのは、その pair の名のる要素を除くこと。 -/
theorem filter_erase_zero (m : AllowedCompressors) (pair : List Char × Q) (rest : List (List Char × Q)) :
    (if pair.2 = 0 then m.erase pair.1 else m).filter (fun e => (e.1, (0 : Q)) ∉ rest) =
      m.filter fun e => (e.1, (0 : Q)) ∉ pair :: rest := by
  have hpred : ∀ e : List Char × CompressorInChain, (decide ((e.1, (0 : Q)) ∉ pair :: rest)) =
      ((pair.2 = 0 → e.1 ≠ pair.1) && decide ((e.1, (0 : Q)) ∉ rest)) := by
    intro e
    obtain ⟨n, q⟩ := pair
    by_cases hq : q = 0
    · subst hq
      by_cases hn : e.1 = n <;> simp [hn]
    · simp [hq, Ne.symm hq]
  rw [List.filter_congr fun e _ => hpred e]
  split
  case isTrue hz =>
    simp only [AllowedCompressors.erase, KeyedList.erase, List.filter_filter, hz, true_implies]
    exact List.filter_congr fun e _ => by simp [Bool.and_comm]
  case isFalse hz =>
    simp [hz]

/-- token の畳み込みは、読めた pair を足し、q-value が 0 の pair の名のる要素を除く。 -/
theorem foldl_acceptStep (tokens : List (List Char)) (pairs : List (List Char × Q)) (m : AllowedCompressors) :
    tokens.foldl (acceptStep simpleAtof) (pairs, m) =
      (pairs ++ tokens.filterMap (parseToken simpleAtof),
        m.filter fun e => (e.1, (0 : Q)) ∉ tokens.filterMap (parseToken simpleAtof)) := by
  induction tokens generalizing pairs m with
  | nil => simp
  | cons t ts ih =>
    rw [List.foldl_cons, acceptStep]
    cases hp : parseToken simpleAtof t with
    | none =>
      rw [ih, List.filterMap_cons_none hp]
    | some pair =>
      dsimp only
      rw [ih, List.filterMap_cons_some hp, filter_erase_zero, List.append_assoc, List.singleton_append]

end Accept

/-! ## 選ぶ -/

section Choose

variable {Q : Type _}

/-- `allowed` で選べる pair: `allowed` にある encoding か、`identity` か `*` を名のる。 -/
def Eligible (allowed : AllowedCompressors) (pair : List Char × Q) : Prop :=
  (allowed.find pair.1).isSome ∨ pair.1 = identity ∨ pair.1 = wildcard

instance (allowed : AllowedCompressors) : DecidablePred (@Eligible Q allowed) := fun _ =>
  inferInstanceAs (Decidable (_ ∨ _))

/-- `allowed_compressors[name].choose_first_` の値。無い鍵では `false`。 -/
def chooseFirstIn (allowed : AllowedCompressors) (name : List Char) : Bool :=
  ((allowed.find name).map (·.chooseFirst)).getD false

/-- 選ぶ間の `allowed_compressors` `m`: 選び始めの `allowed` の要素を全て持ち、他の要素は `identity` か `*` を
鍵とする値 `{0, false}` の要素で、見た pair の名のったもの。 -/
structure Extends (allowed : AllowedCompressors) (seen : List (List Char × Q)) (m : AllowedCompressors) : Prop where
  nodup : (m.map Prod.fst).Nodup
  subset : ∀ e ∈ allowed, e ∈ m
  extra : ∀ e ∈ m, e ∈ allowed ∨ ((e.1 = identity ∨ e.1 = wildcard) ∧ allowed.find e.1 = none ∧
    e.2 = ⟨0, false⟩ ∧ ∃ p ∈ seen, p.1 = e.1)

variable {allowed m : AllowedCompressors} {seen : List (List Char × Q)}

theorem extends_self (hnd : (allowed.map Prod.fst).Nodup) : Extends allowed ([] : List (List Char × Q)) allowed :=
  ⟨hnd, fun _ he => he, fun _ he => .inl he⟩

/-- 選ぶ間の `allowed_compressors` で選べる pair は、選び始めの `allowed` で選べる pair。 -/
theorem Extends.eligible_iff (hm : Extends allowed seen m) (pair : List Char × Q) :
    ((m.find pair.1).isSome ∨ pair.1 = identity ∨ pair.1 = wildcard) ↔ Eligible allowed pair := by
  unfold Eligible
  constructor
  · rintro (hs | hid)
    · obtain ⟨e, he, hk⟩ := AllowedCompressors.find_isSome_iff.mp hs
      rcases hm.extra e he with he | ⟨hname, -⟩
      · exact .inl (AllowedCompressors.find_isSome_iff.mpr ⟨e, he, hk⟩)
      · exact .inr (hk ▸ hname)
    · exact .inr hid
  · rintro (hs | hid)
    · obtain ⟨e, he, hk⟩ := AllowedCompressors.find_isSome_iff.mp hs
      exact .inl (AllowedCompressors.find_isSome_iff.mpr ⟨e, hm.subset e he, hk⟩)
    · exact .inr hid

/-- `operator[]` の読む `choose_first_` は、選び始めの `allowed` のもの（無ければ `false`）。 -/
theorem Extends.get_chooseFirst (hnd : (allowed.map Prod.fst).Nodup) (hm : Extends allowed seen m)
    (k : List Char) : (m.get k).1.chooseFirst = chooseFirstIn allowed k := by
  rw [AllowedCompressors.get_fst, chooseFirstIn]
  cases hA : allowed.find k with
  | some v =>
    have hmv : m.find k = some v := (AllowedCompressors.find_eq_some_iff hm.nodup).mpr
      (hm.subset _ ((AllowedCompressors.find_eq_some_iff hnd).mp hA))
    rw [hmv]
    rfl
  | none =>
    cases hM : m.find k with
    | none => rfl
    | some v =>
      -- `allowed` に無い鍵の要素は、`operator[]` の入れた `{0, false}`
      have hmem := (AllowedCompressors.find_eq_some_iff hm.nodup).mp hM
      rcases hm.extra _ hmem with hA' | ⟨-, -, hv, -⟩
      · rw [(AllowedCompressors.find_eq_some_iff hnd).mpr hA'] at hA
        cases hA
      · simp only at hv
        rw [hv]
        rfl

/-- 選べる pair の `operator[]` は `Extends` を保つ。 -/
theorem Extends.get (hm : Extends allowed seen m) {x : List Char × Q} (hx : Eligible allowed x) :
    Extends allowed (seen ++ [x]) (m.get x.1).2 := by
  rw [AllowedCompressors.get_snd]
  split
  case isTrue hnone =>
    -- 無い鍵: `allowed` にも無いので `identity` か `*`
    have hA : allowed.find x.1 = none := AllowedCompressors.find_eq_none_iff.mpr fun e he =>
      AllowedCompressors.find_eq_none_iff.mp hnone e (hm.subset e he)
    have hname : x.1 = identity ∨ x.1 = wildcard := by
      rcases hx with hs | hid
      · simp [hA] at hs
      · exact hid
    refine ⟨AllowedCompressors.nodup_insert hm.nodup, fun e he => ?_, fun e he => ?_⟩
    · exact AllowedCompressors.mem_insert.mpr (.inl (hm.subset e he))
    · rcases AllowedCompressors.mem_insert.mp he with he | ⟨-, rfl⟩
      · rcases hm.extra e he with he | ⟨hn, hfind, hv, p, hp, hpk⟩
        · exact .inl he
        · exact .inr ⟨hn, hfind, hv, p, List.mem_append_left _ hp, hpk⟩
      · exact .inr ⟨hname, hA, rfl, x, by simp, rfl⟩
  case isFalse =>
    refine ⟨hm.nodup, hm.subset, fun e he => ?_⟩
    rcases hm.extra e he with he | ⟨hn, hfind, hv, p, hp, hpk⟩
    · exact .inl he
    · exact .inr ⟨hn, hfind, hv, p, List.mem_append_left _ hp, hpk⟩

variable [LinearOrder Q]

/-- pair の一回りの選択は `Preference.pick`、`allowed_compressors` は `Extends` を保つ。 -/
theorem chooseStep_spec (hnd : (allowed.map Prod.fst).Nodup) (hm : Extends allowed seen m)
    (c x : List Char × Q) :
    (chooseStep (c, m) x).1 = Preference.pick (·.2) (Eligible allowed) (chooseFirstIn allowed ·.1) c x ∧
      Extends allowed (seen ++ [x]) (chooseStep (c, m) x).2 := by
  have hseen : Extends allowed (seen ++ [x]) m := ⟨hm.nodup, hm.subset, fun e he => by
    rcases hm.extra e he with he | ⟨hn, hfind, hv, p, hp, hpk⟩
    · exact .inl he
    · exact .inr ⟨hn, hfind, hv, p, List.mem_append_left _ hp, hpk⟩⟩
  unfold chooseStep Preference.pick
  dsimp only
  by_cases hx : Eligible allowed x
  · rw [if_pos ((hm.eligible_iff x).mpr hx)]
    by_cases hlt : c.2 < x.2
    · simp [hlt, hx, hseen]
    · by_cases heq : x.2 = c.2
      · rw [if_neg hlt, if_pos heq, hm.get_chooseFirst hnd]
        refine ⟨?_, hm.get hx⟩
        by_cases hcf : chooseFirstIn allowed x.1 = true <;> simp [hcf, hx, heq]
      · simp [hlt, heq, hseen]
  · rw [if_neg (fun h => hx ((hm.eligible_iff x).mp h))]
    simp [hx, hseen]

/-- pair の畳み込みの選択は `Preference.pick` の畳み込みで、終わりの `allowed_compressors` は `Extends`。 -/
theorem foldl_chooseStep (hnd : (allowed.map Prod.fst).Nodup) (pairs : List (List Char × Q)) :
    ∀ (c : List Char × Q) (m : AllowedCompressors) (seen : List (List Char × Q)), Extends allowed seen m →
      (pairs.foldl chooseStep (c, m)).1 = pairs.foldl (Preference.pick (·.2) (Eligible allowed) (chooseFirstIn allowed ·.1)) c ∧
        Extends allowed (seen ++ pairs) (pairs.foldl chooseStep (c, m)).2 := by
  induction pairs with
  | nil => exact fun c m seen hm => ⟨rfl, by simpa using hm⟩
  | cons x rest ih =>
    intro c m seen hm
    obtain ⟨hfst, hext⟩ := chooseStep_spec hnd hm c x
    obtain ⟨ih1, ih2⟩ := ih (chooseStep (c, m) x).1 (chooseStep (c, m) x).2 _ hext
    rw [Prod.mk.eta] at ih1 ih2
    rw [List.foldl_cons, List.foldl_cons, ← hfst]
    exact ⟨ih1, by simpa using ih2⟩

end Choose

/-! ## 選ばれる encoding -/

section Decision

variable {Q : Type _} [LinearOrder Q] [Zero Q]
variable (flt : CompressorFilter) (contentTypeValue : List Char) (filterConfigs : List CompressorFilterConfig)
  (pairs : List (List Char × Q))

/-- chain の compressor の encoding `e` が、Content-Type に許され、q-value 0 の token に名のられない。 -/
def Survives (e : List Char) : Prop :=
  e ∈ registeredEncodings flt contentTypeValue filterConfigs ∧ (e, (0 : Q)) ∉ pairs

instance : DecidablePred (Survives flt contentTypeValue filterConfigs pairs) := fun _ =>
  inferInstanceAs (Decidable (_ ∧ _))

/-- 選べる token: 残った compressor か、`identity` か `*` を名のる。 -/
def Candidate (p : List Char × Q) : Prop :=
  Survives flt contentTypeValue filterConfigs pairs p.1 ∨ p.1 = identity ∨ p.1 = wildcard

instance : DecidablePred (Candidate flt contentTypeValue filterConfigs pairs) := fun _ =>
  inferInstanceAs (Decidable (_ ∨ _))

/-- 同じ q-value の後の token が前の token に代わるかを決める、残った compressor の `choose_first`。 -/
def tieBreak (e : List Char) : Bool :=
  decide (Survives flt contentTypeValue filterConfigs pairs e) && firstChooseFirst flt contentTypeValue filterConfigs e

/-- `e` を名のる token が、選べる token の中で最大の正の q-value を持つ。その前に同じ q-value の選べる token が
あれば `e` の `choose_first` が立ち、後の同じ q-value の選べる token の `choose_first` は立たない。 -/
def Preferred (e : List Char) : Prop :=
  ∃ pre post q, pairs = pre ++ (e, q) :: post ∧ 0 < q ∧ Candidate flt contentTypeValue filterConfigs pairs (e, q) ∧
    (∀ p ∈ pairs, Candidate flt contentTypeValue filterConfigs pairs p → p.2 ≤ q) ∧
    (∀ p ∈ pre, Candidate flt contentTypeValue filterConfigs pairs p → p.2 = q →
      tieBreak flt contentTypeValue filterConfigs pairs e = true) ∧
    (∀ p ∈ post, Candidate flt contentTypeValue filterConfigs pairs p → p.2 = q →
      tieBreak flt contentTypeValue filterConfigs pairs p.1 = false)

/-- 決定 `d` が Accept-Encoding の優先に従う。`*` を選んだ時の encoding は登録の最も早い残った compressor のもの
か、そうでなければ、残った compressor でなく token の名のった `identity` か `*`。 -/
def FollowsPreferences (d : EncodingDecision) : Prop :=
  match d.stat with
  | .notValid => d.encoding = identity
  | .identity => d.encoding = identity ∧ Preferred flt contentTypeValue filterConfigs pairs identity
  | .validCompressor =>
    Survives flt contentTypeValue filterConfigs pairs d.encoding ∧
      Preferred flt contentTypeValue filterConfigs pairs d.encoding
  | .wildcard =>
    Preferred flt contentTypeValue filterConfigs pairs wildcard ∧
      ((registeredEncodings flt contentTypeValue filterConfigs).find? (fun k => decide ((k, (0 : Q)) ∉ pairs)) =
          some d.encoding ∨
        ((d.encoding = identity ∨ d.encoding = wildcard) ∧
          ¬ Survives flt contentTypeValue filterConfigs pairs d.encoding ∧ ∃ p ∈ pairs, p.1 = d.encoding))

variable {flt contentTypeValue filterConfigs pairs}

theorem idxOf_getElem_le {α : Type _} [BEq α] [LawfulBEq α] (l : List α) (j : Nat) (h : j < l.length) :
    l.idxOf l[j] ≤ j := by
  by_contra hlt
  have hne := @List.not_of_lt_findIdx _ (· == l[j]) l j (not_le.mp hlt)
  simp at hne

/-- token の後の `allowed_compressors`: 登録した要素のうち、q-value 0 の token に名のられないもの。 -/
theorem find_filter_zero (m : AllowedCompressors) (k : List Char) :
    AllowedCompressors.find (m.filter fun e => (e.1, (0 : Q)) ∉ pairs) k = if (k, (0 : Q)) ∈ pairs then none else m.find k := by
  unfold AllowedCompressors.find
  rw [lookup_filter_key (fun k => decide ((k, (0 : Q)) ∉ pairs))]
  by_cases hk : (k, (0 : Q)) ∈ pairs <;> simp [hk]

/-- 選べる pair は、選べる token。 -/
theorem eligible_iff_candidate (hreg : RegInv flt contentTypeValue filterConfigs
      (filterConfigs.foldl (registerCompressor flt contentTypeValue) ([], 0))) (p : List Char × Q) :
    Eligible ((registeredCompressors flt contentTypeValue filterConfigs).filter fun e => (e.1, (0 : Q)) ∉ pairs) p ↔
      Candidate flt contentTypeValue filterConfigs pairs p := by
  unfold Eligible Candidate Survives
  rw [find_filter_zero]
  by_cases hz : (p.1, (0 : Q)) ∈ pairs
  · simp [hz]
  · rw [if_neg hz, registeredCompressors, hreg.isSome_iff]
    simp [hz]

/-- `operator[]` の読む `choose_first_` は、残った compressor の `choose_first`。 -/
theorem chooseFirstIn_eq_tieBreak (hreg : RegInv flt contentTypeValue filterConfigs
      (filterConfigs.foldl (registerCompressor flt contentTypeValue) ([], 0))) (k : List Char) :
    chooseFirstIn ((registeredCompressors flt contentTypeValue filterConfigs).filter fun e => (e.1, (0 : Q)) ∉ pairs) k =
      tieBreak flt contentTypeValue filterConfigs pairs k := by
  unfold chooseFirstIn tieBreak Survives
  rw [find_filter_zero]
  by_cases hz : (k, (0 : Q)) ∈ pairs
  · simp [hz]
  · rw [if_neg hz]
    cases hf : (registeredCompressors flt contentTypeValue filterConfigs).find k with
    | none =>
      have hk : k ∉ registeredEncodings flt contentTypeValue filterConfigs := fun hk => by
        have h : ((registeredCompressors flt contentTypeValue filterConfigs).find k).isSome :=
          (hreg.isSome_iff k).mpr hk
        simp [hf] at h
      simp [hk]
    | some v =>
      have hmem := (AllowedCompressors.find_eq_some_iff hreg.nodup).mp hf
      have hk : k ∈ registeredEncodings flt contentTypeValue filterConfigs :=
        (hreg.isSome_iff k).mp (by simp [registeredCompressors] at hf; simp [hf])
      have hc : v.chooseFirst = firstChooseFirst flt contentTypeValue filterConfigs k := hreg.chooseFirst_eq _ hmem
      simp [hk, hz, hc]

/-- 選んだ pair は、Winner であり q-value が 0 でなければ、その encoding が `Preferred`。 -/
theorem preferred_of_winner {r : List Char × Q}
    (hw : Preference.Winner (·.2) (Candidate flt contentTypeValue filterConfigs pairs)
      (tieBreak flt contentTypeValue filterConfigs pairs ·.1) (identity, 0) pairs r) (h0 : r.2 ≠ 0) :
    Preferred flt contentTypeValue filterConfigs pairs r.1 := by
  rcases hw.chosen with rfl | ⟨pre, post, hl, he, -, hpre, hpost⟩
  · exact absurd rfl h0
  · exact ⟨pre, post, r.2, hl, lt_of_le_of_ne hw.init_le (Ne.symm h0), he, hw.max, hpre, hpost⟩

theorem survives_of_preferred {e : List Char} (hp : Preferred flt contentTypeValue filterConfigs pairs e)
    (hi : e ≠ identity) (hw : e ≠ wildcard) : Survives flt contentTypeValue filterConfigs pairs e := by
  obtain ⟨pre, post, q, -, -, hc, -⟩ := hp
  rcases hc with hs | he | he
  · exact hs
  · exact absurd he hi
  · exact absurd he hw

section Wildcard

variable (hreg : RegInv flt contentTypeValue filterConfigs
  (filterConfigs.foldl (registerCompressor flt contentTypeValue) ([], 0)))
include hreg

/-- 残った compressor のうち登録の数が最小のものは、登録の最も早い残った encoding。 -/
theorem find?_survivor {e : List Char × CompressorInChain}
    (hA : e ∈ (registeredCompressors flt contentTypeValue filterConfigs).filter fun e => (e.1, (0 : Q)) ∉ pairs)
    (hmin : ∀ b ∈ (registeredCompressors flt contentTypeValue filterConfigs).filter (fun e => (e.1, (0 : Q)) ∉ pairs),
      e.2.registrationCount ≤ b.2.registrationCount) :
    (registeredEncodings flt contentTypeValue filterConfigs).find? (fun k => decide ((k, (0 : Q)) ∉ pairs)) = some e.1 := by
  obtain ⟨heA, hez⟩ := List.mem_filter.mp hA
  -- 登録した要素の鍵は登録の列にある
  have hkey : ∀ b ∈ registeredCompressors flt contentTypeValue filterConfigs,
      b.1 ∈ registeredEncodings flt contentTypeValue filterConfigs := fun b hb =>
    (hreg.isSome_iff b.1).mp (AllowedCompressors.find_isSome_iff.mpr ⟨b, hb, rfl⟩)
  have hi := List.idxOf_lt_length_of_mem (hkey e heA)
  refine List.find?_eq_some_iff_getElem.mpr ⟨hez, _, hi, List.getElem_idxOf hi, fun j hj => ?_⟩
  -- 先の位置の encoding が残るなら、その要素の数が `e` の数より小さい
  by_contra hsurv
  simp only [Bool.not_eq_true', Bool.not_eq_false, decide_eq_true_eq] at hsurv
  have hfound : ((registeredCompressors flt contentTypeValue filterConfigs).find
      (registeredEncodings flt contentTypeValue filterConfigs)[j]).isSome :=
    (hreg.isSome_iff _).mpr (List.getElem_mem _)
  obtain ⟨b, hb, hbk⟩ := AllowedCompressors.find_isSome_iff.mp hfound
  have hlt : (registeredEncodings flt contentTypeValue filterConfigs).idxOf b.1 <
      (registeredEncodings flt contentTypeValue filterConfigs).idxOf e.1 :=
    hbk ▸ lt_of_le_of_lt (idxOf_getElem_le _ j (hj.trans hi)) hj
  have hcount := hreg.count_lt_of_idxOf_lt b hb e heA hlt
  have hle := hmin b (List.mem_filter.mpr ⟨hb, by simpa [hbk] using hsurv⟩)
  omega

/-- `*` を選んだ時の `std::min_element` の要素は、登録の最も早い残った encoding か、`operator[]` の入れた
`identity` か `*` の要素。 -/
theorem argmin_spec {m : AllowedCompressors} {e : List Char × CompressorInChain}
    (hm : Extends ((registeredCompressors flt contentTypeValue filterConfigs).filter
      fun e => (e.1, (0 : Q)) ∉ pairs) pairs m)
    (he : m.argmin (·.2.registrationCount) = some e) :
    (registeredEncodings flt contentTypeValue filterConfigs).find? (fun k => decide ((k, (0 : Q)) ∉ pairs)) = some e.1 ∨
      ((e.1 = identity ∨ e.1 = wildcard) ∧ ¬ Survives flt contentTypeValue filterConfigs pairs e.1 ∧
        ∃ p ∈ pairs, p.1 = e.1) := by
  have hmin : ∀ b ∈ m, e.2.registrationCount ≤ b.2.registrationCount := fun b hb =>
    @List.le_of_mem_argmin _ _ _ (fun x : List Char × CompressorInChain => x.2.registrationCount) m b e hb he
  rcases hm.extra e (List.argmin_mem he) with hA | ⟨hname, hfind, -, hp⟩
  · exact .inl (find?_survivor hreg hA fun b hb => hmin b (hm.subset b hb))
  · refine .inr ⟨hname, fun ⟨hk, hz⟩ => ?_, hp⟩
    -- 残った encoding なら、`allowed_compressors` にある
    have hs : ((registeredCompressors flt contentTypeValue filterConfigs).find e.1).isSome := (hreg.isSome_iff _).mpr hk
    rw [find_filter_zero, if_neg hz] at hfind
    simp [hfind] at hs

end Wildcard

/-- `chooseEncoding()` の選択は、`Preference.pick` で選べる token を `Candidate`、同じ q-value の比べ方を
`tieBreak` とした畳み込みの `Winner`。 -/
theorem winner_chooseStep (hreg : RegInv flt contentTypeValue filterConfigs
      (filterConfigs.foldl (registerCompressor flt contentTypeValue) ([], 0))) :
    let allowed := (registeredCompressors flt contentTypeValue filterConfigs).filter
      fun e => (e.1, (0 : Q)) ∉ pairs
    Preference.Winner (·.2) (Candidate flt contentTypeValue filterConfigs pairs)
        (tieBreak flt contentTypeValue filterConfigs pairs ·.1) (identity, 0) pairs
        (pairs.foldl chooseStep ((identity, 0), allowed)).1 ∧
      Extends allowed pairs (pairs.foldl chooseStep ((identity, 0), allowed)).2 := by
  intro allowed
  have hnd : (allowed.map Prod.fst).Nodup :=
    hreg.nodup.sublist (List.filter_sublist.map Prod.fst)
  obtain ⟨hfst, hext⟩ := foldl_chooseStep hnd pairs (identity, 0) allowed [] (extends_self hnd)
  refine ⟨?_, by simpa using hext⟩
  rw [hfst, Preference.pick_congr (eligible_iff_candidate hreg) fun p => chooseFirstIn_eq_tieBreak hreg p.1]
  exact Preference.winner_foldl _ _

end Decision

/-- `chooseEncoding()` は Accept-Encoding の優先に従う。ただし `*` を選んだ時は、`operator[]` が
`allowed_compressors` に入れた `identity` か `*` の要素を `std::min_element` が返しうる。 -/
theorem chooseEncoding_follows_preferences {Q : Type _} [LinearOrder Q] [Zero Q] [One Q]
    (simpleAtof : List Char → Option Q) (flt : CompressorFilter) (filterConfigs : List CompressorFilterConfig)
    (acceptEncoding : List Char) (contentType : Option (List Char)) :
    FollowsPreferences flt (contentTypeValueOf contentType) filterConfigs (acceptedPairs simpleAtof acceptEncoding)
      (chooseEncoding simpleAtof flt filterConfigs acceptEncoding contentType) := by
  have hreg : RegInv flt (contentTypeValueOf contentType) filterConfigs _ := regInv_foldl filterConfigs
  obtain ⟨hwin, hext⟩ :=
    @winner_chooseStep Q _ _ flt _ filterConfigs (acceptedPairs simpleAtof acceptEncoding) hreg
  unfold chooseEncoding
  dsimp only
  rw [foldl_acceptStep, List.nil_append]
  dsimp only
  rw [← acceptedPairs]
  generalize (acceptedPairs simpleAtof acceptEncoding).foldl chooseStep _ = chosen at hwin hext
  split_ifs with hempty h0 hid hwc
  · rfl
  · rfl
  · -- `identity` を選んだ
    exact ⟨rfl, hid ▸ preferred_of_winner hwin h0⟩
  · -- `*` を選んだ
    split
    case h_1 e he => exact ⟨hwc ▸ preferred_of_winner hwin h0, argmin_spec hreg hext he⟩
    case h_2 => rfl
  · -- 残った compressor を選んだ
    have hp := preferred_of_winner hwin h0
    exact ⟨survives_of_preferred hp hid hwc, hp⟩

/-- `absl::SimpleAtof` のうち、符号と指数の無い十進の数 `digits[.digits]` を読むもの。 -/
def decimalAtof (s : List Char) : Option ℚ :=
  match s.dropWhile Char.isDigit with
  | [] => if s.takeWhile Char.isDigit = [] then none else some (Decimal.value (s.takeWhile Char.isDigit))
  | '.' :: frac =>
    if frac.all Char.isDigit ∧ (s.takeWhile Char.isDigit ≠ [] ∨ frac ≠ []) then
      some (Decimal.value (s.takeWhile Char.isDigit) + (Decimal.value frac : ℚ) / 10 ^ frac.length)
    else none
  | _ => none

/-- chain の gzip と br の compressor filter の config。 -/
def gzipConfig : CompressorFilterConfig := ⟨0, "gzip".toList, [], false⟩

def brConfig : CompressorFilterConfig := ⟨1, "br".toList, [], false⟩

def gzipFilter : CompressorFilter := ⟨gzipConfig, none⟩

/-- `*, *` では二つ目の `*` の `operator[]` が `*` の要素を入れ、`std::min_element` がそれを返す。
`gzip;q=0, identity;q=0, *` では `identity` の要素を返し、残った br を選ばない。 -/
theorem chooseEncoding_wildcard_inserted_key :
    chooseEncoding decimalAtof gzipFilter [gzipConfig] "*, *".toList none = ⟨wildcard, .wildcard⟩ ∧
      chooseEncoding decimalAtof gzipFilter [gzipConfig, brConfig] "gzip;q=0, identity;q=0, *".toList none =
        ⟨identity, .wildcard⟩ := by
  decide +kernel

end Envoy.Http.Compressor
