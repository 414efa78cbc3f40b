import Envoy.Stats.Lemmas.SymbolTable

/-!
# `StatName` の往復

届く状態の表で `encode()` した名前、`makeDynamicStorage()` の名前、それらを `join()` した名前は、
どれも字句の列の符号である。`toString()` は末尾の `.` を落とした元の名前を返し、
`join()` の `toString()` は、空でない各名前の `toString()` を `.` でつないだものになる。
-/

namespace Envoy.Stats

open SymbolTable SymbolTable.Encoding

/-- 届く表での `encode()`、`makeDynamicStorage()`、`join()` で作った名前。 -/
inductive Produced : StatName → Prop
  | encode {t : SymbolTable} (ht : t.Reachable) (name : Bytes) : Produced (t.encode name).1
  | makeDynamicStorage (name : Bytes) : Produced (SymbolTable.makeDynamicStorage name)
  | join {v : List StatName} (hv : ∀ x ∈ v, Produced x) : Produced (SymbolTable.join v)

/-- 使える字句の列の符号である名前。 -/
def WellFormed (x : StatName) : Prop := ∃ ts : List Token, (∀ tk ∈ ts, tk.Valid) ∧ x = ofTokens ts

theorem wellFormed_encode {t : SymbolTable} (ht : t.Wf) (name : Bytes) : WellFormed (t.encode name).1 := by
  obtain ⟨hwf, hmapM, -, -⟩ := ht.addTokensToEncoding (removeTrailingCharacters name dot)
  refine ⟨_, ?_, encode_fst t name⟩
  simp only [List.mem_map]
  rintro _ ⟨symbol, hs, rfl⟩
  exact hwf.pos_of_mapM hmapM symbol hs

theorem wellFormed_makeDynamicStorage (name : Bytes) : WellFormed (SymbolTable.makeDynamicStorage name) :=
  ⟨_, by simp [Token.Valid], makeDynamicStorage_eq name⟩

theorem wellFormed_join {v : List StatName} (hv : ∀ x ∈ v, WellFormed x) :
    ∃ tss : List (List Token), (∀ ts ∈ tss, ∀ tk ∈ ts, tk.Valid) ∧ v = tss.map ofTokens := by
  induction v with
  | nil => exact ⟨[], by simp, rfl⟩
  | cons x v ih =>
    obtain ⟨ts, hts, rfl⟩ := hv x (by simp)
    obtain ⟨tss, htss, rfl⟩ := ih fun y hy => hv y (by simp [hy])
    refine ⟨ts :: tss, ?_, rfl⟩
    simp only [List.mem_cons, forall_eq_or_imp]
    exact ⟨hts, htss⟩

theorem valid_flatten {tss : List (List Token)} (hv : ∀ ts ∈ tss, ∀ tk ∈ ts, tk.Valid) :
    ∀ tk ∈ tss.flatten, tk.Valid := by
  simp only [List.mem_flatten]
  rintro tk ⟨ts, hts, htk⟩
  exact hv ts hts tk htk

theorem WellFormed.join {v : List StatName} (hv : ∀ x ∈ v, WellFormed x) : WellFormed (SymbolTable.join v) := by
  obtain ⟨tss, htss, rfl⟩ := wellFormed_join hv
  exact ⟨tss.flatten, valid_flatten htss, join_ofTokens tss⟩

/-- `join()` の字句の列は、各名前の字句の列をつないだもの。 -/
theorem decodeTokens_join {v : List StatName} (hv : ∀ x ∈ v, WellFormed x) :
    decodeTokens (SymbolTable.join v) = v.flatMap decodeTokens := by
  obtain ⟨tss, htss, rfl⟩ := wellFormed_join hv
  rw [join_ofTokens, decodeTokens_ofTokens (valid_flatten htss), List.flatMap_map, List.flatten_eq_flatMap]
  exact List.flatMap_congr fun ts hts => (decodeTokens_ofTokens (htss ts hts)).symm

theorem Produced.wellFormed {x : StatName} (h : Produced x) : WellFormed x := by
  induction h with
  | encode ht name => exact wellFormed_encode ht.wf name
  | makeDynamicStorage name => exact wellFormed_makeDynamicStorage name
  | join _ ih => exact WellFormed.join ih

/-! ## `.` でつなぐ -/

theorem intercalate_append_of_ne_nil {α : Type*} (sep : List α) {xs ys : List (List α)} (hx : xs ≠ [])
    (hy : ys ≠ []) : sep.intercalate (xs ++ ys) = sep.intercalate xs ++ sep ++ sep.intercalate ys := by
  induction xs with
  | nil => exact absurd rfl hx
  | cons x xs ih =>
    cases xs with
    | nil => simp [List.intercalate_cons_of_ne_nil hy]
    | cons x' xs =>
      rw [List.cons_append, List.intercalate_cons_of_ne_nil (by simp), ih (by simp),
        List.intercalate_cons_of_ne_nil (show x' :: xs ≠ [] by simp)]
      simp

/-- 空でない字句の列をつないで `.` で結ぶことは、各列を `.` で結んでからさらに結ぶことに等しい。 -/
theorem mapM_flatten_strJoin {α : Type*} (f : α → Option Bytes) {L : List (List α)} (hL : ∀ l ∈ L, l ≠ []) :
    (L.flatten.mapM f).map (strJoin · dot) =
      (L.mapM fun l : List α => (l.mapM f).map (strJoin · dot)).map (strJoin · dot) := by
  induction L with
  | nil => rfl
  | cons l L ih =>
    have hrec := ih fun l' hl' => hL l' (by simp [hl'])
    have hl : l ≠ [] := hL l (by simp)
    rw [List.flatten_cons, List.mapM_append, List.mapM_cons]
    cases hxs : l.mapM f with
    | none => rfl
    | some xs =>
      cases hys : L.flatten.mapM f with
      | none =>
        rw [hys, Option.map_none] at hrec
        cases hzs : L.mapM fun l : List α => (l.mapM f).map (strJoin · dot) with
        | none => rfl
        | some zs => rw [hzs] at hrec; cases hrec
      | some ys =>
        rw [hys] at hrec
        cases hzs : L.mapM fun l : List α => (l.mapM f).map (strJoin · dot) with
        | none => rw [hzs] at hrec; cases hrec
        | some zs =>
          rw [hzs, Option.map_some, Option.map_some, Option.some.injEq] at hrec
          have hxs' : xs ≠ [] := by
            intro he
            have := length_of_mapM_eq_some hxs
            rw [he] at this
            exact hl (List.length_eq_zero_iff.mp this.symm)
          simp only [Option.bind_eq_bind, Option.bind_some, Option.pure_def, Option.map_some,
            Option.some.injEq]
          -- 後ろが空か否かで分ける: `L` の列はどれも空でないので、`ys` と `zs` は共に空か共に空でない
          cases L with
          | nil =>
            simp only [List.flatten_nil, List.mapM_nil, Option.pure_def, Option.some.injEq] at hys hzs
            subst hys hzs
            simp [strJoin]
          | cons l' L =>
            have hl' : l' ≠ [] := hL l' (by simp)
            have hys' : ys ≠ [] := by
              intro he
              have := length_of_mapM_eq_some hys
              rw [he, List.length_nil, List.flatten_cons, List.length_append] at this
              exact hl' (List.length_eq_zero_iff.mp (by omega))
            have hzs' : zs ≠ [] := by
              intro he
              have := length_of_mapM_eq_some hzs
              rw [he] at this
              simp at this
            rw [strJoin, intercalate_append_of_ne_nil _ hxs' hys', strJoin, List.intercalate_cons_of_ne_nil hzs']
            simp only [strJoin] at hrec
            rw [hrec]
            rfl

/-! ## `toString()` -/

theorem toString_ofTokens (t : SymbolTable) {ts : List Token} (hv : ∀ tk ∈ ts, tk.Valid) :
    t.toString (ofTokens ts) = (ts.mapM t.tokenString).map (strJoin · dot) := by
  rw [SymbolTable.toString, SymbolTable.decodeStrings, decodeTokens_ofTokens hv]

/-- `join()` の `toString()` は、空でない名前の `toString()` を `.` でつないだもの。 -/
theorem toString_join (t : SymbolTable) {tss : List (List Token)} (hv : ∀ ts ∈ tss, ∀ tk ∈ ts, tk.Valid) :
    t.toString (SymbolTable.join (tss.map ofTokens)) =
      (((tss.map ofTokens).filter fun x => !x.empty).mapM t.toString).map (strJoin · dot) := by
  have hfilter : (tss.map ofTokens).filter (fun x => !x.empty) =
      (tss.filter fun ts => !ts.isEmpty).map ofTokens := by
    rw [List.filter_map]
    congr 1
    apply List.filter_congr
    intro ts _
    simp
  have hne : ∀ ts ∈ tss.filter (fun ts => !ts.isEmpty), ts ≠ [] := by
    intro ts hts
    simpa using (List.mem_filter.mp hts).2
  have hmapM : ((tss.filter fun ts => !ts.isEmpty).map ofTokens).mapM t.toString =
      (tss.filter fun ts => !ts.isEmpty).mapM fun ts => (ts.mapM t.tokenString).map (strJoin · dot) := by
    rw [List.mapM_map]
    exact mapM_congr_of_mem fun ts hts => toString_ofTokens t (hv ts (List.mem_of_mem_filter hts))
  rw [join_ofTokens, toString_ofTokens t (valid_flatten hv), hfilter, hmapM, ← mapM_flatten_strJoin _ hne,
    List.flatten_filter_not_isEmpty]

/-- `StatName` の往復: 届く表での `encode()` と `makeDynamicStorage()` の `toString()` は末尾の `.` を
落とした名前で（`a..b` や先頭の `.` の空の字句も残る）、そうして作った名前の列 `v` の `join()` は、
`toString()` が空でない名前の `toString()` を `.` でつないだもの、字句の列が各名前の字句の列をつないだもの。 -/
theorem statName_round_trip :
    (∀ t : SymbolTable, t.Reachable → ∀ name : Bytes,
      (t.encode name).2.toString (t.encode name).1 = some (removeTrailingCharacters name dot)) ∧
    (∀ (t : SymbolTable) (name : Bytes),
      t.toString (SymbolTable.makeDynamicStorage name) = some (removeTrailingCharacters name dot)) ∧
    ∀ (t : SymbolTable) (v : List StatName), (∀ x ∈ v, Produced x) →
      t.toString (SymbolTable.join v) = ((v.filter fun x => !x.empty).mapM t.toString).map (strJoin · dot) ∧
        decodeTokens (SymbolTable.join v) = v.flatMap decodeTokens := by
  refine ⟨fun t ht name => ht.wf.toString_encode name, fun t name => ?_, fun t v hv => ?_⟩
  · rw [makeDynamicStorage_eq, toString_ofTokens t (by simp [Token.Valid])]
    simp [tokenString, strJoin]
  · have hwf : ∀ x ∈ v, WellFormed x := fun x hx => (hv x hx).wellFormed
    refine ⟨?_, decodeTokens_join hwf⟩
    obtain ⟨tss, htss, rfl⟩ := wellFormed_join hwf
    exact toString_join t htss

theorem statName_round_trip_a_dot_dot_b :
    SymbolTable.create.Reachable ∧
      (SymbolTable.create.encode [97, 46, 46, 98]).2.toString (SymbolTable.create.encode [97, 46, 46, 98]).1 =
        some (removeTrailingCharacters [97, 46, 46, 98] dot) ∧
      (∀ x ∈ [(SymbolTable.create.encode [97]).1, SymbolTable.makeDynamicStorage [98, 46]], Produced x) ∧
      SymbolTable.create.toString
          (SymbolTable.join [(SymbolTable.create.encode [97]).1, SymbolTable.makeDynamicStorage [98, 46]]) =
        (([(SymbolTable.create.encode [97]).1, SymbolTable.makeDynamicStorage [98, 46]].filter
          fun x => !x.empty).mapM SymbolTable.create.toString).map (strJoin · dot) :=
  have ht : SymbolTable.create.Reachable := ⟨[], rfl⟩
  have hv : ∀ x ∈ [(SymbolTable.create.encode [97]).1, SymbolTable.makeDynamicStorage [98, 46]], Produced x := by
    simp only [List.mem_cons, List.not_mem_nil, or_false, forall_eq_or_imp, forall_eq]
    exact ⟨.encode ht _, .makeDynamicStorage _⟩
  ⟨ht, statName_round_trip.1 _ ht _, hv, (statName_round_trip.2.2 _ _ hv).1⟩

end Envoy.Stats
