import Envoy.Stats.SymbolTable
import Envoy.Stats.Lemmas.Encoding
import Envoy.Lib.FreeList
import Envoy.Lib.Inverse
import Envoy.Lib.Simulation

/-!
# 表の不変条件

`encode_map_` と `decode_map_` は互いに逆で、生きている symbol と `pool_` と `next_symbol_` が
`1..monotonic_counter_` を分け合い、参照の数は正である。表を変えるどの呼び出しもこれを保ち、
`toSymbol()` の返す symbol はその文字列に戻る。
-/

namespace Envoy.Stats

namespace SymbolTable

open Encoding

/-- symbol の割り当ての状態。 -/
def alloc (t : SymbolTable) : FreeList := ⟨t.pool, t.nextSymbol, t.monotonicCounter⟩

/-- symbol の参照の数。生きていない symbol は 0。 -/
def refCountOf (t : SymbolTable) (symbol : Symbol) : Nat :=
  (((t.decodeMap.lookup symbol).bind t.encodeMap.lookup).map SharedSymbol.refCount).getD 0

structure Wf (t : SymbolTable) : Prop where
  inverse : AList.Inverse SharedSymbol.symbol t.encodeMap t.decodeMap
  partition : FreeList.Partition t.decodeMap.keys t.alloc
  refCount_pos : ∀ s ss, t.encodeMap.lookup s = some ss → 0 < ss.refCount

theorem wf_create : create.Wf where
  inverse := AList.inverse_empty _
  partition := FreeList.partition_init
  refCount_pos := by simp [create]

variable {t : SymbolTable}

@[simp] theorem newSymbol_encodeMap : t.newSymbol.encodeMap = t.encodeMap := by
  unfold newSymbol; split <;> rfl

@[simp] theorem newSymbol_decodeMap : t.newSymbol.decodeMap = t.decodeMap := by
  unfold newSymbol; split <;> rfl

theorem alloc_newSymbol : t.newSymbol.alloc = t.alloc.take := by
  unfold newSymbol FreeList.take alloc
  split <;> rename_i h <;> simp [h]

/-- 生きている symbol は 1 以上。 -/
theorem Wf.pos_of_lookup (h : t.Wf) {symbol : Symbol} {s : Bytes} (hs : t.decodeMap.lookup symbol = some s) :
    0 < symbol :=
  ((h.partition.cover symbol).mp (.inl (AList.mem_keys.mp (AList.lookup_isSome.mp (by simp [hs]))))).1

theorem Wf.nextSymbol_not_mem (h : t.Wf) : t.nextSymbol ∉ t.decodeMap :=
  fun hm => h.partition.next_not_live (AList.mem_keys.mp hm)

theorem Wf.refCountOf_of_lookup (h : t.Wf) {s : Bytes} {ss : SharedSymbol} (hs : t.encodeMap.lookup s = some ss) :
    t.refCountOf ss.symbol = ss.refCount := by
  simp [refCountOf, h.inverse.lookup_of_lookup hs, hs]

theorem refCountOf_eq_zero {symbol : Symbol} (hs : symbol ∉ t.decodeMap) : t.refCountOf symbol = 0 := by
  simp [refCountOf, AList.lookup_eq_none.mpr hs]

/-- `numSymbols()` と `pool_` の大きさと `next_symbol_` で、`1..monotonic_counter_` を数え尽くす。 -/
theorem Wf.numSymbols_add (h : t.Wf) : t.numSymbols + t.pool.length + 1 = t.monotonicCounter := by
  rw [numSymbols, h.inverse.length_keys]
  exact h.partition.length_eq

/-! ## 参照の数を書き換える -/

/-- `decode_map_` は単射: 違う symbol は違う文字列を指す。 -/
theorem Wf.lookup_ne (h : t.Wf) {symbol symbol' : Symbol} {s s' : Bytes}
    (hd : t.decodeMap.lookup symbol = some s) (hd' : t.decodeMap.lookup symbol' = some s')
    (hne : symbol ≠ symbol') : s ≠ s' := by
  rintro rfl
  obtain ⟨b, hb, hbs⟩ := h.inverse.lookup_of_lookup_right hd
  obtain ⟨b', hb', hbs'⟩ := h.inverse.lookup_of_lookup_right hd'
  rw [hb, Option.some.injEq] at hb'
  exact hne (hbs ▸ hbs' ▸ hb' ▸ rfl)

theorem Wf.mem_iff_refCountOf_pos (h : t.Wf) (symbol : Symbol) :
    symbol ∈ t.decodeMap ↔ 0 < t.refCountOf symbol := by
  constructor
  · intro hm
    obtain ⟨s, hs⟩ := Option.isSome_iff_exists.mp (AList.lookup_isSome.mpr hm)
    obtain ⟨ss, hss, rfl⟩ := h.inverse.lookup_of_lookup_right hs
    rw [h.refCountOf_of_lookup hss]
    exact h.refCount_pos _ _ hss
  · intro hpos
    by_contra hm
    rw [refCountOf_eq_zero hm] at hpos
    exact Nat.lt_irrefl 0 hpos

/-- 生きている symbol の文字列の参照の数を `ss'` に取り替えた表。 -/
theorem Wf.refCountOf_insert (h : t.Wf) {symbol : Symbol} {str : Bytes}
    (hd : t.decodeMap.lookup symbol = some str) (ss' : SharedSymbol) (sym : Symbol) :
    ({ t with encodeMap := t.encodeMap.insert str ss' } : SymbolTable).refCountOf sym =
      if sym = symbol then ss'.refCount else t.refCountOf sym := by
  by_cases hsym : sym = symbol
  · subst hsym
    simp [refCountOf, hd, AList.lookup_insert]
  · rw [if_neg hsym]
    simp only [refCountOf]
    cases hd' : t.decodeMap.lookup sym with
    | none => rfl
    | some s => simp [AList.lookup_insert_ne (h.lookup_ne hd' hd hsym)]

theorem Wf.symbol_of_lookup (h : t.Wf) {symbol : Symbol} {str : Bytes} {ss : SharedSymbol}
    (hstr : t.decodeMap.lookup symbol = some str) (hss : t.encodeMap.lookup str = some ss) : ss.symbol = symbol := by
  obtain ⟨b, hb, hbs⟩ := h.inverse.lookup_of_lookup_right hstr
  rw [hss, Option.some.injEq] at hb
  exact hb ▸ hbs

theorem refCount_pos_insert {e : AList fun _ : Bytes => SharedSymbol} (he : ∀ s ss, e.lookup s = some ss → 0 < ss.refCount)
    {str : Bytes} {ss' : SharedSymbol} (hpos : 0 < ss'.refCount) :
    ∀ s ss, (e.insert str ss').lookup s = some ss → 0 < ss.refCount := by
  intro s ss hs
  by_cases hs' : s = str
  · subst hs'
    rw [AList.lookup_insert, Option.some.injEq] at hs
    exact hs ▸ hpos
  · rw [AList.lookup_insert_ne hs'] at hs
    exact he s ss hs

theorem Wf.insert_encodeMap (h : t.Wf) {str : Bytes} {ss ss' : SharedSymbol}
    (hss : t.encodeMap.lookup str = some ss) (hsym : ss'.symbol = ss.symbol) (hpos : 0 < ss'.refCount) :
    ({ t with encodeMap := t.encodeMap.insert str ss' } : SymbolTable).Wf where
  inverse := h.inverse.replace hss hsym
  partition := h.partition
  refCount_pos := refCount_pos_insert h.refCount_pos hpos

/-! ## `toSymbol()` -/

theorem toSymbol_of_lookup_none {sv : Bytes} (hl : t.encodeMap.lookup sv = none) :
    t.toSymbol sv = (t.nextSymbol, ({ t with
      encodeMap := t.encodeMap.insert sv ⟨t.nextSymbol, 1⟩
      decodeMap := t.decodeMap.insert t.nextSymbol sv } : SymbolTable).newSymbol) := by
  simp [toSymbol, hl]

theorem toSymbol_of_lookup_some {sv : Bytes} {ss : SharedSymbol} (hl : t.encodeMap.lookup sv = some ss) :
    t.toSymbol sv = (ss.symbol,
      { t with encodeMap := t.encodeMap.insert sv { ss with refCount := ss.refCount + 1 } }) := by
  simp [toSymbol, hl]

/-- `toSymbol()` は不変条件を保ち、返す symbol はその文字列を指し、前から生きている symbol は
同じ文字列を指し続け、参照の数は返す symbol だけ一つ増える。 -/
theorem Wf.toSymbol (h : t.Wf) (sv : Bytes) :
    (t.toSymbol sv).2.Wf ∧ (t.toSymbol sv).2.decodeMap.lookup (t.toSymbol sv).1 = some sv ∧
      (∀ symbol s, t.decodeMap.lookup symbol = some s → (t.toSymbol sv).2.decodeMap.lookup symbol = some s) ∧
      ∀ symbol, (t.toSymbol sv).2.refCountOf symbol =
        t.refCountOf symbol + if symbol = (t.toSymbol sv).1 then 1 else 0 := by
  cases hl : t.encodeMap.lookup sv with
  | none =>
    rw [toSymbol_of_lookup_none hl]
    have hsv : sv ∉ t.encodeMap := AList.lookup_eq_none.mp hl
    have hnext := h.nextSymbol_not_mem
    -- 新しい symbol は `next_symbol_` で、どの生きている symbol とも違う
    have hne : ∀ symbol s, t.decodeMap.lookup symbol = some s → symbol ≠ t.nextSymbol := by
      rintro symbol s hs rfl
      exact hnext (AList.lookup_isSome.mp (by simp [hs]))
    have hkeys : (t.decodeMap.insert t.nextSymbol sv).keys = t.nextSymbol :: t.decodeMap.keys := by
      rw [AList.keys_insert, List.erase_of_not_mem (fun hm => hnext (AList.mem_keys.mpr hm))]
    refine ⟨⟨?_, ?_, ?_⟩, by simp [AList.lookup_insert], ?_, ?_⟩
    · simp only [newSymbol_encodeMap, newSymbol_decodeMap]
      exact h.inverse.insert (b := ⟨t.nextSymbol, 1⟩) hsv hnext
    · simp only [newSymbol_decodeMap, alloc_newSymbol, hkeys]
      exact h.partition.take
    · simp only [newSymbol_encodeMap]
      exact refCount_pos_insert h.refCount_pos Nat.one_pos
    · intro symbol s hs
      simp only [newSymbol_decodeMap]
      rw [AList.lookup_insert_ne (hne symbol s hs), hs]
    · intro symbol
      by_cases hsym : symbol = t.nextSymbol
      · subst hsym
        simp [refCountOf, AList.lookup_insert, AList.lookup_eq_none.mpr hnext]
      · rw [if_neg hsym, Nat.add_zero]
        simp only [refCountOf, newSymbol_decodeMap, newSymbol_encodeMap, AList.lookup_insert_ne hsym]
        cases hd : t.decodeMap.lookup symbol with
        | none => rfl
        | some s =>
          -- 生きている symbol の文字列は `sv` でない（`sv` は `encode_map_` に無い）
          have hs : s ≠ sv := by
            rintro rfl
            obtain ⟨b, hb, -⟩ := h.inverse.lookup_of_lookup_right hd
            rw [hl] at hb
            cases hb
          simp [AList.lookup_insert_ne hs]
  | some ss =>
    rw [toSymbol_of_lookup_some hl]
    have hd := h.inverse.lookup_of_lookup hl
    refine ⟨h.insert_encodeMap hl rfl (Nat.succ_pos _), hd, fun _ _ hs => hs, fun symbol => ?_⟩
    rw [h.refCountOf_insert hd]
    by_cases hsym : symbol = ss.symbol
    · subst hsym
      rw [if_pos rfl, if_pos rfl, h.refCountOf_of_lookup hl]
    · rw [if_neg hsym, if_neg hsym, Nat.add_zero]

/-! ## `incRefCount()` -/

theorem Wf.incRefCountSymbol_isSome (h : t.Wf) {symbol : Symbol} (hs : symbol ∈ t.decodeMap) :
    (t.incRefCountSymbol symbol).isSome := by
  obtain ⟨str, hstr⟩ := Option.isSome_iff_exists.mp (AList.lookup_isSome.mpr hs)
  obtain ⟨ss, hss, -⟩ := h.inverse.lookup_of_lookup_right hstr
  simp [incRefCountSymbol, hstr, hss]

theorem Wf.incRefCountSymbol_spec (h : t.Wf) {symbol : Symbol} {t' : SymbolTable}
    (hr : t.incRefCountSymbol symbol = some t') :
    t'.Wf ∧ t'.decodeMap = t.decodeMap ∧
      ∀ sym, t'.refCountOf sym = t.refCountOf sym + if sym = symbol then 1 else 0 := by
  simp only [incRefCountSymbol, Option.bind_eq_bind, Option.bind_eq_some_iff, Option.pure_def,
    Option.some.injEq] at hr
  obtain ⟨str, hstr, ss, hss, rfl⟩ := hr
  have hsym := h.symbol_of_lookup hstr hss
  refine ⟨h.insert_encodeMap hss rfl (Nat.succ_pos _), rfl, fun sym => ?_⟩
  rw [h.refCountOf_insert hstr]
  by_cases hs : sym = symbol
  · subst hs
    rw [if_pos rfl, if_pos rfl, ← hsym, h.refCountOf_of_lookup hss]
  · rw [if_neg hs, if_neg hs, Nat.add_zero]

/-! ## `free()` -/

theorem Wf.freeSymbol_isSome (h : t.Wf) {symbol : Symbol} (hs : symbol ∈ t.decodeMap) :
    (t.freeSymbol symbol).isSome := by
  obtain ⟨str, hstr⟩ := Option.isSome_iff_exists.mp (AList.lookup_isSome.mpr hs)
  obtain ⟨ss, hss, -⟩ := h.inverse.lookup_of_lookup_right hstr
  simp only [freeSymbol, hstr, hss, Option.bind_eq_bind, Option.bind_some, Option.pure_def]
  split <;> rfl

/-- `free()` の一回: 参照の数が一つ減り、まだ参照される symbol は同じ文字列を指す。 -/
theorem Wf.freeSymbol_spec (h : t.Wf) {symbol : Symbol} {t' : SymbolTable}
    (hr : t.freeSymbol symbol = some t') :
    t'.Wf ∧ (∀ sym, t'.refCountOf sym = t.refCountOf sym - if sym = symbol then 1 else 0) ∧
      ∀ sym, sym ∈ t'.decodeMap → t'.decodeMap.lookup sym = t.decodeMap.lookup sym := by
  simp only [freeSymbol, Option.bind_eq_bind, Option.bind_eq_some_iff, Option.pure_def] at hr
  obtain ⟨str, hstr, ss, hss, hr⟩ := hr
  have hsym := h.symbol_of_lookup hstr hss
  have hcount : t.refCountOf symbol = ss.refCount := hsym ▸ h.refCountOf_of_lookup hss
  split at hr
  · -- 最後の参照: 二つの写像から消し、symbol を pool に戻す
    rename_i hlast
    cases hr
    have hmem : symbol ∈ t.decodeMap.keys := AList.mem_keys.mp (AList.lookup_isSome.mp (by simp [hstr]))
    refine ⟨⟨?_, ?_, ?_⟩, fun sym => ?_, fun sym hm => ?_⟩
    · simpa [hsym] using h.inverse.erase hss
    · have hp := h.partition.release hmem
      rw [← AList.keys_erase] at hp
      exact hp
    · intro s ss' hs
      by_cases hs' : s = str
      · subst hs'; simp [AList.lookup_erase] at hs
      · rw [AList.lookup_erase_ne hs'] at hs
        exact h.refCount_pos s ss' hs
    · by_cases hs : sym = symbol
      · subst hs
        rw [if_pos rfl, hcount, hlast]
        simp [refCountOf, AList.lookup_erase]
      · rw [if_neg hs, Nat.sub_zero]
        simp only [refCountOf, AList.lookup_erase_ne hs]
        cases hd : t.decodeMap.lookup sym with
        | none => rfl
        | some s => simp [AList.lookup_erase_ne (h.lookup_ne hd hstr hs)]
    · have hs : sym ≠ symbol := by
        rintro rfl
        simp [AList.mem_erase] at hm
      exact AList.lookup_erase_ne hs
  · -- 参照が残る: 数を一つ減らす
    rename_i hrest
    cases hr
    refine ⟨h.insert_encodeMap hss rfl (by show 0 < ss.refCount - 1; omega), fun sym => ?_, fun _ _ => rfl⟩
    rw [h.refCountOf_insert hstr]
    by_cases hs : sym = symbol
    · subst hs
      rw [if_pos rfl, if_pos rfl, hcount]
    · rw [if_neg hs, if_neg hs, Nat.sub_zero]

/-! ## `encode()` -/

theorem mapM_congr_of_mem {α β : Type*} {f g : α → Option β} {l : List α} (h : ∀ a ∈ l, f a = g a) :
    l.mapM f = l.mapM g := by
  induction l with
  | nil => rfl
  | cons a l ih => rw [List.mapM_cons, List.mapM_cons, h a (by simp), ih fun b hb => h b (by simp [hb])]

theorem length_of_mapM_eq_some {α β : Type*} {f : α → Option β} {l : List α} {r : List β}
    (h : l.mapM f = some r) : r.length = l.length := by
  induction l generalizing r with
  | nil => cases h; rfl
  | cons a l ih =>
    simp only [List.mapM_cons, Option.bind_eq_bind, Option.bind_eq_some_iff, Option.pure_def,
      Option.some.injEq] at h
    obtain ⟨b, -, r', hr', rfl⟩ := h
    simp [ih hr']


theorem Wf.pos_of_mapM (h : t.Wf) {symbols : List Symbol} {strs : List Bytes}
    (hm : symbols.mapM t.fromSymbol = some strs) : ∀ symbol ∈ symbols, 0 < symbol := by
  induction symbols generalizing strs with
  | nil => simp
  | cons symbol symbols ih =>
    simp only [List.mapM_cons, Option.bind_eq_bind, Option.bind_eq_some_iff, Option.pure_def,
      Option.some.injEq] at hm
    obtain ⟨s, hs, strs', hstrs', -⟩ := hm
    intro x hx
    rcases List.mem_cons.mp hx with rfl | hx
    · exact h.pos_of_lookup hs
    · exact ih hstrs' x hx

/-- `addTokensToEncoding()` の `for`: どの字句にも、その文字列を指す symbol が付く。 -/
theorem Wf.toSymbols (h : t.Wf) (tokens : List Bytes) :
    (t.toSymbols tokens).2.Wf ∧
      (t.toSymbols tokens).1.mapM (t.toSymbols tokens).2.fromSymbol = some tokens ∧
      (∀ symbol s, t.decodeMap.lookup symbol = some s →
        (t.toSymbols tokens).2.decodeMap.lookup symbol = some s) ∧
      ∀ symbol, (t.toSymbols tokens).2.refCountOf symbol =
        t.refCountOf symbol + (t.toSymbols tokens).1.count symbol := by
  induction tokens generalizing t with
  | nil => exact ⟨h, rfl, fun _ _ hs => hs, fun _ => rfl⟩
  | cons token tokens ih =>
    obtain ⟨hwf₁, hlookup₁, hmono₁, hcount₁⟩ := h.toSymbol token
    obtain ⟨hwf, hmapM, hmono, hcount⟩ := ih hwf₁
    refine ⟨hwf, ?_, fun symbol s hs => hmono _ _ (hmono₁ _ _ hs), fun symbol => ?_⟩
    · have hhead : ((t.toSymbol token).2.toSymbols tokens).2.fromSymbol (t.toSymbol token).1 = some token :=
        hmono _ _ hlookup₁
      simp only [SymbolTable.toSymbols]
      rw [List.mapM_cons, hhead, hmapM]
      rfl
    · have hc := hcount symbol
      rw [hcount₁] at hc
      simp only [SymbolTable.toSymbols, List.count_cons, beq_iff_eq]
      rw [hc]
      by_cases hs : (t.toSymbol token).1 = symbol
      · rw [if_pos hs.symm, if_pos hs]; omega
      · rw [if_neg (Ne.symm hs), if_neg hs]; omega

/-- `encode()` の名前は、`addTokensToEncoding()` の symbol の字句の列である。 -/
theorem encode_fst (t : SymbolTable) (name : Bytes) :
    (t.encode name).1 = ofTokens ((t.addTokensToEncoding (removeTrailingCharacters name dot)).1.map .symbol) :=
  moveToMemBlock_addSymbols _

theorem Wf.addTokensToEncoding (h : t.Wf) (name : Bytes) :
    (t.addTokensToEncoding name).2.Wf ∧
      (t.addTokensToEncoding name).1.mapM (t.addTokensToEncoding name).2.fromSymbol =
        some (if name.isEmpty then [] else strSplit name dot) ∧
      (∀ symbol s, t.decodeMap.lookup symbol = some s →
        (t.addTokensToEncoding name).2.decodeMap.lookup symbol = some s) ∧
      ∀ symbol, (t.addTokensToEncoding name).2.refCountOf symbol =
        t.refCountOf symbol + (t.addTokensToEncoding name).1.count symbol := by
  unfold SymbolTable.addTokensToEncoding
  split
  · exact ⟨h, rfl, fun _ _ hs => hs, fun _ => rfl⟩
  · exact h.toSymbols _

theorem mapM_tokenString_symbol (t : SymbolTable) (symbols : List Symbol) :
    (symbols.map Token.symbol).mapM t.tokenString = symbols.mapM t.fromSymbol :=
  List.mapM_map

theorem strJoin_strSplit_of_ne_nil (name : Bytes) :
    strJoin (if name.isEmpty then [] else strSplit name dot) dot = name := by
  split
  · rename_i hn
    simp only [List.isEmpty_iff] at hn
    subst hn; rfl
  · exact List.intercalate_splitOn dot

/-- `toString(encode(name))` は、末尾の `.` を落とした名前。空の字句も残る。 -/
theorem Wf.toString_encode (h : t.Wf) (name : Bytes) :
    (t.encode name).2.toString (t.encode name).1 = some (removeTrailingCharacters name dot) := by
  obtain ⟨hwf, hmapM, -, -⟩ := h.addTokensToEncoding (removeTrailingCharacters name dot)
  have hvalid : ∀ token ∈ (t.addTokensToEncoding (removeTrailingCharacters name dot)).1.map Token.symbol,
      token.Valid := by
    simp only [List.mem_map]
    rintro _ ⟨symbol, hs, rfl⟩
    exact hwf.pos_of_mapM hmapM symbol hs
  rw [encode_fst, toString, decodeStrings, decodeTokens_ofTokens hvalid]
  change Option.map _ ((List.map Token.symbol _).mapM (t.addTokensToEncoding _).2.tokenString) = _
  rw [mapM_tokenString_symbol, hmapM, Option.map_some, strJoin_strSplit_of_ne_nil]

/-! ## 表を変える呼び出しは不変条件を保つ -/

theorem Wf.foldlM_incRefCountSymbol (h : t.Wf) {symbols : List Symbol} {t' : SymbolTable}
    (hr : symbols.foldlM incRefCountSymbol t = some t') : t'.Wf := by
  rw [← Lts.runPartial_eq_foldlM] at hr
  exact Lts.runPartial_preserves (I := Wf) (fun _ _ _ hs hst => (hs.incRefCountSymbol_spec hst).1) h hr

theorem Wf.foldlM_freeSymbol (h : t.Wf) {symbols : List Symbol} {t' : SymbolTable}
    (hr : symbols.foldlM freeSymbol t = some t') : t'.Wf := by
  rw [← Lts.runPartial_eq_foldlM] at hr
  exact Lts.runPartial_preserves (I := Wf) (fun _ _ _ hs hst => (hs.freeSymbol_spec hst).1) h hr

theorem Wf.foldlM_incRefCount (h : t.Wf) {names : List StatName} {t' : SymbolTable}
    (hr : names.foldlM incRefCount t = some t') : t'.Wf := by
  rw [← Lts.runPartial_eq_foldlM] at hr
  exact Lts.runPartial_preserves (I := Wf) (fun _ _ _ hs hst => hs.foldlM_incRefCountSymbol hst) h hr

theorem Wf.foldlM_free (h : t.Wf) {names : List StatName} {t' : SymbolTable}
    (hr : names.foldlM free t = some t') : t'.Wf := by
  rw [← Lts.runPartial_eq_foldlM] at hr
  exact Lts.runPartial_preserves (I := Wf) (fun _ _ _ hs hst => hs.foldlM_freeSymbol hst) h hr

theorem Wf.step (h : t.Wf) {op : Op} {t' : SymbolTable} (hr : t.step op = some t') : t'.Wf := by
  cases op with
  | encode name =>
    cases hr
    exact (h.addTokensToEncoding _).1
  | incRefCount statName => exact h.foldlM_incRefCountSymbol hr
  | free statName => exact h.foldlM_freeSymbol hr
  | populateList names =>
    simp only [SymbolTable.step, populateList] at hr
    split at hr
    · simp only [Option.map_map, Option.map_eq_some_iff] at hr
      obtain ⟨t'', ht'', rfl⟩ := hr
      exact h.foldlM_incRefCount ht''
    · cases hr
  | clearList storage => exact h.foldlM_free hr

/-- 作ったばかりの表から、表を変える呼び出しで届く状態。 -/
def Reachable (t : SymbolTable) : Prop := ∃ ops, Lts.runPartial step create ops = some t

theorem Reachable.wf (h : t.Reachable) : t.Wf := by
  obtain ⟨ops, hops⟩ := h
  exact Lts.runPartial_preserves (I := Wf) (fun _ _ _ hs hst => hs.step hst) wf_create hops

/-! ## 参照の数の足し引き -/

theorem Wf.foldlM_incRefCountSymbol_spec (h : t.Wf) {symbols : List Symbol}
    (hlive : ∀ s ∈ symbols, s ∈ t.decodeMap) :
    ∃ t', symbols.foldlM incRefCountSymbol t = some t' ∧ t'.Wf ∧ t'.decodeMap = t.decodeMap ∧
      ∀ sym, t'.refCountOf sym = t.refCountOf sym + symbols.count sym := by
  induction symbols generalizing t with
  | nil => exact ⟨t, rfl, h, rfl, fun _ => by simp⟩
  | cons s symbols ih =>
    obtain ⟨t₁, ht₁⟩ := Option.isSome_iff_exists.mp (h.incRefCountSymbol_isSome (hlive s (by simp)))
    obtain ⟨hwf₁, hdec₁, hcount₁⟩ := h.incRefCountSymbol_spec ht₁
    obtain ⟨t', ht', hwf, hdec, hcount⟩ := ih hwf₁ fun s' hs' => hdec₁ ▸ hlive s' (by simp [hs'])
    refine ⟨t', by simp [List.foldlM_cons, ht₁, ht'], hwf, hdec.trans hdec₁, fun sym => ?_⟩
    rw [hcount, hcount₁, List.count_cons]
    by_cases hs : sym = s
    · subst hs; simp; omega
    · simp [hs, Ne.symm hs]

/-- 持っている参照を返す `free()` の `for` は失敗せず、参照の数を減らし、まだ参照される symbol の
文字列を変えない。 -/
theorem Wf.foldlM_freeSymbol_spec (h : t.Wf) {symbols : List Symbol}
    (hle : ∀ sym, symbols.count sym ≤ t.refCountOf sym) :
    ∃ t', symbols.foldlM freeSymbol t = some t' ∧ t'.Wf ∧
      (∀ sym, t'.refCountOf sym = t.refCountOf sym - symbols.count sym) ∧
      ∀ sym ∈ t'.decodeMap, t'.decodeMap.lookup sym = t.decodeMap.lookup sym := by
  induction symbols generalizing t with
  | nil => exact ⟨t, rfl, h, fun _ => by simp, fun _ _ => rfl⟩
  | cons s symbols ih =>
    have hs : s ∈ t.decodeMap := by
      rw [h.mem_iff_refCountOf_pos]
      have := hle s
      simp only [List.count_cons_self] at this
      omega
    obtain ⟨t₁, ht₁⟩ := Option.isSome_iff_exists.mp (h.freeSymbol_isSome hs)
    obtain ⟨hwf₁, hcount₁, hdec₁⟩ := h.freeSymbol_spec ht₁
    have hle₁ : ∀ sym, symbols.count sym ≤ t₁.refCountOf sym := by
      intro sym
      have := hle sym
      rw [hcount₁, List.count_cons] at *
      by_cases hsym : sym = s
      · subst hsym; simp at this ⊢; omega
      · simp [hsym, Ne.symm hsym] at this ⊢; omega
    obtain ⟨t', ht', hwf, hcount, hdec⟩ := ih hwf₁ hle₁
    refine ⟨t', by simp [List.foldlM_cons, ht₁, ht'], hwf, fun sym => ?_, fun sym hm => ?_⟩
    · rw [hcount, hcount₁, List.count_cons]
      by_cases hsym : sym = s
      · subst hsym; simp; omega
      · simp [hsym, Ne.symm hsym]
    · have h₁ := hdec sym hm
      have hm₁ : sym ∈ t₁.decodeMap := by
        rw [← AList.lookup_isSome, ← h₁, AList.lookup_isSome]
        exact hm
      rw [h₁, hdec₁ sym hm₁]

theorem foldlM_flatMap {α β γ : Type*} (f : γ → β → Option γ) (g : α → List β) (L : List α) (c : γ) :
    (L.flatMap g).foldlM f c = L.foldlM (fun c a => (g a).foldlM f c) c := by
  induction L generalizing c with
  | nil => rfl
  | cons a L ih =>
    rw [List.flatMap_cons, List.foldlM_append, List.foldlM_cons]
    cases (g a).foldlM f c with
    | none => rfl
    | some c' => exact ih c'

theorem clearList_eq (t : SymbolTable) (storage : Bytes) :
    t.clearList storage = ((StatNameList.iterate storage).flatMap decodeSymbols).foldlM freeSymbol t :=
  (foldlM_flatMap _ _ _ _).symm

theorem foldlM_incRefCount_eq (t : SymbolTable) (names : List StatName) :
    names.foldlM incRefCount t = (names.flatMap decodeSymbols).foldlM incRefCountSymbol t :=
  (foldlM_flatMap _ _ _ _).symm

/-- symbol の文字列が同じなら、`toString()` も同じ。 -/
theorem toString_congr {t t' : SymbolTable} {statName : StatName}
    (h : ∀ symbol ∈ decodeSymbols statName, t'.decodeMap.lookup symbol = t.decodeMap.lookup symbol) :
    t'.toString statName = t.toString statName := by
  unfold SymbolTable.toString decodeStrings
  congr 1
  refine mapM_congr_of_mem fun tk htk => ?_
  cases tk with
  | symbol symbol =>
    exact h symbol (List.mem_filterMap.mpr ⟨_, htk, rfl⟩)
  | stringView sv => rfl

/-! ## `serializeToBuffer()` -/

section Serialize

variable {bufferSize : Nat} {buffer : Bytes}

/-- 一つの `append` は、それまでの文字列 `w` の先頭 `buffer_size` byte を書いた記憶を、`w ++ token` の先頭
`buffer_size` byte を書いた記憶にする。 -/
theorem serializeAppend_writeAt (hB : bufferSize ≤ buffer.length) (w token : Bytes) :
    serializeAppend bufferSize (buffer.writeAt 0 (w.take bufferSize), w.length) token =
      (buffer.writeAt 0 ((w ++ token).take bufferSize), (w ++ token).length) := by
  simp only [serializeAppend, List.length_append]
  congr 1
  split
  case isTrue h =>
    -- まだ入る: 入る分を後ろに書き足す
    obtain ⟨hlt, -⟩ := h
    have hw : w.take bufferSize = w := List.take_of_length_le hlt.le
    have hpart : token.take (min token.length (bufferSize - w.length)) = token.take (bufferSize - w.length) := by
      rw [List.take_eq_take_iff]
      omega
    rw [hw, hpart, List.take_append, List.take_of_length_le hlt.le, ← Nat.zero_add w.length,
      List.writeAt_writeAt _ (by simp only [List.length_take]; omega), Nat.zero_add]
  case isFalse h =>
    -- もう入らないか、空の字句: 記憶は変わらない
    rcases not_and_or.mp h with hge | hnil
    · rw [List.take_append_of_le_length (by omega)]
    · rw [not_not.mp hnil, List.append_nil]

/-- `.` を置いた後の一回りの、字句の列についての帰納法。 -/
theorem serializeLoop_false (hB : bufferSize ≤ buffer.length) (tokens : List Token) (w : Bytes) :
    t.serializeLoop bufferSize false (buffer.writeAt 0 (w.take bufferSize), w.length) tokens =
      (tokens.mapM t.tokenString).map fun strs =>
        (buffer.writeAt 0 ((w ++ strs.flatMap (dot :: ·)).take bufferSize), (w ++ strs.flatMap (dot :: ·)).length) := by
  induction tokens generalizing w with
  | nil => simp [serializeLoop]
  | cons token tokens ih =>
    simp only [serializeLoop, Bool.false_eq_true, if_false, serializeAppend_writeAt hB, List.mapM_cons]
    cases t.tokenString token with
    | none => rfl
    | some str =>
      simp only [Option.bind_eq_bind, Option.bind_some, ih]
      cases List.mapM t.tokenString tokens with
      | none => rfl
      | some strs =>
        simp only [Option.map_some, Option.bind_some, Option.pure_def, List.flatMap_cons, List.append_assoc,
          List.cons_append, List.nil_append]

theorem intercalate_cons_eq_flatMap (sep : UInt8) (s : Bytes) (rest : List Bytes) :
    [sep].intercalate (s :: rest) = s ++ rest.flatMap (sep :: ·) := by
  induction rest generalizing s with
  | nil => simp
  | cons r rest ih => rw [List.intercalate_cons_cons, ih]; simp

/-- `serializeToBuffer()` は `toString()` の長さを返し、記憶の先頭に `toString()` の先頭 `buffer_size` byte を
書き、他は変えない。 -/
theorem serializeToBuffer_eq (hB : bufferSize ≤ buffer.length) (statName : StatName) :
    t.serializeToBuffer statName buffer bufferSize =
      (t.toString statName).map fun str => (str.length, buffer.writeAt 0 (str.take bufferSize)) := by
  unfold serializeToBuffer SymbolTable.toString decodeStrings
  cases decodeTokens statName with
  | nil => simp [serializeLoop, strJoin]
  | cons token tokens =>
    -- 一つ目の字句の前には `.` を置かない
    have hfirst := serializeAppend_writeAt hB []
    simp only [List.take_nil, List.writeAt_nil, List.length_nil, List.nil_append] at hfirst
    simp only [serializeLoop, if_true, List.mapM_cons]
    cases t.tokenString token with
    | none => rfl
    | some str =>
      simp only [Option.bind_eq_bind, Option.bind_some, hfirst, serializeLoop_false hB]
      cases List.mapM t.tokenString tokens with
      | none => rfl
      | some strs => simp [strJoin, intercalate_cons_eq_flatMap]

/-- `serializeToBuffer()` と `toString()`: `toString()` の長さを返し、記憶には `toString()` の先頭
`min(buffer_size, 長さ)` byte を書き、その後ろ（`buffer_size` より先も）には何も書かない。無い symbol を
引けば、どちらも落ちる。 -/
theorem serializeToBuffer_agrees_with_toString (t : SymbolTable) (statName : StatName) (buffer : Bytes)
    (bufferSize : Nat) (hB : bufferSize ≤ buffer.length) :
    (t.toString statName = none → t.serializeToBuffer statName buffer bufferSize = none) ∧
    ∀ str, t.toString statName = some str →
      ∃ mem, t.serializeToBuffer statName buffer bufferSize = some (str.length, mem) ∧
        mem.length = buffer.length ∧
        mem.take (min bufferSize str.length) = str.take bufferSize ∧
        mem.drop (min bufferSize str.length) = buffer.drop (min bufferSize str.length) := by
  rw [serializeToBuffer_eq hB]
  refine ⟨fun h => by rw [h]; rfl, fun str h => ⟨buffer.writeAt 0 (str.take bufferSize), by rw [h]; rfl, ?_⟩⟩
  have hsrc : (str.take bufferSize).length = min bufferSize str.length := List.length_take
  refine ⟨List.length_writeAt _ _ _, ?_, ?_⟩
  · rw [List.take_writeAt_zero _ (by omega) (by omega), ← hsrc, List.take_length]
  · rw [List.writeAt_eq _ (by simp only [Nat.zero_add]; omega), List.take_zero, List.nil_append, ← hsrc,
      Nat.zero_add, List.drop_left]

end Serialize

end SymbolTable

/-- 三 byte の記憶に `buffer_size` 2 で `ab.c` を書くと、長さ 4 を返し、先頭の二 byte だけを書く。 -/
theorem serializeToBuffer_ab_c :
    SymbolTable.create.serializeToBuffer (SymbolTable.makeDynamicStorage [97, 98, 46, 99]) [9, 9, 9] 2 =
      some (4, [97, 98, 9]) := by
  obtain ⟨-, h⟩ := SymbolTable.serializeToBuffer_agrees_with_toString SymbolTable.create
    (SymbolTable.makeDynamicStorage [97, 98, 46, 99]) [9, 9, 9] 2 (by decide)
  obtain ⟨mem, hmem, hlen, htake, hdrop⟩ := h [97, 98, 46, 99] (by decide)
  -- 書いた記憶は、先頭の二 byte と残り
  have hsplit : mem = mem.take 2 ++ mem.drop 2 := (List.take_append_drop 2 mem).symm
  rw [hmem, hsplit]
  simp only [List.length_cons, List.length_nil, Nat.reduceAdd] at htake hdrop ⊢
  rw [show min 2 4 = 2 from rfl] at htake hdrop
  rw [htake, hdrop]
  rfl

end Envoy.Stats
