import Envoy.Stats.Store
import Envoy.Stats.RoundTrip

/-!
# 参照の数は生きている記憶域の symbol の数

参照を持つ生きている記憶域の symbol を数えた数 `heldCount` が、表の参照の数に等しい。
`join()` の結果は、元にした記憶域が生きている間、その symbol がどれかの元の記憶域に持たれている。
これらから、使える記憶域の名前は作った時の `toString()` を返し続ける。
-/

namespace Envoy.Stats

open SymbolTable SymbolTable.Encoding

/-! ## 名前の中の symbol -/

theorem decodeSymbols_ofTokens_symbol {symbols : List Symbol} (hv : ∀ s ∈ symbols, 0 < s) :
    decodeSymbols (ofTokens (symbols.map .symbol)) = symbols := by
  have hvalid : ∀ tk ∈ symbols.map Token.symbol, tk.Valid := by
    simp only [List.mem_map]
    rintro _ ⟨s, hs, rfl⟩
    exact hv s hs
  rw [decodeSymbols, decodeTokens_ofTokens hvalid, List.filterMap_map]
  exact List.filterMap_some

theorem decodeSymbols_makeDynamicStorage (name : Bytes) :
    decodeSymbols (SymbolTable.makeDynamicStorage name) = [] := by
  rw [decodeSymbols, makeDynamicStorage_eq, decodeTokens_ofTokens (by simp [Token.Valid])]
  rfl

theorem decodeSymbols_join {v : List StatName} (hv : ∀ x ∈ v, WellFormed x) :
    decodeSymbols (SymbolTable.join v) = v.flatMap decodeSymbols := by
  rw [decodeSymbols, decodeTokens_join hv, List.filterMap_flatMap]
  rfl

namespace Storage

variable {b : Bytes} {sources : List Nat} {created : List (Option Bytes)}

theorem names_of_ne_list {x : Storage} (hx : x.kind ≠ .list) : x.names = [x.bytes] := by
  unfold Storage.names
  split
  · contradiction
  · rfl

@[simp] theorem heldSymbols_storage : heldSymbols ⟨.storage, b, sources, created⟩ = decodeSymbols b := by
  simp [heldSymbols, holdsRefs, names]

@[simp] theorem heldSymbols_list :
    heldSymbols ⟨.list, b, sources, created⟩ = (StatNameList.iterate b).flatMap decodeSymbols := by
  simp [heldSymbols, holdsRefs, names]

@[simp] theorem heldSymbols_dynamic : heldSymbols ⟨.dynamic, b, sources, created⟩ = [] := rfl

@[simp] theorem heldSymbols_joined : heldSymbols ⟨.joined, b, sources, created⟩ = [] := rfl

end Storage

namespace Store

open Storage

/-- 生きている記憶域が持つ `symbol` の参照の数。 -/
def heldCount (w : Store) (symbol : Symbol) : Nat :=
  ∑ i ∈ Finset.range w.nextId, ((w.storages i).map fun x => x.heldSymbols.count symbol).getD 0

/-- 記憶域の symbol が、生きている記憶域に持たれていること。`join()` の結果は元の記憶域のどれかに。 -/
def Covered (w : Store) (x : Storage) : Prop :=
  match x.kind with
  | .joined => ∀ symbol ∈ decodeSymbols x.bytes, ∃ j ∈ x.sources, ∃ y, w.storages j = some y ∧ symbol ∈ y.heldSymbols
  | .dynamic => decodeSymbols x.bytes = []
  | .storage | .list => True

structure Inv (w : Store) : Prop where
  wf : w.table.Wf
  bounded : ∀ i, w.nextId ≤ i → w.storages i = none
  sources_lt : ∀ i x, w.storages i = some x → ∀ j ∈ x.sources, j < w.nextId
  wellFormed : ∀ i x, w.storages i = some x → ∀ n ∈ x.names, WellFormed n
  refCount : ∀ symbol, w.table.refCountOf symbol = w.heldCount symbol
  covered : ∀ i x, w.storages i = some x → w.Anchored i → w.Covered x
  stable : ∀ i x, w.storages i = some x → w.Anchored i → x.names.map w.table.toString = x.created

theorem inv_init : init.Inv where
  wf := wf_create
  bounded := fun _ _ => rfl
  sources_lt := by simp [init]
  wellFormed := by simp [init]
  refCount := by simp [init, heldCount, refCountOf, create]
  covered := by simp [init]
  stable := by simp [init]

variable {w : Store}

theorem Inv.lt_of_some (h : w.Inv) {i : Nat} {x : Storage} (hi : w.storages i = some x) : i < w.nextId := by
  by_contra hle
  rw [h.bounded i (Nat.le_of_not_lt hle)] at hi
  cases hi

/-! ## 数え上げ -/

theorem heldCount_push (table : SymbolTable) (x : Storage) (symbol : Symbol) :
    (w.push table x).heldCount symbol = w.heldCount symbol + x.heldSymbols.count symbol := by
  simp only [heldCount, push, Finset.sum_range_succ, Function.update_self, Option.map_some,
    Option.getD_some]
  congr 1
  refine Finset.sum_congr rfl fun i hi => ?_
  rw [Function.update_of_ne (Nat.ne_of_lt (Finset.mem_range.mp hi))]

theorem heldCount_update_none {i : Nat} {x : Storage} (hlt : i < w.nextId) (hi : w.storages i = some x)
    (table : SymbolTable) (symbol : Symbol) :
    (⟨table, Function.update w.storages i none, w.nextId⟩ : Store).heldCount symbol +
      x.heldSymbols.count symbol = w.heldCount symbol := by
  have hmem : i ∈ Finset.range w.nextId := Finset.mem_range.mpr hlt
  simp only [heldCount]
  rw [← Finset.add_sum_erase _ _ hmem, ← Finset.add_sum_erase _ _ hmem]
  simp only [Function.update_self, Option.map_none, Option.getD_none, hi, Option.map_some, Option.getD_some]
  -- 消した番号の他は変わらない
  have hrest : ∑ j ∈ (Finset.range w.nextId).erase i,
      ((Function.update w.storages i none j).map fun x => x.heldSymbols.count symbol).getD 0 =
        ∑ j ∈ (Finset.range w.nextId).erase i, ((w.storages j).map fun x => x.heldSymbols.count symbol).getD 0 :=
    Finset.sum_congr rfl fun j hj => by rw [Function.update_of_ne (Finset.ne_of_mem_erase hj)]
  rw [hrest]
  omega

theorem count_le_heldCount {i : Nat} {x : Storage} (hlt : i < w.nextId) (hi : w.storages i = some x)
    (symbol : Symbol) : x.heldSymbols.count symbol ≤ w.heldCount symbol := by
  have := heldCount_update_none hlt hi w.table symbol
  omega

/-- 生きている記憶域が持つ symbol は、表で生きている。 -/
theorem Inv.mem_of_held (h : w.Inv) {j : Nat} {y : Storage} (hj : w.storages j = some y) {symbol : Symbol}
    (hs : symbol ∈ y.heldSymbols) : symbol ∈ w.table.decodeMap := by
  rw [h.wf.mem_iff_refCountOf_pos, h.refCount]
  have := count_le_heldCount (h.lt_of_some hj) hj symbol
  have := List.count_pos_iff.mpr hs
  omega

/-! ## 名前の symbol を持つ記憶域 -/

/-- 一つの名前を持つ記憶域の symbol は、その記憶域か `join()` の元のどれかに持たれている。 -/
theorem held_source_of_covered {i : Nat} {x : Storage} (hi : w.storages i = some x) (hc : w.Covered x)
    (hl : x.kind ≠ .list) {symbol : Symbol} (hs : symbol ∈ decodeSymbols x.bytes) :
    ∃ j ∈ i :: x.sources, ∃ y, w.storages j = some y ∧ symbol ∈ y.heldSymbols := by
  obtain ⟨kind, bytes, sources, created⟩ := x
  cases kind with
  | storage => exact ⟨i, List.mem_cons_self, _, hi, by simpa using hs⟩
  | list => exact absurd rfl hl
  | dynamic =>
    simp only [Covered] at hc
    rw [hc] at hs
    cases hs
  | joined =>
    obtain ⟨j, hj, y, hy, hys⟩ := hc symbol hs
    exact ⟨j, List.mem_cons_of_mem _ hj, y, hy, hys⟩

theorem held_of_covered {i : Nat} {x : Storage} (hi : w.storages i = some x) (hc : w.Covered x)
    {symbol : Symbol} (hs : symbol ∈ x.names.flatMap decodeSymbols) :
    ∃ j y, w.storages j = some y ∧ symbol ∈ y.heldSymbols := by
  by_cases hl : x.kind = .list
  · refine ⟨i, x, hi, ?_⟩
    simpa [heldSymbols, holdsRefs, hl] using hs
  · rw [names_of_ne_list hl, List.flatMap_singleton] at hs
    obtain ⟨j, -, y, hy, hys⟩ := held_source_of_covered hi hc hl hs
    exact ⟨j, y, hy, hys⟩

theorem Inv.mem_of_anchored (h : w.Inv) {i : Nat} {x : Storage} (hi : w.storages i = some x)
    (ha : w.Anchored i) {symbol : Symbol} (hs : symbol ∈ x.names.flatMap decodeSymbols) :
    symbol ∈ w.table.decodeMap := by
  obtain ⟨j, y, hj, hy⟩ := held_of_covered hi (h.covered i x hi ha) hs
  exact h.mem_of_held hj hy

/-- 表の写像が生きている symbol の文字列を変えなければ、使える記憶域の `toString()` も変わらない。 -/
theorem Inv.toString_congr (h : w.Inv) {i : Nat} {x : Storage} (hi : w.storages i = some x)
    (ha : w.Anchored i) {table : SymbolTable}
    (hlookup : ∀ symbol ∈ x.names.flatMap decodeSymbols, ∀ s,
      w.table.decodeMap.lookup symbol = some s → table.decodeMap.lookup symbol = some s) :
    x.names.map table.toString = x.created := by
  rw [← h.stable i x hi ha]
  refine List.map_congr_left fun n hn => SymbolTable.toString_congr fun symbol hs => ?_
  have hmem : symbol ∈ x.names.flatMap decodeSymbols := List.mem_flatMap.mpr ⟨n, hn, hs⟩
  obtain ⟨s, hs'⟩ := Option.isSome_iff_exists.mp (AList.lookup_isSome.mpr (h.mem_of_anchored hi ha hmem))
  rw [hs', hlookup symbol hmem s hs']

/-! ## 使える記憶域の名前 -/

theorem statNameOf_of_usable {i : Nat} (hu : w.Usable i) :
    ∃ x, w.storages i = some x ∧ x.kind ≠ .list ∧ w.statNameOf i = some x.bytes := by
  obtain ⟨ha, hl⟩ := hu
  unfold Anchored at ha
  cases hi : w.storages i with
  | none => rw [hi] at ha; exact ha.elim
  | some x => exact ⟨x, rfl, hl x hi, by simp [statNameOf, hi, hl x hi]⟩

theorem mapM_statNameOf {is : List Nat} (hu : ∀ i ∈ is, w.Usable i) :
    ∃ names, is.mapM w.statNameOf = some names ∧ names.length = is.length ∧
      ∀ n ∈ names, ∃ i ∈ is, ∃ x, w.storages i = some x ∧ w.Anchored i ∧ x.kind ≠ .list ∧ n = x.bytes := by
  induction is with
  | nil => exact ⟨[], rfl, rfl, by simp⟩
  | cons i is ih =>
    obtain ⟨x, hx, hl, hn⟩ := statNameOf_of_usable (hu i (by simp))
    obtain ⟨names, hnames, hlen, hmem⟩ := ih fun j hj => hu j (by simp [hj])
    refine ⟨x.bytes :: names, by simp [List.mapM_cons, hn, hnames], by simp [hlen], fun n hn' => ?_⟩
    rcases List.mem_cons.mp hn' with rfl | hn'
    · exact ⟨i, by simp, x, hx, (hu i (by simp)).1, hl, rfl⟩
    · obtain ⟨j, hj, y, hy, ha, hyl, rfl⟩ := hmem n hn'
      exact ⟨j, by simp [hj], y, hy, ha, hyl, rfl⟩

/-- 使える記憶域の名前は字句の列の符号で、その symbol は表で生きている。 -/
theorem Inv.usable_name (h : w.Inv) {i : Nat} {x : Storage} (hi : w.storages i = some x) (ha : w.Anchored i)
    (hl : x.kind ≠ .list) : WellFormed x.bytes ∧ ∀ symbol ∈ decodeSymbols x.bytes, symbol ∈ w.table.decodeMap :=
  ⟨h.wellFormed i x hi x.bytes (by simp [names_of_ne_list hl]),
    fun _ hs => h.mem_of_anchored hi ha (by rw [names_of_ne_list hl, List.flatMap_singleton]; exact hs)⟩

/-! ## 記憶域を足す -/

@[simp] theorem push_table (table : SymbolTable) (x : Storage) : (w.push table x).table = table := rfl

@[simp] theorem push_nextId (table : SymbolTable) (x : Storage) : (w.push table x).nextId = w.nextId + 1 := rfl

theorem push_storages_of_ne (table : SymbolTable) (x : Storage) {i : Nat} (hi : i ≠ w.nextId) :
    (w.push table x).storages i = w.storages i :=
  Function.update_of_ne hi _ _

theorem push_storages_eq_some {table : SymbolTable} {x y : Storage} {i : Nat} :
    (w.push table x).storages i = some y ↔ i = w.nextId ∧ y = x ∨ i ≠ w.nextId ∧ w.storages i = some y := by
  by_cases hi : i = w.nextId
  · subst hi
    simp [push, eq_comm]
  · simp [push_storages_of_ne table x hi, hi]

theorem Inv.anchored_of_push (h : w.Inv) {table : SymbolTable} {x : Storage} {i : Nat} (hi : i ≠ w.nextId)
    (ha : (w.push table x).Anchored i) : w.Anchored i := by
  unfold Anchored at ha ⊢
  rw [push_storages_of_ne table x hi] at ha
  cases hy : w.storages i with
  | none => simp only [hy] at ha
  | some y =>
    simp only [hy] at ha ⊢
    intro hk j hj
    rw [← push_storages_of_ne table x (Nat.ne_of_lt (h.sources_lt i y hy j hj))]
    exact ha hk j hj

theorem Inv.covered_push (h : w.Inv) (table : SymbolTable) (x : Storage) {i : Nat} {y : Storage}
    (hy : w.storages i = some y) (hc : w.Covered y) : (w.push table x).Covered y := by
  obtain ⟨kind, bytes, sources, created⟩ := y
  cases kind with
  | joined =>
    intro symbol hs
    obtain ⟨j, hj, z, hz, hzs⟩ := hc symbol hs
    exact ⟨j, hj, z, by rw [push_storages_of_ne _ _ (Nat.ne_of_lt (h.sources_lt i _ hy j hj)), hz], hzs⟩
  | storage | list | dynamic => exact hc

/-- 新しい記憶域を足す一歩: 表は symbol の参照をその記憶域の分だけ足し、生きている symbol の文字列を保つ。 -/
theorem Inv.push (h : w.Inv) {table : SymbolTable} {x : Storage} (hwf : table.Wf)
    (hcount : ∀ symbol, table.refCountOf symbol = w.table.refCountOf symbol + x.heldSymbols.count symbol)
    (hlookup : ∀ symbol s, w.table.decodeMap.lookup symbol = some s → table.decodeMap.lookup symbol = some s)
    (hsources : ∀ j ∈ x.sources, j < w.nextId) (hnames : ∀ n ∈ x.names, WellFormed n)
    (hcov : (w.push table x).Covered x) (hcreated : x.names.map table.toString = x.created) :
    (w.push table x).Inv where
  wf := hwf
  bounded i hi := by
    rw [push_nextId] at hi
    rw [push_storages_of_ne table x (by omega)]
    exact h.bounded i (by omega)
  sources_lt i y hy j hj := by
    rw [push_nextId]
    rcases push_storages_eq_some.mp hy with ⟨-, rfl⟩ | ⟨-, hy⟩
    · exact Nat.lt_succ_of_lt (hsources j hj)
    · exact Nat.lt_succ_of_lt (h.sources_lt i y hy j hj)
  wellFormed i y hy := by
    rcases push_storages_eq_some.mp hy with ⟨-, rfl⟩ | ⟨-, hy⟩
    · exact hnames
    · exact h.wellFormed i y hy
  refCount symbol := by
    rw [heldCount_push, ← h.refCount]
    exact hcount symbol
  covered i y hy ha := by
    rcases push_storages_eq_some.mp hy with ⟨-, rfl⟩ | ⟨hi, hy⟩
    · exact hcov
    · exact h.covered_push table x hy (h.covered i y hy (h.anchored_of_push hi ha))
  stable i y hy ha := by
    rcases push_storages_eq_some.mp hy with ⟨-, rfl⟩ | ⟨hi, hy⟩
    · exact hcreated
    · exact h.toString_congr hy (h.anchored_of_push hi ha) fun symbol _ => hlookup symbol

/-! ## 記憶域を捨てる -/

theorem update_none_eq_some {f : Nat → Option Storage} {i j : Nat} {y : Storage} :
    Function.update f i none j = some y ↔ j ≠ i ∧ f j = some y := by
  by_cases hj : j = i
  · subst hj
    simp
  · simp [hj]

theorem anchored_of_update_none {table : SymbolTable} {i j : Nat}
    (ha : (⟨table, Function.update w.storages i none, w.nextId⟩ : Store).Anchored j) : w.Anchored j := by
  unfold Anchored at ha ⊢
  cases hy : Function.update w.storages i none j with
  | none => simp only [hy] at ha
  | some y =>
    simp only [hy] at ha
    rw [(update_none_eq_some.mp hy).2]
    intro hk k hk'
    obtain ⟨z, hz⟩ := Option.isSome_iff_exists.mp (ha hk k hk')
    simp [(update_none_eq_some.mp hz).2]

theorem covered_update_none {table : SymbolTable} {i j : Nat} {y : Storage}
    (hy : Function.update w.storages i none j = some y)
    (ha : (⟨table, Function.update w.storages i none, w.nextId⟩ : Store).Anchored j) (hc : w.Covered y) :
    (⟨table, Function.update w.storages i none, w.nextId⟩ : Store).Covered y := by
  unfold Anchored at ha
  simp only [hy] at ha
  obtain ⟨kind, bytes, sources, created⟩ := y
  cases kind with
  | joined =>
    intro symbol hs
    obtain ⟨k, hk, z, hz, hzs⟩ := hc symbol hs
    -- 元 `k` はまだ生きているので、捨てた記憶域ではない
    have hki : k ≠ i := by
      rintro rfl
      have := ha rfl k hk
      simp at this
    exact ⟨k, hk, z, by show Function.update w.storages i none k = some z; rw [Function.update_of_ne hki, hz], hzs⟩
  | storage | list | dynamic => exact hc

/-- 記憶域を捨てる一歩: 表はその記憶域の参照を返し、残る symbol の文字列を保つ。 -/
theorem Inv.free (h : w.Inv) {i : Nat} {x : Storage} (hi : w.storages i = some x) {table : SymbolTable}
    (hwf : table.Wf)
    (hcount : ∀ symbol, table.refCountOf symbol = w.table.refCountOf symbol - x.heldSymbols.count symbol)
    (hlookup : ∀ symbol ∈ table.decodeMap, table.decodeMap.lookup symbol = w.table.decodeMap.lookup symbol) :
    (⟨table, Function.update w.storages i none, w.nextId⟩ : Store).Inv := by
  have hlt := h.lt_of_some hi
  have hheld : ∀ symbol, table.refCountOf symbol =
      (⟨table, Function.update w.storages i none, w.nextId⟩ : Store).heldCount symbol := by
    intro symbol
    have := heldCount_update_none hlt hi table symbol
    rw [hcount, h.refCount]
    omega
  have hcov : ∀ j y, Function.update w.storages i none j = some y →
      (⟨table, Function.update w.storages i none, w.nextId⟩ : Store).Anchored j →
        (⟨table, Function.update w.storages i none, w.nextId⟩ : Store).Covered y := fun j y hy ha =>
    covered_update_none hy ha (h.covered j y (update_none_eq_some.mp hy).2 (anchored_of_update_none ha))
  refine ⟨hwf, fun j hj => ?_, fun j y hy => h.sources_lt j y (update_none_eq_some.mp hy).2,
    fun j y hy => h.wellFormed j y (update_none_eq_some.mp hy).2, hheld, hcov, fun j y hy ha => ?_⟩
  · have hj' : w.nextId ≤ j := hj
    show Function.update w.storages i none j = none
    rw [Function.update_of_ne (by omega)]
    exact h.bounded j hj'
  · -- 残る名前の symbol は残る記憶域に持たれていて、表で生きたまま
    refine h.toString_congr (update_none_eq_some.mp hy).2 (anchored_of_update_none ha) fun symbol hs s hs' => ?_
    obtain ⟨k, z, hz, hzs⟩ := held_of_covered hy (hcov j y hy ha) hs
    have hle := count_le_heldCount (w := ⟨table, Function.update w.storages i none, w.nextId⟩)
      (h.lt_of_some (update_none_eq_some.mp hz).2) hz symbol
    have hpos := List.count_pos_iff.mpr hzs
    have hm : symbol ∈ table.decodeMap := by
      rw [hwf.mem_iff_refCountOf_pos, hheld]
      omega
    rw [hlookup symbol hm, hs']

/-! ## 一歩ずつ -/

theorem Inv.step_encode (h : w.Inv) (name : Bytes) : ∃ w', w.step (.encode name) = some w' ∧ w'.Inv := by
  obtain ⟨hwf, hmapM, hlookup, hcount⟩ := h.wf.addTokensToEncoding (removeTrailingCharacters name dot)
  have hheld : decodeSymbols (w.table.encode name).1 =
      (w.table.addTokensToEncoding (removeTrailingCharacters name dot)).1 := by
    rw [encode_fst, decodeSymbols_ofTokens_symbol (hwf.pos_of_mapM hmapM)]
  refine ⟨w.push (w.table.encode name).2
    ⟨.storage, (w.table.encode name).1, [], [(w.table.encode name).2.toString (w.table.encode name).1]⟩, rfl, ?_⟩
  refine h.push hwf (fun symbol => by rw [heldSymbols_storage, hheld]; exact hcount symbol) hlookup (by simp)
    ?_ trivial rfl
  simp only [Storage.names, List.mem_singleton, forall_eq]
  exact wellFormed_encode h.wf name

theorem Inv.step_copy (h : w.Inv) {i : Nat} (hu : w.Usable i) : ∃ w', w.step (.copy i) = some w' ∧ w'.Inv := by
  obtain ⟨x, hx, hl, hn⟩ := statNameOf_of_usable hu
  obtain ⟨hwfx, hlive⟩ := h.usable_name hx hu.1 hl
  -- 複写は中身をそのまま写す
  have htake : x.bytes.take (StatName.size x.bytes) = x.bytes := by
    obtain ⟨ts, -, hts⟩ := hwfx
    rw [hts, size_ofTokens, List.take_length]
  obtain ⟨t', ht', hwf, hdecode, hcount⟩ := h.wf.foldlM_incRefCountSymbol_spec hlive
  refine ⟨w.push t' ⟨.storage, x.bytes, [], [t'.toString x.bytes]⟩, ?_, ?_⟩
  · simp only [step, hn, htake, Option.bind_eq_bind, Option.bind_some, incRefCount, ht', Option.pure_def]
  · refine h.push hwf (fun symbol => by rw [heldSymbols_storage]; exact hcount symbol)
      (fun symbol s hs => by rw [hdecode]; exact hs) (by simp) ?_ trivial rfl
    simp only [Storage.names, List.mem_singleton, forall_eq]
    exact hwfx

theorem Inv.step_populateList (h : w.Inv) {is : List Nat} (hu : ∀ i ∈ is, w.Usable i) (hlen : is.length < 256) :
    ∃ w', w.step (.populateList is) = some w' ∧ w'.Inv := by
  obtain ⟨names, hnames, hlen', hmem⟩ := mapM_statNameOf hu
  have husable : ∀ n ∈ names, WellFormed n ∧ ∀ symbol ∈ decodeSymbols n, symbol ∈ w.table.decodeMap := by
    intro n hn
    obtain ⟨i, -, x, hx, ha, hl, rfl⟩ := hmem n hn
    exact h.usable_name hx ha hl
  have hlive : ∀ symbol ∈ names.flatMap decodeSymbols, symbol ∈ w.table.decodeMap := by
    intro symbol hs
    obtain ⟨n, hn, hs⟩ := List.mem_flatMap.mp hs
    exact (husable n hn).2 symbol hs
  obtain ⟨t', ht', hwf, hdecode, hcount⟩ := h.wf.foldlM_incRefCountSymbol_spec hlive
  obtain ⟨tss, -, rfl⟩ := wellFormed_join fun n hn => (husable n hn).1
  have hlt : (tss.map ofTokens).length < 256 := by omega
  -- `populateList()` が書いた塊を `iterate()` で読めば、置いた名前に戻る
  have hiter : StatNameList.iterate ((tss.map ofTokens).length.toUInt8 ::
      (tss.map ofTokens).flatMap fun n => n.take n.size) = tss.map ofTokens := by
    rw [List.length_map]
    exact iterate_populate tss (by simpa using hlt)
  refine ⟨w.push t' ⟨.list, (tss.map ofTokens).length.toUInt8 :: (tss.map ofTokens).flatMap fun n => n.take n.size,
    [], (tss.map ofTokens).map t'.toString⟩, ?_, ?_⟩
  · simp only [step, hnames, Option.bind_eq_bind, Option.bind_some, populateList, if_pos hlt,
      foldlM_incRefCount_eq, ht', Option.map_some, Option.pure_def]
  · refine h.push hwf (fun symbol => by rw [heldSymbols_list, hiter]; exact hcount symbol)
      (fun symbol s hs => by rw [hdecode]; exact hs) (by simp) ?_ trivial ?_
    · simp only [Storage.names, hiter]
      exact fun n hn => (husable n hn).1
    · simp only [Storage.names, hiter]

theorem Inv.step_makeDynamicStorage (h : w.Inv) (name : Bytes) :
    ∃ w', w.step (.makeDynamicStorage name) = some w' ∧ w'.Inv := by
  refine ⟨_, rfl, h.push h.wf (by simp) (fun _ _ hs => hs) (by simp) ?_ (decodeSymbols_makeDynamicStorage name) rfl⟩
  simp only [Storage.names, List.mem_singleton, forall_eq]
  exact wellFormed_makeDynamicStorage name

theorem mem_join_sources {is : List Nat} {i : Nat} {x : Storage} (hi : i ∈ is) (hx : w.storages i = some x)
    {j : Nat} (hj : j ∈ i :: x.sources) :
    j ∈ is ++ is.flatMap fun i => ((w.storages i).map Storage.sources).getD [] := by
  rcases List.mem_cons.mp hj with rfl | hj
  · exact List.mem_append_left _ hi
  · exact List.mem_append_right _ (List.mem_flatMap.mpr ⟨i, hi, by simp [hx, hj]⟩)

theorem Inv.step_join (h : w.Inv) {is : List Nat} (hu : ∀ i ∈ is, w.Usable i) :
    ∃ w', w.step (.join is) = some w' ∧ w'.Inv := by
  obtain ⟨names, hnames, -, hmem⟩ := mapM_statNameOf hu
  have hwf : ∀ n ∈ names, WellFormed n := by
    intro n hn
    obtain ⟨i, -, x, hx, ha, hl, rfl⟩ := hmem n hn
    exact (h.usable_name hx ha hl).1
  refine ⟨w.push w.table ⟨.joined, SymbolTable.join names, is ++ is.flatMap fun i => ((w.storages i).map
    Storage.sources).getD [], [w.table.toString (SymbolTable.join names)]⟩, by simp [step, hnames], ?_⟩
  refine h.push h.wf (by simp) (fun _ _ hs => hs) ?_ ?_ ?_ rfl
  · -- 元の番号は生きている記憶域の番号
    intro j hj
    rcases List.mem_append.mp hj with hj | hj
    · obtain ⟨x, hx, -⟩ := statNameOf_of_usable (hu j hj)
      exact h.lt_of_some hx
    · obtain ⟨i, -, hj⟩ := List.mem_flatMap.mp hj
      cases hx : w.storages i with
      | none => simp [hx] at hj
      | some x =>
        simp only [hx, Option.map_some, Option.getD_some] at hj
        exact h.sources_lt i x hx j hj
  · simp only [Storage.names, List.mem_singleton, forall_eq]
    exact WellFormed.join hwf
  · -- つないだ名前の symbol は、元の記憶域のどれかが持つ
    intro symbol hs
    rw [decodeSymbols_join hwf] at hs
    obtain ⟨n, hn, hs⟩ := List.mem_flatMap.mp hs
    obtain ⟨i, hi, x, hx, ha, hl, rfl⟩ := hmem n hn
    obtain ⟨j, hj, y, hy, hys⟩ := held_source_of_covered hx (h.covered i x hx ha) hl hs
    exact ⟨j, mem_join_sources hi hx hj, y,
      by rw [push_storages_of_ne _ _ (Nat.ne_of_lt (h.lt_of_some hy)), hy], hys⟩

theorem Inv.step_free (h : w.Inv) {i : Nat} (hv : (w.storages i).isSome) :
    ∃ w', w.step (.free i) = some w' ∧ w'.Inv := by
  obtain ⟨x, hx⟩ := Option.isSome_iff_exists.mp hv
  have hle : ∀ symbol, x.heldSymbols.count symbol ≤ w.table.refCountOf symbol := fun symbol => by
    rw [h.refCount]
    exact count_le_heldCount (h.lt_of_some hx) hx symbol
  obtain ⟨kind, bytes, sources, created⟩ := x
  -- 参照を持つ記憶域は、持つ symbol を順に返す
  cases kind with
  | storage =>
    rw [heldSymbols_storage] at hle
    obtain ⟨t', ht', hwf, hcount, hlookup⟩ := h.wf.foldlM_freeSymbol_spec hle
    refine ⟨⟨t', Function.update w.storages i none, w.nextId⟩, ?_, h.free hx hwf (by simpa using hcount) hlookup⟩
    simp only [step, hx, Option.bind_eq_bind, Option.bind_some, SymbolTable.free, ht', Option.pure_def]
  | list =>
    rw [heldSymbols_list] at hle
    obtain ⟨t', ht', hwf, hcount, hlookup⟩ := h.wf.foldlM_freeSymbol_spec hle
    refine ⟨⟨t', Function.update w.storages i none, w.nextId⟩, ?_, h.free hx hwf (by simpa using hcount) hlookup⟩
    simp only [step, hx, Option.bind_eq_bind, Option.bind_some, clearList_eq, ht', Option.pure_def]
  | dynamic => exact ⟨_, by simp [step, hx], h.free hx h.wf (by simp) fun _ _ => rfl⟩
  | joined => exact ⟨_, by simp [step, hx], h.free hx h.wf (by simp) fun _ _ => rfl⟩

/-- 前提を満たす一歩は失敗せず、不変条件を保つ。 -/
theorem Inv.step (h : w.Inv) {op : StoreOp} (hv : w.Valid op) : ∃ w', w.step op = some w' ∧ w'.Inv := by
  cases op with
  | encode name => exact h.step_encode name
  | copy i => exact h.step_copy hv
  | populateList is => exact h.step_populateList hv.1 hv.2
  | makeDynamicStorage name => exact h.step_makeDynamicStorage name
  | join is => exact h.step_join hv
  | free i => exact h.step_free hv

/-- 前提を満たす列は最後まで失敗せず、不変条件を保つ。 -/
theorem inv_of_allowed {ops : List StoreOp} (hv : Lts.AllowedPartial Valid step init ops) :
    ∃ w, Lts.runPartial step init ops = some w ∧ w.Inv :=
  Lts.runPartial_invariant (fun _ _ h hv => h.step hv) inv_init hv

end Store

/-- 前提を満たす操作の列の後で: 二つの写像は互いに逆、各 symbol の参照の数は生きている
`StatNameStorage` と `StatNameList` の中の出現の数（文字列の字句と `join()` の結果は数えない）で、
生きている symbol はちょうど出現する symbol。生きている symbol と `pool_` と `next_symbol_` は
`1..monotonic_counter_` を分ける。`join()` の元が生きている記憶域の `toString()` は作った時のまま。 -/
theorem symbolTable_invariant (ops : List StoreOp)
    (hv : Lts.AllowedPartial Store.Valid Store.step Store.init ops) :
    ∃ w, Lts.runPartial Store.step Store.init ops = some w ∧
      AList.Inverse SharedSymbol.symbol w.table.encodeMap w.table.decodeMap ∧
      (∀ s ss, w.table.encodeMap.lookup s = some ss → ss.refCount = w.heldCount ss.symbol) ∧
      (∀ symbol, symbol ∈ w.table.decodeMap ↔ 0 < w.heldCount symbol) ∧
      FreeList.Partition w.table.decodeMap.keys w.table.alloc ∧
      w.table.numSymbols + w.table.pool.length + 1 = w.table.monotonicCounter ∧
      ∀ i x, w.storages i = some x → w.Anchored i → x.names.map w.table.toString = x.created := by
  obtain ⟨w, hw, h⟩ := Store.inv_of_allowed hv
  refine ⟨w, hw, h.wf.inverse, fun s ss hs => ?_, fun symbol => ?_, h.wf.partition, h.wf.numSymbols_add,
    h.stable⟩
  · rw [← h.refCount, h.wf.refCountOf_of_lookup hs]
  · rw [h.wf.mem_iff_refCountOf_pos, h.refCount]

theorem symbolTable_invariant_encode_free :
    Lts.AllowedPartial Store.Valid Store.step Store.init [.encode [97, 46, 97], .makeDynamicStorage [98], .free 0] ∧
      ∃ w, Lts.runPartial Store.step Store.init [.encode [97, 46, 97], .makeDynamicStorage [98], .free 0] = some w ∧
        w.table.numSymbols + w.table.pool.length + 1 = w.table.monotonicCounter :=
  have hv : Lts.AllowedPartial Store.Valid Store.step Store.init
      [.encode [97, 46, 97], .makeDynamicStorage [98], .free 0] :=
    ⟨trivial, fun _ h₁ => ⟨trivial, fun _ h₂ => ⟨by cases h₁; cases h₂; rfl, fun _ _ => trivial⟩⟩⟩
  have ⟨w, hw, _, _, _, _, hcount, _⟩ := symbolTable_invariant _ hv
  ⟨hv, w, hw, hcount⟩

/-- `join()` の結果は参照を持たない: 元の記憶域を捨てて symbol が使い回されると、
`toString()` は別の名前になる（`a` をつないだ名前が、`a` を捨てて `b`、`c` を作ると `c` になる）。 -/
theorem symbolTable_join_outlives_sources :
    (Lts.runPartial Store.step Store.init [.encode [97], .join [0], .free 0, .encode [98], .encode [99]]).map
      (fun w => ((w.storages 1).map Storage.created, (w.storages 1).map fun x => x.names.map w.table.toString)) =
    some (some [some [97]], some [some [99]]) := by
  decide

end Envoy.Stats
