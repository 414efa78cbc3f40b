import Envoy.Stats.RoundTrip

/-!
# 字句の列での比較: `lessThan` と `startsWith`

`lessThan(a, b)` は二つの名前の字句を一つずつ読み、同じ symbol なら文字列に戻さずに進み、そうでなければ
文字列を比べる。使える字句の列の符号である名前では、これは字句の文字列の列の辞書式の順（字句は byte 列
として比べ、真の接頭辞は先に来る）に一致し、したがって狭義の弱順序で、比べられない二つは文字列の列が
等しい。`startsWith(prefix)` は、字句がすべて symbol の `prefix` について、字句の列の接頭辞であることを
調べる。
-/

namespace Envoy.Stats

open SymbolTable SymbolTable.Encoding

/-- 字句の列の符号を読み始めた `TokenIter`。 -/
def iterOf (ts : List Token) : TokenIter := ⟨tokensBytes ts, (tokensBytes ts).length⟩

theorem create_ofTokens (ts : List Token) : TokenIter.create (ofTokens ts) = iterOf ts := by
  simp [TokenIter.create, ofTokens, decodeNumber_appendEncoding, iterOf]

@[simp] theorem next_iterOf_nil : (iterOf []).next = none := rfl

theorem next_iterOf_cons {tk : Token} (ht : tk.Valid) (ts : List Token) :
    (iterOf (tk :: ts)).next = some (tk, iterOf ts) := by
  have h := TokenIter.next_encode ht (tokensBytes ts) (tokensBytes ts).length
  rw [← List.length_append] at h
  exact h

theorem length_lt_length_ofTokens (ts : List Token) : ts.length < (ofTokens ts).length + 1 := by
  have := length_le_length_tokensBytes ts
  simp only [ofTokens, List.length_append]
  omega

theorem eq_of_sameSymbol {x y : Token} (h : sameSymbol x y = true) : x = y := by
  cases x <;> cases y <;> simp_all [sameSymbol]

theorem mapM_cons_eq_some {α β : Type*} {f : α → Option β} {x : α} {xs : List α} {r : List β}
    (h : (x :: xs).mapM f = some r) : ∃ a r', f x = some a ∧ xs.mapM f = some r' ∧ r = a :: r' := by
  simp only [List.mapM_cons, Option.bind_eq_bind, Option.bind_eq_some_iff, Option.pure_def,
    Option.some.injEq] at h
  obtain ⟨a, ha, r', hr', rfl⟩ := h
  exact ⟨a, r', ha, hr', rfl⟩

theorem decodeStrings_ofTokens (t : SymbolTable) {ts : List Token} (hv : ∀ tk ∈ ts, tk.Valid) :
    t.decodeStrings (ofTokens ts) = ts.mapM t.tokenString := by
  rw [decodeStrings, decodeTokens_ofTokens hv]

/-! ## `lessThan` -/

/-- while 文の各周: 字句の文字列が同じなら次の字句へ、違えばその字句の順で決まる。 -/
theorem lessThanLoop_iterOf (t : SymbolTable) {xs ys : List Token} (hx : ∀ tk ∈ xs, tk.Valid)
    (hy : ∀ tk ∈ ys, tk.Valid) {sa sb : List Bytes} (hsa : xs.mapM t.tokenString = some sa)
    (hsb : ys.mapM t.tokenString = some sb) {fuel : Nat} (hfuel : xs.length < fuel) :
    t.lessThanLoop fuel (iterOf xs) (iterOf ys) = some (decide (sa < sb)) := by
  induction xs generalizing ys sa sb fuel with
  | nil =>
    obtain ⟨fuel, rfl⟩ := Nat.exists_eq_add_one_of_ne_zero (by omega : fuel ≠ 0)
    cases hsa
    cases ys with
    | nil =>
      cases hsb
      rfl
    | cons y ys =>
      obtain ⟨b, sb', -, -, rfl⟩ := mapM_cons_eq_some hsb
      rw [lessThanLoop, next_iterOf_nil, next_iterOf_cons (hy y (by simp))]
      simp [List.nil_lt_cons]
  | cons x xs ih =>
    obtain ⟨fuel, rfl⟩ := Nat.exists_eq_add_one_of_ne_zero (by omega : fuel ≠ 0)
    obtain ⟨a, sa', ha, hsa', rfl⟩ := mapM_cons_eq_some hsa
    have hx' : ∀ tk ∈ xs, tk.Valid := fun tk h => hx tk (by simp [h])
    cases ys with
    | nil =>
      cases hsb
      rw [lessThanLoop, next_iterOf_cons (hx x (by simp)), next_iterOf_nil]
      simp
    | cons y ys =>
      obtain ⟨b, sb', hb, hsb', rfl⟩ := mapM_cons_eq_some hsb
      have hy' : ∀ tk ∈ ys, tk.Valid := fun tk h => hy tk (by simp [h])
      have hnext := ih hx' hy' hsa' hsb' (show xs.length < fuel by simp at hfuel; omega)
      rw [lessThanLoop, next_iterOf_cons (hx x (by simp)), next_iterOf_cons (hy y (by simp))]
      dsimp only
      -- 先頭の字句の文字列が同じなら、順は残りの字句で決まる
      have htail : a = b → decide (a :: sa' < b :: sb') = decide (sa' < sb') := by
        rintro rfl
        simp
      by_cases hsame : sameSymbol x y = true
      · rw [if_pos hsame, hnext]
        rw [eq_of_sameSymbol hsame, hb, Option.some.injEq] at ha
        rw [htail ha.symm]
      · rw [if_neg hsame, ha, hb]
        simp only [Option.bind_eq_bind, Option.bind_some]
        by_cases hab : a = b
        · rw [if_neg (not_not.mpr hab), hnext, htail hab]
        · rw [if_pos hab]
          simp [List.cons_lt_cons_iff, hab]

theorem lessThan_ofTokens (t : SymbolTable) {xs ys : List Token} (hx : ∀ tk ∈ xs, tk.Valid)
    (hy : ∀ tk ∈ ys, tk.Valid) {sa sb : List Bytes} (hsa : t.decodeStrings (ofTokens xs) = some sa)
    (hsb : t.decodeStrings (ofTokens ys) = some sb) :
    t.lessThan (ofTokens xs) (ofTokens ys) = some (decide (sa < sb)) := by
  rw [decodeStrings_ofTokens t hx] at hsa
  rw [decodeStrings_ofTokens t hy] at hsb
  rw [lessThan, create_ofTokens, create_ofTokens]
  exact lessThanLoop_iterOf t hx hy hsa hsb (length_lt_length_ofTokens xs)

theorem lessThan_eq (t : SymbolTable) {a b : StatName} (ha : WellFormed a) (hb : WellFormed b) {sa sb : List Bytes}
    (hsa : t.decodeStrings a = some sa) (hsb : t.decodeStrings b = some sb) :
    t.lessThan a b = some (decide (sa < sb)) := by
  obtain ⟨xs, hx, rfl⟩ := ha
  obtain ⟨ys, hy, rfl⟩ := hb
  exact lessThan_ofTokens t hx hy hsa hsb

/-! ## `startsWith` -/

/-- while 文の各周: `prefix` の字句が尽きれば真、そうでなければ同じ symbol の間だけ進む。 -/
theorem startsWithLoop_iterOf {ts ps : List Token} (ht : ∀ tk ∈ ts, tk.Valid) (hp : ∀ tk ∈ ps, tk.Valid)
    (hsym : ∀ tk ∈ ps, ∃ s, tk = .symbol s) {fuel : Nat} (hfuel : ps.length < fuel) :
    startsWithLoop fuel (iterOf ts) (iterOf ps) = some (decide (ps <+: ts)) := by
  induction ps generalizing ts fuel with
  | nil =>
    obtain ⟨fuel, rfl⟩ := Nat.exists_eq_add_one_of_ne_zero (by omega : fuel ≠ 0)
    rw [startsWithLoop, next_iterOf_nil]
    simp
  | cons p ps ih =>
    obtain ⟨fuel, rfl⟩ := Nat.exists_eq_add_one_of_ne_zero (by omega : fuel ≠ 0)
    obtain ⟨s, rfl⟩ := hsym p (by simp)
    have hp' : ∀ tk ∈ ps, tk.Valid := fun tk h => hp tk (by simp [h])
    have hsym' : ∀ tk ∈ ps, ∃ s, tk = .symbol s := fun tk h => hsym tk (by simp [h])
    cases ts with
    | nil =>
      rw [startsWithLoop, next_iterOf_cons (hp _ (by simp)), next_iterOf_nil]
      simp
    | cons tk ts =>
      have ht' : ∀ tk ∈ ts, tk.Valid := fun tk' h => ht tk' (by simp [h])
      rw [startsWithLoop, next_iterOf_cons (hp _ (by simp)), next_iterOf_cons (ht tk (by simp))]
      dsimp only
      by_cases htk : tk = .symbol s
      · rw [if_pos htk, ih ht' hp' hsym' (by simp at hfuel; omega), htk]
        simp [List.cons_prefix_cons]
      · rw [if_neg htk]
        simp [List.cons_prefix_cons, Ne.symm htk]

theorem startsWith_eq {a b : StatName} (ha : WellFormed a) (hb : WellFormed b)
    (hsym : ∀ tk ∈ decodeTokens b, ∃ s, tk = .symbol s) :
    SymbolTable.startsWith a b = some (decide (decodeTokens b <+: decodeTokens a)) := by
  obtain ⟨ts, ht, rfl⟩ := ha
  obtain ⟨ps, hp, rfl⟩ := hb
  rw [decodeTokens_ofTokens hp] at hsym ⊢
  rw [decodeTokens_ofTokens ht, SymbolTable.startsWith, create_ofTokens, create_ofTokens]
  exact startsWithLoop_iterOf ht hp hsym (length_lt_length_ofTokens ps)

/-! ## 順序として -/

/-- 字句の文字列の列の辞書式の順で比べられない二つは等しい。 -/
theorem not_lt_and_not_lt_iff {sa sb : List Bytes} : ¬sa < sb ∧ ¬sb < sa ↔ sa = sb := by
  constructor
  · rintro ⟨hab, hba⟩
    exact List.le_antisymm (List.not_lt.mp hba) (List.not_lt.mp hab)
  · rintro rfl
    exact ⟨List.lt_irrefl sa, List.lt_irrefl sa⟩

/-- `SymbolTable::lessThan` は、字句の符号である名前で、表がすべての symbol を知るとき、`decodeStrings`
の辞書式の順（字句は byte 列として比べ、真の接頭辞は先）を返す。よって狭義の弱順序で、比べられない二つは
字句の文字列の列が等しい。`StatName::startsWith(prefix)` は、字句がすべて symbol の `prefix` について、
その字句の列が接頭辞であることを返す。 -/
theorem lessThan_is_token_lex_order (t : SymbolTable) :
    (∀ (a b : StatName) (sa sb : List Bytes), WellFormed a → WellFormed b →
      t.decodeStrings a = some sa → t.decodeStrings b = some sb →
      t.lessThan a b = some (decide (sa < sb)) ∧
      (t.lessThan a b = some false ∧ t.lessThan b a = some false ↔ sa = sb)) ∧
    (∀ (a b c : StatName) (sa sb sc : List Bytes), WellFormed a → WellFormed b → WellFormed c →
      t.decodeStrings a = some sa → t.decodeStrings b = some sb → t.decodeStrings c = some sc →
      t.lessThan a a = some false ∧
      (t.lessThan a b = some true → t.lessThan b c = some true → t.lessThan a c = some true)) ∧
    ∀ a b : StatName, WellFormed a → WellFormed b → (∀ tk ∈ decodeTokens b, ∃ s, tk = .symbol s) →
      (SymbolTable.startsWith a b = some true ↔ decodeTokens b <+: decodeTokens a) := by
  refine ⟨fun a b sa sb ha hb hsa hsb => ?_, fun a b c sa sb sc ha hb hc hsa hsb hsc => ?_,
    fun a b ha hb hsym => ?_⟩
  · rw [lessThan_eq t ha hb hsa hsb, lessThan_eq t hb ha hsb hsa]
    refine ⟨rfl, ?_⟩
    simpa using not_lt_and_not_lt_iff
  · rw [lessThan_eq t ha ha hsa hsa, lessThan_eq t ha hb hsa hsb, lessThan_eq t hb hc hsb hsc,
      lessThan_eq t ha hc hsa hsc]
    refine ⟨by simp [List.lt_irrefl], fun hab hbc => ?_⟩
    simp only [Option.some.injEq, decide_eq_true_eq] at hab hbc ⊢
    exact List.lt_trans hab hbc
  · rw [startsWith_eq ha hb hsym]
    simp

/-- `a.b` を encode した表で `a` も encode し、symbol と動的な字句を混ぜた二つの名前を比べる:
`a.b` の後に動的な `c` を継いだものと、`a` の後に動的な `bb` を継いだもの。先頭の symbol `a` は共通で、
次の字句は symbol の `b` と動的な `bb`。`b` は `bb` の真の接頭辞なので、前の名前が先。 -/
theorem lessThan_symbols_before_literal :
    WellFormed (join [(create.encode [97, 46, 98]).1, makeDynamicStorage [99]]) ∧
      WellFormed (join [((create.encode [97, 46, 98]).2.encode [97]).1, makeDynamicStorage [98, 98]]) ∧
      ((create.encode [97, 46, 98]).2.encode [97]).2.decodeStrings
          (join [(create.encode [97, 46, 98]).1, makeDynamicStorage [99]]) = some [[97], [98], [99]] ∧
      ((create.encode [97, 46, 98]).2.encode [97]).2.decodeStrings
          (join [((create.encode [97, 46, 98]).2.encode [97]).1, makeDynamicStorage [98, 98]]) =
        some [[97], [98, 98]] ∧
      ((create.encode [97, 46, 98]).2.encode [97]).2.lessThan
          (join [(create.encode [97, 46, 98]).1, makeDynamicStorage [99]])
          (join [((create.encode [97, 46, 98]).2.encode [97]).1, makeDynamicStorage [98, 98]]) = some true := by
  have h₀ : create.Wf := wf_create
  have h₁ : (create.encode [97, 46, 98]).2.Wf := (h₀.addTokensToEncoding _).1
  have ha : WellFormed (join [(create.encode [97, 46, 98]).1, makeDynamicStorage [99]]) := by
    refine WellFormed.join fun x hx => ?_
    simp only [List.mem_cons, List.not_mem_nil, or_false] at hx
    rcases hx with rfl | rfl
    exacts [wellFormed_encode h₀ _, wellFormed_makeDynamicStorage _]
  have hb : WellFormed (join [((create.encode [97, 46, 98]).2.encode [97]).1, makeDynamicStorage [98, 98]]) := by
    refine WellFormed.join fun x hx => ?_
    simp only [List.mem_cons, List.not_mem_nil, or_false] at hx
    rcases hx with rfl | rfl
    exacts [wellFormed_encode h₁ _, wellFormed_makeDynamicStorage _]
  have hsa : ((create.encode [97, 46, 98]).2.encode [97]).2.decodeStrings
      (join [(create.encode [97, 46, 98]).1, makeDynamicStorage [99]]) = some [[97], [98], [99]] := by
    decide
  have hsb : ((create.encode [97, 46, 98]).2.encode [97]).2.decodeStrings
      (join [((create.encode [97, 46, 98]).2.encode [97]).1, makeDynamicStorage [98, 98]]) =
        some [[97], [98, 98]] := by
    decide
  refine ⟨ha, hb, hsa, hsb, ?_⟩
  rw [((lessThan_is_token_lex_order _).1 _ _ _ _ ha hb hsa hsb).1]
  decide

end Envoy.Stats
