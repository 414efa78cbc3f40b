import Envoy.Config.XdsResource
import Envoy.Http.Lemmas.Uri
import Envoy.Lib.KeyedList
import Envoy.Lib.Segments

/-!
# xDS の名前の往復

`encodeUrn()` の出力を `decodeUrn()` で読むと、同じ資源の名前に戻る。`encodeUrl()` と `decodeUrl()` も、
`alt` の指示の中の URL まで含めて同じである。proto の `map<string, string>` は順を持たず、
`decodeQueryParams()` は鍵の順に `insert` するので、「同じ」は文脈の鍵と値の組が並べ替えで一致することとする。
往復には、resource type が空でなく、`/` と `?`（URL では `#` も）を含まないことが要る。file の URL は id と
指示しか書かないので他の欄は空とし、id が空なら指示も無いとする（id の無い file の URL では、指示が host に
入って消える）。
-/

namespace Envoy.Config

open Http Http.Utility Http.Utility.PercentEncoding Http.Utility.QueryParamsMulti XdsResourceIdentifier

/-! ## 同じ資源の名前 -/

/-- 二つの URN が同じ資源を指す: 文脈は鍵と値の組の並べ替え。 -/
def ResourceName.Equiv (r r' : ResourceName) : Prop :=
  r.resourceType = r'.resourceType ∧ r.authority = r'.authority ∧ r.id = r'.id ∧
    r.context.entries.Perm r'.context.entries

mutual

/-- 二つの URL が同じ資源を指す: 文脈は並べ替え、`alt` の中も同じ資源。 -/
def ResourceLocator.Equiv : ResourceLocator → ResourceLocator → Prop
  | .mk s a t i c ds, .mk s' a' t' i' c' ds' =>
    s = s' ∧ a = a' ∧ t = t' ∧ i = i' ∧ c.entries.Perm c'.entries ∧ Directive.ListEquiv ds ds'

def Directive.ListEquiv : List Directive → List Directive → Prop
  | [], [] => True
  | .alt l :: ds, .alt l' :: ds' => l.Equiv l' ∧ Directive.ListEquiv ds ds'
  | .entry e :: ds, .entry e' :: ds' => e = e' ∧ Directive.ListEquiv ds ds'
  | _, _ => False

end

/-- 符号化を読み戻せる URN。 -/
def ResourceName.WellFormed (r : ResourceName) : Prop :=
  r.resourceType ≠ [] ∧ 47 ∉ r.resourceType ∧ 63 ∉ r.resourceType

mutual

/-- 符号化を読み戻せる URL。 -/
def ResourceLocator.WellFormed : ResourceLocator → Prop
  | .mk .file authority resourceType id exactContext directives =>
    authority = [] ∧ resourceType = [] ∧ exactContext.entries = [] ∧ (id = [] → directives = []) ∧
      Directive.AllWellFormed directives
  | .mk _ _ resourceType _ _ directives =>
    resourceType ≠ [] ∧ 47 ∉ resourceType ∧ 63 ∉ resourceType ∧ 35 ∉ resourceType ∧
      Directive.AllWellFormed directives

def Directive.AllWellFormed : List Directive → Prop
  | [] => True
  | .alt l :: ds => l.WellFormed ∧ Directive.AllWellFormed ds
  | .entry _ :: ds => Directive.AllWellFormed ds

end

/-! ## 符号化した部分に現れない文字 -/

theorem slash_not_mem_encodeAuthority (authority : Bytes) : 47 ∉ encodeAuthority authority :=
  not_mem_encode (by decide) (by decide) (by decide) authority

theorem encodeIdPath_eq (id : Bytes) :
    encodeIdPath id = if id = [] then [] else 47 :: encode id (lit "%?#[]") := by
  by_cases hid : id = []
  · subst hid
    rfl
  · simp [encodeIdPath, hid, encode_eq_nil_iff, lit]

theorem not_mem_encodeIdPath {c : UInt8} (hc : c = 63 ∨ c = 35) (id : Bytes) : c ∉ encodeIdPath id := by
  rw [encodeIdPath_eq]
  split
  · exact List.not_mem_nil
  · rcases hc with rfl | rfl
    · exact List.not_mem_cons_of_ne_of_not_mem (by decide) (not_mem_encode (by decide) (by decide) (by decide) id)
    · exact List.not_mem_cons_of_ne_of_not_mem (by decide) (not_mem_encode (by decide) (by decide) (by decide) id)

/-! ## 文脈 -/

/-- `encodeContextParams()` が一つの鍵と値から作る片。 -/
def contextComponent (p : Sigma fun _ : Bytes => Bytes) : Bytes :=
  encode p.1 (lit "%#[]&=") ++ lit "=" ++ encode p.2 (lit "%#[]&=")

theorem encodeContextParams_eq (c : ContextParams) (sortContextParams : Bool) :
    ∃ comps, comps.Perm (c.entries.map contextComponent) ∧
      encodeContextParams c sortContextParams = if c.entries = [] then [] else lit "?" ++ (lit "&").intercalate comps := by
  let comps := if sortContextParams then (c.entries.map contextComponent).mergeSort (fun a b => decide (a ≤ b))
    else c.entries.map contextComponent
  have hperm : comps.Perm (c.entries.map contextComponent) := by
    by_cases hs : sortContextParams
    · simp only [comps, hs, if_true]
      exact List.mergeSort_perm _ _
    · simp only [comps, hs]
      exact List.Perm.refl _
  refine ⟨comps, hperm, ?_⟩
  show (if comps.isEmpty then [] else lit "?" ++ (lit "&").intercalate comps) = _
  -- 片の列が空なのは、文脈が空の時だけ
  have hempty : comps.isEmpty = decide (c.entries = []) := by
    rw [Bool.eq_iff_iff, List.isEmpty_iff, decide_eq_true_iff, ← List.length_eq_zero_iff, hperm.length_eq,
      List.length_map, List.length_eq_zero_iff]
  rw [hempty]
  by_cases hc : c.entries = [] <;> simp [hc]

theorem not_mem_contextComponent {x : UInt8} (hx : x = 38 ∨ x = 35) (p : Sigma fun _ : Bytes => Bytes) :
    x ∉ contextComponent p := by
  have hr : x ∈ lit "%#[]&=" ∧ x ≠ 37 ∧ x ∉ upperHexDigits ∧ x ∉ lit "=" := by
    rcases hx with rfl | rfl <;> decide
  have h := fun v => not_mem_encode hr.1 hr.2.1 hr.2.2.1 v
  simp only [contextComponent, List.mem_append, not_or]
  exact ⟨⟨h _, hr.2.2.2⟩, h _⟩

theorem splitParam_contextComponent (p : Sigma fun _ : Bytes => Bytes) :
    splitParam (contextComponent p) = (encode p.1 (lit "%#[]&="), encode p.2 (lit "%#[]&=")) :=
  splitParam_append (not_mem_encode (by decide) (by decide) (by decide) _) _

theorem contextComponent_ne_nil (p : Sigma fun _ : Bytes => Bytes) : contextComponent p ≠ [] := by
  simp [contextComponent, lit]

theorem hash_not_mem_encodeContextParams (c : ContextParams) (sortContextParams : Bool) :
    35 ∉ encodeContextParams c sortContextParams := by
  obtain ⟨comps, hperm, henc⟩ := encodeContextParams_eq c sortContextParams
  rw [henc]
  split
  · exact List.not_mem_nil
  · intro hm
    rw [show lit "?" = [63] from rfl, show lit "&" = [38] from rfl, List.singleton_append, List.mem_cons] at hm
    rcases hm with h | h
    · exact absurd h (by decide)
    · rcases Segments.mem_intercalate h with h | ⟨x, hx, hxs⟩
      · exact absurd h (by decide)
      · obtain ⟨p, -, rfl⟩ := List.mem_map.mp (hperm.subset hx)
        exact not_mem_contextComponent (.inr rfl) p hxs

/-- `decodeQueryParams()` は、符号化した文脈の片を並べ替えた query から、元の鍵と値の組を並べ替えたものを作る。 -/
theorem entries_decodeQueryParams {c : ContextParams} {comps : List Bytes}
    (hperm : comps.Perm (c.entries.map contextComponent)) :
    (decodeQueryParams (lit "?" ++ (lit "&").intercalate comps) ∅).entries.Perm c.entries := by
  have hcomps : ∀ x ∈ comps, 38 ∉ x ∧ x ≠ [] := by
    intro x hx
    obtain ⟨p, -, rfl⟩ := List.mem_map.mp (hperm.subset hx)
    exact ⟨not_mem_contextComponent (.inl rfl) p, contextComponent_ne_nil p⟩
  -- 符号化した鍵、それを読み戻した鍵は、どちらも元の鍵と同じく重ならない
  have hinj : Function.Injective fun k : Bytes => encode k (lit "%#[]&=") :=
    Function.LeftInverse.injective fun k => decode_encode_self (by decide) k
  have hkeys : (c.entries.map Sigma.fst).Nodup := c.nodupKeys
  have hsplit : (comps.map fun x => (splitParam x).1).Perm
      (c.entries.map fun p => encode p.1 (lit "%#[]&=")) := by
    have := hperm.map fun x => (splitParam x).1
    simpa [List.map_map, Function.comp_def, splitParam_contextComponent] using this
  have hnd : (comps.map fun x => (splitParam x).1).Nodup := by
    refine hsplit.nodup_iff.mpr ?_
    simpa [List.map_map, Function.comp_def] using hkeys.map hinj
  have hps := parseQueryString_intercalate comps hcomps hnd
  -- 読んだ組を `decode` したものは元の組
  have hdecoded : ((comps.map fun x => ((splitParam x).1, [(splitParam x).2])).map
      fun it : Bytes × List Bytes => (⟨decode it.1, decode (it.2.headD [])⟩ : Sigma fun _ : Bytes => Bytes)).Perm
      c.entries := by
    have := (hperm.map fun x => (⟨decode (splitParam x).1, decode (splitParam x).2⟩ : Sigma fun _ : Bytes => Bytes))
    have hdec : ∀ v, decode (encode v (lit "%#[]&=")) = v := decode_encode_self (by decide)
    simpa [List.map_map, Function.comp_def, splitParam_contextComponent, hdec] using this
  have hdecoded' := (hps.map fun it : Bytes × List Bytes =>
    (⟨decode it.1, decode (it.2.headD [])⟩ : Sigma fun _ : Bytes => Bytes)).trans hdecoded
  have hnd' : ((parseQueryString (lit "?" ++ (lit "&").intercalate comps)).map fun it => decode it.1).Nodup := by
    have := (hdecoded'.map Sigma.fst).nodup_iff.mpr hkeys
    simpa [List.map_map, Function.comp_def] using this
  have hentries := KeyedList.entries_foldl_insert (fun it : Bytes × List Bytes => decode it.1)
    (fun it => decode (it.2.headD [])) _ ∅ hnd' (by simp)
  rw [AList.empty_entries, List.append_nil] at hentries
  rw [decodeQueryParams, hentries]
  exact (List.reverse_perm _).map _ |>.trans hdecoded'

/-- `?` を含まない path の後に文脈を符号化したものは、`splitQuery` で path と、並べ替えた文脈に分かれる。 -/
theorem splitQuery_encodeContextParams {path : Bytes} (h63 : 63 ∉ path) (c : ContextParams)
    (sortContextParams : Bool) :
    (splitQuery (path ++ encodeContextParams c sortContextParams)).1 = path ∧
      (splitQuery (path ++ encodeContextParams c sortContextParams)).2.entries.Perm c.entries := by
  obtain ⟨comps, hperm, henc⟩ := encodeContextParams_eq c sortContextParams
  rw [henc]
  by_cases hc : c.entries = []
  · rw [if_pos hc, List.append_nil]
    simp [splitQuery, idxOf?_eq_none h63, hc]
  · rw [if_neg hc, show lit "?" ++ (lit "&").intercalate comps = 63 :: (lit "&").intercalate comps from rfl]
    simp only [splitQuery, idxOf?_append_cons h63, List.take_left', List.drop_left', true_and]
    exact entries_decodeQueryParams hperm

/-! ## path -/

/-- resource type の後に id の path を書いたものは、`decodePath` で resource type と id に戻る。 -/
theorem decodePath_encodeIdPath {resourceType : Bytes} (ht : resourceType ≠ []) (h47 : 47 ∉ resourceType)
    (id : Bytes) : decodePath (47 :: (resourceType ++ encodeIdPath id)) true = .ok (resourceType, id) := by
  have hsep : ∀ x ∈ resourceType, (x == 47) = false := fun x hx => beq_false_of_ne fun h => h47 (h ▸ hx)
  have hslash : lit "/" = [47] := rfl
  rw [encodeIdPath_eq]
  split
  · case isTrue hid =>
    subst hid
    have hsplit : resourceType.splitOn 47 = [resourceType] := by
      rw [List.splitOn_eq_splitOnP, List.splitOnP_eq_singleton hsep]
    simp [decodePath, hsplit, ht]
  · case isFalse hid =>
    have hdec : decode (encode id (lit "%?#[]")) = id := decode_encode_self (by decide) id
    have hsplit : (resourceType ++ 47 :: encode id (lit "%?#[]")).splitOn 47 =
        resourceType :: (encode id (lit "%?#[]")).splitOn 47 := by
      rw [List.splitOn_eq_splitOnP, List.splitOnP_append_cons_of_forall_mem hsep 47 (by simp),
        ← List.splitOn_eq_splitOnP]
    simp [decodePath, hsplit, ht, hslash, List.intercalate_splitOn, hdec]

/-- file の URL の path: 空でない id の path は、`decodePath` で id に戻る。 -/
theorem decodePath_encodeIdPath_file {id : Bytes} (hid : id ≠ []) : decodePath (encodeIdPath id) false = .ok ([], id) := by
  have hdec : decode (encode id (lit "%?#[]")) = id := decode_encode_self (by decide) id
  have hslash : lit "/" = [47] := rfl
  rw [encodeIdPath_eq, if_neg hid]
  simp [decodePath, hslash, List.intercalate_splitOn, hdec]

/-! ## URN の往復 -/

theorem hasXdsTpScheme_encodeUrn (r : ResourceName) (sortContextParams : Bool) :
    hasXdsTpScheme (encodeUrn r sortContextParams) = true := by
  simp [hasXdsTpScheme, encodeUrn, lit, List.isPrefixOf]

theorem encodeUrn_eq (r : ResourceName) (sortContextParams : Bool) :
    encodeUrn r sortContextParams = lit "xdstp" ++ lit "://" ++ encodeAuthority r.authority ++
      47 :: ((r.resourceType ++ encodeIdPath r.id) ++ encodeContextParams r.context sortContextParams) := by
  simp only [encodeUrn, List.append_assoc]
  rfl

/-- URN の往復の中身: resource type、authority、id はそのまま戻り、文脈は並べ替えで戻る。 -/
theorem decodeUrn_encodeUrn_context (r : ResourceName) (hr : r.WellFormed) (sortContextParams : Bool) :
    ∃ c, decodeUrn (encodeUrn r sortContextParams) = .ok ⟨r.resourceType, r.authority, r.id, c⟩ ∧
      c.entries.Perm r.context.entries := by
  obtain ⟨ht, h47, h63⟩ := hr
  have hpath : 63 ∉ 47 :: (r.resourceType ++ encodeIdPath r.id) := by
    simp [h63, not_mem_encodeIdPath (.inl rfl)]
  obtain ⟨hsplit, hctx⟩ := splitQuery_encodeContextParams hpath r.context sortContextParams
  refine ⟨_, ?_, hctx⟩
  have hscheme : (58 : UInt8) ∉ lit "xdstp" := by decide
  have hauthority : decode (encodeAuthority r.authority) = r.authority := decode_encode_self (by decide) _
  simp only [decodeUrn, hasXdsTpScheme_encodeUrn, Bool.not_true, Bool.false_eq_true, if_false]
  rw [encodeUrn_eq, extractHostPathFromUri_scheme hscheme (slash_not_mem_encodeAuthority _)]
  rw [show 47 :: (r.resourceType ++ encodeIdPath r.id ++ encodeContextParams r.context sortContextParams) =
    47 :: (r.resourceType ++ encodeIdPath r.id) ++ encodeContextParams r.context sortContextParams from rfl]
  rw [hsplit, decodePath_encodeIdPath ht h47, hauthority]
  rfl

theorem decodeUrn_encodeUrn (r : ResourceName) (hr : r.WellFormed) (sortContextParams : Bool) :
    ∃ r', decodeUrn (encodeUrn r sortContextParams) = .ok r' ∧ r'.Equiv r := by
  obtain ⟨c, hdec, hc⟩ := decodeUrn_encodeUrn_context r hr sortContextParams
  exact ⟨_, hdec, rfl, rfl, rfl, hc⟩

theorem decodeUrn_encodeUrn_listener :
    ∃ r', decodeUrn (encodeUrn ⟨lit "envoy.config.listener.v3.Listener", lit "my.authority", lit "listeners/a b",
        (∅ : ContextParams).insert (lit "k") (lit "v&w")⟩ false) = .ok r' ∧
      r'.Equiv ⟨lit "envoy.config.listener.v3.Listener", lit "my.authority", lit "listeners/a b",
        (∅ : ContextParams).insert (lit "k") (lit "v&w")⟩ := by
  refine decodeUrn_encodeUrn _ ?_ false
  exact ⟨by decide, by decide, by decide⟩

/-- 文脈は鍵の順の逆で戻るので、往復は並べ替えまでしか言えない。 -/
example : ((decodeUrn (encodeUrn ⟨lit "t", [], [], ((∅ : ContextParams).insert (lit "a") (lit "1")).insert
    (lit "b") (lit "2")⟩ false)).toOption.map fun r => r.context.entries.map Sigma.fst) =
      some [lit "b", lit "a"] := by
  decide

/-! ## 並べた文脈の符号化は一つに決まる -/

/-- byte 列の辞書式の順で並べると、並べ替えで等しい列は同じ列になる。 -/
theorem mergeSort_eq_of_perm {l l' : List Bytes} (h : l.Perm l') :
    l.mergeSort (fun a b => decide (a ≤ b)) = l'.mergeSort (fun a b => decide (a ≤ b)) := by
  have htrans : ∀ a b c : Bytes, decide (a ≤ b) = true → decide (b ≤ c) = true → decide (a ≤ c) = true := by
    intro a b c hab hbc
    exact decide_eq_true (List.le_trans (of_decide_eq_true hab) (of_decide_eq_true hbc))
  have htotal : ∀ a b : Bytes, (decide (a ≤ b) || decide (b ≤ a)) = true := by
    intro a b
    rcases List.le_total a b with h | h <;> simp [h]
  refine List.Perm.eq_of_pairwise ?_ (List.pairwise_mergeSort htrans htotal l)
    (List.pairwise_mergeSort htrans htotal l') ((l.mergeSort_perm _).trans (h.trans (l'.mergeSort_perm _).symm))
  intro a b _ _ hab hba
  exact List.le_antisymm (of_decide_eq_true hab) (of_decide_eq_true hba)

/-- 並べて符号化した文脈は、鍵と値の組の順に依らない。 -/
theorem encodeContextParams_sorted_of_perm {c c' : ContextParams} (h : c.entries.Perm c'.entries) :
    encodeContextParams c true = encodeContextParams c' true := by
  have hsorted := mergeSort_eq_of_perm (h.map contextComponent)
  show (if ((c.entries.map contextComponent).mergeSort fun a b => decide (a ≤ b)).isEmpty then []
      else lit "?" ++ (lit "&").intercalate ((c.entries.map contextComponent).mergeSort fun a b => decide (a ≤ b))) =
    (if ((c'.entries.map contextComponent).mergeSort fun a b => decide (a ≤ b)).isEmpty then []
      else lit "?" ++ (lit "&").intercalate ((c'.entries.map contextComponent).mergeSort fun a b => decide (a ≤ b)))
  rw [hsorted]

theorem encodeUrn_decodeUrn_sorted (r : ResourceName) (hr : r.WellFormed) :
    ∃ r', decodeUrn (encodeUrn r true) = .ok r' ∧ encodeUrn r' true = encodeUrn r true := by
  obtain ⟨c, hdec, hc⟩ := decodeUrn_encodeUrn_context r hr true
  refine ⟨_, hdec, ?_⟩
  simp only [encodeUrn, encodeContextParams_sorted_of_perm hc]

theorem encodeUrn_decodeUrn_sorted_two_params :
    ∃ r', decodeUrn (encodeUrn ⟨lit "envoy.Cluster", [], lit "c", ((∅ : ContextParams).insert (lit "a") (lit "1")).insert
        (lit "b") (lit "2")⟩ true) = .ok r' ∧
      encodeUrn r' true = encodeUrn ⟨lit "envoy.Cluster", [], lit "c", ((∅ : ContextParams).insert (lit "a") (lit "1")).insert
        (lit "b") (lit "2")⟩ true := by
  refine encodeUrn_decodeUrn_sorted _ ?_
  exact ⟨by decide, by decide, by decide⟩

/-! ## URL の指示 -/

/-- `encodeUrl()` の `fragment`。 -/
def urlFragment (ds : List Directive) : Bytes :=
  if (encodeDirectives ds).isEmpty then [] else lit "#" ++ (lit ",").intercalate (encodeDirectives ds)

theorem encodeDirectives_eq_nil_iff {ds : List Directive} : encodeDirectives ds = [] ↔ ds = [] := by
  cases ds with
  | nil => simp [encodeDirectives]
  | cons d ds => cases d <;> simp [encodeDirectives]

theorem urlFragment_of_ne_nil {ds : List Directive} (h : ds ≠ []) :
    urlFragment ds = 35 :: (lit ",").intercalate (encodeDirectives ds) := by
  have h' : encodeDirectives ds ≠ [] := fun he => h (encodeDirectives_eq_nil_iff.mp he)
  simp [urlFragment, h', lit]

theorem comma_not_mem_encodeDirectives : ∀ (ds : List Directive), ∀ comp ∈ encodeDirectives ds, 44 ∉ comp
  | [] => fun _ h => absurd h List.not_mem_nil
  | .alt l :: ds => by
    intro comp hcomp
    rw [encodeDirectives, List.mem_cons] at hcomp
    rcases hcomp with rfl | hcomp
    · exact List.not_mem_append (by decide) (not_mem_encode (by decide) (by decide) (by decide) _)
    · exact comma_not_mem_encodeDirectives ds comp hcomp
  | .entry e :: ds => by
    intro comp hcomp
    rw [encodeDirectives, List.mem_cons] at hcomp
    rcases hcomp with rfl | hcomp
    · exact List.not_mem_append (by decide) (not_mem_encode (by decide) (by decide) (by decide) _)
    · exact comma_not_mem_encodeDirectives ds comp hcomp

theorem length_le_of_mem_intercalate (sep : Bytes) :
    ∀ {comps : List Bytes} {comp : Bytes}, comp ∈ comps → comp.length ≤ (sep.intercalate comps).length
  | [_], _, h => by
    rw [List.mem_singleton.mp h, List.intercalate_singleton]
  | c :: c' :: rest, comp, h => by
    rw [List.intercalate_cons_cons, List.length_append, List.length_append]
    rcases List.mem_cons.mp h with rfl | h
    · omega
    · have := length_le_of_mem_intercalate sep h
      omega

theorem decodeFragmentComponents_alt (decodeUrl : Bytes → Except DecodeError ResourceLocator) (url : Bytes)
    (rest : List Bytes) :
    decodeFragmentComponents decodeUrl ((lit "alt=" ++ encode url directiveEscapeChars) :: rest) = do
      let locator ← decodeUrl url
      let directives ← decodeFragmentComponents decodeUrl rest
      return .alt locator :: directives := by
  have h : decode (encode url directiveEscapeChars) = url := decode_encode_self (by decide) url
  simp [decodeFragmentComponents, lit, List.isPrefixOf, h]

theorem decodeFragmentComponents_entry (decodeUrl : Bytes → Except DecodeError ResourceLocator) (entry : Bytes)
    (rest : List Bytes) :
    decodeFragmentComponents decodeUrl ((lit "entry=" ++ encode entry directiveEscapeChars) :: rest) = do
      let directives ← decodeFragmentComponents decodeUrl rest
      return .entry entry :: directives := by
  have h : decode (encode entry directiveEscapeChars) = entry := decode_encode_self (by decide) entry
  simp [decodeFragmentComponents, lit, List.isPrefixOf, h]

/-! ## URL の往復 -/

theorem encodeUrl_xdstp (sortContextParams : Bool) (authority resourceType id : Bytes) (c : ContextParams)
    (ds : List Directive) :
    encodeUrl sortContextParams (.mk .xdstp authority resourceType id c ds) =
      lit "xdstp" ++ lit "://" ++ encodeAuthority authority ++
        47 :: (resourceType ++ encodeIdPath id ++ encodeContextParams c sortContextParams ++ urlFragment ds) := by
  simp only [encodeUrl, List.append_assoc]
  rfl

theorem encodeUrl_http (sortContextParams : Bool) (authority resourceType id : Bytes) (c : ContextParams)
    (ds : List Directive) :
    encodeUrl sortContextParams (.mk .http authority resourceType id c ds) =
      lit "http" ++ lit "://" ++ encodeAuthority authority ++
        47 :: (resourceType ++ encodeIdPath id ++ encodeContextParams c sortContextParams ++ urlFragment ds) := by
  simp only [encodeUrl, List.append_assoc]
  rfl

theorem encodeUrl_file (sortContextParams : Bool) (authority resourceType id : Bytes) (c : ContextParams)
    (ds : List Directive) :
    encodeUrl sortContextParams (.mk .file authority resourceType id c ds) =
      lit "file://" ++ encodeIdPath id ++ urlFragment ds := by
  simp only [encodeUrl]
  rfl

/-- file でない URL の host と path、scheme の判定。 -/
theorem encodeUrl_parts {s : Scheme} (hs : s ≠ .file) (sortContextParams : Bool) (authority resourceType id : Bytes)
    (c : ContextParams) (ds : List Directive) :
    extractHostPathFromUri (encodeUrl sortContextParams (.mk s authority resourceType id c ds)) =
        (encodeAuthority authority,
          47 :: (resourceType ++ encodeIdPath id ++ encodeContextParams c sortContextParams ++ urlFragment ds)) ∧
      hasXdsTpScheme (encodeUrl sortContextParams (.mk s authority resourceType id c ds)) = (s == .xdstp) ∧
      (lit "http:").isPrefixOf (encodeUrl sortContextParams (.mk s authority resourceType id c ds)) = (s == .http) := by
  cases s with
  | file => exact absurd rfl hs
  | xdstp =>
    rw [encodeUrl_xdstp]
    exact ⟨extractHostPathFromUri_scheme (by decide) (slash_not_mem_encodeAuthority _) _,
      by simp [hasXdsTpScheme, lit, List.isPrefixOf], by simp [lit, List.isPrefixOf]⟩
  | http =>
    rw [encodeUrl_http]
    exact ⟨extractHostPathFromUri_scheme (by decide) (slash_not_mem_encodeAuthority _) _,
      by simp [hasXdsTpScheme, lit, List.isPrefixOf], by simp [lit, List.isPrefixOf]⟩

theorem decodeUrlFuel_encodeUrl_of_fragment {s : Scheme} (hs : s ≠ .file) (authority : Bytes) {resourceType : Bytes}
    (id : Bytes) (c : ContextParams) {ds ds' : List Directive} (ht : resourceType ≠ []) (h47 : 47 ∉ resourceType)
    (h63 : 63 ∉ resourceType) (h35 : 35 ∉ resourceType) {fuel : Nat}
    (hfrag : decodeFragmentComponents (decodeUrlFuel fuel) (encodeDirectives ds) = .ok ds')
    (sortContextParams : Bool) :
    ∃ c', decodeUrlFuel (fuel + 1) (encodeUrl sortContextParams (.mk s authority resourceType id c ds)) =
        .ok (.mk s authority resourceType id c' ds') ∧ c'.entries.Perm c.entries := by
  have hpath : 63 ∉ 47 :: (resourceType ++ encodeIdPath id) := by
    simp [h63, not_mem_encodeIdPath (.inl rfl)]
  have hP : 35 ∉ 47 :: (resourceType ++ encodeIdPath id) ++ encodeContextParams c sortContextParams := by
    simp [h35, not_mem_encodeIdPath (.inr rfl), hash_not_mem_encodeContextParams]
  obtain ⟨hsplit, hctx⟩ := splitQuery_encodeContextParams hpath c sortContextParams
  generalize hq : splitQuery (47 :: (resourceType ++ encodeIdPath id) ++ encodeContextParams c sortContextParams) = q
    at hsplit hctx
  obtain ⟨path, c'⟩ := q
  dsimp only at hsplit hctx
  subst hsplit
  refine ⟨c', ?_, hctx⟩
  obtain ⟨hext, hx, hhttp⟩ := encodeUrl_parts hs sortContextParams authority resourceType id c ds
  have hauth : decode (encodeAuthority authority) = authority := decode_encode_self (by decide) _
  rw [decodeUrlFuel.eq_2, hext]
  simp only [hx, hhttp]
  -- fragment の前の path を一つの列として扱う
  rw [show 47 :: (resourceType ++ encodeIdPath id ++ encodeContextParams c sortContextParams ++ urlFragment ds) =
    (47 :: (resourceType ++ encodeIdPath id) ++ encodeContextParams c sortContextParams) ++ urlFragment ds from rfl]
  generalize 47 :: (resourceType ++ encodeIdPath id) ++ encodeContextParams c sortContextParams = P at hq hP
  by_cases hds : ds = []
  · subst hds
    have hds' : ds' = [] := by
      simp only [encodeDirectives, decodeFragmentComponents, Except.ok.injEq] at hfrag
      exact hfrag.symm
    subst hds'
    rw [show urlFragment [] = [] from rfl, List.append_nil, idxOf?_eq_none hP]
    cases s <;> simp [hq, decodePath_encodeIdPath ht h47, hauth] at hs ⊢
  · have hcomps : ((lit ",").intercalate (encodeDirectives ds)).splitOn 44 = encodeDirectives ds :=
      List.splitOn_intercalate 44 (comma_not_mem_encodeDirectives ds)
        fun he => hds (encodeDirectives_eq_nil_iff.mp he)
    rw [urlFragment_of_ne_nil hds, idxOf?_append_cons hP]
    cases s <;> simp [hq, decodePath_encodeIdPath ht h47, hauth, hcomps, hfrag] at hs ⊢ <;> rfl

/-- file の URL: 空でない id の path と指示だけを読み、他の欄は空になる。 -/
theorem decodeUrlFuel_encodeUrl_file_of_fragment {id : Bytes} (hid : id ≠ []) {ds ds' : List Directive}
    {fuel : Nat} (hfrag : decodeFragmentComponents (decodeUrlFuel fuel) (encodeDirectives ds) = .ok ds')
    (sortContextParams : Bool) (authority resourceType : Bytes) (c : ContextParams) :
    decodeUrlFuel (fuel + 1) (encodeUrl sortContextParams (.mk .file authority resourceType id c ds)) =
      .ok (.mk .file [] [] id ∅ ds') := by
  have hP : 35 ∉ encodeIdPath id := not_mem_encodeIdPath (.inr rfl) id
  obtain ⟨E, hE⟩ : ∃ E, encodeIdPath id = 47 :: E := ⟨_, by rw [encodeIdPath_eq, if_neg hid]⟩
  have hurl : encodeUrl sortContextParams (.mk .file authority resourceType id c ds) =
      lit "file" ++ lit "://" ++ [] ++ 47 :: (E ++ urlFragment ds) := by
    rw [encodeUrl_file, hE]
    rfl
  have hext := extractHostPathFromUri_scheme (by decide : (58 : UInt8) ∉ lit "file") List.not_mem_nil
    (E ++ urlFragment ds)
  rw [← hurl, show 47 :: (E ++ urlFragment ds) = encodeIdPath id ++ urlFragment ds by rw [hE]; rfl] at hext
  have hscheme : hasXdsTpScheme (encodeUrl sortContextParams (.mk .file authority resourceType id c ds)) = false ∧
      (lit "http:").isPrefixOf (encodeUrl sortContextParams (.mk .file authority resourceType id c ds)) = false ∧
      (lit "file:").isPrefixOf (encodeUrl sortContextParams (.mk .file authority resourceType id c ds)) = true := by
    rw [hurl]
    simp [hasXdsTpScheme, lit, List.isPrefixOf]
  rw [decodeUrlFuel.eq_2, hext]
  simp only [hscheme.1, hscheme.2.1, hscheme.2.2]
  by_cases hds : ds = []
  · subst hds
    have hds' : ds' = [] := by
      simp only [encodeDirectives, decodeFragmentComponents, Except.ok.injEq] at hfrag
      exact hfrag.symm
    subst hds'
    rw [show urlFragment [] = [] from rfl, List.append_nil, idxOf?_eq_none hP]
    simp [decodePath_encodeIdPath_file hid]
  · have hcomps : ((lit ",").intercalate (encodeDirectives ds)).splitOn 44 = encodeDirectives ds :=
      List.splitOn_intercalate 44 (comma_not_mem_encodeDirectives ds)
        fun he => hds (encodeDirectives_eq_nil_iff.mp he)
    rw [urlFragment_of_ne_nil hds, idxOf?_append_cons hP]
    simp [decodePath_encodeIdPath_file hid, hcomps, hfrag]
    rfl

theorem length_urlFragment_le (sortContextParams : Bool) (s : Scheme) (authority resourceType id : Bytes)
    (c : ContextParams) (ds : List Directive) :
    (urlFragment ds).length ≤ (encodeUrl sortContextParams (.mk s authority resourceType id c ds)).length := by
  cases s with
  | xdstp =>
    rw [encodeUrl_xdstp]
    simp only [List.length_append, List.length_cons]
    omega
  | http =>
    rw [encodeUrl_http]
    simp only [List.length_append, List.length_cons]
    omega
  | file =>
    rw [encodeUrl_file]
    simp only [List.length_append]
    omega

/-- URL の指示の片は、どれも URL より短い。 -/
theorem length_lt_of_mem_encodeDirectives {sortContextParams : Bool} {s : Scheme} {authority resourceType id : Bytes}
    {c : ContextParams} {ds : List Directive} {comp : Bytes} (hcomp : comp ∈ encodeDirectives ds) :
    comp.length < (encodeUrl sortContextParams (.mk s authority resourceType id c ds)).length := by
  have hds : ds ≠ [] := by
    rintro rfl
    exact List.not_mem_nil hcomp
  have hfrag := length_urlFragment_le sortContextParams s authority resourceType id c ds
  rw [urlFragment_of_ne_nil hds, List.length_cons] at hfrag
  have := length_le_of_mem_intercalate (lit ",") hcomp
  omega

mutual

/-- 燃料が URL の長さより多ければ、`decodeUrlFuel` は符号化した URL を同じ資源の URL に戻す。 -/
theorem decodeUrlFuel_encodeUrl :
    ∀ (l : ResourceLocator) (sortContextParams : Bool) (fuel : Nat), l.WellFormed →
      (encodeUrl sortContextParams l).length < fuel →
      ∃ l', decodeUrlFuel fuel (encodeUrl sortContextParams l) = .ok l' ∧ l'.Equiv l
  | .mk _ _ _ _ _ _, _, 0, _, hlen => absurd hlen (Nat.not_lt_zero _)
  | .mk s authority resourceType id c ds, sortContextParams, fuel + 1, hwf, hlen => by
    have hcomps : ∀ comp ∈ encodeDirectives ds, comp.length ≤ fuel := fun comp hcomp =>
      Nat.le_of_lt_succ ((length_lt_of_mem_encodeDirectives hcomp).trans hlen)
    cases s with
    | file =>
      obtain ⟨rfl, rfl, hc, hid, hds⟩ := hwf
      have hc' : (∅ : ContextParams).entries.Perm c.entries := by rw [hc]; rfl
      by_cases hi : id = []
      · -- id も指示も無い `file://`
        subst hi
        obtain rfl := hid rfl
        refine ⟨.mk .file [] [] [] ∅ [], ?_, rfl, rfl, rfl, rfl, hc', trivial⟩
        rw [encodeUrl_file]
        rfl
      · obtain ⟨ds', hfrag, hequiv⟩ := decodeFragmentComponents_encodeDirectives ds fuel hds hcomps
        exact ⟨_, decodeUrlFuel_encodeUrl_file_of_fragment hi hfrag sortContextParams [] [] c,
          rfl, rfl, rfl, rfl, hc', hequiv⟩
    | xdstp =>
      obtain ⟨ht, h47, h63, h35, hds⟩ := hwf
      obtain ⟨ds', hfrag, hequiv⟩ := decodeFragmentComponents_encodeDirectives ds fuel hds hcomps
      obtain ⟨c', hdec, hc'⟩ := decodeUrlFuel_encodeUrl_of_fragment (show Scheme.xdstp ≠ .file by decide) authority
        id c ht h47 h63 h35 hfrag sortContextParams
      exact ⟨_, hdec, rfl, rfl, rfl, rfl, hc', hequiv⟩
    | http =>
      obtain ⟨ht, h47, h63, h35, hds⟩ := hwf
      obtain ⟨ds', hfrag, hequiv⟩ := decodeFragmentComponents_encodeDirectives ds fuel hds hcomps
      obtain ⟨c', hdec, hc'⟩ := decodeUrlFuel_encodeUrl_of_fragment (show Scheme.http ≠ .file by decide) authority
        id c ht h47 h63 h35 hfrag sortContextParams
      exact ⟨_, hdec, rfl, rfl, rfl, rfl, hc', hequiv⟩

/-- 指示の片が燃料より長くなければ、`decodeFragmentComponents` は符号化した指示を同じ指示に戻す。 -/
theorem decodeFragmentComponents_encodeDirectives :
    ∀ (ds : List Directive) (fuel : Nat), Directive.AllWellFormed ds →
      (∀ comp ∈ encodeDirectives ds, comp.length ≤ fuel) →
      ∃ ds', decodeFragmentComponents (decodeUrlFuel fuel) (encodeDirectives ds) = .ok ds' ∧
        Directive.ListEquiv ds' ds
  | [], _, _, _ => ⟨[], rfl, trivial⟩
  | .alt l :: ds, fuel, hwf, hlen => by
    have hrest : ∀ comp ∈ encodeDirectives ds, comp.length ≤ fuel := fun comp hcomp =>
      hlen comp (List.mem_cons_of_mem _ hcomp)
    -- `alt=` の後の URL は、その片より短い
    have hl : (encodeUrl false l).length < fuel := by
      have hcomp := hlen _ List.mem_cons_self
      have := length_le_length_encode (encodeUrl false l) directiveEscapeChars
      simp only [List.length_append] at hcomp
      have h4 : (lit "alt=").length = 4 := rfl
      omega
    obtain ⟨l', hl', hequiv⟩ := decodeUrlFuel_encodeUrl l false fuel hwf.1 hl
    obtain ⟨ds', hds', hequivs⟩ := decodeFragmentComponents_encodeDirectives ds fuel hwf.2 hrest
    refine ⟨.alt l' :: ds', ?_, hequiv, hequivs⟩
    rw [encodeDirectives, decodeFragmentComponents_alt, hl', hds']
    rfl
  | .entry e :: ds, fuel, hwf, hlen => by
    obtain ⟨ds', hds', hequivs⟩ := decodeFragmentComponents_encodeDirectives ds fuel hwf fun comp hcomp =>
      hlen comp (List.mem_cons_of_mem _ hcomp)
    refine ⟨.entry e :: ds', ?_, rfl, hequivs⟩
    rw [encodeDirectives, decodeFragmentComponents_entry, hds']
    rfl

end

theorem decodeUrl_encodeUrl (l : ResourceLocator) (hl : l.WellFormed) (sortContextParams : Bool) :
    ∃ l', decodeUrl (encodeUrl sortContextParams l) = .ok l' ∧ l'.Equiv l :=
  decodeUrlFuel_encodeUrl l sortContextParams _ hl (Nat.lt_succ_self _)

theorem decodeUrl_encodeUrl_alt :
    ∃ l', decodeUrl (encodeUrl true (.mk .http (lit "example.com") (lit "envoy.Cluster") (lit "c/1")
        ((∅ : ContextParams).insert (lit "a") (lit "b"))
        [.alt (.mk .file [] [] (lit "/etc/c.yaml") ∅ []), .entry (lit "x,y")])) = .ok l' ∧
      l'.Equiv (.mk .http (lit "example.com") (lit "envoy.Cluster") (lit "c/1")
        ((∅ : ContextParams).insert (lit "a") (lit "b"))
        [.alt (.mk .file [] [] (lit "/etc/c.yaml") ∅ []), .entry (lit "x,y")]) := by
  refine decodeUrl_encodeUrl _ ?_ true
  exact ⟨by decide, by decide, by decide, by decide, ⟨rfl, rfl, rfl, fun h => absurd h (by decide), trivial⟩, trivial⟩

end Envoy.Config
