import Envoy.Http.Utility
import Envoy.Lib.Segments

/-!
# `PathUtil::mergeSlashes`

`source/common/http/path_utility.cc` の `mergeSlashes()`。`:path` を最初の `?` の前の path と、`?` からの
query に分け、path に `//` があれば、`/` で分けた空でない片を `/` で繋ぎ直し、path が `/` で始まる
（終わる）なら先頭（末尾）に `/` を置く。

空でない片が無い path（`/` だけが二つ以上）では、先頭と末尾の `/` が並んで `//` が残る。それ以外では
path に `/` は二つ続かず、片の並び、先頭と末尾の `/`、query は変わらず、二度目の `mergeSlashes` は何も
変えない。
-/

namespace Envoy.Http.PathUtil

open Segments

/-- `original_path.substr(0, query_start)`: 最初の `?` の前。 -/
def pathPart (originalPath : Bytes) : Bytes := originalPath.take (originalPath.idxOf 63)

/-- `absl::ClippedSubstr(original_path, query_start)`: 最初の `?` から。`?` が無ければ空。 -/
def queryPart (originalPath : Bytes) : Bytes := originalPath.drop (originalPath.idxOf 63)

/-- `absl::StrCat(path_prefix, absl::StrJoin(absl::StrSplit(path, '/', absl::SkipEmpty()), "/"), path_suffix)`:
path が `/` で始まれば `/`、空でない片を `/` で繋いだもの、path が `/` で終われば `/`。 -/
def joinSegments (path : Bytes) : Bytes :=
  let leadingSlash := if (lit "/").isPrefixOf path then lit "/" else []
  let trailingSlash := if (lit "/").isSuffixOf path then lit "/" else []
  leadingSlash ++ (lit "/").intercalate (splitSkipEmpty 47 path) ++ trailingSlash

/-- `PathUtil::mergeSlashes()`。path に `//` が無ければ `:path` はそのまま。 -/
def mergeSlashes (originalPath : Bytes) : Bytes :=
  let path := pathPart originalPath
  if findSeq (lit "//") path = none then originalPath
  else joinSegments path ++ queryPart originalPath

/-- `//` を `//` のまま返す。 -/
theorem mergeSlashes_keeps_double_slash :
    mergeSlashes (lit "//") = lit "//" ∧ ¬ NoDoubleSep 47 (pathPart (mergeSlashes (lit "//"))) := by
  decide

/-! ## 列の上の補題 -/

theorem findSeq_pair_eq_none_iff (c : UInt8) (l : Bytes) : findSeq [c, c] l = none ↔ NoDoubleSep c l := by
  induction l with
  | nil => exact ⟨fun _ => List.isChain_nil, fun _ => rfl⟩
  | cons x l ih =>
    rw [findSeq, NoDoubleSep, List.isChain_cons, ← NoDoubleSep, ← ih]
    cases l with
    | nil => simp [findSeq]
    | cons y l =>
      by_cases hx : x = c
      · subst hx
        by_cases hy : y = x
        · subst hy
          simp
        · simp [hy, Ne.symm hy]
      · simp [hx, Ne.symm hx]

theorem isPrefixOf_slash (l : Bytes) : (lit "/").isPrefixOf l = decide (l.head? = some 47) := by
  cases l with
  | nil => rfl
  | cons x l => by_cases hx : x = 47 <;> simp [lit, List.isPrefixOf, hx, Ne.symm]

theorem isSuffixOf_slash (l : Bytes) : (lit "/").isSuffixOf l = decide (l.getLast? = some 47) := by
  rw [List.isSuffixOf, show (lit "/").reverse = lit "/" from rfl, isPrefixOf_slash, List.head?_reverse]

theorem idxOf_append_of_not_mem {a : UInt8} {x : Bytes} (h : a ∉ x) (y : Bytes) :
    (x ++ y).idxOf a = x.length + y.idxOf a := by
  induction x with
  | nil => simp
  | cons b x ih =>
    have hb : b ≠ a := fun hb => h (hb ▸ List.mem_cons_self)
    rw [List.cons_append, List.idxOf_cons_ne _ hb, ih fun hx => h (List.mem_cons_of_mem b hx), List.length_cons]
    omega

/-- `?` の前の部分の後に `?` からの部分が続けば、分け方はその二つ。 -/
theorem pathPart_queryPart_append {x q : Bytes} (hx : 63 ∉ x) (hq : q = [] ∨ ∃ q', q = 63 :: q') :
    pathPart (x ++ q) = x ∧ queryPart (x ++ q) = q := by
  have hidx : q.idxOf 63 = 0 := by
    rcases hq with rfl | ⟨q', rfl⟩ <;> simp
  unfold pathPart queryPart
  rw [idxOf_append_of_not_mem hx, hidx, Nat.add_zero]
  simp

theorem not_mem_pathPart (p : Bytes) : 63 ∉ pathPart p := by
  intro h
  obtain ⟨i, hi, hix⟩ := List.getElem_of_mem h
  have hlt : i < p.idxOf 63 := by
    simp only [pathPart, List.length_take] at hi
    omega
  -- `idxOf` は `findIdx (· == 63)` なので、その前に `?` は無い
  have hne := @List.not_of_lt_findIdx _ (fun x => x == 63) p i hlt
  simp only [pathPart, List.getElem_take] at hix
  simp [hix] at hne

theorem queryPart_shape (p : Bytes) : queryPart p = [] ∨ ∃ q', queryPart p = 63 :: q' := by
  by_cases hlt : p.idxOf 63 < p.length
  · refine .inr ⟨p.drop (p.idxOf 63 + 1), ?_⟩
    rw [queryPart, List.drop_eq_getElem_cons hlt, List.getElem_idxOf hlt]
  · exact .inl (List.drop_eq_nil_of_le (by omega))

/-! ## 繋ぎ直した path -/

section JoinSegments

variable {path : Bytes}

theorem slash_eq : lit "/" = [47] := rfl

theorem joinSegments_eq (path : Bytes) :
    joinSegments path = (if path.head? = some 47 then [47] else []) ++ [47].intercalate (splitSkipEmpty 47 path) ++
      (if path.getLast? = some 47 then [47] else []) := by
  unfold joinSegments
  dsimp only
  rw [isPrefixOf_slash, isSuffixOf_slash]
  simp only [decide_eq_true_eq, slash_eq]

theorem pieces (path : Bytes) : ∀ s ∈ splitSkipEmpty 47 path, Piece 47 s := fun _ hs =>
  piece_of_mem_splitSkipEmpty hs

/-- 空でない片の無い path は、空か `/` で始まり `/` で終わる。 -/
theorem head?_getLast?_of_splitSkipEmpty_eq_nil (h : splitSkipEmpty 47 path = []) (hne : path ≠ []) :
    path.head? = some 47 ∧ path.getLast? = some 47 := by
  obtain ⟨x, xs, rfl⟩ := List.exists_cons_of_ne_nil hne
  have hx := eq_sep_of_splitSkipEmpty_eq_nil h List.mem_cons_self
  have hlast := eq_sep_of_splitSkipEmpty_eq_nil h (List.getLast_mem (List.cons_ne_nil x xs))
  refine ⟨by simp [hx], ?_⟩
  rw [List.getLast?_eq_some_getLast (List.cons_ne_nil x xs), hlast]

/-- 繋ぎ直した path の片は、元の path の片。 -/
theorem splitSkipEmpty_joinSegments (path : Bytes) :
    splitSkipEmpty 47 (joinSegments path) = splitSkipEmpty 47 path := by
  have htail : ∀ t : Bytes, t = [] ∨ t = [47] →
      splitSkipEmpty 47 ([47].intercalate (splitSkipEmpty 47 path) ++ t) = splitSkipEmpty 47 path := by
    rintro t (rfl | rfl)
    · rw [List.append_nil, splitSkipEmpty_intercalate (pieces path)]
    · rw [splitSkipEmpty_intercalate_append (pieces path) (.inr ⟨[], rfl⟩), splitSkipEmpty_singleton_sep,
        List.append_nil]
  rw [joinSegments_eq, List.append_assoc]
  have ht : (if path.getLast? = some 47 then ([47] : Bytes) else []) = [] ∨
      (if path.getLast? = some 47 then ([47] : Bytes) else []) = [47] := by
    split <;> simp
  split
  · rw [List.singleton_append, splitSkipEmpty_sep_cons, htail _ ht]
  · rw [List.nil_append, htail _ ht]

/-- 繋ぎ直した path に `/` は二つ続かない。続くのは、空でない片が無く、`//` になる時だけ。 -/
theorem noDoubleSep_joinSegments (path : Bytes) :
    NoDoubleSep 47 (joinSegments path) ∨ splitSkipEmpty 47 path = [] ∧ joinSegments path = lit "//" := by
  rw [joinSegments_eq]
  by_cases hsegs : splitSkipEmpty 47 path = []
  · -- 片が無ければ、先頭と末尾の `/` だけ
    rw [hsegs, List.intercalate_nil, List.append_nil]
    split <;> split
    · exact .inr ⟨rfl, rfl⟩
    all_goals exact .inl (by decide)
  · -- 片があれば、その両端は `/` でない
    obtain ⟨x, hx, hxs⟩ := head?_intercalate (pieces path) hsegs
    obtain ⟨y, hy, hys⟩ := getLast?_intercalate (pieces path) hsegs
    have hJ := noDoubleSep_intercalate (pieces path)
    refine .inl (List.isChain_append.mpr ⟨List.isChain_append.mpr ⟨?_, hJ, ?_⟩, ?_, ?_⟩)
    · split <;> decide
    · intro a _ b hb hab
      rw [hx] at hb
      cases hb
      exact hxs hab.2
    · split <;> decide
    · intro a ha b _ hab
      rw [List.getLast?_append_of_ne_nil _ (fun h => by simp [h] at hx), hy] at ha
      cases ha
      exact hys hab.1

/-- 繋ぎ直した path は、元の path が `/` で始まる時だけ `/` で始まる。 -/
theorem head?_joinSegments (path : Bytes) :
    (joinSegments path).head? = some 47 ↔ path.head? = some 47 := by
  rw [joinSegments_eq]
  by_cases hh : path.head? = some 47
  · simp [hh]
  · rw [if_neg hh, List.nil_append]
    by_cases hsegs : splitSkipEmpty 47 path = []
    · -- 片が無く `/` で始まらない path は空
      have hnil : path = [] := by
        by_contra hne
        exact hh (head?_getLast?_of_splitSkipEmpty_eq_nil hsegs hne).1
      subst hnil
      rfl
    · obtain ⟨x, hx, hxs⟩ := head?_intercalate (pieces path) hsegs
      rw [List.head?_append, hx]
      simp [hxs, hh]

/-- 繋ぎ直した path は、元の path が `/` で終わる時だけ `/` で終わる。 -/
theorem getLast?_joinSegments (path : Bytes) :
    (joinSegments path).getLast? = some 47 ↔ path.getLast? = some 47 := by
  rw [joinSegments_eq]
  by_cases hl : path.getLast? = some 47
  · simp [hl]
  · rw [if_neg hl, List.append_nil]
    by_cases hsegs : splitSkipEmpty 47 path = []
    · have hnil : path = [] := by
        by_contra hne
        exact hl (head?_getLast?_of_splitSkipEmpty_eq_nil hsegs hne).2
      subst hnil
      rfl
    · obtain ⟨y, hy, hys⟩ := getLast?_intercalate (pieces path) hsegs
      rw [List.getLast?_append_of_ne_nil _ (fun h => by simp [h] at hy), hy]
      simp [hys, hl]

/-- 繋ぎ直した path の byte は `/` か元の path の byte。 -/
theorem not_mem_joinSegments {c : UInt8} (hc : c ≠ 47) (h : c ∉ path) : c ∉ joinSegments path := by
  rw [joinSegments_eq]
  intro hmem
  simp only [List.mem_append] at hmem
  rcases hmem with (hL | hJ) | hT
  · split at hL <;> simp_all
  · rcases mem_intercalate hJ with rfl | ⟨s, hs, hcs⟩
    · exact hc rfl
    · exact h (mem_of_mem_splitSkipEmpty hs hcs)
  · split at hT <;> simp_all

end JoinSegments

/-! ## `mergeSlashes` -/

theorem mergeSlashes_eq (originalPath : Bytes) :
    mergeSlashes originalPath =
      if findSeq (lit "//") (pathPart originalPath) = none then originalPath
      else joinSegments (pathPart originalPath) ++ queryPart originalPath := rfl

/-- path に `//` があれば、`mergeSlashes` の後の path は繋ぎ直した path で、query は元のもの。 -/
theorem pathPart_queryPart_joinSegments (p : Bytes) :
    pathPart (joinSegments (pathPart p) ++ queryPart p) = joinSegments (pathPart p) ∧
      queryPart (joinSegments (pathPart p) ++ queryPart p) = queryPart p :=
  pathPart_queryPart_append (not_mem_joinSegments (by decide) (not_mem_pathPart p)) (queryPart_shape p)

/-- `mergeSlashes` の後の path では、`/` は二つ続かない（空でない片が無い path は `//` になる）。片の並び、
`/` で始まり終わるかどうか、query は元のままで、二度目の `mergeSlashes` は何も変えない。 -/
theorem mergeSlashes_normalizes (p : Bytes) :
    (NoDoubleSep 47 (pathPart (mergeSlashes p)) ∨
        splitSkipEmpty 47 (pathPart p) = [] ∧ pathPart (mergeSlashes p) = lit "//") ∧
      splitSkipEmpty 47 (pathPart (mergeSlashes p)) = splitSkipEmpty 47 (pathPart p) ∧
      (lit "/").isPrefixOf (pathPart (mergeSlashes p)) = (lit "/").isPrefixOf (pathPart p) ∧
      (lit "/").isSuffixOf (pathPart (mergeSlashes p)) = (lit "/").isSuffixOf (pathPart p) ∧
      queryPart (mergeSlashes p) = queryPart p ∧
      mergeSlashes (mergeSlashes p) = mergeSlashes p := by
  by_cases h : findSeq (lit "//") (pathPart p) = none
  · -- `//` が無ければ `:path` はそのまま
    have hm : mergeSlashes p = p := by rw [mergeSlashes_eq, if_pos h]
    rw [hm]
    exact ⟨.inl ((findSeq_pair_eq_none_iff 47 _).mp h), rfl, rfl, rfl, rfl, hm⟩
  · have hm : mergeSlashes p = joinSegments (pathPart p) ++ queryPart p := by rw [mergeSlashes_eq, if_neg h]
    obtain ⟨hpath, hquery⟩ := pathPart_queryPart_joinSegments p
    rw [hm, hpath, hquery]
    refine ⟨noDoubleSep_joinSegments _, splitSkipEmpty_joinSegments _, ?_, ?_, rfl, ?_⟩
    · rw [isPrefixOf_slash, isPrefixOf_slash, decide_eq_decide]
      exact head?_joinSegments _
    · rw [isSuffixOf_slash, isSuffixOf_slash, decide_eq_decide]
      exact getLast?_joinSegments _
    · -- 二度目: 繋ぎ直した path に `//` が無いか、path が `//` で `//` に戻る
      rw [mergeSlashes_eq, hpath, hquery]
      rcases noDoubleSep_joinSegments (pathPart p) with hnd | ⟨-, hslash⟩
      · exact if_pos ((findSeq_pair_eq_none_iff 47 _).mpr hnd)
      · rw [hslash]
        rfl

example : mergeSlashes (lit "//a/?b") = lit "/a/?b" := by decide

end Envoy.Http.PathUtil
