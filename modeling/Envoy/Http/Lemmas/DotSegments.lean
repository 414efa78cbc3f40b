import Envoy.Http.PathNormalizer
import Envoy.Http.PathNormalizationSpec
import Envoy.Lib.InPlace
import Envoy.Lib.Segments

/-!
# `.` と `..` の片を畳む pass

`collapseDotSegmentsPass` は仕様の段 3 を計算する。片の境（書いた出力の最後が `/`）では、書いた出力は
`/` の後に積んだ片をそれぞれ `/` を付けて並べたもの（`renderDirs`）である。一つの片を読むと、この形が
`dotSegmentStep` のとおりに移る: `.` は読み飛ばし、`..` は `findStartOfPreviousSegment` で一つ前の片の始めへ
書く位置を戻し、他の片は一文字ずつ写す。片の列についての帰納法で、loop の結果が仕様の結果になる。
-/

namespace Envoy.Http.PathNormalizer

open InPlace Segments

@[simp] theorem lit_dot : lit "." = [46] := rfl

@[simp] theorem lit_dot_slash : lit "./" = [46, 47] := rfl

@[simp] theorem lit_dot_dot : lit ".." = [46, 46] := rfl

@[simp] theorem lit_dot_dot_slash : lit "../" = [46, 46, 47] := rfl

/-! ## 片の境の出力 -/

/-- 片の境で書いてある出力: `/` の後に、積んだ片をそれぞれ `/` を付けて並べる。 -/
def renderDirs (stack : List Bytes) : Bytes := 47 :: (stack.map (· ++ [47])).flatten

@[simp] theorem renderDirs_nil : renderDirs [] = [47] := rfl

theorem renderDirs_append_singleton (stack : List Bytes) (s : Bytes) :
    renderDirs (stack ++ [s]) = renderDirs stack ++ s ++ [47] := by
  simp [renderDirs]

theorem renderDirs_eq_dropLast_append (stack : List Bytes) : renderDirs stack = (renderDirs stack).dropLast ++ [47] := by
  rcases List.eq_nil_or_concat' stack with rfl | ⟨st, s, rfl⟩
  · rfl
  · rw [renderDirs_append_singleton, List.dropLast_concat]

theorem intercalate_append_slash {stack : List Bytes} (h : stack ≠ []) :
    [47].intercalate stack ++ [47] = (stack.map (· ++ [47])).flatten := by
  induction stack with
  | nil => exact absurd rfl h
  | cons s rest ih =>
    cases rest with
    | nil => simp
    | cons t rest =>
      rw [List.intercalate_cons_cons, List.append_assoc, ih (List.cons_ne_nil t rest)]
      simp

theorem intercalate_append_singleton {stack : List Bytes} (h : stack ≠ []) (s : Bytes) :
    [47].intercalate (stack ++ [s]) = [47].intercalate stack ++ [47] ++ s := by
  induction stack with
  | nil => exact absurd rfl h
  | cons t rest ih =>
    cases rest with
    | nil => simp [List.intercalate_cons_cons]
    | cons u rest =>
      rw [List.cons_append, List.cons_append, List.intercalate_cons_cons, ← List.cons_append,
        ih (List.cons_ne_nil _ _), List.intercalate_cons_cons]
      simp

/-- 最後が `/` の出力は、積んだ片の出力。 -/
theorem joinPath_true (stack : List Bytes) : joinPath stack true = renderDirs stack := by
  cases stack with
  | nil => rfl
  | cons s rest =>
    simp only [joinPath, renderDirs, List.isEmpty_cons, Bool.not_false, Bool.and_self, if_true, List.cons_append]
    rw [intercalate_append_slash (List.cons_ne_nil s rest)]

/-- 最後の片を `/` を付けずに写した出力。 -/
theorem joinPath_false_append (stack : List Bytes) (s : Bytes) :
    joinPath (stack ++ [s]) false = renderDirs stack ++ s := by
  simp only [joinPath, Bool.false_and, Bool.false_eq_true, if_false, List.append_nil, renderDirs, List.cons_append]
  by_cases hst : stack = []
  · simp [hst]
  · rw [intercalate_append_singleton hst, ← intercalate_append_slash hst]

theorem getD_renderDirs_last (stack : List Bytes) : (renderDirs stack).getD ((renderDirs stack).length - 1) 0 = 47 := by
  conv_lhs => rw [renderDirs_eq_dropLast_append stack]
  rw [List.getD_eq_getElem?_getD, List.getElem?_append_right (by simp), List.length_dropLast]
  simp

theorem length_renderDirs_pos (stack : List Bytes) : 0 < (renderDirs stack).length := by
  simp [renderDirs]

/-- 最後の片を降ろした出力は、積んだ片の出力の前の部分。 -/
theorem renderDirs_eq_dropLast {stack : List Bytes} (h : stack ≠ []) :
    renderDirs stack = renderDirs stack.dropLast ++ (stack.getLast h ++ [47]) := by
  conv_lhs => rw [← List.dropLast_append_getLast h]
  rw [renderDirs_append_singleton, List.append_assoc]

/-- 片の境では、書く位置の一つ前は `/`。 -/
theorem getD_prev_renderDirs {path rest : Bytes} {read write : Nat} {stack : List Bytes}
    (hc : Cursor path read write (renderDirs stack) rest) : path.getD (write - 1) 0 = 47 := by
  rw [renderDirs_eq_dropLast_append] at hc
  exact hc.getD_last 0

/-! ## `collapseDotSegmentsPassLoop` の一回り -/

section CollapseLoop

variable {path : Bytes} {read write : Nat}

theorem collapse_done (h : ¬read < path.length) : collapseDotSegmentsPassLoop path read write = some (path, write) := by
  rw [collapseDotSegmentsPassLoop, if_neg h]

/-- 読み切ったら、書いた出力が結果。 -/
theorem collapse_map_done {out : Bytes} (hc : Cursor path read write out []) :
    (collapseDotSegmentsPassLoop path read write).map (fun result => result.1.take result.2) = some out := by
  rw [collapse_done hc.not_lt_length, Option.map_some, hc.take_eq]

/-- `.` でないか、`/` の直後でない byte は写す。 -/
theorem collapse_copy (hr : read < path.length) (h : path.getD read 0 ≠ 46 ∨ path.getD (write - 1) 0 ≠ 47) :
    collapseDotSegmentsPassLoop path read write =
      collapseDotSegmentsPassLoop (path.set write (path.getD read 0)) (read + 1) (write + 1) := by
  rw [collapseDotSegmentsPassLoop, if_pos hr]
  rcases h with h | h
  · rw [if_neg h]
  · by_cases hd : path.getD read 0 = 46
    · rw [if_pos hd]
      simp only [if_neg h]
    · rw [if_neg hd]

/-- `/` の直後の `.` で、先読みが `.` と `..` の片でなければ写す。 -/
theorem collapse_copy_dot (hr : read < path.length) (hc : path.getD read 0 = 46) (hprev : path.getD (write - 1) 0 = 47)
    (h₁ : ¬((lit "./").isPrefixOf ((path.drop read).take 3) = true ∨ (path.drop read).take 3 = lit "."))
    (h₂ : ¬((path.drop read).take 3 = lit "../" ∨ (path.drop read).take 3 = lit "..")) :
    collapseDotSegmentsPassLoop path read write =
      collapseDotSegmentsPassLoop (path.set write (path.getD read 0)) (read + 1) (write + 1) := by
  rw [collapseDotSegmentsPassLoop, if_pos hr, if_pos hc]
  simp only [hprev, if_true, if_neg h₁, if_neg h₂]

/-- `.` の片は読み飛ばす。 -/
theorem collapse_dot (hr : read < path.length) (hc : path.getD read 0 = 46) (hprev : path.getD (write - 1) 0 = 47)
    (h₁ : (lit "./").isPrefixOf ((path.drop read).take 3) = true ∨ (path.drop read).take 3 = lit ".") :
    collapseDotSegmentsPassLoop path read write =
      collapseDotSegmentsPassLoop path (read + min ((path.drop read).take 3).length 2) write := by
  rw [collapseDotSegmentsPassLoop, if_pos hr, if_pos hc]
  simp only [hprev, if_true, if_pos h₁]

/-- `..` の片は、書く位置を一つ前の片の始めへ戻す。そこが先頭なら拒否。 -/
theorem collapse_dotDot (hr : read < path.length) (hc : path.getD read 0 = 46) (hprev : path.getD (write - 1) 0 = 47)
    (h₁ : ¬((lit "./").isPrefixOf ((path.drop read).take 3) = true ∨ (path.drop read).take 3 = lit "."))
    (h₂ : (path.drop read).take 3 = lit "../" ∨ (path.drop read).take 3 = lit "..") :
    collapseDotSegmentsPassLoop path read write =
      if findStartOfPreviousSegment path (write - 1) = 0 then none
      else collapseDotSegmentsPassLoop path (read + min ((path.drop read).take 3).length 3)
        (findStartOfPreviousSegment path (write - 1)) := by
  rw [collapseDotSegmentsPassLoop, if_pos hr, if_pos hc]
  simp only [hprev, if_true, if_neg h₁, if_pos h₂]

end CollapseLoop

/-! ## `findStartOfPreviousSegment` -/

section FindStart

variable {l : Bytes}

/-- 後ろへ読む loop は、位置 `current` までの byte しか見ない。 -/
theorem findStartLoop_congr (l' : Bytes) {current : Nat} (h : ∀ i ≤ current, l.getD i 0 = l'.getD i 0) (seen : Bool) :
    findStartOfPreviousSegmentLoop l seen current = findStartOfPreviousSegmentLoop l' seen current := by
  induction current generalizing seen with
  | zero => rfl
  | succ c ih =>
    simp only [findStartOfPreviousSegmentLoop, h (c + 1) (Nat.le_refl _),
      ih (fun i hi => h i (Nat.le_succ_of_le hi))]

/-- 片の文字をまだ見ていなければ、`/` は飛ばす。 -/
theorem findStartLoop_slash {c : Nat} (h : l.getD (c + 1) 0 = 47) :
    findStartOfPreviousSegmentLoop l false (c + 1) = findStartOfPreviousSegmentLoop l false c := by
  simp only [findStartOfPreviousSegmentLoop, h]
  simp

/-- 片の文字を見る。 -/
theorem findStartLoop_segmentChar {c : Nat} (h : l.getD (c + 1) 0 ≠ 47) (seen : Bool) :
    findStartOfPreviousSegmentLoop l seen (c + 1) = findStartOfPreviousSegmentLoop l true c := by
  have h' : (l.getD (c + 1) 0 = 47) = False := eq_false h
  cases seen <;> simp only [findStartOfPreviousSegmentLoop, h', ne_eq, not_false_eq_true, false_and, true_and, if_false,
    if_true, Bool.not_false, Bool.not_true, Bool.false_eq_true]

/-- 片の `n` 文字を後ろから読み切る。 -/
theorem findStartLoop_run {a : Nat} :
    ∀ n, 0 < n → (∀ i, a < i → i ≤ a + n → l.getD i 0 ≠ 47) → ∀ seen,
      findStartOfPreviousSegmentLoop l seen (a + n) = findStartOfPreviousSegmentLoop l true a
  | 1, _, h, seen => findStartLoop_segmentChar (h (a + 1) (by omega) (by omega)) seen
  | n + 2, _, h, seen => by
    rw [show a + (n + 2) = a + (n + 1) + 1 by omega, findStartLoop_segmentChar (h _ (by omega) (by omega)) seen]
    exact findStartLoop_run (n + 1) (by omega) (fun i hi hi' => h i hi (by omega)) true

/-- 片の文字を見た後の `/`（または先頭）の次が、片の始め。 -/
theorem findStartLoop_found {a : Nat} (h : a = 0 ∨ l.getD a 0 = 47) : findStartOfPreviousSegmentLoop l true a = a + 1 := by
  cases a with
  | zero => rfl
  | succ a =>
    have h47 : l.getD (a + 1) 0 = 47 := h.resolve_left (Nat.succ_ne_zero a)
    simp only [findStartOfPreviousSegmentLoop, h47]
    simp

/-- 積んだ片の出力の最後の `/` から後ろへ読むと、最後の片の始めに着く。片が無ければ先頭。 -/
theorem findStart_renderDirs {stack : List Bytes} (hst : ∀ s ∈ stack, Piece 47 s) :
    findStartOfPreviousSegmentLoop (renderDirs stack) false ((renderDirs stack).length - 1) =
      if stack = [] then 0 else (renderDirs stack.dropLast).length := by
  rcases List.eq_nil_or_concat' stack with rfl | ⟨st, sk, rfl⟩
  · rfl
  · obtain ⟨hne, hsk⟩ := hst sk (by simp)
    rw [if_neg (by simp), List.dropLast_concat, renderDirs_append_singleton]
    set X := renderDirs st with hX
    have hL : 0 < X.length := length_renderDirs_pos st
    have hn : 0 < sk.length := List.length_pos_of_ne_nil hne
    have hlen : (X ++ sk ++ [47]).length - 1 = (X.length + sk.length - 1) + 1 := by simp; omega
    -- 最後の `/`、片 `sk` の文字、その前の `/` の順に読む
    have hslash : (X ++ sk ++ [47]).getD (X.length + sk.length - 1 + 1) 0 = 47 := by
      rw [show X.length + sk.length - 1 + 1 = (X ++ sk).length by simp; omega, List.getD_eq_getElem?_getD,
        List.getElem?_append_right (Nat.le_refl _), Nat.sub_self]
      rfl
    have hchars : ∀ i, X.length - 1 < i → i ≤ X.length - 1 + sk.length → (X ++ sk ++ [47]).getD i 0 ≠ 47 := by
      intro i hi hi'
      rw [List.getD_eq_getElem?_getD, List.append_assoc, List.getElem?_append_right (by omega),
        List.getElem?_append_left (by omega), List.getElem?_eq_getElem (by omega), Option.getD_some]
      exact fun h => hsk (h ▸ List.getElem_mem _)
    have hsep : X.length - 1 = 0 ∨ (X ++ sk ++ [47]).getD (X.length - 1) 0 = 47 := by
      right
      rw [List.append_assoc, List.getD_append _ _ _ _ (by omega)]
      exact getD_renderDirs_last st
    rw [hlen, findStartLoop_slash hslash, show X.length + sk.length - 1 = X.length - 1 + sk.length by omega,
      findStartLoop_run sk.length hn hchars false, findStartLoop_found hsep]
    omega

/-- 片の境の位置では、`findStartOfPreviousSegment(std::prev(write), begin)` は最後の片の始め。 -/
theorem findStart_cursor {path rest : Bytes} {read write : Nat} {stack : List Bytes}
    (hc : Cursor path read write (renderDirs stack) rest) (hst : ∀ s ∈ stack, Piece 47 s) :
    findStartOfPreviousSegment path (write - 1) = if stack = [] then 0 else (renderDirs stack.dropLast).length := by
  have hw := hc.length_out
  rw [findStartOfPreviousSegment, findStartLoop_congr (renderDirs stack) (fun i hi => hc.getD_of_lt (by
    have := length_renderDirs_pos stack
    omega) 0), ← hw]
  exact findStart_renderDirs hst

end FindStart

/-! ## 一つの片 -/

/-- `..` の片 `xs` を読み、書く位置を最後の片の始めへ戻すと、降ろした後の片の境。 -/
theorem cursor_popSegment {path rest : Bytes} {read write : Nat} {stack : List Bytes} (xs : Bytes)
    (hc : Cursor path read write (renderDirs stack) (xs ++ rest)) (hstack : stack ≠ []) :
    Cursor path (read + xs.length) (renderDirs stack.dropLast).length (renderDirs stack.dropLast) rest := by
  have hren := renderDirs_eq_dropLast hstack
  have hle : (renderDirs stack.dropLast).length ≤ write := by
    rw [← hc.length_out, hren, List.length_append]
    omega
  have hc' := (hc.rewind hle).skipAppend xs
  rwa [hren, List.take_left] at hc'

/-- `.` で始まり `.` でも `..` でもない片の先読みは、どちらの形でもない。 -/
theorem dotPatterns_of_normal {xs : Bytes} (rest : Bytes) (hxs : 47 ∉ 46 :: xs) (hdot : 46 :: xs ≠ [46])
    (hdd : 46 :: xs ≠ [46, 46]) :
    ¬((lit "./").isPrefixOf ((46 :: xs ++ rest).take 3) = true ∨ (46 :: xs ++ rest).take 3 = lit ".") ∧
      ¬((46 :: xs ++ rest).take 3 = lit "../" ∨ (46 :: xs ++ rest).take 3 = lit "..") := by
  obtain ⟨y, ys, rfl⟩ : ∃ y ys, xs = y :: ys := List.exists_cons_of_ne_nil (by rintro rfl; exact hdot rfl)
  have hy : (47 : UInt8) ≠ y := fun h => hxs (by simp [h])
  cases ys with
  | nil =>
    have hy46 : y ≠ 46 := fun h => hdd (by rw [h])
    cases rest <;> simp [List.isPrefixOf, hy, hy46]
  | cons z zs =>
    have hz : z ≠ 47 := fun h => hxs (by simp [h])
    simp [List.isPrefixOf, hy, hz]

/-- 片の中の `/` でない byte の並びを写す。前の byte が `/` でないので、`.` も写す。 -/
theorem collapse_copyRun {xs : Bytes} (hxs : 47 ∉ xs) :
    ∀ {path : Bytes} {read write : Nat} {init rest : Bytes} {c : UInt8}, c ≠ 47 →
      Cursor path read write (init ++ [c]) (xs ++ rest) →
      ∃ path', Cursor path' (read + xs.length) (write + xs.length) (init ++ [c] ++ xs) rest ∧
        collapseDotSegmentsPassLoop path read write =
          collapseDotSegmentsPassLoop path' (read + xs.length) (write + xs.length) := by
  induction xs with
  | nil =>
    intro path read write init rest c _ hc
    exact ⟨path, by simpa using hc, rfl⟩
  | cons x xs ih =>
    intro path read write init rest c hc47 hc
    rw [List.cons_append] at hc
    have hx : x ≠ 47 := fun h => hxs (h ▸ List.mem_cons_self)
    rw [collapse_copy hc.lt_length (Or.inr (by rw [hc.getD_last]; exact hc47)), hc.getD_read]
    obtain ⟨path', hc', hloop⟩ := ih (fun h => hxs (List.mem_cons_of_mem x h)) hx hc.copy
    have hr : read + 1 + xs.length = read + (x :: xs).length := by simp; omega
    have hw : write + 1 + xs.length = write + (x :: xs).length := by simp; omega
    rw [hr, hw] at hc' hloop
    exact ⟨path', by simpa using hc', hloop⟩

/-- 片の境から、`.` でも `..` でもない空でない片を写す。 -/
theorem collapse_normalSegment {s rest : Bytes} (hs : Piece 47 s) (hdot : s ≠ [46]) (hdd : s ≠ [46, 46])
    {path init : Bytes} {read write : Nat} (hc : Cursor path read write (init ++ [47]) (s ++ rest)) :
    ∃ path', Cursor path' (read + s.length) (write + s.length) (init ++ [47] ++ s) rest ∧
      collapseDotSegmentsPassLoop path read write =
        collapseDotSegmentsPassLoop path' (read + s.length) (write + s.length) := by
  obtain ⟨x, xs, rfl⟩ := List.exists_cons_of_ne_nil hs.1
  have hx : x ≠ 47 := fun h => hs.2 (h ▸ List.mem_cons_self)
  rw [List.cons_append] at hc
  -- 最初の byte: `.` なら先読みが `.` と `..` の片でないので写す
  have hfirst : collapseDotSegmentsPassLoop path read write =
      collapseDotSegmentsPassLoop (path.set write x) (read + 1) (write + 1) := by
    by_cases hx46 : x = 46
    · subst hx46
      obtain ⟨h₁, h₂⟩ := dotPatterns_of_normal rest hs.2 hdot hdd
      rw [List.cons_append, ← hc.take_drop_read] at h₁ h₂
      rw [collapse_copy_dot hc.lt_length (hc.getD_read 0) (hc.getD_last 0) h₁ h₂, hc.getD_read]
    · rw [collapse_copy hc.lt_length (Or.inl (by rw [hc.getD_read]; exact hx46)), hc.getD_read]
  obtain ⟨path', hc', hloop⟩ := collapse_copyRun (fun h => hs.2 (List.mem_cons_of_mem x h)) hx hc.copy
  have hr : read + 1 + xs.length = read + (x :: xs).length := by simp; omega
  have hw : write + 1 + xs.length = write + (x :: xs).length := by simp; omega
  rw [hr, hw] at hc' hloop
  exact ⟨path', by simpa using hc', hfirst.trans hloop⟩

/-! ## 段 3 の一歩 -/

@[simp] theorem dotSegmentStep_dot (stack : List Bytes) : dotSegmentStep stack [46] = some stack := rfl

@[simp] theorem dotSegmentStep_dotDot (stack : List Bytes) :
    dotSegmentStep stack [46, 46] = if stack = [] then none else some stack.dropLast := rfl

@[simp] theorem dotSegmentStep_nil (stack : List Bytes) : dotSegmentStep stack [] = some stack := rfl

theorem dotSegmentStep_push (stack : List Bytes) {s : Bytes} (h₀ : s ≠ []) (h₁ : s ≠ [46]) (h₂ : s ≠ [46, 46]) :
    dotSegmentStep stack s = some (stack ++ [s]) := by
  simp [dotSegmentStep, h₀, h₁, h₂]

theorem endsInDirectory_cons (s : Bytes) {segs : List Bytes} (h : segs ≠ []) :
    endsInDirectory (s :: segs) = endsInDirectory segs := by
  simp [endsInDirectory, List.getLast?_cons, List.getLast?_eq_some_getLast h]

theorem endsInDirectory_singleton (s : Bytes) : endsInDirectory [s] = (s = [] || s = [46] || s = [46, 46]) := rfl

/-! ## 片の列 -/

/-- 片の境から、`/` で繋いだ片の列を読み切る。`.`、`..` でない空でない片はどれも `/` を含まず、最後の片の他は
空でない（`/` が二つ続かない）とき、loop の出力は仕様の段 3 の出力、拒否は仕様の拒否。 -/
theorem collapse_segments :
    ∀ (segs stack : List Bytes) {path : Bytes} {read write : Nat}, segs ≠ [] → (∀ s ∈ segs, 47 ∉ s) →
      (∀ s ∈ segs.dropLast, s ≠ []) → (∀ s ∈ stack, Piece 47 s) →
      Cursor path read write (renderDirs stack) ([47].intercalate segs) →
      (collapseDotSegmentsPassLoop path read write).map (fun result => result.1.take result.2) =
        (segs.foldlM dotSegmentStep stack).map fun stack => joinPath stack (endsInDirectory segs)
  | [], _, _, _, _, hne, _, _, _, _ => absurd rfl hne
  | [s], stack, path, read, write, _, hsl, _, hst, hc => by
    -- 最後の片: 後に `/` が無い
    rw [List.intercalate_singleton] at hc
    have hprev := getD_prev_renderDirs hc
    simp only [List.foldlM_cons, List.foldlM_nil, bind_pure, endsInDirectory_singleton]
    by_cases h₀ : s = []
    · subst h₀
      rw [collapse_map_done hc, dotSegmentStep_nil, Option.map_some]
      simp [joinPath_true]
    by_cases h₁ : s = [46]
    · subst h₁
      have hc' : Cursor path (read + 1) write (renderDirs stack) [] := hc.skipAppend [46]
      have hloop : collapseDotSegmentsPassLoop path read write = collapseDotSegmentsPassLoop path (read + 1) write := by
        rw [collapse_dot hc.lt_length (hc.getD_read 0) hprev (Or.inr (by rw [hc.take_drop_read]; rfl)),
          hc.take_drop_read]
        rfl
      rw [hloop, collapse_map_done hc', dotSegmentStep_dot, Option.map_some]
      simp [joinPath_true]
    by_cases h₂ : s = [46, 46]
    · subst h₂
      have hds := hc.take_drop_read 3
      rw [collapse_dotDot hc.lt_length (hc.getD_read 0) hprev (by rw [hds]; simp [List.isPrefixOf])
        (Or.inr (by rw [hds]; rfl)), findStart_cursor hc hst, dotSegmentStep_dotDot]
      by_cases hstack : stack = []
      · simp [hstack]
      · -- 最後の片を降ろす
        have hc' : Cursor path (read + 2) (renderDirs stack.dropLast).length (renderDirs stack.dropLast) [] :=
          cursor_popSegment [46, 46] hc hstack
        rw [if_neg hstack, if_neg (length_renderDirs_pos _).ne', hds,
          show read + min (List.take 3 [(46 : UInt8), 46]).length 3 = read + 2 from rfl, collapse_map_done hc']
        simp [hstack, joinPath_true]
    -- 他の片: 写して終わる
    have hpiece : Piece 47 s := ⟨h₀, hsl s (List.mem_singleton_self s)⟩
    have hc₀ : Cursor path read write ((renderDirs stack).dropLast ++ [47]) (s ++ []) := by
      rw [List.append_nil, ← renderDirs_eq_dropLast_append]
      exact hc
    obtain ⟨path', hc', hloop⟩ := collapse_normalSegment hpiece h₁ h₂ hc₀
    rw [hloop, collapse_map_done hc', dotSegmentStep_push stack h₀ h₁ h₂, Option.map_some,
      ← renderDirs_eq_dropLast_append]
    simp [h₀, h₁, h₂, joinPath_false_append]
  | s :: s' :: segs, stack, path, read, write, _, hsl, hdl, hst, hc => by
    -- `/` の続く片: 読んだ後も片の境
    rw [List.intercalate_cons_cons] at hc
    have hprev := getD_prev_renderDirs hc
    have h₀ : s ≠ [] := hdl s (by simp)
    have hsl' : ∀ t ∈ s' :: segs, 47 ∉ t := fun t ht => hsl t (List.mem_cons_of_mem s ht)
    have hdl' : ∀ t ∈ (s' :: segs).dropLast, t ≠ [] := fun t ht =>
      hdl t (by rw [List.dropLast_cons_of_ne_nil (List.cons_ne_nil _ _)]; exact List.mem_cons_of_mem s ht)
    rw [List.foldlM_cons, endsInDirectory_cons s (List.cons_ne_nil s' segs)]
    by_cases h₁ : s = [46]
    · subst h₁
      have hc' : Cursor path (read + 2) write (renderDirs stack) ([47].intercalate (s' :: segs)) := hc.skipAppend [46, 47]
      have hloop : collapseDotSegmentsPassLoop path read write = collapseDotSegmentsPassLoop path (read + 2) write := by
        rw [collapse_dot hc.lt_length (hc.getD_read 0) hprev (Or.inl (by rw [hc.take_drop_read]; simp [List.isPrefixOf])),
          hc.take_drop_read]
        congr 2
        simp
      rw [hloop, collapse_segments (s' :: segs) stack (List.cons_ne_nil _ _) hsl' hdl' hst hc', dotSegmentStep_dot]
      rfl
    by_cases h₂ : s = [46, 46]
    · subst h₂
      have hds := hc.take_drop_read 3
      rw [collapse_dotDot hc.lt_length (hc.getD_read 0) hprev (by rw [hds]; simp [List.isPrefixOf])
        (Or.inl (by rw [hds]; rfl)), findStart_cursor hc hst, dotSegmentStep_dotDot]
      by_cases hstack : stack = []
      · simp [hstack]
      · -- 最後の片を降ろして続ける
        have hc' : Cursor path (read + 3) (renderDirs stack.dropLast).length (renderDirs stack.dropLast)
            ([47].intercalate (s' :: segs)) := cursor_popSegment [46, 46, 47] hc hstack
        rw [if_neg hstack, if_neg (length_renderDirs_pos _).ne', hds,
          show read + min (List.take 3 ([(46 : UInt8), 46] ++ [47] ++ [47].intercalate (s' :: segs))).length 3 =
            read + 3 from rfl,
          collapse_segments (s' :: segs) stack.dropLast (List.cons_ne_nil _ _) hsl' hdl'
            (fun t ht => hst t (List.mem_of_mem_dropLast ht)) hc', if_neg hstack]
        rfl
    -- 他の片: 片と `/` を写して、片を積む
    have hpiece : Piece 47 s := ⟨h₀, hsl s List.mem_cons_self⟩
    have hren := renderDirs_eq_dropLast_append stack
    have hc₀ : Cursor path read write ((renderDirs stack).dropLast ++ [47]) (s ++ ([47] ++ [47].intercalate (s' :: segs))) := by
      rw [← hren, ← List.append_assoc]
      exact hc
    obtain ⟨path', hc', hloop⟩ := collapse_normalSegment hpiece h₁ h₂ hc₀
    have hout : (renderDirs stack).dropLast ++ [47] ++ s ++ [47] = renderDirs (stack ++ [s]) := by
      rw [renderDirs_append_singleton, ← hren]
    have hc'' := hout ▸ hc'.copy
    rw [hloop, collapse_copy hc'.lt_length (Or.inl (by rw [hc'.getD_read]; decide)), hc'.getD_read,
      collapse_segments (s' :: segs) (stack ++ [s]) (List.cons_ne_nil _ _) hsl' hdl' (fun t ht => ?_) hc'',
      dotSegmentStep_push stack h₀ h₁ h₂]
    · rfl
    · rcases List.mem_append.mp ht with ht | ht
      · exact hst t ht
      · rw [List.mem_singleton.mp ht]
        exact hpiece

/-- 先頭が `/` で `/` が二つ続かない path を、仕様の段 3 で畳む。 -/
theorem collapseDotSegmentsPass_spec {t : Bytes} (ht : NoDoubleSep 47 (47 :: t)) :
    collapseDotSegmentsPass (47 :: t) =
      match (removeDotSegments ((47 :: t).splitOn 47)).map
          (fun stack => joinPath stack (endsInDirectory ((47 :: t).splitOn 47))) with
      | none => (⟨.reject, invalidUrl⟩, 47 :: t)
      | some n => (.success, n) := by
  have hsplit : (47 :: t).splitOn 47 = [] :: t.splitOn 47 := by
    rw [show (47 :: t) = [] ++ 47 :: t from rfl, splitOn_append_cons List.not_mem_nil]
  have hc : Cursor (47 :: t) 1 1 (renderDirs []) ([47].intercalate (t.splitOn 47)) := by
    rw [List.intercalate_splitOn]
    exact cursor_init (47 :: t) (by simp)
  -- 先頭の空の片は何も積まない
  have hspec : (removeDotSegments ((47 :: t).splitOn 47)).map
      (fun stack => joinPath stack (endsInDirectory ((47 :: t).splitOn 47))) =
        (collapseDotSegmentsPassLoop (47 :: t) 1 1).map fun result => result.1.take result.2 := by
    rw [collapse_segments (t.splitOn 47) [] (List.splitOn_ne_nil _ _) (fun s hs => not_mem_of_mem_splitOn hs)
      (ne_nil_of_mem_dropLast_splitOn ht) (by simp) hc, hsplit, removeDotSegments, List.foldlM_cons, dotSegmentStep_nil,
      endsInDirectory_cons _ (List.splitOn_ne_nil _ _)]
    rfl
  rw [hspec, collapseDotSegmentsPass]
  rcases collapseDotSegmentsPassLoop (47 :: t) 1 1 with _ | ⟨path, write⟩ <;> rfl

end Envoy.Http.PathNormalizer
