import Envoy.Http.PathNormalizer
import Envoy.Http.PathNormalizationSpec

/-!
# 設定ごとの `:path` の正規化の仕様

`PathNormalizationSpec` の `N` を、すべての設定に広げる。段 1 は escape された `/` と `\` の扱い
（`path_with_escaped_slashes_action`）と、十六進の二桁が続かない `%` を残すかどうかで決まり、拒否するか、
redirect の印を立てることがある。段 1 の後、`\` を `/` に直すことがある。段 2 と段 3 は `N` と同じ。
-/

namespace Envoy.Http.PathNormalizer

open Utility.PercentEncoding (isXdigit)

/-- 段 1 の結果の前に `pre` を足し、redirect の印に `redirect` を合わせる。 -/
def prependDecoded (pre : Bytes) (redirect : Bool) : Option (Bytes × Bool) → Option (Bytes × Bool) :=
  Option.map fun r => (pre ++ r.1, redirect || r.2)

def upperIf (upperCase : Bool) (c : UInt8) : UInt8 := if upperCase then toUpperHex c else c

/-- 十六進の二桁の `%XY` の段 1。unreserved な byte はその byte に戻す。`/` か `\` は `action` で、残すか、
拒否するか、戻すか、戻して redirect の印を立てる。他の byte は残す。`tail` は後ろの段 1 の結果。 -/
def decodeEscape (action : PathWithEscapedSlashesAction) (upperCase : Bool) (a b : UInt8)
    (tail : Option (Bytes × Bool)) : Option (Bytes × Bool) :=
  let octet := hexDigitValue a * 16 + hexDigitValue b
  if Unreserved octet then prependDecoded [UInt8.ofNat octet] false tail
  else if octet = 47 ∨ octet = 92 then
    match action with
    | .implementationSpecificDefault | .keepUnchanged =>
      prependDecoded [37, upperIf upperCase a, upperIf upperCase b] false tail
    | .rejectRequest => none
    | .unescapeAndForward => prependDecoded [UInt8.ofNat octet] false tail
    | .unescapeAndRedirect => prependDecoded [UInt8.ofNat octet] true tail
  else prependDecoded [37, upperIf upperCase a, upperIf upperCase b] false tail

/-- 段 1 の一般形。十六進の二桁が続かない `%` は、`allowInvalid` なら残し（続く一桁の十六進の桁も、大文字に
して残す）、そうでなければ拒否する。残す十六進の桁は `upperCase` なら大文字にする。 -/
def decodeOctets (action : PathWithEscapedSlashesAction) (allowInvalid upperCase : Bool) : Bytes → Option (Bytes × Bool)
  | [] => some ([], false)
  | c :: tl =>
    if c = 37 then
      match tl with
      | a :: b :: rest =>
        if isXdigit a ∧ isXdigit b then decodeEscape action upperCase a b (decodeOctets action allowInvalid upperCase rest)
        else if !allowInvalid then none
        else if isXdigit a then
          prependDecoded [37, upperIf upperCase a] false (decodeOctets action allowInvalid upperCase (b :: rest))
        else prependDecoded [37] false (decodeOctets action allowInvalid upperCase (a :: b :: rest))
      | [a] =>
        if !allowInvalid then none
        else if isXdigit a then prependDecoded [37, upperIf upperCase a] false (decodeOctets action allowInvalid upperCase [])
        else prependDecoded [37] false (decodeOctets action allowInvalid upperCase [a])
      | [] => if allowInvalid then prependDecoded [37] false (decodeOctets action allowInvalid upperCase []) else none
    else prependDecoded [c] false (decodeOctets action allowInvalid upperCase tl)
termination_by l => l.length

section DecodeOctets

variable {action : PathWithEscapedSlashesAction} {allowInvalid upperCase : Bool}

@[simp] theorem decodeOctets_nil : decodeOctets action allowInvalid upperCase [] = some ([], false) := by
  rw [decodeOctets]

theorem decodeOctets_cons_of_ne {c : UInt8} (hc : c ≠ 37) (tl : Bytes) :
    decodeOctets action allowInvalid upperCase (c :: tl) =
      prependDecoded [c] false (decodeOctets action allowInvalid upperCase tl) := by
  rw [decodeOctets.eq_def]
  simp only [if_neg hc]

theorem decodeOctets_escape {a b : UInt8} (hab : isXdigit a = true ∧ isXdigit b = true) (rest : Bytes) :
    decodeOctets action allowInvalid upperCase (37 :: a :: b :: rest) =
      decodeEscape action upperCase a b (decodeOctets action allowInvalid upperCase rest) := by
  rw [decodeOctets.eq_def]
  simp only [if_pos hab, if_true]

end DecodeOctets

/-- 設定ごとの `N`。`translate` なら段 1 の後で `\` を `/` に直す。`none` は拒否、組の `Bool` は redirect。 -/
def normalizePathWith (action : PathWithEscapedSlashesAction) (allowInvalid upperCase translate : Bool) (p : Bytes) :
    Option (Bytes × Bool) :=
  (decodeOctets action allowInvalid upperCase p).bind fun decoded =>
    let path := if translate then translateBackToForwardSlashes (47 :: decoded.1) else 47 :: decoded.1
    let segments := (mergeSlashRuns path).splitOn 47
    (removeDotSegments segments).map fun stack => (joinPath stack (endsInDirectory segments), decoded.2)

example : normalizePathWith .unescapeAndRedirect false true false (lit "a%2Fb/../%7e%2f%zz") = none := by
  decide +kernel

example : normalizePathWith .unescapeAndRedirect true true false (lit "a%2Fb/../%7e%2f%za") =
    some (lit "/a/~/%za", true) := by
  decide +kernel

example : normalizePathWith .keepUnchanged false false true (lit "a\\%5c/./..%5C") = some (lit "/a/%5c/..%5C", false) := by
  decide +kernel

end Envoy.Http.PathNormalizer
