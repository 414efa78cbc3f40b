import Envoy.Http.Utility

/-!
# `:path` の正規化の仕様

path `/p` の正規化 `N(p)` を、三つの段の合成として述べる。

1. `%XY` のうち、その byte が unreserved（英字、数字、`-`、`.`、`_`、`~`）なものはその byte に戻し、他の
   `%XY` は残す（`upperCase` なら十六進の桁を大文字にする）。
2. `/` の並びを一つの `/` にする。
3. `/` で区切った片を左から読み、`.` は捨て、`..` は積んだ片を一つ降ろし（積んだ片が無ければ拒否）、
   他の空でない片は積む。結果は `/` と積んだ片を `/` で繋いだもので、最後の片が空、`.`、`..` のどれかで
   片が残っていれば、最後に `/` を足す。
-/

namespace Envoy.Http.PathNormalizer

open Utility.PercentEncoding (isXdigit)

/-- 十六進の一桁の値。 -/
def hexDigitValue (c : UInt8) : Nat := if c ≤ 57 then c.toNat - 48 else if c ≤ 70 then c.toNat - 55 else c.toNat - 87

def toUpperHex (c : UInt8) : UInt8 := if 97 ≤ c then c - 32 else c

/-- RFC 3986 の unreserved。 -/
def Unreserved (c : Nat) : Prop :=
  (65 ≤ c ∧ c ≤ 90) ∨ (97 ≤ c ∧ c ≤ 122) ∨ (48 ≤ c ∧ c ≤ 57) ∨ c = 45 ∨ c = 46 ∨ c = 95 ∨ c = 126

instance (c : Nat) : Decidable (Unreserved c) := inferInstanceAs (Decidable (_ ∨ _))

/-- どの `%` の後にも十六進の二桁がある。 -/
inductive WellEscaped : Bytes → Prop
  | nil : WellEscaped []
  | cons {c : UInt8} {rest : Bytes} : c ≠ 37 → WellEscaped rest → WellEscaped (c :: rest)
  | escape {a b : UInt8} {rest : Bytes} : isXdigit a = true → isXdigit b = true → WellEscaped rest →
      WellEscaped (37 :: a :: b :: rest)

/-- `WellEscaped` を判定する。 -/
def isWellEscaped : Bytes → Bool
  | [] => true
  | c :: tl =>
    if c = 37 then
      match tl with
      | a :: b :: rest => isXdigit a && isXdigit b && isWellEscaped rest
      | _ => false
    else isWellEscaped tl

theorem wellEscaped_iff_isWellEscaped (p : Bytes) : WellEscaped p ↔ isWellEscaped p = true := by
  constructor
  · intro h
    induction h with
    | nil => rfl
    | cons hc _ ih => rw [isWellEscaped.eq_def]; simp only [if_neg hc]; exact ih
    | escape ha hb _ ih => rw [isWellEscaped.eq_def]; simp only [if_pos, ha, hb, ih]; rfl
  · intro h
    fun_induction isWellEscaped p with
    | case1 => exact .nil
    | case2 a b rest ih =>
      simp only [Bool.and_eq_true] at h
      exact .escape h.1.1 h.1.2 (ih h.2)
    | case3 => cases h
    | case4 c tl hc ih => exact .cons hc (ih h)

instance : DecidablePred WellEscaped := fun p => decidable_of_iff _ (wellEscaped_iff_isWellEscaped p).symm

/-- 段 1: unreserved な byte の `%XY` を戻す。 -/
def decodeUnreserved (upperCase : Bool) : Bytes → Bytes
  | c :: tl@(a :: b :: rest) =>
    if c = 37 ∧ isXdigit a ∧ isXdigit b then
      let octet := hexDigitValue a * 16 + hexDigitValue b
      if Unreserved octet then UInt8.ofNat octet :: decodeUnreserved upperCase rest
      else 37 :: (if upperCase then toUpperHex a else a) :: (if upperCase then toUpperHex b else b) ::
        decodeUnreserved upperCase rest
    else c :: decodeUnreserved upperCase tl
  | c :: rest => c :: decodeUnreserved upperCase rest
  | [] => []
termination_by l => l.length

/-- 段 2: `/` の並びを一つにする。 -/
def mergeSlashRuns : Bytes → Bytes
  | [] => []
  | c :: tl => if c = 47 ∧ tl.head? = some 47 then mergeSlashRuns tl else c :: mergeSlashRuns tl

/-- 段 3 の一つの片。積んだ片は列の後ろが上。 -/
def dotSegmentStep (stack : List Bytes) (segment : Bytes) : Option (List Bytes) :=
  if segment = [46] then some stack
  else if segment = [46, 46] then (if stack = [] then none else some stack.dropLast)
  else if segment = [] then some stack
  else some (stack ++ [segment])

def removeDotSegments (segments : List Bytes) : Option (List Bytes) := segments.foldlM dotSegmentStep []

/-- 最後の片が空、`.`、`..` のどれか。 -/
def endsInDirectory (segments : List Bytes) : Bool :=
  match segments.getLast? with
  | some segment => segment = [] || segment = [46] || segment = [46, 46]
  | none => false

/-- `/` と片を `/` で繋いだもの。`trailing` で片があれば最後に `/`。 -/
def joinPath (stack : List Bytes) (trailing : Bool) : Bytes :=
  47 :: [47].intercalate stack ++ (if trailing && !stack.isEmpty then [47] else [])

/-- `N(p)`: `/p` を正規化した path。`none` は拒否。 -/
def normalizePath (upperCase : Bool) (p : Bytes) : Option Bytes :=
  let segments := (mergeSlashRuns (47 :: decodeUnreserved upperCase p)).splitOn 47
  (removeDotSegments segments).map fun stack => joinPath stack (endsInDirectory segments)

example : normalizePath false (lit "a/%2e%2E/b//c/.%2fd/%7e/.") = some (lit "/b/c/.%2fd/~/") := by decide +kernel

example : normalizePath true (lit "a/%2e%2E/b//c/.%2fd/%7e/.") = some (lit "/b/c/.%2Fd/~/") := by decide +kernel

example : normalizePath true (lit "a/../..") = none := by decide +kernel

end Envoy.Http.PathNormalizer
