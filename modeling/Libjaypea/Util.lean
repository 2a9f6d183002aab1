import Libjaypea.CString
import Libjaypea.Fuelled

/-!
# String utilities

The functions of `Util` that the HTTP layers call: comparison of C strings,
decoding of URL text, search and replacement in a string, and the two affix
tests.
-/

namespace Libjaypea

def packetLimit : Nat := 16384

/-- `char` is signed and is promoted to `int` before an addition. -/
def charToInt (byte : UInt8) : Int :=
  if byte.toNat < 128 then byte.toNat else (byte.toNat : Int) - 256

namespace Util

/-- The loop without a bound, from index `i` on. -/
def strictCompareUnbounded (first second : Memory) : Nat → Nat → Option Bool
  | 0, _ => none
  | fuel + 1, i =>
      if first i ≠ second i ∨
          charToInt (first i) + charToInt (second i) = charToInt (first i) ∨
          charToInt (first i) + charToInt (second i) = charToInt (second i) then
        some true
      else strictCompareUnbounded first second fuel (i + 1)

/-- `first` and `second` are what lies behind the two pointers. -/
def strictCompareInequal (first second : Memory) (count : Int) (fuel : Nat) : Option Bool :=
  if count ≠ 0 then some ((List.range count.toNat).any fun i => first i != second i)
  else strictCompareUnbounded first second fuel 0

def isspace (byte : UInt8) : Bool :=
  byte = ch ' ' ∨ (9 ≤ byte ∧ byte ≤ 13)

def hexDigit (byte : UInt8) : Option UInt8 :=
  if ch '0' ≤ byte ∧ byte ≤ ch '9' then some (byte - ch '0')
  else if ch 'a' ≤ byte ∧ byte ≤ ch 'f' then some (byte - ch 'a' + 10)
  else if ch 'A' ≤ byte ∧ byte ≤ ch 'F' then some (byte - ch 'A' + 10)
  else none

/-- The low byte of the hexadecimal number at the start of a text, if there is one. -/
def scanDigits (text : Bytes) : Option UInt8 :=
  let digits := text.takeWhile fun byte => (hexDigit byte).isSome
  if digits = [] then none
  else some (digits.foldl (fun number byte => 16 * number + (hexDigit byte).getD 0) 0)

def scanUnsigned : Bytes → Option UInt8
  | zero :: x :: rest =>
      if zero = ch '0' ∧ (x = ch 'x' ∨ x = ch 'X') then scanDigits rest
      else scanDigits (zero :: x :: rest)
  | text => scanDigits text

/-- The low byte of what `sscanf(text, "%x", &ii)` stores, if it stores anything. -/
def scanHex (text : Bytes) : Option UInt8 :=
  match (text.takeWhile fun byte => byte ≠ 0).dropWhile isspace with
  | [] => none
  | sign :: rest =>
      if sign = ch '-' then (scanUnsigned rest).map fun number => 0 - number
      else if sign = ch '+' then scanUnsigned rest
      else scanUnsigned (sign :: rest)

/-- `ii` is the low byte of the variable that `sscanf` fills; it is not
initialised, and an escape that is no number leaves it as it was. -/
def urlDecode (ii : UInt8) : Bytes → Bytes
  | [] => []
  | byte :: rest =>
      if byte ≠ ch '%' then
        (if byte = ch '+' then ch ' ' else byte) :: urlDecode ii rest
      else
        let ii := (scanHex (rest.take 2)).getD ii
        match rest with
        | [] => [ii]
        | [_] => [ii]
        | _ :: _ :: later => ii :: urlDecode ii later

/-- `source.find(pattern)` as an index. -/
def find (pattern : Bytes) : Bytes → Option Nat
  | [] => if pattern = [] then some 0 else none
  | byte :: rest =>
      if pattern.isPrefixOf (byte :: rest) then some 0 else (find pattern rest).map (· + 1)

/-- `source.find(pattern, position)`. -/
def findFrom (source pattern : Bytes) (position : Nat) : Option Nat :=
  if position ≤ source.length then (find pattern (source.drop position)).map (position + ·)
  else none

/-- The loop of `replace_all`: what `source` is left as. -/
def replaceAllFrom (pattern replacement : Bytes) : Nat → Bytes → Nat → Option Bytes
  | 0, _, _ => none
  | fuel + 1, source, position =>
      match findFrom source pattern position with
      | none => some source
      | some position =>
          replaceAllFrom pattern replacement fuel
            (source.take position ++ replacement ++ source.drop (position + pattern.length))
            (position + replacement.length)

def replaceAll (source pattern replacement : Bytes) (fuel : Nat) : Option Bytes :=
  replaceAllFrom pattern replacement fuel source 0

def endsWith (str suffix : Bytes) : Bool :=
  suffix.isSuffixOf str

def startsWith (str start : Bytes) : Bool :=
  start.isPrefixOf str

theorem replaceAllFrom_stable (pattern replacement : Bytes) (source : Bytes) (position : Nat) :
    Fuelled.Stable fun fuel => replaceAllFrom pattern replacement fuel source position := by
  intro fuel
  induction fuel generalizing source position with
  | zero =>
      intro value answer
      simp [replaceAllFrom] at answer
  | succ fuel ih =>
      intro value answer
      simp only [replaceAllFrom] at answer ⊢
      cases found : findFrom source pattern position with
      | none =>
          simp only [found] at answer
          exact answer
      | some position =>
          simp only [found] at answer
          exact ih _ _ _ answer

theorem replaceAll_stable (source pattern replacement : Bytes) :
    Fuelled.Stable (replaceAll source pattern replacement) :=
  replaceAllFrom_stable pattern replacement source 0

end Util

end Libjaypea
