import Sprig.Number.Decimal
import Sprig.Number.Integer

/-!
# Floats as text

Floats are written with the fewest digits that read back: with an exponent from `10 ^ 16` on, positionally
below, and a whole number with one zero after its point.
-/

namespace Sprig.FloatText

/-- The number nearest to `m * 10 ^ e`. The bounds keep the powers of ten small. -/
def nearest (m : Nat) (e : Int) : Float :=
  let top := e + (Nat.toDigits 10 m).length
  if m = 0 ∨ top < -330 then 0.0
  else if 310 < top then Binary64.infinity
  else Float.ofScientific m (decide (e < 0)) e.natAbs

/-- Digits with at most one point among or beside them, and at most one exponent. -/
def magnitude? (text : List Char) : Option Float :=
  let whole := text.takeWhile Char.isDigit
  let (fraction, rest) := match text.dropWhile Char.isDigit with
    | '.' :: rest => (rest.takeWhile Char.isDigit, rest.dropWhile Char.isDigit)
    | rest => ([], rest)
  let exponent? := match rest with
    | [] => some 0
    | 'e' :: rest | 'E' :: rest => Integer.integer? rest
    | _ => none
  if whole.isEmpty && fraction.isEmpty then none
  else exponent?.map fun e => nearest (Integer.naturalOfDigits (whole ++ fraction)) (e - fraction.length)

def read? (text : String) : Option Float :=
  let (negative, text) := Integer.signed text.toList
  let unsigned? :=
    match String.ofList (text.map Char.toLower) with
    | "inf" | "infinity" => some Binary64.infinity
    | "nan" => some Binary64.nan
    | _ => magnitude? text
  unsigned?.map fun x => if negative then -x else x

/-- One digit, a point if more follow, and the power of ten of the first digit. -/
def scientific (c : Nat) (k : Int) : String :=
  let digits := Nat.toDigits 10 c
  let mantissa := match digits with
    | d :: d' :: rest => d :: '.' :: d' :: rest
    | _ => digits
  s!"{String.ofList mantissa}e{k + digits.length - 1}"

/-- Digits around a point, with zeros up to it. `k` is negative. -/
def positional (c : Nat) (k : Int) : String :=
  let places := (-k).toNat
  let digits := Nat.toDigits 10 c
  let padded := List.replicate (places + 1 - digits.length) '0' ++ digits
  let whole := padded.length - places
  String.ofList (padded.take whole ++ '.' :: padded.drop whole)

def render (x : Float) : String :=
  let sign := if Binary64.isNegative x then "-" else ""
  if x.isNaN then "NaN"
  else if x.isInf then sign ++ "Infinity"
  else
    let (m, e) := Binary64.magnitude x
    let text :=
      if 1e16 ≤ x.abs then
        let (c, k) := Decimal.shortest m e
        scientific c k
      else
        match Binary64.toInt? x with
        | some n => s!"{n.natAbs}.0"
        | none =>
          let (c, k) := Decimal.shortest m e
          positional c k
    sign ++ text

end Sprig.FloatText
