/-!
# Binary64 numbers as integers times powers of two

A finite number of magnitude `m * 2 ^ e` is read off its bits as `(m, e)`, so that what needs exactness
(whole parts, remainders, decimal text) is integer arithmetic.
-/

namespace Sprig.Binary64

def isNegative (x : Float) : Bool := x.toBits.toNat ≥ Nat.pow 2 63

/-- The magnitude of a finite number. -/
def magnitude (x : Float) : Nat × Int :=
  let fraction : Nat := x.toBits.toNat % Nat.pow 2 52
  let exponent : Nat := x.toBits.toNat / Nat.pow 2 52 % Nat.pow 2 11
  if exponent = 0 then (fraction, -1074) else (fraction + Nat.pow 2 52, (exponent : Int) - 1075)

/-- The number of magnitude `m * 2 ^ e`, for one that is representable. -/
def ofMagnitude (negative : Bool) (m : Nat) (e : Int) : Float :=
  let shift := min (52 - (m.log2 : Int)) (e + 1074)
  let significand := m * Nat.pow 2 shift.toNat / Nat.pow 2 (-shift).toNat
  let bits :=
    if significand < Nat.pow 2 52 then significand
    else (e - shift + 1075).toNat * Nat.pow 2 52 + (significand - Nat.pow 2 52)
  Float.ofBits (UInt64.ofNat (bits + if negative then Nat.pow 2 63 else 0))

/-- The integer that a number is, if it is one. -/
def toInt? (x : Float) : Option Int :=
  if x.isFinite then
    let (m, e) := magnitude x
    if m % Nat.pow 2 (-e).toNat = 0 then
      let n := m / Nat.pow 2 (-e).toNat * Nat.pow 2 e.toNat
      some (if isNegative x then -(n : Int) else n)
    else none
  else none

def nan : Float := 0.0 / 0.0

def infinity : Float := 1.0 / 0.0

/-- The remainder of division toward zero, exact, with the sign of the dividend. -/
def remainder (x y : Float) : Float :=
  if x.isFinite && !y.isNaN && !(y == 0.0) then
    if y.isFinite then
      let (m, e) := magnitude x
      let (n, f) := magnitude y
      let unit := min e f
      let r := m * Nat.pow 2 (e - unit).toNat % (n * Nat.pow 2 (f - unit).toNat)
      ofMagnitude (isNegative x) r unit
    else x
  else nan

end Sprig.Binary64
