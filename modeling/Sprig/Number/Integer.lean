/-!
# 64-bit integers and their numerals
-/

namespace Sprig.Integer

/-- The 64-bit integer of that value, if it is in range. -/
def ofInt? (z : Int) : Option Int64 :=
  if Int64.minValue.toInt ≤ z ∧ z ≤ Int64.maxValue.toInt then some (Int64.ofInt z) else none

def naturalOfDigits (digits : List Char) : Nat :=
  digits.foldl (fun n d => 10 * n + (d.toNat - '0'.toNat)) 0

def natural? (text : List Char) : Option Nat :=
  if !text.isEmpty && text.all Char.isDigit then some (naturalOfDigits text) else none

/-- Whether a minus sign stands in front, and the text after any sign. -/
def signed : List Char → Bool × List Char
  | '-' :: rest => (true, rest)
  | '+' :: rest => (false, rest)
  | text => (false, text)

def integer? (text : List Char) : Option Int :=
  let (negative, digits) := signed text
  (natural? digits).map fun n => if negative then -(n : Int) else n

/-- Reads decimal digits with at most one sign in front. -/
def read? (text : String) : Option Int64 := integer? text.toList >>= ofInt?

end Sprig.Integer
