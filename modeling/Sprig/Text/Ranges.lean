/-!
# Ranges of characters
-/

namespace Sprig

/-- Code points in ascending ranges, each given by its first and last one. -/
abbrev Ranges := List (Nat × Nat)

def Ranges.contains : Ranges → Char → Bool
  | [], _ => false
  | (first, last) :: rest, c =>
    decide (first ≤ c.toNat) && (decide (c.toNat ≤ last) || Ranges.contains rest c)

end Sprig
