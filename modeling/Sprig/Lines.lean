/-!
# Cutting into lines
-/

namespace Sprig

/-- Cuts a list after every element that ends a line. Nothing is lost and no piece is empty. -/
def splitAfter {α : Type} (isEnd : α → Bool) (xs : List α) : List (List α) :=
  xs.foldr put []
where
  put (x : α) (lines : List (List α)) : List (List α) :=
    match isEnd x, lines with
    | true, _ | false, [] => [x] :: lines
    | false, line :: rest => (x :: line) :: rest

end Sprig
