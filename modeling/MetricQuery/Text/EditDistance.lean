import MetricQuery.Collection.Basic

/-! # Edit distance

The least number of characters to insert, delete or replace to turn one text into another, computed
row by row: the row of a leading part of the value holds its distances to all leading parts of the
target. Names are ranked by it when a message suggests what was meant.
-/

namespace MetricQuery.Text

/-- The cells of a row to the right of `left`, from the row above: `corner` stands above `left`. -/
def rowCells (c : Char) (left corner : Nat) : List Char → List Nat → List Nat
  | letter :: target, above :: row =>
    let cell := min (min (above + 1) (left + 1)) (corner + if c = letter then 0 else 1)
    cell :: rowCells c cell above target row
  | _, _ => []

/-- The row after reading one more character of the value. -/
def nextRow (target : List Char) (row : List Nat) (c : Char) : List Nat :=
  match row with
  | [] => []
  | first :: rest => (first + 1) :: rowCells c (first + 1) first target rest

/-- The row of the empty value: each leading part of the target takes its length in insertions. -/
def firstRow (target : List Char) : List Nat := List.range (target.length + 1)

/-- The last cell of a row, the distance to the whole target. -/
def lastCell (row : List Nat) : Nat := row.getLast?.getD 0

/-- The edit distance of two texts. -/
def editDistance (value target : String) : Nat :=
  lastCell (value.toList.foldl (nextRow target.toList) (firstRow target.toList))

/-- Goes through the rows as long as one cell is within `bound`; no later row can come back below
the least cell of this one. -/
def boundedFrom (bound : Nat) (target : List Char) (row : List Nat) : List Char → Nat
  | [] => min (lastCell row) (bound + 1)
  | c :: value =>
    let next := nextRow target row c
    if next.all (bound < ·) then bound + 1 else boundedFrom bound target next value

/-- The edit distance up to `bound`, and `bound + 1` for every larger one. -/
def boundedEditDistance (value target : String) (bound : Nat) : Nat :=
  boundedFrom bound target.toList (firstRow target.toList) value.toList

/-- A name and its distance from what was asked for; the order is by distance, then by name. -/
structure RankedName where
  distance : Nat
  name : String
  deriving DecidableEq, Ord

/-- The `count` names closest to `wanted`, closest first, equal distances by name, each once. -/
def closestNames (wanted : String) (names : List String) (count : Nat) : List String :=
  let ranked := names.map fun name => RankedName.mk (editDistance wanted name) name
  ((sortedDistinct ranked).take count).map RankedName.name

end MetricQuery.Text
