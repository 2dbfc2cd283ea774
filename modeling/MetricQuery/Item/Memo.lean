import MetricQuery.Item.Reference

/-! # Memo of parsed references

References are read once per compilation. The memo holds the results of the most recent texts that
it had not held, failures included; when it is full, the oldest of them gives way.
-/

namespace MetricQuery

/-- The results of reading references. -/
structure ReferenceMemo where
  /-- How many results are kept at most. -/
  capacity : Nat
  /-- The results by their texts, one for each. -/
  entries : List (String × Except ItemError ItemReference)
  /-- The texts in the order in which they were added, the oldest first. -/
  order : List String
  /-- How often a result was found here. -/
  hits : Nat

namespace ReferenceMemo

/-- A memo without results; it keeps at least one. -/
def empty (capacity : Nat) : ReferenceMemo where
  capacity := max capacity 1
  entries := []
  order := []
  hits := 0

/-- Drops the oldest result, if there is one. -/
def dropOldest (memo : ReferenceMemo) : ReferenceMemo :=
  match memo.order with
  | [] => memo
  | oldest :: rest =>
    { memo with entries := memo.entries.filter (·.1 != oldest), order := rest }

/-- Adds a result, in place of the oldest one if there is no room. -/
def insert (memo : ReferenceMemo) (input : String) (result : Except ItemError ItemReference) :
    ReferenceMemo :=
  let kept := if memo.capacity ≤ memo.entries.length then memo.dropOldest else memo
  { kept with
    entries := (input, result) :: kept.entries.filter (·.1 != input)
    order := kept.order ++ [input] }

/-- Reads a reference with the help of a memo. -/
def read (input : String) : StateM ReferenceMemo (Except ItemError ItemReference) := fun memo =>
  match memo.entries.lookup input with
  | some result => (result, { memo with hits := memo.hits + 1 })
  | none =>
    let result := ItemReference.read input
    (result, memo.insert input result)

/-- Reads a callout of a template, which has to be a call. -/
def readCallout (input : String) : StateM ReferenceMemo (Except ItemError ItemReference) :=
  if ItemReference.looksLikeCall input then read input else pure (.error (.notCall input))

end ReferenceMemo

end MetricQuery
