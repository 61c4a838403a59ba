/-! How alike two texts are: the Jaro similarity. -/
namespace LS8.Text

/-- The first place of `b` that is not `taken` yet, holds `c` and is at most `reach` away from
place `i`. -/
def partner? (b : List Char) (reach : Nat) (taken : List Nat) (i : Nat) (c : Char) : Option Nat :=
  (List.range b.length).find? fun j =>
    i ≤ j + reach && j ≤ i + reach && b[j]? = some c && !taken.contains j

/-- The places of `b` that pair up with equal characters of `a`, in the order of `a`. -/
def partners (a b : List Char) : List Nat :=
  let reach := max a.length b.length / 2 - 1
  a.zipIdx.foldl (fun taken (c, i) => taken ++ (partner? b reach taken i c).toList) []

/-- How many of the places hold another character than they would in ascending order. -/
def displaced (b : List Char) (places : List Nat) : Nat :=
  let ordered := (List.range b.length).filter places.contains
  (places.zip ordered).countP fun (j, k) => b[j]? ≠ b[k]?

/-- From 0 for texts without a common character to 1 for equal texts: the mean of the share of
paired characters in `a`, that in `b`, and the share of pairs that are in order. -/
def similarity (a b : List Char) : Float :=
  let places := partners a b
  let paired := places.length
  if a = [] ∧ b = [] then 1
  else if paired = 0 then 0
  else
    let inOrder := paired - displaced b places / 2
    (paired.toFloat / a.length.toFloat + paired.toFloat / b.length.toFloat +
      inOrder.toFloat / paired.toFloat) / 3

end LS8.Text
