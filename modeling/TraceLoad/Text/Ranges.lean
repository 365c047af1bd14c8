/-! # Ranges of characters

A property of characters is kept as an ascending table of the ranges that have it, which is searched
by halves.
-/

namespace TraceLoad.Text

/-- Whether one of the ranges from `low` up to `high` holds `n`: the middle one does, or else the
search goes on in the half that can. -/
def inRanges (ranges : Array (Nat × Nat)) (n : Nat) (low high : Nat) : Bool :=
  if _h : low < high then
    let middle := (low + high) / 2
    match ranges[middle]? with
    | none => false
    | some (first, final) =>
      if n < first then inRanges ranges n low middle
      else if final < n then inRanges ranges n (middle + 1) high
      else true
  else
    false
termination_by high - low
decreasing_by all_goals omega

end TraceLoad.Text
