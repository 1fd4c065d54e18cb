/-!
Lists of keys with values, in the order in which the keys first came.
-/

namespace Reformat.Association

variable {κ ν : Type} [DecidableEq κ]

/-- Gives a key a value; a key that is there keeps its place. -/
def put (key : κ) (value : ν) : List (κ × ν) → List (κ × ν)
  | [] => [(key, value)]
  | (k, v) :: rest => if k = key then (k, value) :: rest else (k, v) :: put key value rest

/-- The value of a key. -/
def get? (key : κ) : List (κ × ν) → Option ν
  | [] => none
  | (k, v) :: rest => if k = key then some v else get? key rest

end Reformat.Association
