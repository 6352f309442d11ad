/-!
Sets of names, as rows in ascending order by code point without repetitions.
-/

namespace FluentBuilder.Text

def sortedSet (names : List String) : List String :=
  names.eraseDups.mergeSort fun a b => !decide (b < a)

/-- The least of a name and some others. -/
def leastOf (name : String) (others : List String) : String :=
  others.foldl (fun least other => if other < least then other else least) name

end FluentBuilder.Text
