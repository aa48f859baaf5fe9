/-!
# FlowNest — fresh names

A name that is not taken yet, as close to the wanted one as possible: the wanted
one itself, or else the first of `name_2`, `name_3`, … that is free. Among one
candidate more than there are taken names, one is free. The numbers here have no
end; those of a search that counts with 32 bits have one, and up to there it finds
the same name.
-/

namespace FlowNest

/-- The candidates for a name, the name itself being the one at 0. -/
def nameCandidate (base : String) : Nat → String
  | 0 => base
  | k + 1 => base ++ "_" ++ toString (k + 2)

/-- The first candidate that is not taken. -/
def freshName (taken : List String) (base : String) : String :=
  (((List.range (taken.length + 1)).map (nameCandidate base)).find? (· ∉ taken)).getD base

end FlowNest
