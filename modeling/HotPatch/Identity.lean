/-!
# Values told apart by place

Two values are the same allocation when they stand at the same place, equal
contents or not.  A tally over places counts how often each one was named.
-/

namespace HotPatch.Identity

/-- How often each of `count` places is named in `uses`. -/
def tally (count : Nat) (uses : List Nat) : List Nat :=
  (List.range count).map fun place => uses.count place

/-- Number of different places named. -/
def distinct (count : Nat) (uses : List Nat) : Nat := (tally count uses).countP (· != 0)

end HotPatch.Identity
