import LinearProgram.Document.Basic

/-!
# Declaration order

A document mentions variables in an order of first appearance and lists some of them in
sections, which a written model puts in order of declaration.  The order of declaration
chosen here keeps to first appearance except where a section asks for something else:
the next variable is always the first one that no section puts behind another variable
still waiting.  When every waiting variable is behind another one, the sections
contradict each other, and the rest follows in order of first appearance.
-/

namespace LinearProgram

/-- Each element before the next one of a list. -/
def consecutivePairs (xs : List α) : List (α × α) :=
  xs.zip xs.tail

/-- Whether no pair puts a waiting element before the given one. -/
def isFirstOf [DecidableEq α] (pairs : List (α × α)) (waiting : List α) (x : α) : Bool :=
  !pairs.any fun pair => pair.2 = x && waiting.contains pair.1

/--
The order that respects the pairs and is least when elements are compared by their
places in the list.  Elements that contradictory pairs hold back stay as they are.
-/
def leastMerge [DecidableEq α] (pairs : List (α × α)) (waiting : List α) : List α :=
  match _hnext : waiting.find? (isFirstOf pairs waiting) with
  | some x => x :: leastMerge pairs (waiting.erase x)
  | none => waiting
termination_by waiting.length
decreasing_by
  have hmem := List.mem_of_find?_eq_some _hnext
  have hpos := List.length_pos_of_mem hmem
  rw [List.length_erase_of_mem hmem]
  omega

namespace Document

/-- The names of each section that lists variables, at their first occurrences. -/
def listings (document : Document) : List (List String) :=
  [(document.bounds.map BoundStatement.name).eraseDups, document.generals.eraseDups,
    document.binaries.eraseDups]

/-- The variables in the order in which a model declares them. -/
def declarationOrder (document : Document) : List String :=
  leastMerge (document.listings.flatMap consecutivePairs) document.variableNames

end Document

end LinearProgram
