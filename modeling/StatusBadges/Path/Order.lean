import StatusBadges.Path.Basic
/-!
# Order of paths

Paths are listed by their components from left to right. Among components the root comes first,
then the leading dot, then the double dot, then the names by their characters.
-/

namespace StatusBadges

/-- Whether a list comes before another or equals it, the first difference deciding. -/
def lexLe {α : Type} [DecidableEq α] (before : α → α → Bool) : List α → List α → Bool
  | [], _ => true
  | _ :: _, [] => false
  | a :: as, b :: bs => if a = b then lexLe before as bs else before a b

namespace Path

def Component.before : Component → Component → Bool
  | .root, .root => false
  | .root, _ => true
  | .here, .root => false
  | .here, .here => false
  | .here, _ => true
  | .up, .name _ => true
  | .up, _ => false
  | .name a, .name b => a != b && lexLe (fun c d => decide (c < d)) a b
  | .name _, _ => false

/-- Whether a path comes before another or has the same components. -/
def le (p q : Path) : Bool := lexLe Component.before p.components q.components

def sort (paths : List Path) : List Path := paths.mergeSort le

/-- Sorting keeps the paths that there are. -/
theorem mem_sort {p : Path} {paths : List Path} : p ∈ sort paths ↔ p ∈ paths := by
  simp [sort, List.mem_mergeSort]

end Path
end StatusBadges
