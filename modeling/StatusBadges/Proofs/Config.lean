import StatusBadges.Config
import StatusBadges.Proofs.Path.Components

/-!
# Configured paths

A relative path of a configuration goes on from the root. When neither of them goes up, the path
does not (`Descends.notMem_resolve`).
-/

namespace StatusBadges.Config

theorem resolve_of_relative {c : Config} {p : Path} (hp : p.isAbsolute = false) :
    c.resolve p = c.root.join p := by
  rw [resolve, if_neg (by simp [hp])]

theorem parts_resolve {c : Config} {p : Path} (hp : p.isAbsolute = false) :
    (c.resolve p).parts = c.root.parts ++ p.parts := by
  rw [resolve_of_relative hp, Path.parts_join hp]

/-- The root is given, and no path by which a clean-up goes has a component that goes up. -/
structure Descends (c : Config) : Prop where
  root_ne_nil : c.root.chars ≠ []
  root : .up ∉ c.root.components
  nimCache : .up ∉ c.nimCache.components
  testsDir : .up ∉ c.testsDir.components
  htmlDir : .up ∉ c.htmlDir.components

theorem Descends.notMem_resolve {c : Config} (h : c.Descends) {p : Path} (hp : .up ∉ p.components) :
    ['.', '.'] ∉ (c.resolve p).parts := by
  cases habs : p.isAbsolute with
  | true =>
    rw [resolve, if_pos habs]
    exact Path.up_notMem_parts hp
  | false =>
    rw [parts_resolve habs, List.mem_append, not_or]
    exact ⟨Path.up_notMem_parts h.root, Path.up_notMem_parts hp⟩

end StatusBadges.Config
