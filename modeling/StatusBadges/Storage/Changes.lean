import StatusBadges.Storage.Tree
/-!
# Changes between trees

`Tree.changes` lists the locations at which two trees differ, each with what the second tree has
there. Main statement: these are all of them (`mem_changes_iff`).
-/

namespace StatusBadges.Tree

/-- The locations below the root that have a node. -/
def locations (t : Tree) : List Location := t.entries.map (·.1)

theorem mem_locations_iff {t : Tree} {l : Location} :
    l ∈ t.locations ↔ l ≠ [] ∧ (t.node? l).isSome := by
  constructor
  · intro h
    obtain ⟨e, he, rfl⟩ := List.mem_map.1 h
    have h0 := (t.rooted e he).1
    refine ⟨h0, ?_⟩
    rw [(node?_eq_some_iff h0).2 he]
    rfl
  · rintro ⟨h0, hs⟩
    obtain ⟨n, hn⟩ := Option.isSome_iff_exists.1 hs
    exact List.mem_map.2 ⟨(l, n), (node?_eq_some_iff h0).1 hn, rfl⟩

/-- The locations at which two trees differ, with the node that the second one has there, if any. -/
def changes (before after : Tree) : List (Location × Option Node) :=
  let gone := before.locations.filter fun l => (after.node? l).isNone
  let made := after.locations.filter fun l => before.node? l ≠ after.node? l
  gone.map (fun l => (l, none)) ++ made.map (fun l => (l, after.node? l))

/-- A location is listed with what the second tree has there exactly when the trees differ there. -/
theorem mem_changes_iff {before after : Tree} {l : Location} {n : Option Node} :
    (l, n) ∈ before.changes after ↔ n = after.node? l ∧ before.node? l ≠ after.node? l := by
  have root : l = [] → before.node? l = after.node? l := by rintro rfl; simp
  simp only [changes, List.mem_append, List.mem_map, List.mem_filter, Prod.mk.injEq,
    mem_locations_iff, decide_eq_true_eq]
  constructor
  · rintro (⟨k, ⟨⟨-, hb⟩, ha⟩, rfl, rfl⟩ | ⟨k, ⟨-, hd⟩, rfl, rfl⟩)
    · have ha := Option.isNone_iff_eq_none.1 ha
      refine ⟨ha.symm, fun h => ?_⟩
      rw [h, ha] at hb
      cases hb
    · exact ⟨rfl, hd⟩
  · rintro ⟨rfl, hd⟩
    have hl : l ≠ [] := fun h => hd (root h)
    cases ha : after.node? l with
    | none =>
      refine Or.inl ⟨l, ⟨⟨hl, ?_⟩, by simp [ha]⟩, rfl, rfl⟩
      rw [ha] at hd
      exact Option.isSome_iff_ne_none.2 hd
    | some n => exact Or.inr ⟨l, ⟨⟨hl, by simp [ha]⟩, hd⟩, rfl, ha⟩

end StatusBadges.Tree
