import StatusBadges.Proofs.Path

/-!
# Components of joined paths

A path that is joined to another goes on with its components (`components_join`), and so names
written behind a path are components behind those of the path (`components_join_ofNames`).
Components tell what a path says and not how it is written: paths with the same components start at
the same place and have the same parts, but for dots (`dotless_of_components`).
-/

namespace StatusBadges

namespace Path

/-! ## Names in a row -/

/-- The names of entries of directories. -/
def Plain (names : List Name) : Prop := ∀ n ∈ names, n.isPlain = true

section Plain

variable {names : List Name} (h : Plain names)
include h

theorem pieces_ofNames (hne : names ≠ []) : (ofNames names).pieces = names :=
  Text.split_joined hne fun n hn => (Name.isPlain_iff.1 (h n hn)).2.2.2.1

theorem isAbsolute_ofNames : (ofNames names).isAbsolute = false := by
  cases names with
  | nil => rfl
  | cons n rest =>
    obtain ⟨hne, -, -, hslash, -⟩ := Name.isPlain_iff.1 (h n List.mem_cons_self)
    cases n with
    | nil => exact absurd rfl hne
    | cons c more =>
      have hc : '/' ≠ c := fun e => hslash (e ▸ List.mem_cons_self)
      cases rest <;> simpa [isAbsolute, ofNames, Text.joined] using Ne.symm hc

theorem filterMap_ofPiece?_names : names.filterMap Component.ofPiece? = names.map .name := by
  induction names with
  | nil => rfl
  | cons n rest ih =>
    obtain ⟨hn, hrest⟩ := List.forall_mem_cons.1 h
    obtain ⟨hne, hdot, hup, -⟩ := Name.isPlain_iff.1 hn
    have hpiece : Component.ofPiece? n = some (.name n) := by
      simp [Component.ofPiece?, isIdle, hne, hdot, hup]
    rw [List.filterMap_cons_some hpiece, ih hrest, List.map_cons]

theorem parts_ofNames : (ofNames names).parts = names := by
  by_cases hne : names = []
  · subst hne
    rfl
  · rw [parts, pieces_ofNames h hne, List.filter_eq_self]
    intro n hn
    simpa using (Name.isPlain_iff.1 (h n hn)).1

theorem startsHere_ofNames : (ofNames names).startsHere = false := by
  cases names with
  | nil => rfl
  | cons first rest =>
    rw [startsHere, pieces_ofNames h (by simp)]
    simpa using (Name.isPlain_iff.1 (h first List.mem_cons_self)).2.1

theorem components_ofNames : (ofNames names).components = names.map .name := by
  rw [components, isAbsolute_ofNames h, startsHere_ofNames h]
  by_cases hne : names = []
  · subst hne
    rfl
  · rw [pieces_ofNames h hne, filterMap_ofPiece?_names h]
    rfl

theorem chars_ofNames_ne_nil (hne : names ≠ []) : (ofNames names).chars ≠ [] := by
  intro hnil
  have hparts := parts_ofNames h
  rw [parts, pieces, hnil] at hparts
  exact hne hparts.symm

theorem nul_notMem_ofNames : '\x00' ∉ (ofNames names).chars := by
  intro hmem
  rcases mem_chars hmem with e | ⟨part, hpart, hx⟩
  · cases e
  · rw [parts_ofNames h] at hpart
    exact (Name.isPlain_iff.1 (h part hpart)).2.2.2.2 hx

end Plain

/-- Rows of names that say the same are the same. -/
theorem ofNames_injective {a b : List Name} (ha : Plain a) (hb : Plain b)
    (h : (ofNames a).components = (ofNames b).components) : a = b := by
  rw [components_ofNames ha, components_ofNames hb] at h
  exact (List.map_inj_right fun _ _ e => Component.name.inj e).1 h

theorem endsWithSlash_ofNames {names : List Name} (h : Plain names) :
    (ofNames names).endsWithSlash = false := by
  rcases List.eq_nil_or_concat names with rfl | ⟨init, n, rfl⟩
  · rfl
  · obtain ⟨hne, -, -, hslash, -⟩ := Name.isPlain_iff.1 (h n (by simp))
    have hlast : n.getLast? ≠ some '/' := fun e => hslash (List.mem_of_getLast? e)
    by_cases hinit : init = []
    · simpa [hinit, endsWithSlash, ofNames, Text.joined] using hlast
    · have e : (ofNames (init ++ [n])).chars = Text.joined ['/'] init ++ '/' :: n :=
        Text.joined_append '/' hinit (by simp)
      have hc := List.getLast?_eq_some_getLast hne
      rw [hc] at hlast
      simpa [endsWithSlash, e, List.getLast?_append, List.getLast?_cons, hc] using hlast

theorem steps_ofNames {names : List Name} (h : Plain names) : (ofNames names).steps = names := by
  rw [steps, endsWithSlash_ofNames h, parts_ofNames h]
  simp

theorem fileName?_ofNames {names : List Name} {n : Name} (h : Plain (names ++ [n])) :
    (ofNames (names ++ [n])).fileName? = some n := by
  obtain ⟨hne, hdot, hup, -⟩ := Name.isPlain_iff.1 (h n (by simp))
  have hbody : (ofNames (names ++ [n])).body = names ++ [n] := by
    rw [body, isAbsolute_ofNames h, startsHere_ofNames h, pieces_ofNames h (by simp)]
    rfl
  have hidle : isIdle n = false := by simp [isIdle, hne, hdot]
  simp [fileName?, hbody, dropIdleEnd, hidle, hup]

/-! ## Paths with the same components -/

/-- The parts of a path that are not dots. -/
def dotless (p : Path) : List Name := p.parts.filter (· ≠ ['.'])

/-- Whether a component says how to go on. -/
def Component.isStep : Component → Bool
  | .root | .here => false
  | .up | .name _ => true

/-- The start of a path is no step, and what follows it is made of steps. -/
theorem filter_isStep_components (p : Path) :
    p.components.filter Component.isStep = p.pieces.filterMap Component.ofPiece? := by
  have hstart : (if p.isAbsolute then [Component.root] else if p.startsHere then [.here]
      else []).filter Component.isStep = [] := by
    split
    · rfl
    · split <;> rfl
  have hsteps : (p.pieces.filterMap Component.ofPiece?).filter Component.isStep =
      p.pieces.filterMap Component.ofPiece? := by
    rw [List.filter_eq_self]
    intro c hc
    obtain ⟨piece, -, hpiece⟩ := List.mem_filterMap.1 hc
    unfold Component.ofPiece? at hpiece
    split at hpiece
    · cases hpiece
    · split at hpiece <;> cases hpiece <;> rfl
  rw [components, List.filter_append, hstart, hsteps]
  rfl

theorem dotless_eq (p : Path) :
    p.dotless = (p.components.filter Component.isStep).map Component.text := by
  have hpieces (pieces : List (List Char)) :
      (pieces.filter (· != [])).filter (· ≠ ['.']) =
        (pieces.filterMap Component.ofPiece?).map Component.text := by
    induction pieces with
    | nil => rfl
    | cons piece more ih =>
      by_cases hnil : piece = []
      · subst hnil
        exact ih
      by_cases hdot : piece = ['.']
      · subst hdot
        exact ih
      by_cases hup : piece = ['.', '.']
      · subst hup
        exact congrArg (['.', '.'] :: ·) ih
      have hpiece : Component.ofPiece? piece = some (.name piece) := by
        simp [Component.ofPiece?, isIdle, hnil, hdot, hup]
      rw [List.filterMap_cons_some hpiece, List.map_cons, ← ih]
      simp [hnil, hdot, Component.text]
  rw [filter_isStep_components, dotless, parts, hpieces]

/-- Where a path does not go up, its steps are names. -/
theorem filter_isStep_eq_map_dotless {p : Path} (h : .up ∉ p.components) :
    p.components.filter Component.isStep = p.dotless.map .name := by
  have hsame : ∀ c ∈ p.components.filter Component.isStep, Component.name c.text = c := by
    intro c hc
    obtain ⟨hmem, hstep⟩ := List.mem_filter.1 hc
    cases c with
    | root => cases hstep
    | here => cases hstep
    | up => exact absurd hmem h
    | name n => rfl
  rw [dotless_eq, List.map_map]
  exact ((List.map_congr_left hsame).trans (List.map_id' _)).symm

theorem isAbsolute_iff_mem_components (p : Path) :
    p.isAbsolute = true ↔ .root ∈ p.components := by
  have hno : Component.root ∉ p.pieces.filterMap Component.ofPiece? := by
    rw [← filter_isStep_components]
    intro hmem
    cases (List.mem_filter.1 hmem).2
  cases h : p.isAbsolute <;> simp [components, h, hno]

theorem dotless_of_components {p q : Path} (h : p.components = q.components) :
    p.isAbsolute = q.isAbsolute ∧ p.dotless = q.dotless := by
  refine ⟨?_, by rw [dotless_eq, dotless_eq, h]⟩
  rw [Bool.eq_iff_iff, isAbsolute_iff_mem_components, isAbsolute_iff_mem_components, h]

/-- A path without components that go up has no double dots. -/
theorem up_notMem_parts {p : Path} (h : .up ∉ p.components) : ['.', '.'] ∉ p.parts := by
  intro hmem
  have hpiece := (List.mem_filter.1 hmem).1
  exact h (List.mem_append_right _ (List.mem_filterMap.2 ⟨_, hpiece, rfl⟩))

/-! ## Joined paths -/

theorem startsHere_join {p q : Path} (hq : q.isAbsolute = false) (hp : p.chars ≠ []) :
    (p.join q).startsHere = p.startsHere := by
  obtain ⟨front, hjoin, hfront⟩ := exists_pieces_join (p := p) hq
  have hne : front ≠ [] := by
    rintro rfl
    apply hp
    rw [p.chars_eq_joined]
    rcases hfront with h | h
    · exact absurd h (Text.split_ne_nil _ _)
    · rw [h]
      rfl
  obtain ⟨first, rest, rfl⟩ := List.exists_cons_of_ne_nil hne
  rw [startsHere, startsHere, hjoin]
  rcases hfront with h | h <;> rw [h] <;> rfl

/-- **A joined path goes on with the components of the second path**, but for a dot that leads
there. -/
theorem components_join {p q : Path} (hq : q.isAbsolute = false) (hp : p.chars ≠ []) :
    (p.join q).components = p.components ++ q.components.filter Component.isStep := by
  obtain ⟨front, hjoin, hfront⟩ := exists_pieces_join (p := p) hq
  have hfirst : front.filterMap Component.ofPiece? = p.pieces.filterMap Component.ofPiece? := by
    have hidle : Component.ofPiece? [] = none := rfl
    rcases hfront with e | e <;> simp [e, hidle]
  rw [filter_isStep_components, components, isAbsolute_join hq, startsHere_join hq hp, hjoin,
    List.filterMap_append, hfirst, ← List.append_assoc]
  rfl

/-- Names behind a path are components behind those of the path. -/
theorem components_join_ofNames {p : Path} {names : List Name} (hp : p.chars ≠ [])
    (h : Plain names) : (p.join (ofNames names)).components = p.components ++ names.map .name := by
  have hsteps (names : List Name) :
      (names.map Component.name).filter Component.isStep = names.map .name := by
    rw [List.filter_eq_self]
    intro c hc
    obtain ⟨n, -, rfl⟩ := List.mem_map.1 hc
    rfl
  rw [components_join (isAbsolute_ofNames h) hp, components_ofNames h, hsteps]

/-- A path that goes on along names begins as one that goes on by another way exactly when the names
begin with the parts of that way. -/
theorem startsWith_join_iff {p q : Path} {names : List Name} (hp : p.chars ≠ [])
    (hq : q.isAbsolute = false) (hup : .up ∉ q.components) (h : Plain names) :
    (p.join (ofNames names)).startsWith (p.join q) = true ↔ q.dotless <+: names := by
  rw [startsWith, List.isPrefixOf_iff_prefix, components_join_ofNames hp h, components_join hq hp,
    List.prefix_append_right_inj, filter_isStep_eq_map_dotless hup]
  exact List.prefix_map_iff_of_injective fun _ _ e => Component.name.inj e

theorem chars_child_ne_nil {p : Path} {n : Name} (h : '/' ∉ n) (hne : n ≠ []) :
    (p.child n).chars ≠ [] := by
  rw [child, join_of_relative (isAbsolute_mk h)]
  split <;> simp [hne]

/-- Names in a row behind a path are a way down from it. -/
theorem join_ofNames {p : Path} {names : List Name} (h : Plain names) (hne : names ≠ []) :
    p.join (ofNames names) = p.descend names := by
  induction names generalizing p with
  | nil => exact absurd rfl hne
  | cons n rest ih =>
    obtain ⟨hn, hrest⟩ := List.forall_mem_cons.1 h
    obtain ⟨hnil, -, -, hslash, -⟩ := Name.isPlain_iff.1 hn
    cases rest with
    | nil => rfl
    | cons next more =>
      have hdescend : p.descend (n :: next :: more) = (p.child n).descend (next :: more) := rfl
      have hwhole := isAbsolute_ofNames h
      have hbehind := isAbsolute_ofNames hrest
      rw [hdescend, ← ih hrest (by simp)]
      have hempty := chars_child_ne_nil (p := p) hslash hnil
      have hend : (p.child n).chars.getLast? ≠ some '/' := by
        simpa [endsWithSlash] using endsWithSlash_child (p := p) hslash hnil
      have e : ofNames (n :: next :: more) = ⟨n ++ '/' :: (ofNames (next :: more)).chars⟩ := by
        simp [ofNames, Text.joined]
      have hright : (p.child n).join (ofNames (next :: more)) =
          ⟨(p.child n).chars ++ '/' :: (ofNames (next :: more)).chars⟩ := by
        rw [join_of_relative hbehind, if_neg (by simp [hempty, hend])]
      rw [hright, join_of_relative hwhole, child, join_of_relative (isAbsolute_mk hslash), e]
      split <;> simp

end Path
end StatusBadges
