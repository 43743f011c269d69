import StatusBadges.Proofs.Text.Pieces
import StatusBadges.Storage.Disk

/-!
# Parts of joined paths

A lookup goes through the parts of a path. Joining paths appends their parts (`parts_join`), so that
a lookup of a joined path is one along appended names (`steps_join`). The path of an entry of a
directory ends with the name of the entry (`parts_child`), and leaving out its extension changes
that name only (`withoutExtension_child`).
-/

namespace StatusBadges

namespace Name

theorem isPlain_iff {n : Name} : n.isPlain = true ↔
    n ≠ [] ∧ n ≠ ['.'] ∧ n ≠ ['.', '.'] ∧ '/' ∉ n ∧ '\x00' ∉ n := by
  simp [isPlain, and_assoc]

theorem eq_append_of_atLastDot? {n before after : List Char}
    (h : atLastDot? n = some (before, after)) : n = before ++ '.' :: after ∧ before ≠ [] := by
  unfold atLastDot? at h
  cases hd : n.reverse.dropWhile (· != '.') with
  | nil => rw [hd] at h; cases h
  | cons c rest =>
    rw [hd] at h
    have hc : c = '.' := by
      have hne : n.reverse.dropWhile (· != '.') ≠ [] := by simp [hd]
      simpa [hd] using List.head_dropWhile_not (· != '.') hne
    subst hc
    simp only at h
    split at h
    · cases h
    · next hb =>
      simp only [Option.some.injEq, Prod.mk.injEq] at h
      obtain ⟨rfl, rfl⟩ := h
      have e : n.reverse = n.reverse.takeWhile (· != '.') ++ '.' :: rest := by
        rw [← hd, List.takeWhile_append_dropWhile]
      exact ⟨by simpa using congrArg List.reverse e, by simpa using hb⟩

/-- An extension is what stands behind the last dot, unless that is the first character. -/
theorem extension?_eq_some_iff {n ext : List Char} :
    extension? n = some ext ↔ ∃ stem, stem ≠ [] ∧ '.' ∉ ext ∧ n = stem ++ '.' :: ext := by
  constructor
  · intro h
    obtain ⟨⟨before, after⟩, hdot, rfl⟩ := Option.map_eq_some_iff.1 h
    obtain ⟨hn, hbefore⟩ := eq_append_of_atLastDot? hdot
    refine ⟨before, hbefore, fun hmem => ?_, hn⟩
    unfold atLastDot? at hdot
    split at hdot
    · cases hdot
    · split at hdot
      · cases hdot
      · cases hdot
        have hall : (n.reverse.takeWhile (· != '.')).all (· != '.') = true := List.all_takeWhile
        simpa using List.all_eq_true.1 hall _ (List.mem_reverse.1 hmem)
  · rintro ⟨stem, hstem, hext, rfl⟩
    have hpos : ∀ c ∈ ext.reverse, (c != '.') = true := by
      intro c hc
      rw [bne_iff_ne]
      rintro rfl
      exact hext (List.mem_reverse.1 hc)
    have e : (stem ++ '.' :: ext).reverse = ext.reverse ++ '.' :: stem.reverse := by simp
    simp [extension?, atLastDot?, e, List.dropWhile_append_of_pos hpos,
      List.takeWhile_append_of_pos hpos, hstem]

theorem stem_prefix (n : Name) : n.stem <+: n := by
  unfold stem
  cases h : atLastDot? n with
  | none => exact List.prefix_rfl
  | some r =>
    obtain ⟨before, after⟩ := r
    exact ⟨'.' :: after, (eq_append_of_atLastDot? h).1.symm⟩

theorem stem_ne_nil {n : Name} (hn : n ≠ []) : n.stem ≠ [] := by
  unfold stem
  cases h : atLastDot? n with
  | none => exact hn
  | some r =>
    obtain ⟨before, after⟩ := r
    exact (eq_append_of_atLastDot? h).2

end Name

theorem octetCount_append (a b : List Char) :
    octetCount (a ++ b) = octetCount a + octetCount b := by
  induction a with
  | nil => simp [octetCount]
  | cons c a ih => simp_all [octetCount, Nat.add_assoc]

theorem octetCount_le_of_sublist {a b : List Char} (h : a.Sublist b) :
    octetCount a ≤ octetCount b := by
  induction h with
  | slnil => exact Nat.le_refl _
  | cons c _ ih =>
    simp only [octetCount, List.map_cons, List.foldr_cons] at ih ⊢
    omega
  | cons_cons c _ ih =>
    simp only [octetCount, List.map_cons, List.foldr_cons] at ih ⊢
    omega

namespace Path

theorem toString_injective {p q : Path} (h : p.toString = q.toString) : p = q := by
  cases p
  cases q
  exact congrArg Path.mk (String.ofList_inj.1 h)

/-! ## Joining -/

theorem eq_concat_of_endsWithSlash {p : Path} (h : p.endsWithSlash = true) :
    ∃ a, p.chars = a ++ ['/'] := by
  have hl : p.chars.getLast? = some '/' := by simpa [endsWithSlash] using h
  exact List.getLast?_eq_some_iff.1 hl

theorem join_of_relative {p q : Path} (hq : q.isAbsolute = false) :
    p.join q = if p.chars.isEmpty || p.chars.getLast? = some '/' then ⟨p.chars ++ q.chars⟩
      else ⟨p.chars ++ '/' :: q.chars⟩ := by
  rw [join, if_neg (by simp [hq])]

theorem mem_chars_join {p q : Path} (hq : q.isAbsolute = false) {x : Char}
    (h : x ∈ (p.join q).chars) : x ∈ p.chars ∨ x = '/' ∨ x ∈ q.chars := by
  rw [join_of_relative hq] at h
  split at h
  · exact (List.mem_append.1 h).imp_right Or.inr
  · exact (List.mem_append.1 h).imp_right List.mem_cons.1

theorem sublist_chars_join {p q : Path} (hq : q.isAbsolute = false) :
    p.chars.Sublist (p.join q).chars := by
  rw [join_of_relative hq]
  split <;> exact List.sublist_append_left _ _

/-- What joining a relative path writes: nothing but a slash comes between, if anything does. -/
theorem pieces_join {p q : Path} (hq : q.isAbsolute = false) :
    (p.join q).pieces = (if p.chars.isEmpty || p.endsWithSlash then p.pieces.dropLast else p.pieces)
      ++ q.pieces := by
  unfold join
  rw [if_neg (by simp [hq])]
  by_cases he : p.chars = []
  · simp [he, pieces, Text.split]
  · by_cases hs : p.endsWithSlash = true
    · obtain ⟨a, ha⟩ := eq_concat_of_endsWithSlash hs
      have hp : p.pieces = Text.split '/' a ++ [[]] := by
        rw [pieces, ha, Text.split_append]
        rfl
      rw [if_pos (by simp [ha]), hs, Bool.or_true, if_pos rfl, hp, List.dropLast_concat]
      simp only [pieces, ha, List.append_assoc, List.singleton_append, Text.split_append]
    · have hl : p.chars.getLast? ≠ some '/' := by simpa [endsWithSlash] using hs
      rw [if_neg (by simp [he, hl]), if_neg (by simp [he, hs])]
      simp only [pieces, Text.split_append]

/-- The pieces of the first path stand in front, without the empty one behind a slash at its end. -/
theorem exists_pieces_join {p q : Path} (hq : q.isAbsolute = false) :
    ∃ front, (p.join q).pieces = front ++ q.pieces ∧
      (p.pieces = front ∨ p.pieces = front ++ [[]]) := by
  refine ⟨_, pieces_join hq, ?_⟩
  split
  · next h =>
    rw [Bool.or_eq_true] at h
    rcases h with he | hs
    · have he : p.chars = [] := by simpa using he
      exact Or.inr (by simp [pieces, he, Text.split])
    · obtain ⟨a, ha⟩ := eq_concat_of_endsWithSlash hs
      have hp : p.pieces = Text.split '/' a ++ [[]] := by
        rw [pieces, ha, Text.split_append]
        rfl
      exact Or.inr (by rw [hp, List.dropLast_concat])
  · exact Or.inl rfl

theorem parts_join {p q : Path} (hq : q.isAbsolute = false) :
    (p.join q).parts = p.parts ++ q.parts := by
  obtain ⟨front, hjoin, hp | hp⟩ := exists_pieces_join (p := p) hq <;> simp [parts, hjoin, hp]

theorem isAbsolute_join {p q : Path} (hq : q.isAbsolute = false) :
    (p.join q).isAbsolute = p.isAbsolute := by
  unfold join
  rw [if_neg (by simp [hq])]
  cases hp : p.chars with
  | nil => simpa [isAbsolute, hp] using hq
  | cons c rest =>
    by_cases hs : (c :: rest).getLast? = some '/'
    · simp [isAbsolute, hp, hs]
    · simp [isAbsolute, hp, hs]

theorem endsWithSlash_join {p q : Path} (hq : q.isAbsolute = false) (hne : q.chars ≠ []) :
    (p.join q).endsWithSlash = q.endsWithSlash := by
  unfold join
  rw [if_neg (by simp [hq])]
  split <;> simp [endsWithSlash, List.getLast?_append, List.getLast?_cons,
    List.getLast?_eq_some_getLast hne]

/-- A joined path has the octets of both paths. -/
theorem octetCount_join {p q : Path} (hq : q.isAbsolute = false) :
    octetCount p.chars + octetCount q.chars ≤ octetCount (p.join q).chars := by
  unfold join
  rw [if_neg (by simp [hq])]
  split
  · exact Nat.le_of_eq (octetCount_append _ _).symm
  · have hslash : octetCount ('/' :: q.chars) = 1 + octetCount q.chars := rfl
    rw [octetCount_append, hslash]
    omega

/-- The lookup of a joined path goes through the parts of the first and then looks the second up. -/
theorem steps_join {p q : Path} (hq : q.isAbsolute = false) (hne : q.chars ≠ []) :
    (p.join q).steps = p.parts ++ q.steps := by
  simp only [steps, parts_join hq, endsWithSlash_join hq hne, List.append_assoc]

/-! ## Entries of directories -/

theorem isAbsolute_mk {n : Name} (h : '/' ∉ n) : (⟨n⟩ : Path).isAbsolute = false := by
  cases n with
  | nil => rfl
  | cons c rest =>
    have hc : '/' ≠ c := by
      rintro rfl
      simp at h
    simp [isAbsolute, Ne.symm hc]

theorem pieces_mk {n : Name} (h : '/' ∉ n) : (⟨n⟩ : Path).pieces = [n] :=
  Text.split_eq_singleton h

theorem isAbsolute_child {p : Path} {n : Name} (h : '/' ∉ n) :
    (p.child n).isAbsolute = p.isAbsolute :=
  isAbsolute_join (isAbsolute_mk h)

theorem parts_child {p : Path} {n : Name} (h : '/' ∉ n) (hne : n ≠ []) :
    (p.child n).parts = p.parts ++ [n] := by
  rw [child, parts_join (isAbsolute_mk h)]
  simp [parts, pieces_mk h, hne]

theorem endsWithSlash_child {p : Path} {n : Name} (h : '/' ∉ n) (hne : n ≠ []) :
    (p.child n).endsWithSlash = false := by
  rw [child, endsWithSlash_join (isAbsolute_mk h) hne]
  have hl : n.getLast? ≠ some '/' := fun e => h (List.mem_of_getLast? e)
  simpa [endsWithSlash] using hl

theorem steps_child {p : Path} {n : Name} (h : '/' ∉ n) (hne : n ≠ []) :
    (p.child n).steps = p.parts ++ [n] := by
  rw [steps, endsWithSlash_child h hne, parts_child h hne]
  simp

/-- A path is its pieces with slashes between. -/
theorem chars_eq_joined (p : Path) : p.chars = Text.joined ['/'] p.pieces :=
  (Text.joined_split '/' p.chars).symm

/-- A character of a path is a slash or one of a part. -/
theorem mem_chars {p : Path} {x : Char} (h : x ∈ p.chars) :
    x = '/' ∨ ∃ part ∈ p.parts, x ∈ part := by
  rw [p.chars_eq_joined] at h
  refine (Text.mem_joined h).imp_right ?_
  rintro ⟨piece, hpiece, hx⟩
  refine ⟨piece, List.mem_filter.2 ⟨hpiece, ?_⟩, hx⟩
  have hne : piece ≠ [] := List.ne_nil_of_mem hx
  simpa using hne

theorem pieces_child {p : Path} {n : Name} (h : '/' ∉ n) : (p.child n).pieces =
    (if p.chars.isEmpty || p.endsWithSlash then p.pieces.dropLast else p.pieces) ++ [n] := by
  rw [child, pieces_join (isAbsolute_mk h), pieces_mk h]

theorem isAbsolute_withoutExtension {p : Path} (h : p.isAbsolute = true) :
    p.withoutExtension.isAbsolute = true := by
  unfold withoutExtension
  split
  · exact h
  · rw [withBody, if_pos h]
    rfl

theorem withoutExtension_of_body {p : Path} (before : List (List Char)) {n : Name}
    (h : p.body = before ++ [n]) (hn : n.isPlain = true) :
    p.withoutExtension = p.withBody (before ++ [n.stem]) := by
  obtain ⟨hne, hdot, hup, -⟩ := Name.isPlain_iff.1 hn
  have hend : dropIdleEnd (before ++ [n]) = before ++ [n] := by
    simp [dropIdleEnd, isIdle, hne, hdot]
  simp only [withoutExtension, fileName?, h, hend, List.getLast?_concat]
  rw [Option.filter_some_pos (by simpa using hup)]
  simp only [List.dropLast_concat]

/-- A path of several pieces is absolute exactly when the first piece is empty. -/
theorem isAbsolute_iff_of_pieces {p : Path} {a b : List Char} {more : List (List Char)}
    (h : p.pieces = a :: b :: more) : p.isAbsolute = true ↔ a = [] := by
  have ha : '/' ∉ a := Text.notMem_of_mem_split (by rw [← pieces, h]; simp)
  have hp : p.chars = a ++ '/' :: Text.joined ['/'] (b :: more) := by
    rw [p.chars_eq_joined, h]
    simp [Text.joined]
  cases a with
  | nil => simp [isAbsolute, hp]
  | cons c rest =>
    have hc : '/' ≠ c := by
      rintro rfl
      simp at ha
    simp [isAbsolute, hp, Ne.symm hc]

/-- Leaving out the extension of an entry of a directory changes its name only. -/
theorem withoutExtension_child {p : Path} {n : Name} (h : n.isPlain = true) :
    (p.child n).withoutExtension = p.child n.stem := by
  obtain ⟨-, hdot, -, hslash, -⟩ := Name.isPlain_iff.1 h
  have hstem : '/' ∉ n.stem := fun hm => hslash (n.stem_prefix.subset hm)
  have hq := pieces_child (p := p) hslash
  have hs : p.child n.stem = ⟨Text.joined ['/']
      ((if p.chars.isEmpty || p.endsWithSlash then p.pieces.dropLast else p.pieces) ++
        [n.stem])⟩ := by
    rw [← pieces_child hstem, ← chars_eq_joined]
  rw [hs]
  generalize (if p.chars.isEmpty || p.endsWithSlash then p.pieces.dropLast else p.pieces) = before
    at hq ⊢
  -- What stands before the name decides how the path starts.
  cases before with
  | nil =>
    have hp : p.child n = ⟨n⟩ := by
      have e := chars_eq_joined (p.child n)
      rw [hq] at e
      cases hc : p.child n
      simpa [hc, Text.joined] using e
    have habs : (p.child n).isAbsolute = false := by rw [hp]; exact isAbsolute_mk hslash
    have hstart : (p.child n).startsHere = false := by simp [startsHere, hq, hdot]
    rw [withoutExtension_of_body [] (by simp [body, hstart, habs, hq]) h]
    simp [withBody, habs, hstart]
  | cons a more =>
    have habs : (p.child n).isAbsolute = true ↔ a = [] := by
      cases more with
      | nil => exact isAbsolute_iff_of_pieces hq
      | cons b more => exact isAbsolute_iff_of_pieces hq
    have hstart : (p.child n).startsHere = true ↔ a = ['.'] := by simp [startsHere, hq]
    by_cases ha : a = []
    · rw [withoutExtension_of_body more (by simp [body, habs.2 ha, hq]) h]
      have hj := Text.joined_append '/' (a := [[]]) (b := more ++ [n.stem]) (by simp) (by simp)
      rw [ha, withBody, if_pos (habs.2 ha), List.cons_append]
      exact congrArg Path.mk hj.symm
    · have hna : (p.child n).isAbsolute = false := by
        rw [← Bool.not_eq_true, habs]
        exact ha
      by_cases hd : a = ['.']
      · rw [withoutExtension_of_body more (by simp [body, hna, hstart.2 hd, hq]) h]
        rw [hd, withBody, if_neg (by simp [hna]), if_pos (hstart.2 hd), List.cons_append]
      · have hns : (p.child n).startsHere = false := by
          rw [← Bool.not_eq_true, hstart]
          exact hd
        rw [withoutExtension_of_body (a :: more) (by simp [body, hna, hns, hq]) h]
        rw [withBody, if_neg (by simp [hna]), if_neg (by simp [hns])]

end Path
end StatusBadges
