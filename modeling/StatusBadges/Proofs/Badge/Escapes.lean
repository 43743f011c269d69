import StatusBadges.Proofs.Badge

/-!
# What escapes and URLs keep

Escaping replaces the percent signs of a text and then its spaces (`escape_eq_replaced`). In an
escaped text (`Escaped`) there is no space, and each percent sign begins an escape. These are all
the texts that can come about: taking the escapes back is the inverse of escaping in both directions
(`escape_unescape`). So a text is kept by escaping, and what a URL says is kept by the URL
(`escape_url_recoverable`).
-/

namespace StatusBadges.Badge

/-! ## Replacements -/

/-- A text with another text in the place of each occurrence of a character. -/
def replaced (a : Char) (substitute s : List Char) : List Char :=
  s.flatMap fun c => if c = a then substitute else [c]

/-- Percent signs go first, since the escape of a space has one. -/
theorem escape_eq_replaced (s : List Char) :
    escape s = replaced ' ' ['%', '2', '0'] (replaced '%' ['%', '2', '5'] s) := by
  rw [escape, replaced, replaced, List.flatMap_assoc]
  congr 1
  funext c
  by_cases hpercent : c = '%'
  · subst hpercent
    rfl
  · by_cases hspace : c = ' '
    · subst hspace
      rfl
    · simp [escapeChar, hpercent, hspace]

/-! ## Escaped texts -/

/-- There is no space in the text, and each percent sign begins an escape. -/
structure Escaped (e : List Char) : Prop where
  noSpace : ' ' ∉ e
  percent : ∀ before behind, e = before ++ '%' :: behind →
    ['2', '5'] <+: behind ∨ ['2', '0'] <+: behind

theorem Escaped.append {e f : List Char} (he : Escaped e) (hf : Escaped f) : Escaped (e ++ f) where
  noSpace := by
    intro hmem
    rcases List.mem_append.1 hmem with h | h
    · exact he.noSpace h
    · exact hf.noSpace h
  percent := by
    intro before behind h
    rcases List.append_eq_append_iff.1 h with ⟨between, -, hf'⟩ | ⟨between, he', hbehind⟩
    · exact hf.percent between behind hf'
    · cases between with
      | nil => exact hf.percent [] behind hbehind.symm
      | cons c between =>
        obtain ⟨rfl, rfl⟩ := List.cons.inj hbehind
        exact (he.percent before between he').imp (·.trans (List.prefix_append _ _))
          (·.trans (List.prefix_append _ _))

theorem Escaped.suffix {e f : List Char} (h : Escaped (e ++ f)) : Escaped f where
  noSpace := fun hmem => h.noSpace (List.mem_append_right e hmem)
  percent := fun before behind hf => h.percent (e ++ before) behind (by rw [hf, List.append_assoc])

theorem escaped_of_head {c : Char} {rest : List Char} (hspace : ' ' ∉ c :: rest)
    (hrest : '%' ∉ rest) (hc : c = '%' → ['2', '5'] <+: rest ∨ ['2', '0'] <+: rest) :
    Escaped (c :: rest) where
  noSpace := hspace
  percent := by
    intro before behind h
    cases before with
    | nil =>
      obtain ⟨hpercent, rfl⟩ := List.cons.inj h
      exact hc hpercent
    | cons d before =>
      have hmem : '%' ∈ rest := by simp [(List.cons.inj h).2]
      exact absurd hmem hrest

theorem escaped_escapeChar (c : Char) : Escaped (escapeChar c) := by
  by_cases hpercent : c = '%'
  · subst hpercent
    exact escaped_of_head (by decide) (by decide) fun _ => Or.inl (List.prefix_refl _)
  · by_cases hspace : c = ' '
    · subst hspace
      exact escaped_of_head (by decide) (by decide) fun _ => Or.inr (List.prefix_refl _)
    · rw [escapeChar, if_neg hpercent, if_neg hspace]
      exact escaped_of_head (by simpa using Ne.symm hspace) List.not_mem_nil
        fun h => absurd h hpercent

theorem escaped_escape (s : List Char) : Escaped (escape s) := by
  induction s with
  | nil => exact ⟨List.not_mem_nil, fun before behind h => by simp [escape] at h⟩
  | cons c s ih => exact (escaped_escapeChar c).append ih

/-- **Every escaped text comes from escaping**: from itself without its escapes. -/
theorem escape_unescape {e : List Char} (h : Escaped e) : escape (unescape e) = e := by
  fun_induction unescape e with
  | case1 rest ih =>
    rw [escape_cons, ih (Escaped.suffix (e := ['%', '2', '5']) h)]
    rfl
  | case2 rest ih =>
    rw [escape_cons, ih (Escaped.suffix (e := ['%', '2', '0']) h)]
    rfl
  | case3 c rest hpercent hspace ih =>
    -- A percent sign here would begin an escape, and a space is none of an escaped text.
    have hc : escapeChar c = [c] := by
      rw [escapeChar, if_neg, if_neg]
      · rintro rfl
        exact h.noSpace List.mem_cons_self
      · rintro rfl
        rcases h.percent [] rest rfl with ⟨more, rfl⟩ | ⟨more, rfl⟩
        · exact hpercent more rfl rfl
        · exact hspace more rfl rfl
    rw [escape_cons, hc, ih (Escaped.suffix (e := [c]) h)]
    rfl
  | case4 => rfl

/-! ## What is kept -/

/-- **Escaping keeps the text, and a URL what it says.** Two replacements escape a text. The escaped
texts are those without a space in which each percent sign begins an escape, and taking the escapes
back is the inverse of escaping. A URL tells its label, message and colour if there is no dash in
label and colour. -/
theorem escape_url_recoverable :
    (∀ t, escape t = replaced ' ' ['%', '2', '0'] (replaced '%' ['%', '2', '5'] t) ∧
      Escaped (escape t) ∧ unescape (escape t) = t) ∧
    (∀ e, Escaped e → escape (unescape e) = e) ∧
    ∀ label label' message message' color color' : String,
      '-' ∉ label.toList → '-' ∉ label'.toList → '-' ∉ color.toList → '-' ∉ color'.toList →
        (url label message color = url label' message' color' ↔
          label = label' ∧ message = message' ∧ color = color') := by
  refine ⟨fun t => ⟨escape_eq_replaced t, escaped_escape t, unescape_escape t⟩,
    fun e => escape_unescape, ?_⟩
  intro label label' message message' color color' hlabel hlabel' hcolor hcolor'
  constructor
  · exact eq_of_url_eq hlabel hlabel' hcolor hcolor'
  · rintro ⟨rfl, rfl, rfl⟩
    rfl

/-- A message with dashes, a slash and an escape of its own is told from the one in which that
escape is taken back. -/
theorem escape_url_recoverable_dashedMessage :
    Escaped "%2520%20-%25".toList ∧
      escape (unescape "%2520%20-%25".toList) = "%2520%20-%25".toList ∧
      '-' ∉ "my tests".toList ∧ '-' ∉ "red".toList ∧
      url "my tests" "a-b%20c/-red.svg" "red" ≠ url "my tests" "a-b c/-red.svg" "red" := by
  have hescaped : Escaped "%2520%20-%25".toList := (escape_url_recoverable.1 "%20 -%".toList).2.1
  have hlabel : '-' ∉ "my tests".toList := by decide
  have hcolor : '-' ∉ "red".toList := by decide
  refine ⟨hescaped, escape_url_recoverable.2.1 _ hescaped, hlabel, hcolor, fun h => ?_⟩
  have hmessage := ((escape_url_recoverable.2.2 _ _ _ _ _ _ hlabel hlabel hcolor hcolor).1 h).2.1
  exact absurd hmessage (by decide)

end StatusBadges.Badge
