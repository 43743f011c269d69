import StatusBadges.Proofs.Manifest.Version

/-!
# Manifests made of lines

Many manifests are lines `key = "value"`. The version is searched in them without regard to keys and
lines, which goes wrong in two ways. A key may only end with `version`, and a value may end with
`version =`, so that its closing quote is taken for an opening one. A line that does neither is
passed over (`version?_lines_append`), and a line with the key `version` then supplies its value.
The first line that strays decides otherwise (`version_line_supplies_iff`).
-/

namespace StatusBadges.Manifest

/-! ## Lines -/

/-- Whether a character can be part of a key. -/
def isKeyChar (c : Char) : Bool := c.isAlphanum || c = '_'

/-- A line `key = "value"` of a manifest. -/
structure Entry where
  key : List Char
  value : List Char
  identifier : ∀ c ∈ key, isKeyChar c = true
  unquoted : '"' ∉ value
  line : '\n' ∉ value

namespace Entry

def text (e : Entry) : List Char := e.key ++ " = \"".toList ++ e.value ++ ['"']

/-- The text of a manifest that has these lines. -/
def lines (entries : List Entry) : List Char := entries.flatMap fun e => e.text ++ ['\n']

/-- What stands between the value of the line before and the value of this line. -/
def gap (e : Entry) : List Char := '\n' :: (e.key ++ " = ".toList)

/-- The key of a line ends with `version`, and the value is not empty. -/
def Supplies (e : Entry) : Prop := field <:+ e.key ∧ e.value ≠ []

/-- The value of a line ends with `version =`, with white space at will. -/
def LeadsOn (e : Entry) : Prop :=
  ∃ front left right, e.value = front ++ (field ++ (left ++ '=' :: right)) ∧
    (∀ c ∈ left, Text.isBlank c = true) ∧ ∀ c ∈ right, Text.isBlank c = true

/-- A line from which a version may be read whatever its key is. -/
def Strays (e : Entry) : Prop := e.Supplies ∨ e.LeadsOn

theorem text_append (e : Entry) (s : List Char) :
    e.text ++ s = e.key ++ ' ' :: '=' :: ' ' :: '"' :: (e.value ++ '"' :: s) := by
  rw [text, List.append_assoc, List.append_assoc, List.append_assoc]
  rfl

theorem lines_cons (e : Entry) (entries : List Entry) (s : List Char) :
    lines (e :: entries) ++ s = e.text ++ '\n' :: (lines entries ++ s) := by
  simp [lines]

theorem quote_notMem_gap (e : Entry) : '"' ∉ e.gap := by
  intro h
  simp only [gap, List.mem_cons, List.mem_append] at h
  rcases h with h | h | h
  · cases h
  · have hkey := e.identifier _ h
    revert hkey
    decide
  · revert h
    decide

theorem newline_text_append (e : Entry) (s : List Char) :
    '\n' :: (e.text ++ s) = e.gap ++ '"' :: (e.value ++ '"' :: s) := by
  rw [text_append, gap, List.cons_append, List.append_assoc]
  rfl

end Entry

/-! ## Places without an assignment -/

section Places

variable {c : Char} {s t w key value : List Char}

theorem version?_of_begins {a : Assignment} (h : a.text <+: s) : version? s = some a.value := by
  obtain ⟨behind, rfl⟩ := h
  refine version?_eq_some_iff.2 ⟨[], a, behind, ⟨rfl, ?_⟩, rfl⟩
  intro before' a' behind' _
  exact Nat.zero_le _

theorem version?_cons_of_not_assigns (h : ¬ Assigns (c :: s)) :
    version? (c :: s) = version? s := by
  rw [assigns_iff, not_exists, ← Option.eq_none_iff_forall_ne_some] at h
  rw [version?, h]

theorem version?_append_of_not_assigns (h : ∀ a, a ≠ [] → a <:+ w → ¬ Assigns (a ++ s)) :
    version? (w ++ s) = version? s := by
  induction w with
  | nil => rfl
  | cons c w ih =>
    have hc : ¬ Assigns (c :: (w ++ s)) := h (c :: w) (by simp) (List.suffix_refl _)
    rw [List.cons_append, version?_cons_of_not_assigns hc]
    exact ih fun a ha hw => h a ha (hw.trans (List.suffix_cons c w))

/-- An assignment begins with the word. -/
theorem version?_cons_of_ne (hc : c ≠ 'v') : version? (c :: s) = version? s := by
  refine version?_cons_of_not_assigns ?_
  intro h
  obtain ⟨a, behind, ha⟩ := h
  rw [a.text_append] at ha
  exact hc (List.cons.inj ha).1.symm

theorem isKeyChar_of_mem_field (h : c ∈ field) : isKeyChar c = true := by
  have hall : field.all isKeyChar = true := by decide
  exact List.all_eq_true.1 hall c h

theorem toNat_of_isKeyChar (h : isKeyChar c = true) : 48 ≤ c.toNat ∧ c.toNat ≤ 122 := by
  have hbounds {low high : Char} (hlow : low.val ≤ c.val) (hhigh : c.val ≤ high.val) :
      low.toNat ≤ c.toNat ∧ c.toNat ≤ high.toNat :=
    ⟨UInt32.le_iff_toNat_le.1 hlow, UInt32.le_iff_toNat_le.1 hhigh⟩
  rw [isKeyChar, Bool.or_eq_true, decide_eq_true_eq] at h
  rcases h with halphanum | rfl
  · rcases Bool.or_eq_true_iff.1 halphanum with halpha | hdigit
    · rcases Bool.or_eq_true_iff.1 halpha with hupper | hlower
      · obtain ⟨hlow, hhigh⟩ := of_decide_eq_true hupper
        obtain ⟨hlow, hhigh⟩ := hbounds hlow hhigh
        exact ⟨le_trans (by decide) hlow, le_trans hhigh (by decide)⟩
      · obtain ⟨hlow, hhigh⟩ := Bool.and_eq_true_iff.1 hlower
        obtain ⟨hlow, hhigh⟩ := hbounds (of_decide_eq_true hlow) (of_decide_eq_true hhigh)
        exact ⟨le_trans (by decide) hlow, hhigh⟩
    · obtain ⟨hlow, hhigh⟩ := Bool.and_eq_true_iff.1 hdigit
      obtain ⟨hlow, hhigh⟩ := hbounds (of_decide_eq_true hlow) (of_decide_eq_true hhigh)
      exact ⟨hlow, le_trans hhigh (by decide)⟩
  · decide

theorem isKeyChar_of_isBlank (h : Text.isBlank c = true) : isKeyChar c = false := by
  have hranges : ∀ r ∈ Text.blankRanges, r.2 < 48 ∨ 122 < r.1 := by decide
  obtain ⟨r, hr, hlow, hhigh⟩ := Text.exists_range_of_inRanges h
  rw [Bool.eq_false_iff]
  intro hkey
  have hbounds := toNat_of_isKeyChar hkey
  rcases hranges r hr with hout | hout
  · omega
  · omega

theorem blank_space : ∀ c ∈ [' '], Text.isBlank c = true := by
  rw [List.forall_mem_singleton]
  decide

theorem quote_notMem_of_blank (h : ∀ c ∈ w, Text.isBlank c = true) : '"' ∉ w := by
  intro hmem
  have hblank := h _ hmem
  rw [Assignment.isBlank_quote] at hblank
  cases hblank

/-- What stands behind the word in an assignment is no part of a key. -/
theorem exists_cons_of_blank (h : ∀ c ∈ w, Text.isBlank c = true) (s : List Char) :
    ∃ c t, w ++ '=' :: s = c :: t ∧ isKeyChar c = false := by
  cases w with
  | nil => exact ⟨'=', s, rfl, by decide⟩
  | cons c w => exact ⟨c, w ++ '=' :: s, rfl, isKeyChar_of_isBlank (h c List.mem_cons_self)⟩

/-- An assignment that begins in a key begins with the word at its end, and assigns the value. -/
theorem eq_field_of_assigns (hkey : ∀ c ∈ key, isKeyChar c = true) (hvalue : '"' ∉ value)
    (h : Assigns (key ++ ' ' :: '=' :: ' ' :: '"' :: (value ++ '"' :: t))) :
    key = field ∧ value ≠ [] := by
  obtain ⟨a, behind, ha⟩ := h
  rw [a.text_append] at ha
  obtain ⟨c, rest, hrest, hc⟩ := exists_cons_of_blank a.left_blank
    (a.right ++ '"' :: (a.value ++ '"' :: behind))
  have hword := ha
  rw [hrest] at hword
  obtain ⟨hfield, -, -⟩ := Text.eq_of_run (fun _ => isKeyChar_of_mem_field) hkey hc
    (by decide) hword
  refine ⟨hfield.symm, ?_⟩
  rintro rfl
  -- With nothing between the quotes nothing is assigned.
  rw [hfield] at ha
  have hassigned : a.left ++ '=' :: (a.right ++ '"' :: (a.value ++ '"' :: behind)) =
      [' '] ++ '=' :: ([' '] ++ '"' :: ([] ++ '"' :: t)) := List.append_cancel_left ha
  obtain ⟨-, -, hright⟩ := Text.eq_of_run a.left_blank blank_space Assignment.isBlank_equals
    Assignment.isBlank_equals hassigned
  obtain ⟨-, -, hquoted⟩ := Text.eq_of_run a.right_blank blank_space Assignment.isBlank_quote
    Assignment.isBlank_quote hright
  exact a.value_ne_nil (Text.eq_of_first_separator a.unquoted (by simp) hquoted).1

theorem quote_notMem_leading {left right : List Char}
    (hleft : ∀ c ∈ left, Text.isBlank c = true) (hright : ∀ c ∈ right, Text.isBlank c = true) :
    '"' ∉ field ++ (left ++ '=' :: right) := by
  have hfield : '"' ∉ field := by decide
  simp [hfield, quote_notMem_of_blank hleft, quote_notMem_of_blank hright]

/-- An assignment that begins in a value goes over its closing quote, and assigns what is behind. -/
theorem leadsOn_of_begins {a : Assignment} (hvalue : '"' ∉ value)
    (h : a.text <+: value ++ '"' :: t) :
    value = field ++ (a.left ++ '=' :: a.right) ∧ ∃ behind, t = a.value ++ '"' :: behind := by
  obtain ⟨behind, ha⟩ := h
  have hunquoted := quote_notMem_leading a.left_blank a.right_blank
  rw [a.text_append] at ha
  obtain ⟨hv, ht⟩ := Text.eq_of_first_separator (x := a.value ++ '"' :: behind) hunquoted hvalue
    (by simpa using ha)
  exact ⟨hv.symm, behind, ht.symm⟩

end Places

/-! ## Reading a line -/

namespace Entry

variable {e next : Entry} {s t : List Char}

/-- A key with a key character in front of the word assigns only from the word on. -/
theorem version?_key (h : ¬ e.Supplies) (hkey : s <:+ e.key) :
    version? (s ++ ' ' :: '=' :: ' ' :: '"' :: (e.value ++ '"' :: t)) =
      version? (e.value ++ '"' :: t) := by
  rw [version?_append_of_not_assigns, version?_cons_of_ne (by decide),
    version?_cons_of_ne (by decide), version?_cons_of_ne (by decide),
    version?_cons_of_ne (by decide)]
  intro a _ ha hassigns
  have hsuffix := ha.trans hkey
  obtain ⟨rfl, hvalue⟩ := eq_field_of_assigns (fun c hc => e.identifier c (hsuffix.subset hc))
    e.unquoted hassigns
  exact h ⟨hsuffix, hvalue⟩

/-- **A line whose key ends with the word supplies its value.** -/
theorem version?_of_supplies (h : e.Supplies) : version? (e.text ++ t) = some e.value := by
  obtain ⟨⟨front, hkey⟩, hvalue⟩ := h
  let a : Assignment := ⟨[' '], [' '], e.value, blank_space, blank_space, hvalue, e.unquoted⟩
  have hword : a.text <+: field ++ ' ' :: '=' :: ' ' :: '"' :: (e.value ++ '"' :: t) :=
    ⟨t, a.text_append t⟩
  rw [text_append, ← hkey, List.append_assoc, version?_append_of_not_assigns]
  · exact version?_of_begins hword
  · intro b hb hfront hassigns
    rw [← List.append_assoc] at hassigns
    have hsuffix : b ++ field <:+ e.key := by
      obtain ⟨more, rfl⟩ := hfront
      exact ⟨more, by rw [← hkey, List.append_assoc]⟩
    obtain ⟨hwhole, -⟩ := eq_field_of_assigns
      (fun c hc => e.identifier c (hsuffix.subset hc)) e.unquoted hassigns
    exact hb (List.append_left_eq_self.1 hwhole)

/-- **A line that does not stray is passed over.** -/
theorem version?_of_not_strays (h : ¬ e.Strays) : version? (e.text ++ t) = version? t := by
  obtain ⟨hsupplies, hleads⟩ := not_or.1 h
  rw [text_append, version?_key hsupplies (List.suffix_refl _), version?_append_of_not_assigns,
    version?_cons_of_ne (by decide)]
  intro a _ ha hassigns
  obtain ⟨b, hb⟩ := hassigns
  have hunquoted : '"' ∉ a := fun hmem => e.unquoted (ha.subset hmem)
  obtain ⟨front, hfront⟩ := ha
  obtain ⟨rfl, -⟩ := leadsOn_of_begins hunquoted hb
  exact hleads ⟨front, b.left, b.right, hfront.symm, b.left_blank, b.right_blank⟩

/-- Behind a value that ends with `version =` a value is read up to the next quote. -/
theorem version?_leading {front left right v behind : List Char}
    (hleft : ∀ c ∈ left, Text.isBlank c = true) (hright : ∀ c ∈ right, Text.isBlank c = true)
    (hfront : '"' ∉ front) (hv : v ≠ []) (hunquoted : '"' ∉ v) :
    version? (front ++ (field ++ (left ++ '=' :: right)) ++ '"' :: (v ++ '"' :: behind)) =
      some v := by
  let a : Assignment := ⟨left, right, v, hleft, hright, hv, hunquoted⟩
  have hword : a.text <+:
      field ++ (left ++ '=' :: right) ++ '"' :: (v ++ '"' :: behind) :=
    ⟨behind, by rw [a.text_append]; simp [a]⟩
  induction front with
  | nil => exact version?_of_begins hword
  | cons c front ih =>
    have hvalue : '"' ∉ c :: front ++ (field ++ (left ++ '=' :: right)) := by
      rw [List.mem_append, not_or]
      exact ⟨hfront, quote_notMem_leading hleft hright⟩
    by_cases hassigns :
        Assigns (c :: front ++ (field ++ (left ++ '=' :: right)) ++ '"' :: (v ++ '"' :: behind))
    · -- An assignment that begins further in front goes over the same quote.
      obtain ⟨b, hb⟩ := hassigns
      obtain ⟨-, behind', hquoted⟩ := leadsOn_of_begins hvalue hb
      rw [version?_of_begins hb, (Text.eq_of_first_separator hunquoted b.unquoted hquoted).1]
    · rw [List.cons_append, List.cons_append] at hassigns ⊢
      rw [version?_cons_of_not_assigns hassigns]
      exact ih fun h => hfront (List.mem_cons_of_mem _ h)

/-- **A line whose value ends with `version =`** supplies what is between its value and the next. -/
theorem version?_of_leadsOn (h : ¬ e.Supplies) (hleads : e.LeadsOn) :
    version? (e.text ++ '\n' :: (next.text ++ t)) = some next.gap := by
  obtain ⟨front, left, right, hvalue, hleft, hright⟩ := hleads
  have hfront : '"' ∉ front := by
    intro hmem
    exact e.unquoted (hvalue ▸ List.mem_append_left _ hmem)
  rw [text_append, version?_key h (List.suffix_refl _), newline_text_append, hvalue]
  exact version?_leading hleft hright hfront (by simp [gap]) next.quote_notMem_gap

theorem version?_lines_append {entries : List Entry} (h : ∀ e ∈ entries, ¬ e.Strays) :
    version? (lines entries ++ t) = version? t := by
  induction entries with
  | nil => rfl
  | cons e entries ih =>
    obtain ⟨he, hentries⟩ := List.forall_mem_cons.1 h
    rw [lines_cons, version?_of_not_strays he, version?_cons_of_ne (by decide), ih hentries]

/-- Of the lines up to some line, one of them with the line behind it. -/
theorem exists_lines_eq {front earlier later : List Entry} {s next : Entry}
    (h : front ++ [e] = earlier ++ s :: next :: later) (more : List Char) :
    ∃ behind, lines front ++ (e.text ++ more) =
      lines earlier ++ (s.text ++ '\n' :: (next.text ++ behind)) := by
  rcases List.eq_nil_or_concat later with rfl | ⟨later, last, rfl⟩
  · obtain ⟨rfl, hlast⟩ := List.append_inj' (h.trans (by simp : _ = (earlier ++ [s]) ++ [next])) rfl
    obtain rfl := (List.cons.inj hlast).1
    exact ⟨more, by simp [lines]⟩
  · obtain ⟨rfl, hlast⟩ := List.append_inj'
      (h.trans (by simp : _ = (earlier ++ s :: next :: later) ++ [last])) rfl
    obtain rfl := (List.cons.inj hlast).1
    exact ⟨'\n' :: (lines later ++ (e.text ++ more)), by simp [lines]⟩

section Rule

variable {front : List Entry}

theorem version?_of_no_stray (more : List Char) (hkey : e.key = field) (hvalue : e.value ≠ [])
    (hfront : ∀ s ∈ front, ¬ s.Strays) :
    version? (lines front ++ (e.text ++ more)) = some e.value := by
  rw [version?_lines_append hfront]
  exact version?_of_supplies ⟨hkey ▸ List.suffix_refl _, hvalue⟩

/-- The first line that strays supplies its value or leads on to the next line. -/
theorem version?_of_first_stray {earlier later : List Entry} {s : Entry} (more : List Char)
    (h : front ++ [e] = earlier ++ s :: next :: later) (hearlier : ∀ x ∈ earlier, ¬ x.Strays) :
    (s.Supplies → version? (lines front ++ (e.text ++ more)) = some s.value) ∧
      (¬ s.Supplies → s.LeadsOn →
        version? (lines front ++ (e.text ++ more)) = some next.gap) := by
  obtain ⟨behind, htext⟩ := exists_lines_eq h more
  rw [htext, version?_lines_append hearlier]
  exact ⟨version?_of_supplies, version?_of_leadsOn⟩

theorem exists_first_stray (h : ∃ s ∈ front, s.Strays) :
    ∃ earlier s later, front = earlier ++ s :: later ∧ (∀ x ∈ earlier, ¬ x.Strays) ∧
      s.Strays := by
  classical
  obtain ⟨s, hs, hstrays⟩ := h
  cases hfind : front.find? fun s => decide s.Strays with
  | none =>
    rw [List.find?_eq_none] at hfind
    exact absurd (decide_eq_true hstrays) (hfind s hs)
  | some first =>
    obtain ⟨hfirst, earlier, later, hsplit, hearlier⟩ := List.find?_eq_some_iff_append.1 hfind
    refine ⟨earlier, first, later, hsplit, ?_, of_decide_eq_true hfirst⟩
    intro x hx
    simpa using hearlier x hx

/-- The line behind some line, up to the last one. -/
theorem exists_next {earlier later : List Entry} {s : Entry}
    (h : front = earlier ++ s :: later) :
    ∃ next later', front ++ [e] = earlier ++ s :: next :: later' := by
  subst h
  cases later with
  | nil => exact ⟨e, [], by simp⟩
  | cons next later => exact ⟨next, later ++ [e], by simp⟩

/-- **A line with the key `version` supplies its value exactly when no line in front strays**, or
the first that does supplies the same value. What the first line that strays supplies is its own
value if its key ends with `version`, and otherwise what is between its value and the next. -/
theorem version_line_supplies_iff (front : List Entry) {e : Entry} (more : List Char)
    (hkey : e.key = field) (hvalue : e.value ≠ []) :
    (version? (lines front ++ (e.text ++ more)) = some e.value ↔
      ∀ earlier s later, front = earlier ++ s :: later → (∀ x ∈ earlier, ¬ x.Strays) →
        s.Strays → s.Supplies ∧ s.value = e.value) ∧
    ∀ earlier s next later, front ++ [e] = earlier ++ s :: next :: later →
      (∀ x ∈ earlier, ¬ x.Strays) →
        (s.Supplies → version? (lines front ++ (e.text ++ more)) = some s.value) ∧
        (¬ s.Supplies → s.LeadsOn →
          version? (lines front ++ (e.text ++ more)) = some next.gap) := by
  refine ⟨⟨?_, ?_⟩, fun _ _ _ _ => version?_of_first_stray more⟩
  · intro hread earlier s later hfront hearlier hstrays
    obtain ⟨next, later', hsplit⟩ := exists_next (e := e) hfront
    obtain ⟨hsupplies, hleads⟩ := version?_of_first_stray more hsplit hearlier
    by_cases hs : s.Supplies
    · exact ⟨hs, Option.some.inj ((hsupplies hs).symm.trans hread)⟩
    · -- A value stands on one line, and a gap goes from one line to the next.
      have hgap := Option.some.inj (hread.symm.trans (hleads hs (hstrays.resolve_left hs)))
      exact absurd (hgap ▸ List.mem_cons_self) e.line
  · intro h
    by_cases hstray : ∃ s ∈ front, s.Strays
    · obtain ⟨earlier, s, later, hfront, hearlier, hstrays⟩ := exists_first_stray hstray
      obtain ⟨next, later', hsplit⟩ := exists_next (e := e) hfront
      obtain ⟨hsupplies, hsame⟩ := h earlier s later hfront hearlier hstrays
      rw [(version?_of_first_stray more hsplit hearlier).1 hsupplies, hsame]
    · exact version?_of_no_stray more hkey hvalue fun s hs hstrays => hstray ⟨s, hs, hstrays⟩

end Rule

/-- A line that supplies a version by the end of its key. -/
def minimumEntry : Entry where
  key := "min_version".toList
  value := "9.9.9".toList
  identifier := List.all_eq_true.1 (by decide)
  unquoted := by decide
  line := by decide

/-- A line whose value leads on to the next line. -/
def noteEntry : Entry where
  key := "note".toList
  value := "see version =".toList
  identifier := List.all_eq_true.1 (by decide)
  unquoted := by decide
  line := by decide

def versionEntry : Entry where
  key := "version".toList
  value := "1.0.0".toList
  identifier := List.all_eq_true.1 (by decide)
  unquoted := by decide
  line := by decide

theorem version_line_supplies_minimumEntry :
    versionEntry.key = field ∧ versionEntry.value ≠ [] ∧
      [minimumEntry] ++ [versionEntry] = [] ++ minimumEntry :: versionEntry :: [] ∧
      minimumEntry.Supplies ∧
      version? (lines [minimumEntry] ++ (versionEntry.text ++ ['\n'])) =
        some minimumEntry.value := by
  have hkey : versionEntry.key = field := by decide
  have hvalue : versionEntry.value ≠ [] := by decide
  have hsupplies : minimumEntry.Supplies := ⟨by decide, by decide⟩
  have hdecide :=
    (version_line_supplies_iff [minimumEntry] ['\n'] hkey hvalue).2 [] minimumEntry versionEntry
      [] rfl
  exact ⟨hkey, hvalue, rfl, hsupplies, (hdecide (by simp)).1 hsupplies⟩

/-- In both manifests the only line with the key `version` states 1.0.0, and something else is
read. -/
theorem other_keys_supply_version :
    versionEntry.key = field ∧ versionEntry.value = "1.0.0".toList ∧
      minimumEntry.key ≠ field ∧ noteEntry.key ≠ field ∧
      version? (lines [minimumEntry, versionEntry]) = some "9.9.9".toList ∧
      version? (lines [noteEntry, versionEntry]) = some "\nversion = ".toList := by
  decide

end Entry

end StatusBadges.Manifest
