import StatusBadges.Manifest
import StatusBadges.Proofs.Storage.Arrival
import StatusBadges.Proofs.Text
import StatusBadges.Proofs.Text.Leftmost

/-!
# The version that a manifest states

An assignment to `version` is the word, an equals sign and a text in quotes that is not empty, with
white space between them at will. What an assignment consists of is told by the text that it begins
(`Assignment.eq_of_append`), so that the version of a manifest is the value of the one assignment
that begins nearest to the front, and is missing exactly where there is none
(`version_is_first_assigned`). What looks like an assignment and is none, with no quotes or nothing
between them, is passed over.
-/

namespace StatusBadges.Manifest

/-! ## Assignments -/

/-- The word that a version is assigned to. -/
def field : List Char := "version".toList

/-- An assignment of a value to `version`, with the white space on both sides of the equals sign. -/
structure Assignment where
  left : List Char
  right : List Char
  value : List Char
  left_blank : ∀ c ∈ left, Text.isBlank c = true
  right_blank : ∀ c ∈ right, Text.isBlank c = true
  value_ne_nil : value ≠ []
  unquoted : '"' ∉ value

namespace Assignment

def text (a : Assignment) : List Char :=
  field ++ (a.left ++ '=' :: (a.right ++ '"' :: (a.value ++ ['"'])))

theorem text_append (a : Assignment) (behind : List Char) :
    a.text ++ behind =
      field ++ (a.left ++ '=' :: (a.right ++ '"' :: (a.value ++ '"' :: behind))) := by
  simp only [text, List.append_assoc, List.cons_append, List.nil_append]

theorem isBlank_equals : Text.isBlank '=' = false := by decide

theorem isBlank_quote : Text.isBlank '"' = false := by decide

/-- **The text that an assignment begins tells all its parts.** -/
theorem eq_of_append {a b : Assignment} {behind behind' : List Char}
    (h : a.text ++ behind = b.text ++ behind') : a = b ∧ behind = behind' := by
  rw [text_append, text_append] at h
  have hfield := List.append_cancel_left h
  obtain ⟨hleft, -, hassigned⟩ :=
    Text.eq_of_run a.left_blank b.left_blank isBlank_equals isBlank_equals hfield
  obtain ⟨hright, -, hquoted⟩ :=
    Text.eq_of_run a.right_blank b.right_blank isBlank_quote isBlank_quote hassigned
  obtain ⟨hvalue, hbehind⟩ := Text.eq_of_first_separator a.unquoted b.unquoted hquoted
  cases a
  cases b
  subst hleft hright hvalue
  exact ⟨rfl, hbehind⟩

end Assignment

/-- A text begins with an assignment. -/
def Assigns (s : List Char) : Prop := ∃ a : Assignment, a.text <+: s

/-! ## Reading -/

/-- A value that is not empty and has a quote behind it is read up to that. -/
theorem quotedValue_eq_some_iff {s v : List Char} :
    (if (s.takeWhile (· != '"')).isEmpty || (s.dropWhile (· != '"')).isEmpty then none
      else some (s.takeWhile (· != '"'))) = some v ↔
      v ≠ [] ∧ '"' ∉ v ∧ ∃ behind, s = v ++ '"' :: behind := by
  have hquote : ('"' != '"') = false := by decide
  constructor
  · intro h
    split at h
    · cases h
    · next hfilled =>
      obtain rfl := Option.some.inj h
      simp only [Bool.or_eq_true, List.isEmpty_iff, not_or] at hfilled
      obtain ⟨c, behind, hleft⟩ := List.exists_cons_of_ne_nil hfilled.2
      obtain ⟨hs, hc⟩ := Text.dropWhile_eq_cons_iff.1 hleft
      obtain rfl : c = '"' := by simpa using hc
      refine ⟨hfilled.1, ?_, behind, hs⟩
      intro hmem
      have hkept := List.mem_takeWhile_imp hmem
      simp at hkept
  · intro h
    obtain ⟨hne, hunquoted, behind, rfl⟩ := h
    have hrun : ∀ c ∈ v, (c != '"') = true := by
      intro c hc
      simp only [bne_iff_ne]
      rintro rfl
      exact hunquoted hc
    rw [Text.takeWhile_run hrun hquote, Text.dropWhile_run hrun hquote]
    simp [hne]

/-- What is read at the beginning of a text is the value of the assignment there. -/
theorem assignedVersion?_eq_some_iff {s v : List Char} :
    assignedVersion? s = some v ↔ ∃ a : Assignment, a.text <+: s ∧ a.value = v := by
  simp only [assignedVersion?, Option.bind_eq_bind, Option.bind_eq_some_iff,
    Text.after?_eq_some_iff, quotedValue_eq_some_iff, List.singleton_append]
  constructor
  · intro h
    obtain ⟨s₁, rfl, s₂, hequals, s₃, hquote, hne, hunquoted, behind, rfl⟩ := h
    obtain ⟨hs₁, -⟩ := Text.dropWhile_eq_cons_iff.1 hequals
    obtain ⟨hs₂, -⟩ := Text.dropWhile_eq_cons_iff.1 hquote
    refine ⟨⟨s₁.takeWhile Text.isBlank, s₂.takeWhile Text.isBlank, v,
      fun c hc => List.mem_takeWhile_imp hc, fun c hc => List.mem_takeWhile_imp hc, hne,
      hunquoted⟩, ⟨behind, ?_⟩, rfl⟩
    rw [Assignment.text_append]
    rw [← hs₂, ← hs₁]
    rfl
  · intro h
    obtain ⟨a, ⟨behind, rfl⟩, rfl⟩ := h
    exact ⟨_, a.text_append behind,
      _, Text.dropWhile_run a.left_blank Assignment.isBlank_equals,
      _, Text.dropWhile_run a.right_blank Assignment.isBlank_quote,
      a.value_ne_nil, a.unquoted, behind, rfl⟩

theorem assigns_iff {s : List Char} : Assigns s ↔ ∃ v, assignedVersion? s = some v := by
  simp only [assignedVersion?_eq_some_iff, Assigns]
  constructor
  · intro h
    obtain ⟨a, ha⟩ := h
    exact ⟨a.value, a, ha, rfl⟩
  · intro h
    obtain ⟨-, a, ha, -⟩ := h
    exact ⟨a, ha⟩

theorem version?_eq (s : List Char) : version? s = s.tails.findSome? assignedVersion? := by
  induction s with
  | nil => rfl
  | cons c s ih =>
    rw [version?, List.tails_cons, List.findSome?_cons, ih]
    cases assignedVersion? (c :: s) <;> rfl

/-! ## The first assignment -/

/-- An assignment stands in a manifest, and none begins nearer to the front. -/
structure Assignment.IsFirst (a : Assignment) (manifest before behind : List Char) : Prop where
  text : manifest = before ++ (a.text ++ behind)
  least : ∀ before' (a' : Assignment) behind', manifest = before' ++ (a'.text ++ behind') →
    before.length ≤ before'.length

theorem Assignment.isFirst_iff {a : Assignment} {manifest before behind : List Char} :
    a.IsFirst manifest before behind ↔
      Text.FirstAt Assigns manifest before (a.text ++ behind) := by
  constructor
  · intro h
    refine ⟨h.text, ⟨a, List.prefix_append _ _⟩, ?_⟩
    rintro before' - hs ⟨a', behind', rfl⟩
    exact h.least before' a' behind' hs
  · intro h
    refine ⟨h.text, ?_⟩
    intro before' a' behind' hs
    exact h.least before' _ hs ⟨a', List.prefix_append _ _⟩

theorem version?_eq_some_iff {manifest v : List Char} :
    version? manifest = some v ↔
      ∃ before a behind, Assignment.IsFirst a manifest before behind ∧ a.value = v := by
  rw [version?_eq, Text.findSome?_tails_eq_some_iff fun _ => assigns_iff]
  constructor
  · intro h
    obtain ⟨before, rest, hfirst, hread⟩ := h
    obtain ⟨a, ⟨behind, rfl⟩, hvalue⟩ := assignedVersion?_eq_some_iff.1 hread
    exact ⟨before, a, behind, Assignment.isFirst_iff.2 hfirst, hvalue⟩
  · intro h
    obtain ⟨before, a, behind, hfirst, hvalue⟩ := h
    exact ⟨before, _, Assignment.isFirst_iff.1 hfirst,
      assignedVersion?_eq_some_iff.2 ⟨a, List.prefix_append _ _, hvalue⟩⟩

theorem version?_eq_none_iff {manifest : List Char} :
    version? manifest = none ↔
      ¬ ∃ before, ∃ a : Assignment, ∃ behind, manifest = before ++ (a.text ++ behind) := by
  rw [version?_eq, Text.findSome?_tails_eq_none_iff]
  constructor
  · intro h hassigned
    obtain ⟨before, a, behind, hs⟩ := hassigned
    obtain ⟨v, hv⟩ := assigns_iff.1 ⟨a, List.prefix_append a.text behind⟩
    rw [h before _ hs] at hv
    cases hv
  · intro h before rest hs
    rw [Option.eq_none_iff_forall_ne_some]
    intro v hv
    obtain ⟨a, ⟨behind, rfl⟩, -⟩ := assignedVersion?_eq_some_iff.1 hv
    exact h ⟨before, a, behind, hs⟩

/-! ## Projects -/

section Project

variable {d : Disk} {root manifest : Path}

theorem projectVersion_of_unreadable (hfind : find? d root = some manifest)
    (hread : ∀ text, d.readText manifest ≠ .ok text) :
    projectVersion d root = defaultVersion := by
  simp only [projectVersion, hfind]
  cases htext : d.readText manifest with
  | error cause => rfl
  | ok text => exact absurd htext (hread text)

theorem projectVersion_of_readText {text : String} (hfind : find? d root = some manifest)
    (hread : d.readText manifest = .ok text) :
    projectVersion d root = (version? text.toList).elim defaultVersion String.ofList := by
  simp only [projectVersion, hfind, hread]
  cases version? text.toList <;> rfl

/-- Octets that are no text are not read. -/
theorem readText_ne_ok_of_bytes {bytes : List UInt8} {mode : Nat}
    (hbytes : Text.Utf8.text? bytes = none)
    (hnode : d.node? manifest = some (.file (.ofBytes bytes) mode)) (text : String) :
    d.readText manifest ≠ .ok text := by
  intro h
  obtain ⟨mode', hnode', -⟩ := Disk.readText_eq_ok.1 h
  rw [hnode, Content.ofBytes, hbytes] at hnode'
  cases hnode'

end Project

/-- **The version is the value of the first assignment to it**, which the manifest tells with all
its parts. A manifest in which nothing is assigned to `version` states none. A project then has the
default version, and so it has without a manifest and with one that cannot be read or is no text. -/
theorem version_is_first_assigned (m : List Char) (d : Disk) (root : Path) :
    (∀ v, version? m = some v ↔
      ∃ before a behind, Assignment.IsFirst a m before behind ∧ a.value = v) ∧
    (∀ before (a a' : Assignment) behind behind', m = before ++ (a.text ++ behind) →
      m = before ++ (a'.text ++ behind') → a = a' ∧ behind = behind') ∧
    (version? m = none ↔
      ¬ ∃ before, ∃ a : Assignment, ∃ behind, m = before ++ (a.text ++ behind)) ∧
    (find? d root = none → projectVersion d root = "0.1.0") ∧
    (∀ manifest, find? d root = some manifest →
      (∀ bytes mode, Text.Utf8.text? bytes = none →
        d.node? manifest = some (.file (.ofBytes bytes) mode) →
          projectVersion d root = "0.1.0") ∧
      ((∀ text, d.readText manifest ≠ .ok text) → projectVersion d root = "0.1.0") ∧
      ∀ text, d.readText manifest = .ok text →
        projectVersion d root = (version? text.toList).elim "0.1.0" String.ofList) := by
  refine ⟨fun _ => version?_eq_some_iff, ?_, version?_eq_none_iff, ?_, ?_⟩
  · intro before a a' behind behind' h h'
    exact Assignment.eq_of_append (List.append_cancel_left (h.symm.trans h'))
  · intro hfind
    rw [projectVersion, hfind]
    rfl
  · intro manifest hfind
    refine ⟨?_, projectVersion_of_unreadable hfind, fun text hread => ?_⟩
    · intro bytes mode hbytes hnode
      exact projectVersion_of_unreadable hfind (readText_ne_ok_of_bytes hbytes hnode)
    · exact projectVersion_of_readText hfind hread

/-- No quotes, an empty value and a value without an end are passed over. -/
example :
    version? "version = 2 version = \"\" version =\n\"1.0.0\" version = \"3".toList =
      some "1.0.0".toList := by decide

end StatusBadges.Manifest
