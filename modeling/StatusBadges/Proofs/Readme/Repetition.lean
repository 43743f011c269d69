import StatusBadges.Proofs.Badge
import StatusBadges.Proofs.Readme.Survival
import StatusBadges.Pipeline

/-!
# Updating a README again

An update with the badges of a README changes it no more when every fresh link is read back as it
was put in (`update_update_of_inert`). The URLs of a build, of tests and of a coverage are plain,
whatever is found out (`plain_of`). The URL of a version repeats the text of a manifest, which may
end the link or begin another one: exactly then an update with the same badges does not settle
(`settles_iff`).
-/

namespace StatusBadges.Readme

/-! ## Fresh links everywhere -/

section Fresh

variable {b : BadgeSet}

/-- Links that are fresh are put in again as they are. -/
theorem foldl_of_refreshed {s : List Char} {order : List Category}
    (hurl : ∀ k : Category, Inert k (k.url b).toList)
    (h : ∀ k : Category, Refreshed k (k.url b).toList s) :
    order.foldl (updateCategory b) s = s := by
  induction order with
  | nil => rfl
  | cons k order ih => rw [List.foldl_cons, updateCategory, (h k).replaceLink_eq (hurl k), ih]

theorem all_eq : Category.all = [.build, .coverage, .tests] ++ [.version] := rfl

/-- **An update settles** a README in which a link that is reached over is the only one of its
category. -/
theorem update_update_of_inert {content : String} (h : Steady content.toList)
    (hb : ∀ k : Category, k ≠ .version → Plain (k.url b).toList)
    (hversion : Inert .version b.version.toList) :
    update (update content b) b = update content b := by
  have hurl (k : Category) : Inert k (k.url b).toList := by
    by_cases hk : k = .version
    · subst hk
      exact hversion
    · exact (hb k hk).inert k
  have hplain : ∀ k ∈ [Category.build, .coverage, .tests], Plain (k.url b).toList := by
    intro k hk
    refine hb k ?_
    rintro rfl
    simp at hk
  have hsteady := h.foldl hplain
  have hfresh (k : Category) : Refreshed k (k.url b).toList (update content b).toList := by
    rw [toList_update, all_eq, List.foldl_append, List.foldl_cons, List.foldl_nil]
    by_cases hk : k = .version
    · subst hk
      exact Refreshed.of_replaceLink hversion
    · have hmem : k ∈ [Category.build, .coverage, .tests] := by
        cases k <;> simp_all
      exact (h.refreshed_foldl hplain (hurl k) (Or.inl hmem)).replaced (hurl k) hversion hsteady hk
  rw [update, foldl_of_refreshed hurl hfresh, String.ofList_toList]

end Fresh

/-! ## Plain URLs -/

theorem Plain.append {s t : List Char} (hs : Plain s) (ht : Plain t) : Plain (s ++ t) :=
  ⟨by simp [hs.noOpening, ht.noOpening], by simp [hs.noClosing, ht.noClosing],
    by simp [hs.line, ht.line]⟩

theorem Plain.escape {s : List Char} (hs : Plain s) : Plain (Badge.escape s) :=
  ⟨Badge.notMem_escape hs.noOpening (by decide), Badge.notMem_escape hs.noClosing (by decide),
    Badge.notMem_escape hs.line (by decide)⟩

theorem plain_numeral (n : Nat) : Plain (Text.numeral n) := by
  have hdigit {c : Char} (hc : c.isDigit = false) : c ∉ Text.numeral n := by
    intro hmem
    rw [Nat.isDigit_of_mem_toDigits (by decide) (by decide) hmem] at hc
    cases hc
  exact ⟨hdigit (by decide), hdigit (by decide), hdigit (by decide)⟩

theorem plain_ofList {s : List Char} (hs : Plain s) : Plain (String.ofList s).toList := by
  rwa [String.toList_ofList]

theorem plain_concat {s t : String} (hs : Plain s.toList) (ht : Plain t.toList) :
    Plain (s ++ t).toList := by
  rw [String.toList_append]
  exact hs.append ht

theorem plain_message (tests : TestResults) : Plain tests.message.toList := by
  have htotal := plain_ofList (plain_numeral tests.total)
  have hfailed := plain_ofList (plain_numeral tests.failed)
  unfold TestResults.message
  split
  · decide
  · split
    · exact plain_concat (plain_concat (plain_concat htotal (by decide)) hfailed) (by decide)
    · exact plain_concat htotal (by decide)

theorem plain_percentText (percent : Binary64) : Plain (Coverage.percentText percent).toList := by
  refine plain_ofList (Plain.append ?_ (by decide))
  cases percent with
  | finite negative units =>
    have hsign : Plain (if negative then ['-'] else []) := by cases negative <;> decide
    have hpoint : Plain ['.'] := by decide
    rw [Binary64.fixed1, ← List.singleton_append]
    exact (hsign.append (plain_numeral _)).append (hpoint.append (plain_numeral _))
  | infinite negative => cases negative <;> decide
  | nan => decide

theorem plain_url {label message color : String} (hlabel : Plain label.toList)
    (hmessage : Plain message.toList) (hcolor : Plain color.toList) :
    Plain (Badge.url label message color).toList := by
  unfold Badge.url
  refine plain_concat (plain_concat (plain_concat (plain_concat (plain_concat (plain_concat ?_
    (plain_ofList hlabel.escape)) ?_) (plain_ofList hmessage.escape)) ?_) hcolor) ?_
  all_goals decide

theorem plain_percentColor (percent : Binary64) : Plain (Coverage.percentColor percent).toList := by
  unfold Coverage.percentColor
  split
  · decide
  · split <;> decide

section Settling

variable (version : String) (build : BuildStatus) (tests : TestResults) (coverage : Coverage)

/-- Whatever is found out about a project, only its version can put brackets into a URL. -/
theorem plain_of {k : Category} (hk : k ≠ .version) :
    Plain (k.url (BadgeSet.of version build tests coverage)).toList := by
  cases k with
  | build =>
    refine plain_url (by decide) ?_ ?_
    · cases build <;> decide
    · cases build <;> decide
  | coverage =>
    exact plain_url (by decide) (plain_percentText _) (plain_percentColor _)
  | tests =>
    refine plain_url (by decide) (plain_message tests) ?_
    generalize tests.status = status
    cases status <;> decide
  | version => exact absurd rfl hk

/-! ## The URL of a version -/

theorem infix_versionUrl_iff {x : List Char} {a c : Char} (hx : ∀ c ∈ x, c ∉ Badge.escaping)
    (hhead : x.head? = some a) (hlast : x.getLast? = some c)
    (hbefore : a ∉ Badge.service.toList ++ (Badge.escape "version".toList ++ ['-']))
    (hv : a ∉ ['v'])
    (hafter : c ∉ '-' :: ("blue".toList ++ ['.', 's', 'v', 'g'])) :
    x <:+: (BadgeSet.of version build tests coverage).version.toList ↔ x <:+: version.toList := by
  have hmessage : ("v" ++ version).toList = ['v'] ++ version.toList := String.toList_append
  obtain ⟨rest, hrest⟩ := List.head?_eq_some_iff.1 hhead
  refine (Badge.infix_url_iff hx hhead hlast hbefore hafter).trans ?_
  rw [hmessage, hrest, Text.infix_append_iff_of_head hv]

theorem space_notMem_url {label message color : String} (h : ' ' ∉ color.toList) :
    ' ' ∉ (Badge.url label message color).toList := by
  have hservice : ' ' ∉ Badge.service.toList := by decide
  simp [Badge.toList_url, Badge.space_notMem_escape, h, hservice]

theorem space_notMem_version :
    ' ' ∉ (BadgeSet.of version build tests coverage).version.toList :=
  space_notMem_url (by decide)

theorem space_notMem_tests : ' ' ∉ (BadgeSet.of version build tests coverage).tests.toList := by
  refine space_notMem_url ?_
  generalize tests.status = status
  cases status <;> decide

/-- Only the links of the tests and of the version itself can begin in a text without spaces. -/
theorem inert_version_of_noSpace {url : List Char} (hspace : ' ' ∉ url)
    (hlink : IsLink .version (link Category.version.label.toList url))
    (hmark : ¬ Category.tests.mark <:+: url) : Inert .version url := by
  refine ⟨hlink, fun k hk => ?_⟩
  cases k with
  | build => exact fun hi => hspace (hi.subset (by decide))
  | coverage => exact fun hi => hspace (hi.subset (by decide))
  | tests => exact hmark
  | version => exact absurd rfl hk

/-- The text of a version is harmless when it does not end the link of the badge and does not begin
the link of the tests; the other links need a space, which is escaped. -/
theorem inert_version_iff :
    Inert .version (BadgeSet.of version build tests coverage).version.toList ↔
      '\n' ∉ version.toList ∧ ¬ [']', '('] <:+: version.toList ∧
        ¬ Category.tests.mark <:+: version.toList := by
  have hline : '\n' ∈ (BadgeSet.of version build tests coverage).version.toList ↔
      '\n' ∈ version.toList := by
    rw [← List.singleton_infix_iff, ← List.singleton_infix_iff]
    exact infix_versionUrl_iff version build tests coverage (Badge.forall_notMem_escaping rfl) rfl
      rfl (by decide) (by decide) (by decide)
  have hend : [']', '('] <:+: (BadgeSet.of version build tests coverage).version.toList ↔
      [']', '('] <:+: version.toList :=
    infix_versionUrl_iff version build tests coverage (Badge.forall_notMem_escaping rfl) rfl rfl
      (by decide) (by decide) (by decide)
  have htests : Category.tests.mark <:+: (BadgeSet.of version build tests coverage).version.toList ↔
      Category.tests.mark <:+: version.toList :=
    infix_versionUrl_iff version build tests coverage (Badge.forall_notMem_escaping rfl) rfl rfl
      (by decide) (by decide) (by decide)
  rw [← hline, ← hend, ← htests, ← and_assoc, ← isLink_link_iff]
  constructor
  · intro h
    exact ⟨h.isLink, h.mark .tests (by decide)⟩
  · rintro ⟨hlink, hmark⟩
    exact inert_version_of_noSpace (space_notMem_version version build tests coverage) hlink hmark

end Settling

/-! ## When repeated updates settle -/

/-- Updating any README again with the same badges changes nothing, unless a link reaches over the
beginning of another one in it. -/
def Settles (b : BadgeSet) : Prop :=
  ∀ content : String, Steady content.toList → update (update content b) b = update content b

theorem replaceLink_of_noSpace {k : Category} {url s : List Char} (hk : ' ' ∈ k.mark)
    (hs : ' ' ∉ s) : replaceLink k.label.toList url s = s := by
  refine replaceLink_of_not_shows ?_
  rintro ⟨t, ht, hstarts⟩
  exact hs (ht.subset (hstarts.marked.subset hk))

/-- **A link that begins in front of a fresh one** ends at the image of that, if not before, and
leaves the target of the fresh link behind. -/
theorem exists_left_behind {k q : Category} {w url post : List Char} (hw : w ≠ [])
    (h : Starts k (w ++ (link q.label.toList url ++ post))) :
    ∃ m rest, IsLink k m ∧ rest ≠ [] ∧ w ++ (link q.label.toList url ++ post) = m ++ rest := by
  have hclose : Closes (q.mark ++ '(' :: (url ++ [')'])) := by
    refine ⟨'[' :: q.label.toList, url ++ [')'], by simp [Category.mark_eq], ?_, by simp⟩
    have hmark := q.lineFeed_notMem_mark
    rw [Category.mark_eq] at hmark
    intro hmem
    exact hmark (by simp only [List.mem_cons, List.mem_append] at hmem ⊢; tauto)
  have hlink : link q.label.toList url ++ post =
      (q.mark ++ '(' :: (url ++ [')'])) ++ ([']', '(', '#', ')'] ++ post) := by
    simp [link_eq]
  obtain ⟨m, hm, rest, hrest⟩ := starts_append_of_closes hw h hclose
  refine ⟨m, rest ++ ([']', '(', '#', ')'] ++ post), hm, by simp, ?_⟩
  rw [hlink, ← List.append_assoc, ← hrest, List.append_assoc]

section Necessity

variable {b : BadgeSet}

/-- In a text without spaces only the links of the tests and of the version are updated. -/
theorem foldl_of_noSpace {s : List Char} (hs : ' ' ∉ s) :
    Category.all.foldl (updateCategory b) s =
      replaceLink Category.version.label.toList b.version.toList
        (replaceLink Category.tests.label.toList b.tests.toList s) := by
  have hbuild := @replaceLink_of_noSpace .build b.build.toList s (by decide) hs
  have hcoverage := @replaceLink_of_noSpace .coverage b.coverage.toList s (by decide) hs
  simp only [Category.all, List.foldl_cons, List.foldl_nil, updateCategory, Category.url, hbuild,
    hcoverage]

theorem space_notMem_link {k : Category} {url : List Char} (hk : ' ' ∉ k.mark) (hurl : ' ' ∉ url) :
    ' ' ∉ link k.label.toList url := by
  simp [link_eq, hk, hurl]

variable (hplain : Plain b.tests.toList) (htests : ' ' ∉ b.tests.toList)
  (hversion : ' ' ∉ b.version.toList)

include hplain htests in
/-- Behind a fresh link of the tests only the link of the version is updated. -/
theorem foldl_behind_tests {r : List Char} (hr : ' ' ∉ r) :
    Category.all.foldl (updateCategory b) (link Category.tests.label.toList b.tests.toList ++ r) =
      link Category.tests.label.toList b.tests.toList ++
        replaceLink Category.version.label.toList b.version.toList r := by
  have hlink : ' ' ∉ link Category.tests.label.toList b.tests.toList :=
    space_notMem_link (by decide) htests
  rw [foldl_of_noSpace (by simp [hlink, hr]), replaceLink_isLink (hplain.inert .tests).isLink,
    replaceLink_append]
  intro d hd hsuffix
  exact (hplain.inert .tests).not_starts (by decide) hd hsuffix

include hplain htests hversion in
/-- Where updates settle, the fresh link of a version is read back whole. Behind a fresh link of the
tests, the first of two links of the version becomes a fresh one, and updating again replaces a text
by that fresh link, which changes nothing. -/
theorem isLink_of_settles (h : Settles b) :
    IsLink .version (link Category.version.label.toList b.version.toList) := by
  have hempty : Complete [] ['#'] := by decide
  have hrow : Separate [.badge .tests b.tests.toList ['#'], .badge .version [] ['#'],
      .badge .version [] ['#']] := ⟨hplain.complete, hempty, hempty, trivial⟩
  have hsteady := hrow.wellFormed.apart.steady
  simp only [text_badge, text_nil, List.append_nil, ← link_eq_badge] at hsteady
  have hlink := (link_eq_badge .version []).symm ▸ hempty.isLink .version
  have hspace : ' ' ∉ link Category.version.label.toList [] := by decide
  generalize link Category.version.label.toList [] = e at hsteady hlink hspace
  have hfresh := space_notMem_link (k := .version) (by decide) hversion
  have hrepeat := congrArg String.toList (h (String.ofList _) (by rwa [String.toList_ofList]))
  rw [toList_update, toList_update, String.toList_ofList,
    foldl_behind_tests hplain htests (by simp [hspace]), replaceLink_isLink hlink,
    foldl_behind_tests hplain htests (by simp [hfresh, hspace])] at hrepeat
  have hshows : Shows .version (link Category.version.label.toList b.version.toList ++ e) :=
    ⟨e, List.suffix_append _ _, e, hlink, List.prefix_refl e⟩
  obtain ⟨w, m, post, hparts, hm, hfirst⟩ := hshows.exists_parts
  have hsame := List.append_cancel_left hrepeat
  rw [hparts] at hsame hfirst
  rw [replaceLink_of_first hm hfirst] at hsame
  rwa [List.append_cancel_right (List.append_cancel_left hsame)]

include hversion in
/-- Where updates settle, the URL of a version begins no link of the tests. Its fresh link would end
at the link of the tests in it when that is replaced, and what follows would stay behind it. -/
theorem not_mark_of_settles (h : Settles b)
    (hlink : IsLink .version (link Category.version.label.toList b.version.toList)) :
    ¬ Category.tests.mark <:+: b.version.toList := by
  intro hmark
  have hempty : Complete [] ['#'] := by decide
  have hsteady : Steady (Category.version.badge [] ['#']) := by
    have hrow : Separate [.badge .version [] ['#']] := ⟨hempty, trivial⟩
    simpa using hrow.wellFormed.apart.steady
  have hother : ¬ Shows .tests (Category.version.badge [] ['#']) := by decide
  have hspace : ' ' ∉ Category.version.badge [] ['#'] := by decide
  have hfirst := @replaceLink_isLink .version b.version.toList _ [] (hempty.isLink .version)
  rw [List.append_nil, List.append_nil] at hfirst
  have hfresh := space_notMem_link (k := .version) (by decide) hversion
  have hrepeat := congrArg String.toList (h (String.ofList _) (by rwa [String.toList_ofList]))
  rw [toList_update, toList_update, String.toList_ofList, foldl_of_noSpace hspace,
    replaceLink_of_not_shows hother, hfirst, foldl_of_noSpace hfresh] at hrepeat
  -- The link of the tests that begins in the fresh link is replaced.
  have hshows := shows_of_mark_infix (k := .version) (isLink_link_iff.1 hlink).1 hmark
  obtain ⟨w, m, post, hparts, hm, htestsFirst⟩ := hshows.exists_parts
  rw [hparts] at hrepeat hlink htestsFirst
  rw [replaceLink_of_first hm htestsFirst, ← hparts] at hrepeat
  have hw : w ≠ [] := by
    rintro rfl
    exact absurd (Category.eq_of_marked hlink.marked (hm.marked.trans (List.prefix_append m post)))
      (by decide)
  have hstarts : Starts .version (w ++ (link Category.tests.label.toList b.tests.toList ++ post)) :=
    starts_swap hw hm.closes (closes_link _ _) ⟨_, hlink, List.prefix_refl _⟩
  obtain ⟨m', rest, hm', hrest, hall⟩ := exists_left_behind hw hstarts
  rw [hall, replaceLink_isLink hm'] at hrepeat
  exact hrest (List.append_right_eq_self.1 hrepeat)

end Necessity

/-- **Which versions settle**: updating READMEs again with the badges of a project changes nothing
exactly when the text of the version neither ends the link of its badge nor begins a link of the
tests. -/
theorem settles_iff (version : String) (build : BuildStatus) (tests : TestResults)
    (coverage : Coverage) :
    Settles (BadgeSet.of version build tests coverage) ↔
      '\n' ∉ version.toList ∧ ¬ [']', '('] <:+: version.toList ∧
        ¬ Category.tests.mark <:+: version.toList := by
  have hplain (k : Category) (hk : k ≠ .version) := plain_of version build tests coverage hk
  have hversion := space_notMem_version version build tests coverage
  have htests := space_notMem_tests version build tests coverage
  rw [← inert_version_iff version build tests coverage]
  constructor
  · intro h
    have hlink := isLink_of_settles (hplain .tests (by decide)) htests hversion h
    exact inert_version_of_noSpace hversion hlink (not_mark_of_settles hversion h hlink)
  · intro hinert content hsteady
    exact update_update_of_inert hsteady hplain hinert

/-- A version that ends the link of its badge leaves more of it behind with every update. -/
theorem update_grows :
    let b := BadgeSet.of "](x)" .passing (.none .noTests) ⟨Coverage.estimate 0 0, .estimated⟩
    let content := "[![Version](a)](#)"
    update (update content b) b ≠ update content b := by
  decide

end StatusBadges.Readme
