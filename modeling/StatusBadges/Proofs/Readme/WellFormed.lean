import StatusBadges.Proofs.Readme.Passes

/-!
# READMEs made of complete badges

A README is well-formed when every mark in it begins a complete badge. It is then a row of
characters and badges (`exists_pieces`), and a row in which no mark begins at a character can be
read back (`Separate`). On such a row a replacement changes one badge (`replaceLink_text`), so that
updates are a matter of rows (`freshen`): they commute, and a later one undoes an earlier one. That
no mark comes up at a seam is because a mark in front of a badge ends in front of it
(`mark_prefix_of_refresh`).
-/

namespace StatusBadges.Readme

/-- Every mark in a text is the beginning of a complete badge. -/
def WellFormed (s : List Char) : Prop :=
  ∀ (k : Category) (t : List Char), t <:+ s → k.mark <+: t →
    ∃ image target, Complete image target ∧ k.badge image target <+: t

/-- A text with the first badge of each of some categories renewed and all else as it is: reading
from the front, a mark of a category that is still to come begins the badge that is renewed. -/
inductive Rewritten (b : BadgeSet) : List Category → List Char → List Char → Prop
  | nil {pending : List Category} : Rewritten b pending [] []
  | keep {pending : List Category} {c : Char} {s s' : List Char}
      (unmarked : ∀ k ∈ pending, ¬ k.mark <+: c :: s) (rest : Rewritten b pending s s') :
      Rewritten b pending (c :: s) (c :: s')
  | renew {pending : List Category} {k : Category} {image target s s' : List Char}
      (due : k ∈ pending) (complete : Complete image target)
      (rest : Rewritten b (pending.filter (· ≠ k)) s s') :
      Rewritten b pending (k.badge image target ++ s) (k.fresh b ++ s')

/-- There is only one such text. -/
theorem Rewritten.unique {b : BadgeSet} {pending : List Category} {s s₁ s₂ : List Char}
    (h₁ : Rewritten b pending s s₁) (h₂ : Rewritten b pending s s₂) : s₁ = s₂ := by
  induction h₁ generalizing s₂ with
  | nil =>
    generalize hs : ([] : List Char) = s at h₂
    cases h₂ with
    | nil => rfl
    | keep => cases hs
    | renew => simp [Category.badge, Category.mark_eq] at hs
  | @keep pending c s s' unmarked rest ih =>
    generalize hs : c :: s = t at h₂
    cases h₂ with
    | nil => cases hs
    | keep unmarked' rest' =>
      cases hs
      rw [ih rest']
    | @renew _ k _ _ _ _ due complete rest' =>
      refine absurd ?_ (unmarked k due)
      rw [hs]
      exact (complete.isLink k).marked.trans (List.prefix_append _ _)
  | @renew pending k image target s s' due complete rest ih =>
    have hmark := (complete.isLink k).marked.trans (List.prefix_append _ s)
    generalize hs : k.badge image target ++ s = t at h₂ hmark
    cases h₂ with
    | nil => simp [Category.mark_eq] at hmark
    | keep unmarked' rest' => exact absurd hmark (unmarked' k due)
    | @renew _ k' _ _ _ _ due' complete' rest' =>
      obtain rfl := Category.eq_of_marked hmark
        ((complete'.isLink k').marked.trans (List.prefix_append _ _))
      obtain ⟨-, rfl⟩ := (complete.isLink k).unique (complete'.isLink k) hs
      rw [ih rest']

/-! ## Rows of characters and badges -/

inductive Piece where
  | char (c : Char)
  | badge (k : Category) (image target : List Char)

def Piece.text : Piece → List Char
  | .char c => [c]
  | .badge k image target => k.badge image target

def text (row : List Piece) : List Char := row.flatMap Piece.text

@[simp] theorem text_nil : text [] = [] := rfl

@[simp] theorem text_char (c : Char) (row : List Piece) :
    text (.char c :: row) = c :: text row := rfl

@[simp] theorem text_badge (k : Category) (image target : List Char) (row : List Piece) :
    text (.badge k image target :: row) = k.badge image target ++ text row := rfl

/-- The badges of a row are complete, and no mark begins at a character. -/
def Separate : List Piece → Prop
  | [] => True
  | .char c :: row => (∀ k : Category, ¬ k.mark <+: c :: text row) ∧ Separate row
  | .badge _ image target :: row => Complete image target ∧ Separate row

instance {p : Category → Prop} [DecidablePred p] : Decidable (∀ k, p k) :=
  decidable_of_iff (∀ k ∈ Category.all, p k) ⟨fun h k => h k (mem_all k), fun h k _ => h k⟩

instance Separate.decidable : DecidablePred Separate
  | [] => inferInstanceAs (Decidable True)
  | .char c :: row =>
    have := Separate.decidable row
    inferInstanceAs (Decidable ((∀ k : Category, ¬ k.mark <+: c :: text row) ∧ Separate row))
  | .badge _ image target :: row =>
    have := Separate.decidable row
    inferInstanceAs (Decidable (Complete image target ∧ Separate row))

theorem badge_eq (k : Category) (image target : List Char) :
    ∃ more, k.badge image target = '[' :: '!' :: more :=
  ⟨_, rfl⟩

theorem WellFormed.of_suffix {s t : List Char} (h : WellFormed s) (ht : t <:+ s) : WellFormed t :=
  fun k _ hu hmark => h k _ (hu.trans ht) hmark

theorem exists_pieces {s : List Char} (h : WellFormed s) : ∃ row, text row = s ∧ Separate row := by
  induction hn : s.length using Nat.strong_induction_on generalizing s with
  | _ n ih =>
    match s with
    | [] => exact ⟨[], rfl, trivial⟩
    | c :: s =>
      by_cases hmark : ∃ k : Category, k.mark <+: c :: s
      · obtain ⟨k, hmark⟩ := hmark
        obtain ⟨image, target, hcomplete, more, hmore⟩ := h k _ (List.suffix_refl _) hmark
        have hlength : more.length < n := by
          obtain ⟨badge, hbadge⟩ := badge_eq k image target
          rw [← hn, ← hmore, hbadge]
          simp only [List.length_append, List.length_cons]
          omega
        have hsuffix : more <:+ c :: s := ⟨_, hmore⟩
        obtain ⟨row, hrow, hseparate⟩ := ih _ hlength (h.of_suffix hsuffix) rfl
        exact ⟨.badge k image target :: row, by rw [text_badge, hrow, hmore], hcomplete, hseparate⟩
      · have hlength : s.length < n := by
          rw [← hn]
          exact Nat.lt_succ_self _
        obtain ⟨row, hrow, hseparate⟩ := ih _ hlength (h.of_suffix (List.suffix_cons c s)) rfl
        refine ⟨.char c :: row, by rw [text_char, hrow], ?_, hseparate⟩
        intro k hk
        exact hmark ⟨k, hrow ▸ hk⟩

theorem Separate.wellFormed {row : List Piece} (h : Separate row) : WellFormed (text row) := by
  intro k t ht hmark
  induction row with
  | nil =>
    obtain rfl := List.suffix_nil.1 ht
    simp [Category.mark_eq] at hmark
  | cons piece row ih =>
    cases piece with
    | char c =>
      rcases List.suffix_cons_iff.1 ht with rfl | ht
      · exact absurd hmark (h.1 k)
      · exact ih h.2 ht
    | badge k' image target =>
      rcases suffix_append_cases ht with ht | ⟨d, hd, hsuffix, rfl⟩
      · exact ih h.2 ht
      · obtain ⟨rfl, rfl⟩ := h.1.eq_of_marked hd hsuffix hmark
        exact ⟨image, target, h.1, List.prefix_append _ _⟩

/-! ## A replacement on a row -/

/-- A row with the first badge of a category renewed. -/
def refresh (k : Category) (url : List Char) : List Piece → List Piece
  | [] => []
  | .char c :: row => .char c :: refresh k url row
  | .badge k' image target :: row =>
    if k' = k then .badge k url ['#'] :: row else .badge k' image target :: refresh k url row

section Refresh

variable {k : Category} {url : List Char}

theorem mark_prefix_of_badge {k k' : Category} {w image target more : List Char} (hw : w ≠ [])
    (h : k'.mark <+: w ++ (k.badge image target ++ more)) : k'.mark <+: w := by
  obtain ⟨badge, hbadge⟩ := badge_eq k image target
  rw [hbadge] at h
  exact Category.mark_prefix_of_append hw h

/-- A mark in front of a renewed row is in front of the row as it was. -/
theorem mark_prefix_of_refresh {k' : Category} {w : List Char} {row : List Piece} (hw : w ≠ [])
    (h : k'.mark <+: w ++ text (refresh k url row)) : k'.mark <+: w ++ text row := by
  -- Both texts are the same up to the first badge, and the mark ends there.
  induction row generalizing w with
  | nil => exact h
  | cons piece row ih =>
    cases piece with
    | char c =>
      rw [text_char, List.append_cons]
      have hw' : w ++ [c] ≠ [] := by simp
      refine ih hw' ?_
      rwa [refresh, text_char, List.append_cons] at h
    | badge k'' image target =>
      refine List.IsPrefix.trans ?_ (List.prefix_append w _)
      rw [refresh] at h
      split at h
      · exact mark_prefix_of_badge hw h
      · exact mark_prefix_of_badge hw h

theorem Separate.refresh {row : List Piece} (h : Separate row) (hurl : Plain url) :
    Separate (refresh k url row) := by
  induction row with
  | nil => exact h
  | cons piece row ih =>
    cases piece with
    | char c =>
      refine ⟨fun k' hmark => h.1 k' ?_, ih h.2⟩
      exact mark_prefix_of_refresh (w := [c]) (by simp) hmark
    | badge k' image target =>
      rw [Readme.refresh]
      split
      · exact ⟨hurl.complete, h.2⟩
      · exact ⟨h.1, ih h.2⟩

/-- **A replacement renews one badge.** -/
theorem replaceLink_text {row : List Piece} (h : Separate row) :
    replaceLink k.label.toList url (text row) = text (refresh k url row) := by
  induction row with
  | nil => rfl
  | cons piece row ih =>
    cases piece with
    | char c =>
      rw [text_char, replaceLink_cons fun hs => h.1 k hs.marked, ih h.2]
      rfl
    | badge k' image target =>
      rw [text_badge, refresh]
      split
      · next e =>
        subst e
        rw [replaceLink_isLink (h.1.isLink k'), link_eq_badge, text_badge]
      · next hk =>
        rw [replaceLink_append, ih h.2, text_badge]
        intro d hd hsuffix hs
        exact hk (h.1.eq_of_marked hd hsuffix hs.marked).1.symm

end Refresh

/-! ## Updates of a row -/

/-- A row with the first badge of each of some categories renewed. -/
def freshen (b : BadgeSet) : List Category → List Piece → List Piece
  | _, [] => []
  | pending, .char c :: row => .char c :: freshen b pending row
  | pending, .badge k image target :: row =>
    if k ∈ pending then
      .badge k (k.url b).toList ['#'] :: freshen b (pending.filter (· ≠ k)) row
    else .badge k image target :: freshen b pending row

section Freshen

variable {b : BadgeSet}

theorem freshen_nil (row : List Piece) : freshen b [] row = row := by
  induction row with
  | nil => rfl
  | cons piece row ih =>
    cases piece with
    | char c => rw [freshen, ih]
    | badge k image target => rw [freshen, if_neg List.not_mem_nil, ih]

/-- Only which categories are to be updated matters, not in which order. -/
theorem freshen_congr {ks ks' : List Category} (h : ∀ k, k ∈ ks ↔ k ∈ ks') (row : List Piece) :
    freshen b ks row = freshen b ks' row := by
  induction row generalizing ks ks' with
  | nil => rfl
  | cons piece row ih =>
    cases piece with
    | char c => rw [freshen, freshen, ih h]
    | badge k image target =>
      rw [freshen, freshen, ih h]
      have hfilter (k' : Category) : k' ∈ ks.filter (· ≠ k) ↔ k' ∈ ks'.filter (· ≠ k) := by
        rw [List.mem_filter, List.mem_filter, h]
      rw [ih hfilter]
      simp only [h]

theorem freshen_refresh (k : Category) (ks : List Category) (row : List Piece) :
    freshen b ks (refresh k (k.url b).toList row) = freshen b (k :: ks) row := by
  induction row generalizing ks with
  | nil => rfl
  | cons piece row ih =>
    cases piece with
    | char c => rw [refresh, freshen, freshen, ih]
    | badge k' image target =>
      by_cases hk : k' = k
      · subst hk
        rw [refresh, if_pos rfl, freshen, freshen, if_pos List.mem_cons_self]
        split
        · rw [List.filter_cons_of_neg (by simp)]
        · next hmem =>
          congr 1
          refine freshen_congr (fun k => ?_) row
          rw [List.mem_filter, List.mem_cons]
          constructor
          · intro hk
            refine ⟨Or.inr hk, ?_⟩
            simp only [ne_eq, decide_not, Bool.not_eq_true', decide_eq_false_iff_not]
            rintro rfl
            exact hmem hk
          · rintro ⟨hk, hne⟩
            exact hk.resolve_left (by simpa using hne)
      · have hmem : k' ∈ k :: ks ↔ k' ∈ ks := by simp [hk]
        rw [refresh, if_neg hk, freshen, freshen, ih, ih,
          List.filter_cons_of_pos (by simpa using Ne.symm hk)]
        simp only [hmem]

/-- **A later update undoes an earlier one.** -/
theorem freshen_freshen (b' : BadgeSet) (ks : List Category) (row : List Piece) :
    freshen b' ks (freshen b ks row) = freshen b' ks row := by
  induction row generalizing ks with
  | nil => rfl
  | cons piece row ih =>
    cases piece with
    | char c => rw [freshen, freshen, freshen, ih]
    | badge k image target =>
      rw [freshen]
      split
      · next hk => rw [freshen, freshen, if_pos hk, if_pos hk, ih]
      · next hk => rw [freshen, freshen, if_neg hk, if_neg hk, ih]

theorem Rewritten.append {pending : List Category} {w s s' : List Char}
    (h : ∀ k ∈ pending, ∀ d, d ≠ [] → d <:+ w → ¬ k.mark <+: d ++ s)
    (rest : Rewritten b pending s s') : Rewritten b pending (w ++ s) (w ++ s') := by
  induction w with
  | nil => exact rest
  | cons c w ih =>
    refine .keep (fun k hk => h k hk (c :: w) (by simp) (List.suffix_refl _)) (ih ?_)
    intro k hk d hd hw
    exact h k hk d hd (hw.trans (List.suffix_cons c w))

theorem Separate.rewritten {row : List Piece} (h : Separate row) (pending : List Category) :
    Rewritten b pending (text row) (text (freshen b pending row)) := by
  induction row generalizing pending with
  | nil => exact .nil
  | cons piece row ih =>
    cases piece with
    | char c => exact .keep (fun k _ => h.1 k) (ih h.2 pending)
    | badge k image target =>
      rw [freshen]
      split
      · next hk =>
        rw [text_badge, text_badge, ← link_eq_badge]
        exact .renew hk h.1 (ih h.2 _)
      · next hk =>
        refine Rewritten.append ?_ (ih h.2 pending)
        intro k' hk' d hd hsuffix hmark
        obtain ⟨rfl, -⟩ := h.1.eq_of_marked hd hsuffix hmark
        exact hk hk'

/-- Replacing the links of some categories one after another renews their first badges. -/
theorem foldl_text (hb : ∀ k : Category, Plain (k.url b).toList) {row : List Piece}
    (h : Separate row) (order : List Category) :
    order.foldl (updateCategory b) (text row) = text (freshen b order row) ∧
      Separate (freshen b order row) := by
  induction order generalizing row with
  | nil =>
    rw [freshen_nil]
    exact ⟨rfl, h⟩
  | cons k order ih =>
    rw [List.foldl_cons, updateCategory, replaceLink_text h, ← freshen_refresh]
    exact ih (h.refresh (hb k))

end Freshen

/-! ## Updates of a README -/

section WellFormedReadme

variable {content : String} {b : BadgeSet}

/-- **An update of a well-formed README** renews the first badge of each category and keeps all
else. The README stays well-formed, the categories may be updated in any order, and what an earlier
update put there makes no difference to a later one. -/
theorem update_of_wellFormed (h : WellFormed content.toList)
    (hb : ∀ k : Category, Plain (k.url b).toList) :
    (∀ s, Rewritten b Category.all content.toList s ↔ s = (update content b).toList) ∧
      WellFormed (update content b).toList ∧
      (∀ order : List Category, (∀ k, k ∈ order) →
        String.ofList (order.foldl (updateCategory b) content.toList) = update content b) ∧
      ∀ b' : BadgeSet, (∀ k : Category, Plain (k.url b').toList) →
        update (update content b) b' = update content b' := by
  obtain ⟨row, hrow, hseparate⟩ := exists_pieces h
  obtain ⟨hupdate, hfresh⟩ := foldl_text hb hseparate Category.all
  rw [toList_update, ← hrow, hupdate]
  refine ⟨fun s => ?_, hfresh.wellFormed, ?_, ?_⟩
  · have hrewritten := hseparate.rewritten (b := b) Category.all
    exact ⟨fun h => h.unique hrewritten, fun h => h ▸ hrewritten⟩
  · intro order horder
    rw [update, ← hrow, (foldl_text hb hseparate order).1, hupdate]
    congr 2
    exact freshen_congr (fun k => ⟨fun _ => mem_all k, fun _ => horder k⟩) row
  · intro b' hb'
    rw [update, toList_update, ← hrow, hupdate, (foldl_text hb' hfresh _).1, freshen_freshen,
      ← (foldl_text hb' hseparate _).1, hrow, update]

/-- A README with two badges of one category and one of another. -/
theorem wellFormed_threeBadges :
    WellFormed "[![Tests](t)](ci)\n[![Build Status](b)](#) [![Tests](u)](#)".toList := by
  have hseparate : Separate [.badge .tests ['t'] ['c', 'i'], .char '\n', .badge .build ['b'] ['#'],
      .char ' ', .badge .tests ['u'] ['#']] := by decide
  exact hseparate.wellFormed

theorem update_threeBadges :
    let content := "[![Tests](t)](ci)\n[![Build Status](b)](#) [![Tests](u)](#)"
    let old : BadgeSet := ⟨"v", "w", "x", "y"⟩
    let new : BadgeSet := ⟨"V", "W", "X", "Y"⟩
    WellFormed content.toList ∧ (∀ k : Category, Plain (k.url old).toList) ∧
      update content old =
        "[![Tests](x)](#)\n[![Build Status](w)](#) [![Tests](u)](#)" ∧
      Rewritten old Category.all content.toList (update content old).toList ∧
      update (update content old) new = update content new := by
  intro content old new
  have hold : ∀ k : Category, Plain (k.url old).toList := by decide
  obtain ⟨hrewritten, -, -, hagain⟩ := update_of_wellFormed wellFormed_threeBadges hold
  exact ⟨wellFormed_threeBadges, hold, by decide, (hrewritten _).2 rfl, hagain new (by decide)⟩

end WellFormedReadme

/-- **The links of a well-formed README lie apart.** -/
theorem WellFormed.apart {s : List Char} (h : WellFormed s) : Apart s := by
  rintro q k hqk ⟨m, post, t, hm, hq, hk, ht, hpost⟩
  obtain ⟨image, target, hcomplete, more, hmore⟩ := h q _ hq.suffix hq.starts.marked
  obtain ⟨rfl, -⟩ := (hcomplete.isLink q).unique hm hmore
  rcases suffix_append_cases ht with ht | ⟨d, hd, hsuffix, rfl⟩
  · exact hpost ht
  · exact hqk (hcomplete.eq_of_marked hd hsuffix hk.starts.marked).1.symm

end StatusBadges.Readme
