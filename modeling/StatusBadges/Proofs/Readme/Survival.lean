import StatusBadges.Proofs.Readme.WellFormed

/-!
# Which badges survive an update

An update replaces the first links of the categories one after another. In a README whose links lie
apart no replacement takes the link of another category with it. Where they do not, some link is
lost, unless its category has a second one (`exists_lost_of_covers`): a link that is reached over
is gone once the link over it was replaced, and no later replacement brings a link back.
-/

namespace StatusBadges.Readme

/-! ## One replacement -/

section Replacement

variable {q k : Category} {url s : List Char}

theorem Shows.of_replaceLink (hurl : Inert q url)
    (h : Shows k (replaceLink q.label.toList url s)) : Shows k s := by
  by_cases hs : Shows q s
  · by_cases hk : k = q
    · rwa [hk]
    · obtain ⟨w, m, post, rfl, hm, hq⟩ := hs.exists_parts
      rw [replaceLink_of_first hm hq] at h
      obtain ⟨t', ht', hstarts'⟩ := h
      obtain ⟨t, hc, hstarts⟩ := starts_before hm hurl hk ht' hstarts'
      exact ⟨t, hc.symm.suffix, hstarts⟩
  · rwa [replaceLink_of_not_shows hs] at h

theorem Shows.replaced (hurl : Inert q url) (hc : k ≠ q → ¬ Covers q k s) (h : Shows k s) :
    Shows k (replaceLink q.label.toList url s) := by
  by_cases hs : Shows q s
  · obtain ⟨w, m, post, rfl, hm, hq⟩ := hs.exists_parts
    rw [replaceLink_of_first hm hq]
    by_cases hk : k = q
    · rw [hk]
      exact (first_link hm hq hurl.isLink).shows
    · obtain ⟨t, ht⟩ := h.exists_first
      rcases starts_carried hm.closes (closes_link q url) ht.suffix ht.starts with
        ⟨t', hcarried, hstarts⟩ | ⟨d, hd, hdm, rfl⟩
      · exact ⟨t', hcarried.suffix, hstarts⟩
      · exact absurd ⟨m, post, _, hm, hq, ht, append_suffix_append hdm post,
          not_append_suffix hd⟩ (hc hk)
  · rwa [replaceLink_of_not_shows hs]

/-- Replacing a link that reaches over the beginning of the only link of another category loses
that. -/
theorem not_shows_of_covers (hurl : Inert q url) (hk : k ≠ q) (hc : Covers q k s)
    (honce : Once k s) : ¬ Shows k (replaceLink q.label.toList url s) := by
  obtain ⟨m, post, t, hm, hq, ht, hle, hpost⟩ := hc
  obtain ⟨w, rfl⟩ := hq.suffix
  rw [replaceLink_of_first hm hq]
  rintro ⟨t', ht', hstarts'⟩
  obtain ⟨u, hcarried, hu⟩ := starts_before hm hurl hk ht' hstarts'
  have e := honce u t hcarried.symm.suffix ht.suffix hu ht.starts
  subst e
  cases hcarried with
  | behind h => exact hpost h
  | @around a ha =>
    by_cases hnil : a = []
    · subst hnil
      exact not_starts_replaced hm hk post hu
    · exact not_append_suffix hnil hle

/-- A link that reaches over the beginning of another one still does so when a third one was
replaced and neither of the two was lost. -/
theorem Covers.replaced {k' : Category} (hurl : Inert q url) (hsteady : Steady s) (hkq : k ≠ q)
    (h : Covers k k' s) (hk : Shows k (replaceLink q.label.toList url s))
    (hk' : Shows k' (replaceLink q.label.toList url s)) :
    Covers k k' (replaceLink q.label.toList url s) := by
  by_cases hs : Shows q s
  · obtain ⟨w, m, post, rfl, hm, hq⟩ := hs.exists_parts
    rw [replaceLink_of_first hm hq] at hk hk' ⊢
    obtain ⟨x, t, hfirst, hfirst', hx⟩ := covers_iff.1 h
    obtain ⟨y, hy⟩ := hk.exists_first
    obtain ⟨u, hc, hu⟩ := first_before hm hq hurl hkq (hsteady q k (Ne.symm hkq)) hy
    rw [hu.unique hfirst] at hc
    have hother : ∃ t', Carried w m (link q.label.toList url) post t t' ∧
        First k' (w ++ (link q.label.toList url ++ post)) t' := by
      by_cases hkq' : k' = q
      · subst hkq'
        rw [hfirst'.unique hq]
        exact ⟨_, .around List.nil_suffix, first_link hm hq hurl.isLink⟩
      · obtain ⟨t', ht'⟩ := hk'.exists_first
        obtain ⟨v, hc', hv⟩ := first_before hm hq hurl hkq' (hsteady q k' (Ne.symm hkq')) ht'
        rw [hv.unique hfirst'] at hc'
        exact ⟨t', hc', ht'⟩
    obtain ⟨t', hc', ht'⟩ := hother
    obtain ⟨x', rfl, hx'⟩ := Carried.gap hm.closes (closes_link q url)
      (not_starts_replaced hm hkq) (not_starts_replaced hurl.isLink hkq) hc hc'
    exact covers_iff.2 ⟨x', t', hy, ht', fun h => hx (hx'.1 h)⟩
  · rwa [replaceLink_of_not_shows hs]

end Replacement

/-! ## All replacements -/

theorem Steady.foldl {b : BadgeSet} {s : List Char} (h : Steady s) {order : List Category}
    (hb : ∀ k ∈ order, Plain (k.url b).toList) : Steady (order.foldl (updateCategory b) s) := by
  induction order generalizing s with
  | nil => exact h
  | cons q order ih =>
    have hq := hb q List.mem_cons_self
    exact ih (h.replaced hq) fun k hk => hb k (List.mem_cons_of_mem q hk)

/-- A category that was updated shows its fresh link first, if it is shown. -/
theorem Steady.refreshed_foldl {b : BadgeSet} {s : List Char} (h : Steady s)
    {order : List Category} (hb : ∀ k ∈ order, Plain (k.url b).toList) {k : Category}
    (hurl : Inert k (k.url b).toList) (hk : k ∈ order ∨ Refreshed k (k.url b).toList s) :
    Refreshed k (k.url b).toList (order.foldl (updateCategory b) s) := by
  induction order generalizing s with
  | nil => exact hk.resolve_left List.not_mem_nil
  | cons q order ih =>
    have hq := hb q List.mem_cons_self
    refine ih (h.replaced hq) (fun k hk => hb k (List.mem_cons_of_mem q hk)) ?_
    by_cases hkq : k = q
    · subst hkq
      exact Or.inr (Refreshed.of_replaceLink hurl)
    · rcases hk with hk | hk
      · exact Or.inl ((List.mem_cons.1 hk).resolve_left hkq)
      · exact Or.inr (hk.replaced hurl (hq.inert q) h hkq)

section Update

variable {b : BadgeSet} (hb : ∀ k : Category, Plain (k.url b).toList)

include hb in
theorem Apart.shows_foldl {s : List Char} (h : Apart s) {k : Category} (hk : Shows k s)
    (order : List Category) : Shows k (order.foldl (updateCategory b) s) := by
  induction order generalizing s with
  | nil => exact hk
  | cons q order ih =>
    have hq := (hb q).inert q
    exact ih (h.replaced hq) (hk.replaced hq fun hkq => h q k (Ne.symm hkq))

include hb in
theorem Shows.of_foldl {s : List Char} {k : Category} {order : List Category}
    (h : Shows k (order.foldl (updateCategory b) s)) : Shows k s := by
  induction order generalizing s with
  | nil => exact h
  | cons q order ih => exact Shows.of_replaceLink ((hb q).inert q) (ih h)

include hb in
/-- **Where a link reaches over the beginning of another one, a badge is lost.** -/
theorem exists_lost_of_covers {s : List Char} (h : Steady s) {k k' : Category} (hk : k ≠ k')
    (hc : Covers k k' s) {order : List Category} (hmem : k ∈ order) :
    ∃ j, Shows j s ∧ ¬ Shows j (order.foldl (updateCategory b) s) := by
  induction order generalizing s with
  | nil => exact absurd hmem List.not_mem_nil
  | cons q order ih =>
    have hq := (hb q).inert q
    by_cases hlost : ∃ j, Shows j s ∧ ¬ Shows j (updateCategory b s q)
    · obtain ⟨j, hj, hj'⟩ := hlost
      exact ⟨j, hj, fun hfinal => hj' (Shows.of_foldl hb hfinal)⟩
    · have hkept {j : Category} (hj : Shows j s) : Shows j (updateCategory b s q) := by
        by_contra hj'
        exact hlost ⟨j, hj, hj'⟩
      have hshows : Shows k s ∧ Shows k' s := by
        obtain ⟨m, post, t, -, hfirst, hfirst', -⟩ := hc
        exact ⟨hfirst.shows, hfirst'.shows⟩
      by_cases hkq : k = q
      · subst hkq
        exact absurd (hkept hshows.2) (not_shows_of_covers hq hk.symm hc (h k k' hk hc))
      · have hc' := hc.replaced hq h hkq (hkept hshows.1) (hkept hshows.2)
        obtain ⟨j, hj, hj'⟩ := ih (h.replaced (hb q)) hc'
          ((List.mem_cons.1 hmem).resolve_left hkq)
        exact ⟨j, Shows.of_replaceLink hq hj, hj'⟩

end Update

/-! ## An update -/

theorem shows_of_infix_fresh {b : BadgeSet} {k : Category} (hurl : Inert k (k.url b).toList)
    {s : List Char} (h : k.fresh b <:+: s) : Shows k s := by
  obtain ⟨x, y, rfl⟩ := h
  refine ⟨k.fresh b ++ y, ⟨x, by rw [List.append_assoc]⟩, k.fresh b, hurl.isLink, ?_⟩
  exact List.prefix_append _ _

/-- **The fresh links of all categories that a README shows are in the updated one** exactly when
its links lie apart, unless a category whose link is lost has a second one. -/
theorem apart_iff_fresh_links {content : String} {b : BadgeSet}
    (hb : ∀ k : Category, Plain (k.url b).toList) :
    Apart content.toList ↔ Steady content.toList ∧
      ∀ k, Shows k content.toList → k.fresh b <:+: (update content b).toList := by
  rw [toList_update]
  constructor
  · intro h
    refine ⟨h.steady, fun k hk => ?_⟩
    obtain ⟨t, ht⟩ := (h.shows_foldl hb hk Category.all).exists_first
    have hfresh := h.steady.refreshed_foldl (fun k _ => hb k) ((hb k).inert k)
      (Or.inl (mem_all k)) t ht
    exact hfresh.isInfix.trans ht.suffix.isInfix
  · rintro ⟨hsteady, hfresh⟩ k k' hk hc
    obtain ⟨j, hj, hj'⟩ := exists_lost_of_covers hb hsteady hk hc (mem_all k)
    exact hj' (shows_of_infix_fresh ((hb j).inert j) (hfresh j hj))

theorem fresh_links_threeBadges :
    let content := "[![Tests](t)](ci)\n[![Build Status](b)](#) [![Tests](u)](#)"
    let b : BadgeSet := ⟨"v", "w", "x", "y"⟩
    (∀ k : Category, Plain (k.url b).toList) ∧ Shows .tests content.toList ∧
      ∀ k, Shows k content.toList → k.fresh b <:+: (update content b).toList := by
  intro content b
  have hb : ∀ k : Category, Plain (k.url b).toList := by decide
  exact ⟨hb, by decide, ((apart_iff_fresh_links hb).1 wellFormed_threeBadges.apart).2⟩

/-- A link with a reference for its target ends at the next badge, which is lost. -/
theorem update_loses_badge :
    let content := "[![Build Status][b]][ci] [![Tests](t)](#)"
    let b : BadgeSet := ⟨"v", "w", "x", "y"⟩
    (∀ k : Category, Plain (k.url b).toList) ∧ Shows .tests content.toList ∧
      ¬ Category.tests.fresh b <:+: (update content b).toList := by
  decide

end StatusBadges.Readme
