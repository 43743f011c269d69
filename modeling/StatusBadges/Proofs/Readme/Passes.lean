import StatusBadges.Proofs.Readme.Fresh

/-!
# Links of other categories when one is replaced

A replacement takes a text `w ++ (m ++ post)` with the first link `m` of a category to
`w ++ (l ++ post)` with a fresh link `l`. A link of another category that begins in `w` or in `post`
begins at the corresponding place afterwards (`Carried`), whether it ends before `m`, in `m` or
behind it, and no link comes up. What is lost are the links that begin in `m`. So the first link of
one category can destroy that of another only when it reaches over its beginning (`Covers`).
-/

namespace StatusBadges.Readme

/-! ## Suffixes -/

theorem suffix_append_cases {t x y : List Char} (h : t <:+ x ++ y) :
    t <:+ y ∨ ∃ a, a ≠ [] ∧ a <:+ x ∧ t = a ++ y := by
  obtain ⟨p, hp⟩ := h
  rcases List.append_eq_append_iff.1 hp with ⟨a, hx, ht⟩ | ⟨c, -, hy⟩
  · by_cases ha : a = []
    · subst ha
      exact Or.inl (by rw [ht, List.nil_append])
    · exact Or.inr ⟨a, ha, ⟨p, hx.symm⟩, ht⟩
  · exact Or.inl ⟨c, hy.symm⟩

theorem append_suffix_append {a w : List Char} (h : a <:+ w) (y : List Char) :
    a ++ y <:+ w ++ y := by
  obtain ⟨p, rfl⟩ := h
  exact ⟨p, by rw [List.append_assoc]⟩

/-- A text is no suffix of what it ends with. -/
theorem not_append_suffix {a y : List Char} (ha : a ≠ []) : ¬ a ++ y <:+ y := by
  intro h
  have hlength := h.length_le
  have := List.length_pos_iff.2 ha
  simp only [List.length_append] at hlength
  omega

theorem suffix_antisymm {s t : List Char} (h : s <:+ t) (h' : t <:+ s) : s = t :=
  h.eq_of_length_le h'.length_le

/-- A suffix of a text and the same suffix when `m` was replaced by `l` in front of `post`. -/
inductive Carried (w m l post : List Char) : List Char → List Char → Prop
  | behind {t : List Char} (h : t <:+ post) : Carried w m l post t t
  | around {a : List Char} (h : a <:+ w) : Carried w m l post (a ++ (m ++ post)) (a ++ (l ++ post))

namespace Carried

variable {w m l post t t' u u' : List Char}

theorem symm (h : Carried w m l post t t') : Carried w l m post t' t := by
  cases h with
  | behind h => exact .behind h
  | around h => exact .around h

theorem suffix (h : Carried w m l post t t') : t' <:+ w ++ (l ++ post) := by
  cases h with
  | behind h => exact h.trans ((List.suffix_append l post).trans (List.suffix_append w _))
  | around h => exact append_suffix_append h _

theorem mono (hm : m ≠ []) (h : Carried w m l post t t') (h' : Carried w m l post u u')
    (hs : t <:+ u) : t' <:+ u' := by
  cases h with
  | behind ht =>
    cases h' with
    | behind hu => exact hs
    | around hu => exact ht.trans ((List.suffix_append l post).trans (List.suffix_append _ _))
  | @around a ha =>
    cases h' with
    | behind hu =>
      rw [← List.append_assoc] at hs
      exact absurd (hs.trans hu) (not_append_suffix (by simp [hm]))
    | @around b hb =>
      have hab := (List.suffix_append_inj_of_length_eq rfl).1 hs
      exact append_suffix_append hab.1 _

theorem unique (hm : m ≠ []) (h : Carried w m l post t t') (h' : Carried w m l post t u') :
    t' = u' :=
  suffix_antisymm (h.mono hm h' (List.suffix_refl t)) (h'.mono hm h (List.suffix_refl t))

end Carried

/-- It does not matter which of two texts closes a link that begins in front of them. -/
theorem starts_swap {k : Category} {a m l y y' : List Char} (ha : a ≠ []) (hm : Closes m)
    (hl : Closes l) (h : Starts k (a ++ (m ++ y))) : Starts k (a ++ (l ++ y')) := by
  obtain ⟨title, rest, rfl, -⟩ := hm
  exact starts_append_of_closes ha h (hl.append y')

/-- **A link that does not begin in `m` begins at the same place afterwards.** -/
theorem starts_carried {k : Category} {w m l post t : List Char} (hm : Closes m) (hl : Closes l)
    (ht : t <:+ w ++ (m ++ post)) (hs : Starts k t) :
    (∃ t', Carried w m l post t t' ∧ Starts k t') ∨ ∃ d, d ≠ [] ∧ d <:+ m ∧ t = d ++ post := by
  rcases suffix_append_cases ht with ht | ⟨a, ha, haw, rfl⟩
  · rcases suffix_append_cases ht with ht | hd
    · exact Or.inl ⟨t, .behind ht, hs⟩
    · exact Or.inr hd
  · exact Or.inl ⟨a ++ (l ++ post), .around haw, starts_swap ha hm hl hs⟩

/-- **The text between two beginnings** holds a whole link afterwards if and only if it did
before. -/
theorem Carried.gap {k : Category} {w m l post x t y t' : List Char} (hm : Closes m)
    (hl : Closes l) (hkm : ∀ y, ¬ Starts k (m ++ y)) (hkl : ∀ y, ¬ Starts k (l ++ y))
    (h : Carried w m l post (x ++ t) y) (ht : Carried w m l post t t') :
    ∃ x', y = x' ++ t' ∧ (Starts k x' ↔ Starts k x) := by
  generalize hxt : x ++ t = u at h
  cases h with
  | behind hu =>
    cases ht with
    | behind ht => exact ⟨x, hxt.symm, Iff.rfl⟩
    | @around a ha =>
      subst hxt
      refine absurd hu ?_
      rw [← List.append_assoc, ← List.append_assoc]
      exact not_append_suffix (by simp [hm.ne_nil])
  | @around a ha =>
    cases ht with
    | behind ht =>
      obtain ⟨z, rfl⟩ := ht
      have hx : x = a ++ (m ++ z) := by
        have he : x ++ t = a ++ (m ++ z) ++ t := by simpa using hxt
        exact List.append_cancel_right he
      subst hx
      refine ⟨a ++ (l ++ z), by simp, ?_⟩
      by_cases hnil : a = []
      · subst hnil
        exact ⟨fun h => absurd h (hkl z), fun h => absurd h (hkm z)⟩
      · exact ⟨starts_swap hnil hl hm, starts_swap hnil hm hl⟩
    | @around b hb =>
      have hx : x ++ b = a := by
        have he : x ++ b ++ (m ++ post) = a ++ (m ++ post) := by simpa using hxt
        exact List.append_cancel_right he
      exact ⟨x, by rw [← hx, List.append_assoc], Iff.rfl⟩

/-! ## One link over another -/

/-- The first link of one category reaches over the beginning of the first link of another. -/
def Covers (q k : Category) (s : List Char) : Prop :=
  ∃ m post t, IsLink q m ∧ First q s (m ++ post) ∧ First k s t ∧ t <:+ m ++ post ∧ ¬ t <:+ post

/-- A text shows at most one link of a category. -/
def Once (k : Category) (s : List Char) : Prop :=
  ∀ t t', t <:+ s → t' <:+ s → Starts k t → Starts k t' → t = t'

/-- No first link of a category reaches over the beginning of that of another one. -/
def Apart (s : List Char) : Prop := ∀ q k, q ≠ k → ¬ Covers q k s

/-- When the first link of a category reaches over the beginning of that of another one, this other
category has no second link. -/
def Steady (s : List Char) : Prop := ∀ q k, q ≠ k → Covers q k s → Once k s

theorem Apart.steady {s : List Char} (h : Apart s) : Steady s :=
  fun q k hqk hc => absurd hc (h q k hqk)

/-- A link reaches over a place when no link of its category ends in front of it. -/
theorem suffix_post_iff {q : Category} {m post x t : List Char} (hm : IsLink q m)
    (he : m ++ post = x ++ t) : t <:+ post ↔ Starts q x := by
  constructor
  · rintro ⟨y, rfl⟩
    rw [← List.append_assoc] at he
    exact ⟨m, hm, y, List.append_cancel_right he⟩
  · rintro ⟨m', hm', y, rfl⟩
    rw [List.append_assoc] at he
    obtain ⟨-, rfl⟩ := hm.unique hm' he
    exact List.suffix_append y t

theorem covers_iff {q k : Category} {s : List Char} :
    Covers q k s ↔ ∃ x t, First q s (x ++ t) ∧ First k s t ∧ ¬ Starts q x := by
  constructor
  · rintro ⟨m, post, t, hm, hq, hk, ⟨x, hx⟩, hpost⟩
    refine ⟨x, t, by rwa [hx], hk, ?_⟩
    rwa [← suffix_post_iff hm hx.symm]
  · rintro ⟨x, t, hq, hk, hx⟩
    obtain ⟨m, hm, post, he⟩ := hq.starts
    refine ⟨m, post, t, hm, by rwa [he], hk, by rw [he]; exact List.suffix_append x t, ?_⟩
    rwa [suffix_post_iff hm he]

/-! ## A replacement -/

section Replacement

variable {q k k' : Category} {url w m post t t' : List Char}
  (hm : IsLink q m) (hq : First q (w ++ (m ++ post)) (m ++ post))

include hm hq in
/-- The fresh link is the first of its category. -/
theorem first_link (hurl : IsLink q (link q.label.toList url)) :
    First q (w ++ (link q.label.toList url ++ post)) (link q.label.toList url ++ post) := by
  refine ⟨List.suffix_append _ _, ⟨_, hurl, List.prefix_append _ _⟩, ?_⟩
  intro t ht hs
  rcases suffix_append_cases ht with ht | ⟨a, ha, haw, rfl⟩
  · exact ht
  · have hbefore : Starts q (a ++ (m ++ post)) := starts_swap ha (closes_link q url) hm.closes hs
    exact absurd (hq.longest (append_suffix_append haw _) hbefore) (not_append_suffix ha)

include hm in
theorem starts_before (hurl : Inert q url) (hk : k ≠ q)
    (ht : t' <:+ w ++ (link q.label.toList url ++ post)) (hs : Starts k t') :
    ∃ t, Carried w m (link q.label.toList url) post t t' ∧ Starts k t := by
  rcases starts_carried (closes_link q url) hm.closes ht hs with ⟨t, hc, hs⟩ | ⟨d, hd, hdl, rfl⟩
  · exact ⟨t, hc.symm, hs⟩
  · exact absurd hs (hurl.not_starts hk hd hdl)

include hm hq in
theorem once_after (hurl : Plain url) (h : Once k (w ++ (m ++ post))) :
    Once k (w ++ (link q.label.toList url ++ post)) := by
  by_cases hk : k = q
  · subst hk
    -- A second link would be one behind the first, or would begin in the fresh link.
    have hone {t : List Char} (ht : t <:+ w ++ (link k.label.toList url ++ post))
        (hs : Starts k t) : t = link k.label.toList url ++ post := by
      have hlast := (first_link hm hq (hurl.inert k).isLink).longest ht hs
      rcases suffix_append_cases hlast with hpost | ⟨d, hd, hdl, rfl⟩
      · have hbehind := (List.suffix_append m post).trans (List.suffix_append w _)
        have hold := h _ _ (hpost.trans hbehind) hq.suffix hs hq.starts
        subst hold
        exact absurd hpost (not_append_suffix hm.ne_nil)
      · rw [link_eq_badge] at hdl ⊢
        rw [(hurl.complete.eq_of_marked hd hdl hs.marked).2]
    intro t t' ht ht' hs hs'
    rw [hone ht hs, hone ht' hs']
  · intro t t' ht ht' hs hs'
    obtain ⟨u, hc, hu⟩ := starts_before hm (hurl.inert q) hk ht hs
    obtain ⟨u', hc', hu'⟩ := starts_before hm (hurl.inert q) hk ht' hs'
    have e := h _ _ hc.symm.suffix hc'.symm.suffix hu hu'
    subst e
    exact hc.unique hm.ne_nil hc'

include hm hq in
/-- The first link of another category is the one before, unless that was lost. -/
theorem first_before (hurl : Inert q url) (hk : k ≠ q)
    (honce : Covers q k (w ++ (m ++ post)) → Once k (w ++ (m ++ post)))
    (h : First k (w ++ (link q.label.toList url ++ post)) t') :
    ∃ t, Carried w m (link q.label.toList url) post t t' ∧ First k (w ++ (m ++ post)) t := by
  obtain ⟨t, hc, hs⟩ := starts_before hm hurl hk h.suffix h.starts
  obtain ⟨t₀, hfirst⟩ := Shows.exists_first ⟨t, hc.symm.suffix, hs⟩
  have hle : t <:+ t₀ := hfirst.longest hc.symm.suffix hs
  suffices e : t₀ = t by
    subst e
    exact ⟨t₀, hc, hfirst⟩
  rcases starts_carried hm.closes (closes_link q url) hfirst.suffix hfirst.starts with
    ⟨t₁, hc₁, hs₁⟩ | ⟨d, hd, hdm, rfl⟩
  · have hle₁ := h.longest hc₁.suffix hs₁
    exact suffix_antisymm (hc₁.symm.mono (closes_link q url).ne_nil hc.symm hle₁) hle
  · -- The first link of `k` was lost, so `k` had no other.
    have hcovers : Covers q k (w ++ (m ++ post)) :=
      ⟨m, post, d ++ post, hm, hq, hfirst, append_suffix_append hdm post, not_append_suffix hd⟩
    exact honce hcovers _ _ hfirst.suffix hc.symm.suffix hfirst.starts hs

include hm in
theorem not_starts_replaced (hk : k ≠ q) (y : List Char) : ¬ Starts k (m ++ y) := by
  intro h
  exact hk (Category.eq_of_marked h.marked
    (hm.marked.trans (List.prefix_append m y)))

include hm hq in
/-- A first link that reaches over the beginning of another one did so before. -/
theorem covers_before (hurl : Inert q url) (hsteady : Steady (w ++ (m ++ post))) (hk : k ≠ k')
    (h : Covers k k' (w ++ (link q.label.toList url ++ post))) :
    Covers k k' (w ++ (m ++ post)) := by
  obtain ⟨x, t, hfirst, hfirst', hx⟩ := covers_iff.1 h
  have hfresh := first_link hm hq hurl.isLink
  by_cases hkq : k = q
  · -- No link begins in the fresh one.
    subst hkq
    have hxt := hfirst.unique hfresh
    have ht : t <:+ link k.label.toList url ++ post := by
      rw [← hxt]
      exact List.suffix_append x t
    rcases suffix_append_cases ht with ht | ⟨d, hd, hdl, rfl⟩
    · exact absurd ((suffix_post_iff hurl.isLink hxt.symm).1 ht) hx
    · exact absurd hfirst'.starts (hurl.not_starts hk.symm hd hdl)
  · obtain ⟨u, hc, hu⟩ := first_before hm hq hurl hkq (hsteady q k (Ne.symm hkq)) hfirst
    have hother : ∃ u', Carried w m (link q.label.toList url) post u' t ∧
        First k' (w ++ (m ++ post)) u' := by
      by_cases hkq' : k' = q
      · subst hkq'
        rw [hfirst'.unique hfresh]
        exact ⟨m ++ post, .around List.nil_suffix, hq⟩
      · exact first_before hm hq hurl hkq' (hsteady q k' (Ne.symm hkq')) hfirst'
    obtain ⟨u', hc', hu'⟩ := hother
    obtain ⟨x', rfl, hx'⟩ := Carried.gap (closes_link q url) hm.closes
      (not_starts_replaced hurl.isLink hkq) (not_starts_replaced hm hkq) hc.symm hc'.symm
    exact covers_iff.2 ⟨x', u', hu, hu', fun h => hx (hx'.1 h)⟩

end Replacement

/-! ## Invariants of a pass -/

section Invariants

variable {q k : Category} {url : List Char} {s : List Char}

theorem Steady.replaced (h : Steady s) (hurl : Plain url) :
    Steady (replaceLink q.label.toList url s) := by
  by_cases hs : Shows q s
  · obtain ⟨w, m, post, rfl, hm, hq⟩ := hs.exists_parts
    rw [replaceLink_of_first hm hq]
    intro k k' hk hc
    exact once_after hm hq hurl (h k k' hk (covers_before hm hq (hurl.inert q) h hk hc))
  · rwa [replaceLink_of_not_shows hs]

theorem Apart.replaced (h : Apart s) (hurl : Inert q url) :
    Apart (replaceLink q.label.toList url s) := by
  by_cases hs : Shows q s
  · obtain ⟨w, m, post, rfl, hm, hq⟩ := hs.exists_parts
    rw [replaceLink_of_first hm hq]
    intro k k' hk hc
    exact h k k' hk (covers_before hm hq hurl h.steady hk hc)
  · rwa [replaceLink_of_not_shows hs]

/-- The first link of a category, if there is one, has this URL. -/
def Refreshed (k : Category) (url s : List Char) : Prop :=
  ∀ t, First k s t → link k.label.toList url <+: t

theorem Refreshed.of_replaceLink (hurl : Inert q url) :
    Refreshed q url (replaceLink q.label.toList url s) := by
  intro t ht
  by_cases hs : Shows q s
  · obtain ⟨w, m, post, rfl, hm, hq⟩ := hs.exists_parts
    rw [replaceLink_of_first hm hq] at ht
    rw [ht.unique (first_link hm hq hurl.isLink)]
    exact List.prefix_append _ _
  · rw [replaceLink_of_not_shows hs] at ht
    exact absurd ht.shows hs

/-- A fresh link stays fresh while the links of other categories are replaced. -/
theorem Refreshed.replaced {url' : List Char} (h : Refreshed k url' s) (hurl' : Inert k url')
    (hurl : Inert q url) (hsteady : Steady s) (hk : k ≠ q) :
    Refreshed k url' (replaceLink q.label.toList url s) := by
  by_cases hs : Shows q s
  · obtain ⟨w, m, post, rfl, hm, hq⟩ := hs.exists_parts
    rw [replaceLink_of_first hm hq]
    intro t' ht'
    obtain ⟨t, hc, ht⟩ := first_before hm hq hurl hk (hsteady q k (Ne.symm hk)) ht'
    obtain ⟨more, rfl⟩ := h t ht
    generalize hu : link k.label.toList url' ++ more = u at hc
    cases hc with
    | behind _ => exact ⟨more, hu⟩
    | @around a ha =>
      rcases List.append_eq_append_iff.1 hu with ⟨c, hc, -⟩ | ⟨c, hc, he⟩
      · exact ⟨c ++ (link q.label.toList url ++ post), by rw [hc, List.append_assoc]⟩
      · by_cases hnil : c = []
        · refine ⟨link q.label.toList url ++ post, ?_⟩
          rw [hc, hnil, List.append_nil]
        · -- The link of `q` would begin in the fresh link.
          have hstarts : Starts q (c ++ more) := by
            rw [← he]
            exact ⟨m, hm, List.prefix_append m post⟩
          exact absurd hstarts (hurl'.not_starts (Ne.symm hk) hnil ⟨a, hc.symm⟩)
  · rwa [replaceLink_of_not_shows hs]

/-- Replacing a fresh link by itself changes nothing. -/
theorem Refreshed.replaceLink_eq (h : Refreshed k url s) (hurl : Inert k url) :
    replaceLink k.label.toList url s = s := by
  by_cases hs : Shows k s
  · obtain ⟨t, ht⟩ := hs.exists_first
    obtain ⟨post, rfl⟩ := h t ht
    obtain ⟨w, rfl⟩ := ht.suffix
    exact replaceLink_of_first hurl.isLink ht
  · exact replaceLink_of_not_shows hs

end Invariants

end StatusBadges.Readme
