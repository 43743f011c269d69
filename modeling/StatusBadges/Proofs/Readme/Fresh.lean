import StatusBadges.Proofs.Readme.Links

/-!
# Fresh links

The link that is put in for a category is read back whole when its URL holds no line feed and no
bracket with a parenthesis behind it (`isLink_link_iff`). No link of another category begins in it
when no mark of one lies in its URL (`Inert.not_starts`).
-/

namespace StatusBadges.Readme

theorem link_eq (k : Category) (url : List Char) :
    link k.label.toList url = k.mark ++ '(' :: (url ++ [')', ']', '(', '#', ')']) := by
  simp [link, Category.mark]

/-- **A fresh link is one link** exactly when its URL does not end it. -/
theorem isLink_link_iff {k : Category} {url : List Char} :
    IsLink k (link k.label.toList url) ↔ '\n' ∉ url ∧ ¬ [']', '('] <:+: url := by
  constructor
  · rintro ⟨title, target, he, hline, hfirst, htarget⟩
    rw [link_eq] at he
    have he : '(' :: (url ++ [')']) ++ [']', '(', '#', ')'] =
        title ++ ']' :: '(' :: (target ++ [')']) := by
      simpa using List.append_cancel_left he
    -- The title takes in the whole URL, since the target has no room for the parenthesis behind it.
    have htitle : '(' :: (url ++ [')']) <+: title := by
      rcases List.append_eq_append_iff.1 he with ⟨c, hc, -⟩ | ⟨c, hc, hrest⟩
      · exact ⟨c, hc.symm⟩
      · match c with
        | [] => exact ⟨[], by simpa using hc⟩
        | [b] => simp at hrest
        | b :: b' :: c =>
          simp only [List.cons_append, List.cons.injEq] at hrest
          obtain ⟨rfl, rfl, hrest⟩ := hrest
          have hcut : target = c ++ [']', '(', '#'] := by
            have hrest : target ++ [')'] = (c ++ [']', '(', '#']) ++ [')'] := by simpa using hrest
            exact List.append_cancel_right hrest
          refine absurd ?_ htarget
          have hlast := congrArg List.getLast? hc
          rcases List.eq_nil_or_concat c with rfl | ⟨c', x, rfl⟩
          · simp [List.getLast?_cons] at hlast
          · obtain rfl : ')' = x := by simpa [List.getLast?_cons] using hlast
            rw [hcut]
            simp
    refine ⟨fun h => hline (htitle.subset (by simp [h])), ?_⟩
    intro h
    refine hfirst (h.trans (List.IsInfix.trans ?_ htitle.isInfix))
    exact ⟨['('], [')'], by simp⟩
  · rintro ⟨hline, hfirst⟩
    refine ⟨'(' :: (url ++ [')']), ['#'], by simp [link_eq], by simp [hline], ?_, by simp⟩
    rw [List.infix_cons_iff, List.infix_append_iff]
    rintro (hp | hi | hi | ⟨x, y, he, hx, hy⟩)
    · exact absurd (List.cons_prefix_cons.1 hp).1 (by decide)
    · exact hfirst hi
    · exact absurd hi (by decide)
    · cases y with
      | nil => exact hfirst (by rw [he, List.append_nil]; exact hx.isInfix)
      | cons b y =>
        obtain rfl : b = ')' := (List.cons_prefix_cons.1 hy).1
        have hmem : ')' ∈ [']', '('] := by rw [he]; simp
        exact absurd hmem (by decide)

/-- The fresh link of a category. -/
def Category.fresh (k : Category) (b : BadgeSet) : List Char :=
  link k.label.toList (k.url b).toList

/-- A URL that does not end the link of its category and begins none of another category. -/
structure Inert (k : Category) (url : List Char) : Prop where
  isLink : IsLink k (link k.label.toList url)
  mark : ∀ k', k' ≠ k → ¬ k'.mark <:+: url

/-- A URL without brackets and line feeds. -/
structure Plain (url : List Char) : Prop where
  noOpening : '[' ∉ url
  noClosing : ']' ∉ url
  line : '\n' ∉ url

instance (url : List Char) : Decidable (Plain url) :=
  decidable_of_iff ('[' ∉ url ∧ ']' ∉ url ∧ '\n' ∉ url)
    ⟨fun h => ⟨h.1, h.2.1, h.2.2⟩, fun h => ⟨h.noOpening, h.noClosing, h.line⟩⟩

theorem Plain.not_marked {url : List Char} (h : Plain url) (k : Category) :
    ¬ k.mark <:+: url := by
  intro hi
  exact h.noOpening (hi.subset (by simp [Category.mark_eq]))

theorem Plain.inert {url : List Char} (h : Plain url) (k : Category) : Inert k url := by
  refine ⟨isLink_link_iff.2 ⟨h.line, ?_⟩, fun k' _ => h.not_marked k'⟩
  intro hi
  exact h.noClosing (hi.subset (by simp))

/-! ## Badges -/

/-- The link of a category with an image and a target. -/
def Category.badge (k : Category) (image target : List Char) : List Char :=
  k.mark ++ '(' :: (image ++ [')', ']', '('] ++ target ++ [')'])

/-- An image and a target that do not end a badge and begin none. -/
structure Complete (image target : List Char) : Prop where
  image : Plain image
  noOpening : '[' ∉ target
  noEnd : ')' ∉ target

instance (image target : List Char) : Decidable (Complete image target) :=
  decidable_of_iff (Plain image ∧ '[' ∉ target ∧ ')' ∉ target)
    ⟨fun h => ⟨h.1, h.2.1, h.2.2⟩, fun h => ⟨h.image, h.noOpening, h.noEnd⟩⟩

theorem link_eq_badge (k : Category) (url : List Char) :
    link k.label.toList url = k.badge url ['#'] := by
  simp [link_eq, Category.badge]

theorem Plain.complete {url : List Char} (h : Plain url) : Complete url ['#'] :=
  ⟨h, by decide, by decide⟩

namespace Complete

variable {k k' : Category} {image target : List Char}

theorem isLink (h : Complete image target) (k : Category) : IsLink k (k.badge image target) := by
  refine ⟨'(' :: (image ++ [')']), target, by simp [Category.badge], by simp [h.image.line], ?_,
    h.noEnd⟩
  intro hi
  have hmem : ']' ∈ '(' :: (image ++ [')']) := hi.subset (by simp)
  simp [h.image.noClosing] at hmem

/-- No mark lies behind the beginning of a badge. -/
theorem not_mark_in_tail (h : Complete image target) :
    ¬ k'.mark <:+: (k.badge image target).tail := by
  have hlength {x : List Char} (hx : x <:+: k.mark.tail) : x ≠ k'.mark := by
    rintro rfl
    obtain rfl := Category.eq_of_mark_inside (hx.trans (List.tail_suffix _).isInfix)
    have hle := hx.length_le
    have hpos := List.length_pos_iff.2 (show k'.mark ≠ [] by simp [Category.mark_eq])
    rw [List.length_tail] at hle
    omega
  rw [Category.badge, List.tail_append_of_ne_nil (by simp [Category.mark_eq]),
    List.infix_append_iff]
  rintro (hi | hi | ⟨x, y, he, hx, hy⟩)
  · exact hlength hi rfl
  · have hmem : '[' ∈ '(' :: (image ++ [')', ']', '('] ++ target ++ [')']) :=
      hi.subset (by simp [Category.mark_eq])
    simp [h.image.noOpening, h.noOpening] at hmem
  · cases y with
    | nil => exact hlength hx.isInfix (by rw [he, List.append_nil])
    | cons b y =>
      obtain rfl : b = '(' := (List.cons_prefix_cons.1 hy).1
      exact k'.open_notMem_mark (by rw [he]; simp)

end Complete

/-- A mark in front of what is left of a link lies in that. -/
theorem IsLink.mark_prefix_of_suffix {k k' : Category} {m d y : List Char} (hm : IsLink k m)
    (hd : d ≠ []) (hsuffix : d <:+ m) (h : k'.mark <+: d ++ y) : k'.mark <+: d := by
  obtain ⟨title, target, rfl, -⟩ := hm
  obtain ⟨a, c, rfl⟩ := (List.eq_nil_or_concat d).resolve_left hd
  have hlast := hsuffix.getLast (by simp)
  obtain rfl : c = ')' := by simpa using hlast
  rw [List.concat_eq_append, List.append_assoc] at h
  rw [List.concat_eq_append]
  exact (Category.mark_prefix_of_close h).trans (List.prefix_append _ _)

/-- A mark that begins in a badge is the one at its front. -/
theorem Complete.eq_of_marked {k k' : Category} {image target d y : List Char}
    (h : Complete image target) (hd : d ≠ []) (hsuffix : d <:+ k.badge image target)
    (hmark : k'.mark <+: d ++ y) : k' = k ∧ d = k.badge image target := by
  have hmark := (h.isLink k).mark_prefix_of_suffix hd hsuffix hmark
  obtain ⟨p, hp⟩ := hsuffix
  cases p with
  | nil =>
    subst hp
    exact ⟨Category.eq_of_marked hmark (h.isLink k).marked, rfl⟩
  | cons c p =>
    have htail : k'.mark <:+: (k.badge image target).tail := by
      rw [← hp, List.cons_append, List.tail_cons]
      exact hmark.isInfix.trans (List.suffix_append p d).isInfix
    exact absurd htail h.not_mark_in_tail

/-! ## What begins in a fresh link -/

/-- A link begins at a mark in the URL of a fresh one, since that can end it too. -/
theorem shows_of_mark_infix {k q : Category} {url : List Char} (hline : '\n' ∉ url)
    (h : q.mark <:+: url) : Shows q (link k.label.toList url) := by
  obtain ⟨x, y, rfl⟩ := h
  refine ⟨q.mark ++ (y ++ [')', ']', '(', '#', ')']), ⟨k.mark ++ '(' :: x, by simp [link_eq]⟩, ?_⟩
  rw [starts_iff]
  refine ⟨y ++ [')'], ['#', ')'], by simp, ?_, by decide⟩
  simp only [List.mem_append, not_or] at hline ⊢
  exact ⟨hline.2, by decide⟩

namespace Inert

variable {k k' : Category} {url : List Char}

theorem not_mark_infix_link (h : Inert k url) (hk : k' ≠ k) :
    ¬ k'.mark <:+: link k.label.toList url := by
  rw [link_eq, List.infix_append_iff, List.infix_cons_iff, List.infix_append_iff]
  rintro (hi | (hp | hi | hi | ⟨x, y, he, hx, hy⟩) | ⟨x, y, he, hx, hy⟩)
  · exact hk (Category.eq_of_mark_inside hi)
  · simp [Category.mark_eq] at hp
  · exact h.mark k' hk hi
  · refine k'.not_infix_tail_mark (absurd (hi.subset ?_ : '[' ∈ _) (by simp))
    simp [Category.mark_eq]
  · cases y with
    | nil =>
      rw [List.append_nil] at he
      exact h.mark k' hk (he ▸ hx.isInfix)
    | cons b y =>
      obtain rfl : b = ')' := by simpa using (List.cons_prefix_cons.1 hy).1
      exact k'.close_notMem_mark (by rw [he]; simp)
  · cases y with
    | nil =>
      rw [List.append_nil] at he
      exact hk (Category.eq_of_mark_inside (he ▸ hx.isInfix))
    | cons b y =>
      obtain rfl : b = '(' := (List.cons_prefix_cons.1 hy).1
      exact k'.open_notMem_mark (by rw [he]; simp)

end Inert

/-- No link of another category begins in a fresh link. -/
theorem Inert.not_starts {k k' : Category} {url d y : List Char} (h : Inert k url) (hk : k' ≠ k)
    (hd : d ≠ []) (hsuffix : d <:+ link k.label.toList url) : ¬ Starts k' (d ++ y) := by
  intro hs
  have hp := h.isLink.mark_prefix_of_suffix hd hsuffix hs.marked
  exact h.not_mark_infix_link hk (hp.isInfix.trans hsuffix.isInfix)

end StatusBadges.Readme
