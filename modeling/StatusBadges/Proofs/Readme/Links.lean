import Mathlib.Data.List.Infix
import StatusBadges.Readme

/-!
# Where links begin and end

A link is found by its beginning and read up to the first place at which it can end. What matters
for a text in which links are replaced one after another is which of its suffixes begin with a link
(`Starts`), and which of these is the longest (`First`): replacing changes the text there
(`replaceLink_of_first`). A link that begins in front of a text like another link needs no more of
it than its bracket and a parenthesis behind that (`Closes`), so that it does not matter which link
that is (`starts_append_of_closes`).
-/

namespace StatusBadges.Readme

/-! ## Reading to the end of a link -/

theorem afterBracket?_eq_some_iff {s rest : List Char} :
    afterBracket? s = some rest ↔
      ∃ title, s = title ++ ']' :: '(' :: rest ∧ '\n' ∉ title ∧ ¬ [']', '('] <:+: title := by
  fun_induction afterBracket? s with
  | case1 r =>
    constructor
    · intro h
      cases h
      exact ⟨[], rfl, by simp, by simp⟩
    · rintro ⟨title, hs, -, hfirst⟩
      match title with
      | [] => simpa using hs
      | [a] => simp at hs
      | a :: b :: title =>
        simp only [List.cons_append, List.cons.injEq] at hs
        obtain ⟨rfl, rfl, -⟩ := hs
        exact absurd ⟨[], title, rfl⟩ hfirst
  | case2 r =>
    constructor
    · intro h
      cases h
    · rintro ⟨title, hs, hline, -⟩
      cases title with
      | nil => simp at hs
      | cons a title =>
        simp only [List.cons_append, List.cons.injEq] at hs
        exact absurd (hs.1 ▸ List.mem_cons_self) hline
  | case3 c r hb hn ih =>
    rw [ih]
    constructor
    · rintro ⟨title, rfl, hline, hfirst⟩
      refine ⟨c :: title, rfl, ?_, ?_⟩
      · intro hmem
        rcases List.mem_cons.1 hmem with e | hmem
        · exact hn e.symm
        · exact hline hmem
      · rw [List.infix_cons_iff]
        rintro (⟨more, hp⟩ | hi)
        · obtain ⟨rfl, rfl⟩ : ']' = c ∧ '(' :: more = title := by simpa using hp
          exact hb _ rfl rfl
        · exact hfirst hi
    · rintro ⟨title, hs, hline, hfirst⟩
      cases title with
      | nil =>
        obtain ⟨rfl, rfl⟩ : c = ']' ∧ r = '(' :: rest := by simpa using hs
        exact absurd rfl (hb _ rfl)
      | cons a title =>
        obtain ⟨rfl, rfl⟩ : c = a ∧ r = title ++ ']' :: '(' :: rest := by simpa using hs
        exact ⟨title, rfl, fun h => hline (List.mem_cons_of_mem _ h),
          fun h => hfirst (h.trans (List.suffix_cons _ _).isInfix)⟩
  | case4 => simp

theorem afterParenthesis?_eq_some_iff {s rest : List Char} :
    afterParenthesis? s = some rest ↔ ∃ target, s = target ++ ')' :: rest ∧ ')' ∉ target := by
  fun_induction afterParenthesis? s with
  | case1 r =>
    constructor
    · intro h
      cases h
      exact ⟨[], rfl, by simp⟩
    · rintro ⟨target, hs, hp⟩
      cases target with
      | nil => simpa using hs
      | cons a target =>
        simp only [List.cons_append, List.cons.injEq] at hs
        exact absurd (hs.1 ▸ List.mem_cons_self) hp
  | case2 c r hc ih =>
    rw [ih]
    constructor
    · rintro ⟨target, rfl, hp⟩
      refine ⟨c :: target, rfl, ?_⟩
      intro hmem
      rcases List.mem_cons.1 hmem with e | hmem
      · exact hc e.symm
      · exact hp hmem
    · rintro ⟨target, hs, hp⟩
      cases target with
      | nil =>
        simp only [List.nil_append, List.cons.injEq] at hs
        exact absurd hs.1 hc
      | cons a target =>
        obtain ⟨rfl, rfl⟩ : c = a ∧ r = target ++ ')' :: rest := by simpa using hs
        exact ⟨target, rfl, fun h => hp (List.mem_cons_of_mem _ h)⟩
  | case3 => simp

/-- On a line with a bracket and an opening parenthesis there is a first one of these. -/
theorem exists_afterBracket? {title : List Char} (hline : '\n' ∉ title) (rest : List Char) :
    ∃ more, afterBracket? (title ++ ']' :: '(' :: rest) = some (more ++ rest) := by
  induction title with
  | nil => exact ⟨[], rfl⟩
  | cons c title ih =>
    obtain ⟨hc, hline⟩ : '\n' ≠ c ∧ '\n' ∉ title := by simpa using hline
    by_cases hb : c = ']' ∧ ∃ t, title = '(' :: t
    · obtain ⟨rfl, t, rfl⟩ := hb
      exact ⟨t ++ [']', '('], by simp [afterBracket?]⟩
    · obtain ⟨more, hmore⟩ := ih hline
      refine ⟨more, ?_⟩
      rw [List.cons_append, afterBracket?, hmore]
      · intro t hc' ht
        cases title with
        | nil => simp at ht
        | cons b title =>
          simp only [List.cons_append, List.cons.injEq] at ht
          exact hb ⟨hc', title, by rw [ht.1]⟩
      · exact fun e => hc e.symm

/-! ## Marks -/

theorem mem_all (k : Category) : k ∈ Category.all := by cases k <;> decide

namespace Category

/-- The text with which the links of a category begin. -/
def mark (k : Category) : List Char := opening k.label.toList

theorem mark_eq (k : Category) : k.mark = '[' :: '!' :: ('[' :: k.label.toList ++ [']']) := rfl

theorem lineFeed_notMem_mark (k : Category) : '\n' ∉ k.mark := by cases k <;> decide

theorem close_notMem_mark (k : Category) : ')' ∉ k.mark := by cases k <;> decide

theorem open_notMem_mark (k : Category) : '(' ∉ k.mark := by cases k <;> decide

theorem not_infix_tail_mark (k : Category) : ¬ ['[', '!'] <:+: k.mark.tail := by
  cases k <;> decide

theorem eq_of_mark_inside {k k' : Category} (h : k.mark <:+: k'.mark) : k = k' := by
  revert h
  cases k <;> cases k' <;> decide

theorem eq_of_marked {k k' : Category} {s : List Char} (h : k.mark <+: s)
    (h' : k'.mark <+: s) : k = k' := by
  rcases List.prefix_or_prefix_of_prefix h h' with hp | hp
  · exact eq_of_mark_inside hp.isInfix
  · exact (eq_of_mark_inside hp.isInfix).symm

/-- A mark that begins in front of a text like a mark ends in front of it. -/
theorem mark_prefix_of_append {k : Category} {a y : List Char} (ha : a ≠ [])
    (h : k.mark <+: a ++ '[' :: '!' :: y) : k.mark <+: a := by
  obtain ⟨z, hz⟩ := h
  rcases List.append_eq_append_iff.1 hz with ⟨c, hc, -⟩ | ⟨c, hc, hy⟩
  · exact ⟨c, hc.symm⟩
  · match c with
    | [] => rw [hc, List.append_nil]
    | [b] =>
      obtain ⟨rfl, -⟩ : '[' = b ∧ '!' :: y = z := by simpa using hy
      have hlast := congrArg List.getLast? hc
      rw [mark_eq, List.getLast?_append] at hlast
      simp [List.getLast?_cons] at hlast
    | b :: b' :: c =>
      simp only [List.cons_append, List.cons.injEq] at hy
      obtain ⟨rfl, rfl, -⟩ := hy
      refine absurd ?_ k.not_infix_tail_mark
      rw [hc, List.tail_append_of_ne_nil ha]
      exact ⟨a.tail, c, by simp⟩

theorem mark_prefix_of_close {k : Category} {a y : List Char} (h : k.mark <+: a ++ ')' :: y) :
    k.mark <+: a := by
  obtain ⟨z, hz⟩ := h
  rcases List.append_eq_append_iff.1 hz with ⟨c, hc, -⟩ | ⟨c, hc, hy⟩
  · exact ⟨c, hc.symm⟩
  · cases c with
    | nil => rw [hc, List.append_nil]
    | cons b c =>
      obtain ⟨rfl, -⟩ : ')' = b ∧ y = c ++ z := by simpa using hy
      exact absurd (by rw [hc]; simp) k.close_notMem_mark

end Category

/-! ## Links -/

/-- A text is one link of a category, from its mark to its end. -/
def IsLink (k : Category) (m : List Char) : Prop :=
  ∃ title target, m = k.mark ++ (title ++ ']' :: '(' :: (target ++ [')'])) ∧ '\n' ∉ title ∧
    ¬ [']', '('] <:+: title ∧ ')' ∉ target

theorem afterLink?_eq_some_iff {k : Category} {s post : List Char} :
    afterLink? k.label.toList s = some post ↔ ∃ m, IsLink k m ∧ s = m ++ post := by
  simp only [afterLink?, Option.bind_eq_some_iff, Text.after?_eq_some_iff,
    afterBracket?_eq_some_iff, afterParenthesis?_eq_some_iff]
  constructor
  · rintro ⟨r, ⟨r', rfl, title, rfl, hline, hfirst⟩, target, rfl, htarget⟩
    refine ⟨_, ⟨title, target, rfl, hline, hfirst, htarget⟩, ?_⟩
    simp [Category.mark]
  · rintro ⟨m, ⟨title, target, rfl, hline, hfirst, htarget⟩, rfl⟩
    refine ⟨target ++ ')' :: post, ⟨title ++ ']' :: '(' :: (target ++ ')' :: post), ?_, title, rfl,
      hline, hfirst⟩, target, rfl, htarget⟩
    simp [Category.mark]

theorem IsLink.unique {k : Category} {m m' post post' : List Char} (h : IsLink k m)
    (h' : IsLink k m') (e : m ++ post = m' ++ post') : m = m' ∧ post = post' := by
  have hpost : post = post' := by
    have hp : afterLink? k.label.toList (m ++ post) = some post :=
      afterLink?_eq_some_iff.2 ⟨m, h, rfl⟩
    have hp' : afterLink? k.label.toList (m' ++ post') = some post' :=
      afterLink?_eq_some_iff.2 ⟨m', h', rfl⟩
    rw [e, hp'] at hp
    exact (Option.some.inj hp).symm
  subst hpost
  exact ⟨List.append_cancel_right e, rfl⟩

theorem IsLink.marked {k : Category} {m : List Char} (h : IsLink k m) : k.mark <+: m := by
  obtain ⟨title, target, rfl, -⟩ := h
  exact List.prefix_append _ _

theorem IsLink.ne_nil {k : Category} {m : List Char} (h : IsLink k m) : m ≠ [] := by
  obtain ⟨title, target, rfl, -⟩ := h
  simp [Category.mark_eq]

/-- A link of a category begins a text. -/
def Starts (k : Category) (s : List Char) : Prop := ∃ m, IsLink k m ∧ m <+: s

theorem Starts.marked {k : Category} {s : List Char} (h : Starts k s) : k.mark <+: s := by
  obtain ⟨m, hm, hp⟩ := h
  exact hm.marked.trans hp

theorem not_starts_iff {k : Category} {s : List Char} :
    ¬ Starts k s ↔ afterLink? k.label.toList s = none := by
  rw [Option.eq_none_iff_forall_not_mem]
  constructor
  · intro h post hpost
    obtain ⟨m, hm, rfl⟩ := afterLink?_eq_some_iff.1 hpost
    exact h ⟨m, hm, List.prefix_append _ _⟩
  · rintro h ⟨m, hm, post, rfl⟩
    exact h post (afterLink?_eq_some_iff.2 ⟨m, hm, rfl⟩)

instance (k : Category) (s : List Char) : Decidable (Starts k s) :=
  decidable_of_iff (afterLink? k.label.toList s ≠ none) (by
    rw [ne_eq, ← not_starts_iff, not_not])

/-- A link begins a text as soon as some bracket on the line of its mark and some closing
parenthesis behind that can end it. -/
theorem starts_iff {k : Category} {s : List Char} :
    Starts k s ↔
      ∃ title rest, s = k.mark ++ (title ++ ']' :: '(' :: rest) ∧ '\n' ∉ title ∧ ')' ∈ rest := by
  constructor
  · rintro ⟨m, ⟨title, target, rfl, hline, -, -⟩, post, rfl⟩
    refine ⟨title, target ++ ')' :: post, ?_, hline, by simp⟩
    simp
  · rintro ⟨title, rest, rfl, hline, hrest⟩
    obtain ⟨more, hmore⟩ := exists_afterBracket? hline rest
    obtain ⟨target, post, hpost, htarget⟩ :=
      List.eq_append_cons_of_mem (List.mem_append_right more hrest)
    obtain ⟨title', he, hline', hfirst⟩ := afterBracket?_eq_some_iff.1 hmore
    refine ⟨_, ⟨title', target, rfl, hline', hfirst, htarget⟩, post, ?_⟩
    rw [he, hpost]
    simp

/-! ## Texts that close a link -/

/-- A text that begins like a mark, with the bracket that ends a title on its first line and a
closing parenthesis behind that. -/
def Closes (m : List Char) : Prop :=
  ∃ title rest, m = '[' :: '!' :: (title ++ ']' :: '(' :: rest) ∧ '\n' ∉ title ∧ ')' ∈ rest

theorem Closes.ne_nil {m : List Char} (h : Closes m) : m ≠ [] := by
  obtain ⟨title, rest, rfl, -⟩ := h
  simp

theorem Closes.append {m : List Char} (h : Closes m) (more : List Char) : Closes (m ++ more) := by
  obtain ⟨title, rest, rfl, hline, hrest⟩ := h
  exact ⟨title, rest ++ more, by simp, hline, List.mem_append_left _ hrest⟩

theorem IsLink.closes {k : Category} {m : List Char} (h : IsLink k m) : Closes m := by
  obtain ⟨title, target, rfl, hline, -, -⟩ := h
  refine ⟨'[' :: k.label.toList ++ [']'] ++ title, target ++ [')'], ?_, ?_, by simp⟩
  · simp [Category.mark_eq]
  · have hmark := k.lineFeed_notMem_mark
    simp only [Category.mark_eq, List.mem_cons, List.mem_append, not_or] at hmark
    simp only [List.mem_cons, List.mem_append, not_or]
    exact ⟨hmark.2.2, hline⟩

theorem closes_link (k : Category) (url : List Char) : Closes (link k.label.toList url) := by
  refine ⟨'[' :: k.label.toList, url ++ [')', ']', '(', '#', ')'], ?_, ?_, by simp⟩
  · simp [link, opening]
  · have hmark := k.lineFeed_notMem_mark
    rw [Category.mark_eq] at hmark
    intro h
    exact hmark (by simp only [List.mem_cons, List.mem_append] at h ⊢; tauto)

/-- **A link that begins in front of a text like a mark** begins in front of every text that closes
it: either it ends before, or its line goes on to that text. -/
theorem starts_append_of_closes {k : Category} {a y m : List Char} (ha : a ≠ [])
    (h : Starts k (a ++ '[' :: '!' :: y)) (hm : Closes m) : Starts k (a ++ m) := by
  obtain ⟨a', rfl⟩ := Category.mark_prefix_of_append ha h.marked
  obtain ⟨title, rest, hs, hline, hrest⟩ := starts_iff.1 h
  obtain ⟨title', rest', rfl, hline', hrest'⟩ := hm
  rw [List.append_assoc] at hs
  have hs := List.append_cancel_left hs
  -- Unless the bracket stands in `a'`, there is no line feed in `a'`.
  have hcases : (∃ c, a' = title ++ ']' :: '(' :: c) ∨ '\n' ∉ a' := by
    rcases List.append_eq_append_iff.1 hs with ⟨c, rfl, -⟩ | ⟨c, rfl, hc⟩
    · exact Or.inr fun hmem => hline (List.mem_append_left _ hmem)
    · match c with
      | [] => exact Or.inr (by simpa using hline)
      | [b] => simp at hc
      | b :: b' :: c =>
        simp only [List.cons_append, List.cons.injEq] at hc
        obtain ⟨rfl, rfl, -⟩ := hc
        exact Or.inl ⟨c, rfl⟩
  rw [starts_iff]
  rcases hcases with ⟨c, rfl⟩ | ha'
  · exact ⟨title, c ++ '[' :: '!' :: (title' ++ ']' :: '(' :: rest'), by simp, hline,
      by simp [hrest']⟩
  · refine ⟨a' ++ '[' :: '!' :: title', rest', by simp, ?_, hrest'⟩
    simp [ha', hline']

/-! ## The first link -/

/-- A suffix of a text begins with the first link of a category in it. -/
structure First (k : Category) (s t : List Char) : Prop where
  suffix : t <:+ s
  starts : Starts k t
  longest : ∀ {t'}, t' <:+ s → Starts k t' → t' <:+ t

/-- A text shows a link of a category. -/
def Shows (k : Category) (s : List Char) : Prop := ∃ t, t <:+ s ∧ Starts k t

instance (k : Category) (s : List Char) : Decidable (Shows k s) :=
  decidable_of_iff (∃ t ∈ s.tails, Starts k t) (by simp only [List.mem_tails, Shows])

theorem First.shows {k : Category} {s t : List Char} (h : First k s t) : Shows k s :=
  ⟨t, h.suffix, h.starts⟩

theorem First.unique {k : Category} {s t t' : List Char} (h : First k s t) (h' : First k s t') :
    t = t' :=
  (h'.longest h.suffix h.starts).eq_of_length_le (h.longest h'.suffix h'.starts).length_le

theorem Shows.exists_first {k : Category} {s : List Char} (h : Shows k s) : ∃ t, First k s t := by
  induction s with
  | nil =>
    obtain ⟨t, ht, hs⟩ := h
    exact ⟨t, ht, hs, fun h' _ => by rw [List.suffix_nil.1 h']; exact List.nil_suffix⟩
  | cons c s ih =>
    by_cases hc : Starts k (c :: s)
    · exact ⟨c :: s, List.suffix_refl _, hc, fun h' _ => h'⟩
    · have htail {t : List Char} (ht : t <:+ c :: s) (hs : Starts k t) : t <:+ s := by
        rcases List.suffix_cons_iff.1 ht with rfl | ht
        · exact absurd hs hc
        · exact ht
      obtain ⟨t, ht, hs⟩ := h
      obtain ⟨t₀, hfirst⟩ := ih ⟨t, htail ht hs, hs⟩
      exact ⟨t₀, hfirst.suffix.trans (List.suffix_cons c s), hfirst.starts,
        fun h' hs' => hfirst.longest (htail h' hs') hs'⟩

/-! ## Replacing -/

section Replacing

variable {k : Category} {url : List Char}

theorem replaceLink_cons {c : Char} {s : List Char} (h : ¬ Starts k (c :: s)) :
    replaceLink k.label.toList url (c :: s) = c :: replaceLink k.label.toList url s := by
  rw [replaceLink, not_starts_iff.1 h]

theorem replaceLink_isLink {m post : List Char} (hm : IsLink k m) :
    replaceLink k.label.toList url (m ++ post) = link k.label.toList url ++ post := by
  obtain ⟨c, m', rfl⟩ := List.exists_cons_of_ne_nil hm.ne_nil
  rw [List.cons_append, replaceLink, ← List.cons_append,
    afterLink?_eq_some_iff.2 ⟨c :: m', hm, rfl⟩]

/-- Text in which no link begins stays. -/
theorem replaceLink_append {w s : List Char}
    (h : ∀ a, a ≠ [] → a <:+ w → ¬ Starts k (a ++ s)) :
    replaceLink k.label.toList url (w ++ s) = w ++ replaceLink k.label.toList url s := by
  induction w with
  | nil => rfl
  | cons c w ih =>
    have hc : ¬ Starts k (c :: (w ++ s)) := h (c :: w) (by simp) (List.suffix_refl _)
    rw [List.cons_append, replaceLink_cons hc, List.cons_append,
      ih fun a ha hw => h a ha (hw.trans (List.suffix_cons c w))]

theorem replaceLink_of_not_shows {s : List Char} (h : ¬ Shows k s) :
    replaceLink k.label.toList url s = s := by
  have hs : replaceLink k.label.toList url (s ++ []) = s ++ replaceLink k.label.toList url [] :=
    replaceLink_append fun a _ ha hstarts => h ⟨a, ha, by simpa using hstarts⟩
  simpa [replaceLink] using hs

/-- **The first link is replaced, and all else is as before.** -/
theorem replaceLink_of_first {w m post : List Char} (hm : IsLink k m)
    (hfirst : First k (w ++ (m ++ post)) (m ++ post)) :
    replaceLink k.label.toList url (w ++ (m ++ post)) =
      w ++ (link k.label.toList url ++ post) := by
  rw [replaceLink_append, replaceLink_isLink hm]
  intro a ha hw hstarts
  have hsuffix : a ++ (m ++ post) <:+ w ++ (m ++ post) := by
    obtain ⟨w', rfl⟩ := hw
    exact ⟨w', by simp⟩
  have hlength := (hfirst.longest hsuffix hstarts).length_le
  have := List.length_pos_iff.2 ha
  simp only [List.length_append] at hlength
  omega

end Replacing

theorem toList_update (content : String) (b : BadgeSet) :
    (update content b).toList = Category.all.foldl (updateCategory b) content.toList :=
  String.toList_ofList

/-- A text that shows a link, taken apart at the first one. -/
theorem Shows.exists_parts {k : Category} {s : List Char} (h : Shows k s) :
    ∃ w m post, s = w ++ (m ++ post) ∧ IsLink k m ∧ First k s (m ++ post) := by
  obtain ⟨t, hfirst⟩ := h.exists_first
  obtain ⟨m, hm, post, rfl⟩ := hfirst.starts
  obtain ⟨w, rfl⟩ := hfirst.suffix
  exact ⟨w, m, post, rfl, hm, hfirst⟩

end StatusBadges.Readme
