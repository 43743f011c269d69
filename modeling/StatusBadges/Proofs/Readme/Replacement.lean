import Mathlib.Order.Bounds.Defs
import StatusBadges.Proofs.Readme.Passes

/-!
# One replacement

What a replacement does is told by three places in the text: the least one at which a link begins,
the least one at which its title can end, and the first closing parenthesis behind that
(`updateCategory_by_places`). All between the first and the last gives way to the fresh link. A
later replacement in the same category finds just that link again, in every text, exactly when its
URL holds no line feed and does not end the title (`replaceLink_replaceLink_iff`).
-/

namespace StatusBadges.Readme

/-! ## Places -/

/-- A link begins at the place `p` of a text and its title can end at `j`: the mark stands at `p`,
behind it on the same line a bracket and an opening parenthesis stand at `j`, and a closing
parenthesis stands somewhere behind these. -/
structure LinkAt (k : Category) (s : List Char) (p j : ℕ) : Prop where
  mark : k.mark <+: s.drop p
  behind : p + k.mark.length ≤ j
  bracket : [']', '('] <+: s.drop j
  line : '\n' ∉ (s.take j).drop (p + k.mark.length)
  closed : ')' ∈ s.drop (j + 2)

/-- The places of a link take the text apart. -/
theorem LinkAt.exists_parts {k : Category} {s : List Char} {p j : ℕ} (h : LinkAt k s p j) :
    ∃ w title rest, s = w ++ (k.mark ++ (title ++ ']' :: '(' :: rest)) ∧ p = w.length ∧
      j = w.length + k.mark.length + title.length ∧ '\n' ∉ title ∧ ')' ∈ rest := by
  obtain ⟨⟨t, ht⟩, hbehind, ⟨rest, hrest⟩, hline, hclosed⟩ := h
  obtain ⟨d, rfl⟩ := Nat.exists_eq_add_of_le hbehind
  have hdrop : s.drop (p + k.mark.length) = t := by
    rw [← List.drop_drop, ← ht, List.drop_left]
  have htail : t.drop d = ']' :: '(' :: rest := by
    rw [← hdrop, List.drop_drop, ← hrest]
    rfl
  have hp : p < s.length := by
    by_contra hle
    rw [List.drop_eq_nil_of_le (not_lt.1 hle)] at ht
    simp [Category.mark_eq] at ht
  have hd : d < t.length := by
    by_contra hle
    rw [List.drop_eq_nil_of_le (not_lt.1 hle)] at htail
    cases htail
  refine ⟨s.take p, t.take d, rest, ?_, ?_, ?_, ?_, ?_⟩
  · rw [← htail, List.take_append_drop, ht, List.take_append_drop]
  · rw [List.length_take_of_le hp.le]
  · rw [List.length_take_of_le hp.le, List.length_take_of_le hd.le]
  · rwa [List.drop_take, hdrop, Nat.add_sub_cancel_left] at hline
  · rwa [← List.drop_drop, ← hrest] at hclosed

theorem linkAt_of_parts (k : Category) (w : List Char) {title rest : List Char}
    (hline : '\n' ∉ title) (hclosed : ')' ∈ rest) :
    LinkAt k (w ++ (k.mark ++ (title ++ ']' :: '(' :: rest))) w.length
      (w.length + k.mark.length + title.length) := by
  have hw : (w ++ (k.mark ++ (title ++ ']' :: '(' :: rest))).drop (w.length + k.mark.length) =
      title ++ ']' :: '(' :: rest := by
    rw [← List.drop_drop, List.drop_left, List.drop_left]
  have htitle : (w ++ (k.mark ++ (title ++ ']' :: '(' :: rest))).drop
      (w.length + k.mark.length + title.length) = ']' :: '(' :: rest := by
    rw [← List.drop_drop, hw, List.drop_left]
  refine ⟨?_, Nat.le_add_right _ _, ?_, ?_, ?_⟩
  · rw [List.drop_left]
    exact List.prefix_append _ _
  · rw [htitle]
    exact List.prefix_append [']', '('] rest
  · rwa [List.drop_take, hw, Nat.add_sub_cancel_left, List.take_left]
  · rwa [← List.drop_drop, htitle]

theorem LinkAt.starts {k : Category} {s : List Char} {p j : ℕ} (h : LinkAt k s p j) :
    Starts k (s.drop p) := by
  obtain ⟨w, title, rest, rfl, rfl, -, hline, hclosed⟩ := h.exists_parts
  rw [List.drop_left, starts_iff]
  exact ⟨title, rest, rfl, hline, hclosed⟩

/-- No link begins before the first one. -/
theorem LinkAt.length_le {k : Category} {w t : List Char} {p j : ℕ} (h : LinkAt k (w ++ t) p j)
    (hfirst : First k (w ++ t) t) : w.length ≤ p := by
  have hle := (hfirst.longest (List.drop_suffix p _) h.starts).length_le
  simp only [List.length_drop, List.length_append] at hle
  omega

/-- No title ends in front of the first bracket with a parenthesis behind it. -/
theorem length_le_of_first_bracket {title title' rest rest' : List Char}
    (hfirst : ¬ [']', '('] <:+: title)
    (h : title ++ ']' :: '(' :: rest = title' ++ ']' :: '(' :: rest') :
    title.length ≤ title'.length := by
  rcases List.append_eq_append_iff.1 h with ⟨c, rfl, -⟩ | ⟨c, rfl, hc⟩
  · simp
  · match c with
    | [] => simp
    | [b] => simp at hc
    | b :: b' :: c =>
      obtain ⟨rfl, rfl, -⟩ : ']' = b ∧ '(' = b' ∧ _ := by simpa using hc
      exact absurd ⟨title', c, by simp⟩ hfirst

theorem LinkAt.title_length_le {k : Category} {w title rest : List Char} {j : ℕ}
    (hfirst : ¬ [']', '('] <:+: title)
    (h : LinkAt k (w ++ (k.mark ++ (title ++ ']' :: '(' :: rest))) w.length j) :
    w.length + k.mark.length + title.length ≤ j := by
  obtain ⟨w', title', rest', hs, hw, rfl, -⟩ := h.exists_parts
  obtain ⟨rfl, -⟩ := List.append_inj hs hw
  have hle := length_le_of_first_bracket hfirst
    (List.append_cancel_left (List.append_cancel_left hs))
  omega

section Place

variable {c : Char} {a : List Char} (w rest : List Char)

/-- A character that is not in a text stands first behind it. -/
theorem isLeast_place (ha : c ∉ a) :
    IsLeast {e | w.length ≤ e ∧ (w ++ (a ++ c :: rest))[e]? = some c} (w.length + a.length) := by
  constructor
  · refine ⟨Nat.le_add_right _ _, ?_⟩
    rw [List.getElem?_append_right (Nat.le_add_right _ _), Nat.add_sub_cancel_left,
      List.getElem?_append_right le_rfl, Nat.sub_self, List.getElem?_cons_zero]
  · rintro e ⟨hle, he⟩
    by_contra hlt
    rw [List.getElem?_append_right hle, List.getElem?_append_left (by omega)] at he
    exact ha (List.mem_of_getElem? he)

theorem drop_place : (w ++ (a ++ c :: rest)).drop (w.length + a.length + 1) = rest := by
  rw [Nat.add_assoc, ← List.drop_drop, List.drop_left, ← List.drop_drop, List.drop_left]
  rfl

end Place

theorem linkText_eq (k : Category) (url : String) :
    ("[![" ++ k.label ++ "](" ++ url ++ ")](#)").toList = link k.label.toList url.toList := by
  simp [link, opening]

/-- **One replacement.** Where no link of a category begins, the text stays. Otherwise let `p` be
the least place at which one begins, `j` the least one at which its title can end and `e` that of
the first closing parenthesis behind. What stands before `p` and behind `e` stays, and the fresh
link with the URL as it is stands between. -/
theorem updateCategory_by_places (k : Category) (b : BadgeSet) (s : List Char) :
    (∀ p j, ¬ LinkAt k s p j) ∧ updateCategory b s k = s ∨
      ∃ p j e, IsLeast {p | ∃ j, LinkAt k s p j} p ∧ IsLeast {j | LinkAt k s p j} j ∧
        IsLeast {e | j + 2 ≤ e ∧ s[e]? = some ')'} e ∧
        updateCategory b s k =
          s.take p ++ ("[![" ++ k.label ++ "](" ++ k.url b ++ ")](#)").toList ++
            s.drop (e + 1) := by
  rw [linkText_eq, updateCategory]
  by_cases hs : Shows k s
  · right
    obtain ⟨w, m, post, rfl, hm, hfirst⟩ := hs.exists_parts
    rw [replaceLink_of_first hm hfirst]
    obtain ⟨title, target, rfl, hline, hbracket, htarget⟩ := hm
    simp only [List.append_assoc, List.cons_append, List.nil_append] at hfirst ⊢
    have hat : LinkAt k (w ++ (k.mark ++ (title ++ ']' :: '(' :: (target ++ ')' :: post))))
        w.length (w.length + k.mark.length + title.length) :=
      linkAt_of_parts k w hline (by simp)
    -- The target of the link begins behind the parenthesis of its title.
    have hbehind : w ++ (k.mark ++ (title ++ ']' :: '(' :: (target ++ ')' :: post))) =
        (w ++ k.mark ++ title ++ [']', '(']) ++ (target ++ ')' :: post) := by simp
    have hlength : (w ++ k.mark ++ title ++ [']', '(']).length =
        w.length + k.mark.length + title.length + 2 := by simp [Nat.add_assoc]
    have hclosing := isLeast_place (w ++ k.mark ++ title ++ [']', '(']) post htarget
    have hpost := drop_place (c := ')') (a := target) (w ++ k.mark ++ title ++ [']', '(']) post
    rw [← hbehind, hlength] at hclosing hpost
    refine ⟨_, _, _, ⟨⟨_, hat⟩, ?_⟩, ⟨hat, ?_⟩, hclosing, ?_⟩
    · rintro p ⟨j, h⟩
      exact h.length_le hfirst
    · intro j h
      exact h.title_length_le hbracket
    · rw [hpost, List.take_left]
  · left
    refine ⟨fun p j h => hs ⟨s.drop p, List.drop_suffix p s, h.starts⟩, ?_⟩
    exact replaceLink_of_not_shows hs

/-! ## A replacement after another -/

section Twice

variable {k : Category} {url url' : List Char}

theorem replaceLink_replaceLink_of_isLink (h : IsLink k (link k.label.toList url))
    (s : List Char) :
    replaceLink k.label.toList url' (replaceLink k.label.toList url s) =
      replaceLink k.label.toList url' s := by
  by_cases hs : Shows k s
  · obtain ⟨w, m, post, rfl, hm, hfirst⟩ := hs.exists_parts
    rw [replaceLink_of_first hm hfirst, replaceLink_of_first hm hfirst,
      replaceLink_of_first h (first_link hm hfirst h)]
  · rw [replaceLink_of_not_shows hs]

/-- A fresh link that any other one replaces as a whole is read back as it was put in. -/
theorem isLink_of_replaceLink_eq
    (h : ∀ url', replaceLink k.label.toList url' (link k.label.toList url) =
      link k.label.toList url') : IsLink k (link k.label.toList url) := by
  by_cases hs : Shows k (link k.label.toList url)
  · obtain ⟨w, m, post, hparts, hm, hfirst⟩ := hs.exists_parts
    -- Replaced by itself the link keeps its length, so that nothing stands around what was read.
    have hsame := h url
    rw [hparts] at hfirst
    rw [hparts, replaceLink_of_first hm hfirst, ← hparts] at hsame
    have hlength := congrArg List.length hsame
    simp only [List.length_append] at hlength
    obtain rfl : w = [] := List.eq_nil_of_length_eq_zero (by omega)
    obtain rfl : post = [] := List.eq_nil_of_length_eq_zero (by omega)
    rw [hparts, List.nil_append, List.append_nil]
    exact hm
  · have hlonger := h ('#' :: url)
    rw [replaceLink_of_not_shows hs] at hlonger
    have hlength := congrArg List.length hlonger
    simp [link] at hlength

/-- **A later replacement undoes an earlier one**, in every text and whatever the later URL, exactly
when the earlier URL holds no line feed and no bracket with a parenthesis behind it. -/
theorem replaceLink_replaceLink_iff (k : Category) (url : List Char) :
    (∀ s url', replaceLink k.label.toList url' (replaceLink k.label.toList url s) =
      replaceLink k.label.toList url' s) ↔ '\n' ∉ url ∧ ¬ [']', '('] <:+: url := by
  rw [← isLink_link_iff (k := k)]
  constructor
  · intro h
    have hempty : IsLink k (k.badge [] ['#']) := Complete.isLink (by decide) k
    apply isLink_of_replaceLink_eq
    intro url'
    have hagain := h (k.badge [] ['#'] ++ []) url'
    rwa [replaceLink_isLink hempty, replaceLink_isLink hempty, List.append_nil,
      List.append_nil] at hagain
  · intro h s url'
    exact replaceLink_replaceLink_of_isLink h s

end Twice

end StatusBadges.Readme
