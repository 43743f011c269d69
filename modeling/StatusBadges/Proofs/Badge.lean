import StatusBadges.Badge
import StatusBadges.Proofs.Text

/-!
# Texts in the URL of a badge

An escape puts a percent sign and digits in the place of one character. A text that has none of
these characters lies in an escaped text exactly when it lies in the text itself
(`infix_escape_iff`), and so in the URL of a badge exactly when it lies in what is said there.
Escapes can be taken back (`unescape_escape`), and the dashes of a URL part what it says
(`eq_of_url_eq`).
-/

namespace StatusBadges.Badge

/-! ## Escaped texts -/

/-- The characters that are escaped, and those of escapes. -/
def escaping : List Char := ['%', ' ', '2', '5', '0']

theorem escape_cons (c : Char) (s : List Char) : escape (c :: s) = escapeChar c ++ escape s := rfl

theorem escapeChar_of_notMem {c : Char} (hc : c ∉ escaping) : escapeChar c = [c] := by
  rw [escapeChar, if_neg, if_neg]
  · rintro rfl
    exact hc (by decide)
  · rintro rfl
    exact hc (by decide)

theorem forall_notMem_escaping {x : List Char} (h : (x.all fun c => !escaping.contains c) = true) :
    ∀ c ∈ x, c ∉ escaping := by
  simpa using h

theorem escapeChar_cases (c : Char) : escapeChar c = [c] ∨ ∃ more, escapeChar c = '%' :: more := by
  unfold escapeChar
  split
  · exact Or.inr ⟨_, rfl⟩
  · split
    · exact Or.inr ⟨_, rfl⟩
    · exact Or.inl rfl

theorem notMem_escapeChar {a c : Char} (hc : a ≠ c) (ha : a ∉ ['%', '2', '5', '0']) :
    a ∉ escapeChar c := by
  simp only [List.mem_cons, List.not_mem_nil, or_false, not_or] at ha
  unfold escapeChar
  split
  · simp [ha]
  · split
    · simp [ha]
    · simpa using hc

theorem notMem_escape {a : Char} {s : List Char} (hs : a ∉ s) (ha : a ∉ ['%', '2', '5', '0']) :
    a ∉ escape s := by
  intro hmem
  obtain ⟨c, hc, hmem⟩ := List.mem_flatMap.1 hmem
  refine notMem_escapeChar ?_ ha hmem
  rintro rfl
  exact hs hc

theorem space_notMem_escape (s : List Char) : ' ' ∉ escape s := by
  intro hmem
  obtain ⟨c, -, hmem⟩ := List.mem_flatMap.1 hmem
  by_cases hc : c = ' '
  · subst hc
    revert hmem
    decide
  · exact notMem_escapeChar (Ne.symm hc) (by decide) hmem

theorem unescape_cons {c : Char} (h : c ≠ '%') (s : List Char) :
    unescape (c :: s) = c :: unescape s := by
  rw [unescape]
  · intro rest e
    exact absurd e h
  · intro rest e
    exact absurd e h

theorem unescape_escapeChar_append (c : Char) (s : List Char) :
    unescape (escapeChar c ++ s) = c :: unescape s := by
  by_cases hpercent : c = '%'
  · subst hpercent
    rfl
  · by_cases hspace : c = ' '
    · subst hspace
      rfl
    · rw [escapeChar, if_neg hpercent, if_neg hspace]
      exact unescape_cons hpercent s

/-- **Escapes can be taken back.** -/
theorem unescape_escape (s : List Char) : unescape (escape s) = s := by
  induction s with
  | nil => rfl
  | cons c s ih => rw [escape_cons, unescape_escapeChar_append, ih]

theorem escape_injective : Function.Injective escape :=
  Function.LeftInverse.injective unescape_escape

/-! ## Texts in texts -/

section Infix

variable {x s : List Char}

theorem escape_eq_self (hx : ∀ c ∈ x, c ∉ escaping) : escape x = x := by
  induction x with
  | nil => rfl
  | cons a x ih =>
    rw [escape_cons, escapeChar_of_notMem (hx a List.mem_cons_self),
      ih fun b hb => hx b (List.mem_cons_of_mem a hb)]
    rfl

theorem prefix_of_escape (hx : ∀ c ∈ x, c ∉ escaping) (h : x <+: escape s) : x <+: s := by
  induction x generalizing s with
  | nil => exact List.nil_prefix
  | cons a x ih =>
    cases s with
    | nil => exact h
    | cons c s =>
      rcases escapeChar_cases c with hc | ⟨more, hc⟩
      · rw [escape_cons, hc, List.singleton_append, List.cons_prefix_cons] at h
        rw [List.cons_prefix_cons]
        exact ⟨h.1, ih (fun b hb => hx b (List.mem_cons_of_mem a hb)) h.2⟩
      · rw [escape_cons, hc, List.cons_append, List.cons_prefix_cons] at h
        refine absurd ?_ (hx a List.mem_cons_self)
        rw [h.1]
        decide

/-- **Escaping hides no text and makes none**, unless the text has something of an escape. -/
theorem infix_escape_iff (hx : ∀ c ∈ x, c ∉ escaping) : x <:+: escape s ↔ x <:+: s := by
  constructor
  · intro h
    cases x with
    | nil => exact List.nil_infix
    | cons a x =>
      have ha := hx a List.mem_cons_self
      induction s with
      | nil => exact h
      | cons c s ih =>
        rw [List.infix_cons_iff]
        by_cases hc : a = c
        · subst hc
          have hcons : escape (a :: s) = a :: escape s := by
            rw [escape_cons, escapeChar_of_notMem ha, List.singleton_append]
          rw [hcons, List.infix_cons_iff, ← hcons] at h
          exact h.imp (prefix_of_escape hx) ih
        · have hnot : a ∉ escapeChar c := by
            refine notMem_escapeChar hc fun hmem => ha ?_
            simp only [escaping, List.mem_cons, List.not_mem_nil, or_false] at hmem ⊢
            tauto
          rw [escape_cons, Text.infix_append_iff_of_head hnot] at h
          exact Or.inr (ih h)
  · rintro ⟨u, v, rfl⟩
    refine ⟨escape u, escape v, ?_⟩
    rw [escape, escape, escape, List.flatMap_append, List.flatMap_append]
    congr 2
    exact (escape_eq_self hx).symm

end Infix

/-! ## URLs -/

section Url

variable {x : List Char} {a b : Char}

theorem toList_url (label message color : String) :
    (url label message color).toList = service.toList ++ (escape label.toList ++
      '-' :: (escape message.toList ++ '-' :: (color.toList ++ ['.', 's', 'v', 'g']))) := by
  simp [url]

/-- **What a URL says**: a text lies in it exactly when it lies in the message, if it does not begin
with a character in front of that or end with one behind. -/
theorem infix_url_iff {label message color : String} (hx : ∀ c ∈ x, c ∉ escaping)
    (hhead : x.head? = some a) (hlast : x.getLast? = some b)
    (ha : a ∉ service.toList ++ (escape label.toList ++ ['-']))
    (hb : b ∉ '-' :: (color.toList ++ ['.', 's', 'v', 'g'])) :
    x <:+: (url label message color).toList ↔ x <:+: message.toList := by
  have hurl : (url label message color).toList =
      (service.toList ++ (escape label.toList ++ ['-'])) ++
        (escape message.toList ++ '-' :: (color.toList ++ ['.', 's', 'v', 'g'])) := by
    simp [toList_url]
  obtain ⟨rest, hrest⟩ := List.head?_eq_some_iff.1 hhead
  obtain ⟨before, hbefore⟩ := List.getLast?_eq_some_iff.1 hlast
  rw [hurl, hrest, Text.infix_append_iff_of_head ha, ← hrest, hbefore,
    Text.infix_append_iff_of_last hb, ← hbefore, infix_escape_iff hx]

/-- **A URL tells what it says**: its label, its message and its colour, if there is no dash in
label and colour. The message lies between the first dash behind the service and the last one. -/
theorem eq_of_url_eq {label label' message message' color color' : String}
    (hlabel : '-' ∉ label.toList) (hlabel' : '-' ∉ label'.toList) (hcolor : '-' ∉ color.toList)
    (hcolor' : '-' ∉ color'.toList) (h : url label message color = url label' message' color') :
    label = label' ∧ message = message' ∧ color = color' := by
  have hsuffix {color : String} (hcolor : '-' ∉ color.toList) :
      '-' ∉ color.toList ++ ['.', 's', 'v', 'g'] := by
    simpa using hcolor
  have hlists := congrArg String.toList h
  rw [toList_url, toList_url] at hlists
  obtain ⟨hlabels, hbehind⟩ := Text.eq_of_first_separator (notMem_escape hlabel (by decide))
    (notMem_escape hlabel' (by decide)) (List.append_cancel_left hlists)
  obtain ⟨hmessages, hcolors⟩ := Text.eq_of_last_separator (hsuffix hcolor) (hsuffix hcolor')
    hbehind
  exact ⟨String.toList_inj.1 (escape_injective hlabels),
    String.toList_inj.1 (escape_injective hmessages),
    String.toList_inj.1 (List.append_cancel_right hcolors)⟩

end Url

end StatusBadges.Badge
