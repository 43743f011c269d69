import Mathlib.Data.List.Nodup
import StatusBadges.Path.Order

/-!
# The order of paths is total

`lexLe` is a total order on lists when `before` puts any two different entries in one order
(`IsStrict`), and then so is its strict part, which makes the argument work for components made of
names. Two paths that come before one another have the same components. Hence the order in which
things are found does not show in a sorted list (`sort_eq_of_perm`), and the first wanted path of
such a list is the least one (`find?_eq_some_iff_least`).
-/

namespace StatusBadges

/-- A relation puts any two different things in one order. -/
structure IsStrict {α : Type} (before : α → α → Bool) : Prop where
  irrefl : ∀ a, before a a = false
  trans : ∀ {a b c}, before a b = true → before b c = true → before a c = true
  total : ∀ {a b}, a ≠ b → before a b = true ∨ before b a = true

theorem IsStrict.asymm {α : Type} {before : α → α → Bool} (h : IsStrict before) {a b : α}
    (hab : before a b = true) : before b a = false := by
  cases hba : before b a with
  | false => rfl
  | true => rw [← h.irrefl a, h.trans hab hba]

section LexLe

variable {α : Type} [DecidableEq α] {before : α → α → Bool} (h : IsStrict before)
include h

theorem lexLe_total (as bs : List α) : lexLe before as bs = true ∨ lexLe before bs as = true := by
  induction as generalizing bs with
  | nil => exact .inl rfl
  | cons a as ih =>
    cases bs with
    | nil => exact .inr rfl
    | cons b bs =>
      by_cases e : a = b
      · simpa [lexLe, e] using ih bs
      · simpa [lexLe, e, Ne.symm e] using h.total e

theorem lexLe_antisymm {as bs : List α} (hab : lexLe before as bs = true)
    (hba : lexLe before bs as = true) : as = bs := by
  induction as generalizing bs with
  | nil =>
    cases bs with
    | nil => rfl
    | cons b bs => cases hba
  | cons a as ih =>
    cases bs with
    | nil => cases hab
    | cons b bs =>
      by_cases e : a = b
      · subst e
        simp only [lexLe, if_true] at hab hba
        rw [ih hab hba]
      · simp only [lexLe, if_neg e, if_neg (Ne.symm e)] at hab hba
        rw [h.asymm hab] at hba
        cases hba

theorem lexLe_trans {as bs cs : List α} (hab : lexLe before as bs = true)
    (hbc : lexLe before bs cs = true) : lexLe before as cs = true := by
  induction as generalizing bs cs with
  | nil => rfl
  | cons a as ih =>
    cases bs with
    | nil => cases hab
    | cons b bs =>
      cases cs with
      | nil => cases hbc
      | cons c cs =>
        simp only [lexLe] at hab hbc ⊢
        -- The first entries decide unless all three are the same.
        by_cases hac : a = c
        · subst hac
          rw [if_pos rfl]
          by_cases e : a = b
          · subst e
            rw [if_pos rfl] at hab hbc
            exact ih hab hbc
          · rw [if_neg e] at hab
            rw [if_neg (Ne.symm e), h.asymm hab] at hbc
            cases hbc
        · rw [if_neg hac]
          by_cases e : a = b
          · subst e
            rwa [if_neg hac] at hbc
          · rw [if_neg e] at hab
            by_cases e' : b = c
            · exact e' ▸ hab
            · rw [if_neg e'] at hbc
              exact h.trans hab hbc

/-- The lists that come strictly before others are in one order too. -/
theorem isStrict_lexLe : IsStrict fun as bs : List α => as != bs && lexLe before as bs where
  irrefl as := by simp
  trans {as bs cs} hab hbc := by
    simp only [Bool.and_eq_true, bne_iff_ne, ne_eq] at hab hbc ⊢
    refine ⟨?_, lexLe_trans h hab.2 hbc.2⟩
    rintro rfl
    exact hab.1 (lexLe_antisymm h hab.2 hbc.2)
  total {as bs} hne := by
    simpa [hne, Ne.symm hne] using lexLe_total h as bs

end LexLe

namespace Path

theorem isStrict_lt : IsStrict fun c d : Char => decide (c < d) where
  irrefl c := by simp
  trans hab hbc := by
    simp only [decide_eq_true_eq] at *
    exact Char.lt_trans hab hbc
  total {c d} hne := by
    simp only [decide_eq_true_eq]
    by_cases h : c < d
    · exact .inl h
    · right
      rw [Char.not_lt] at h
      exact Char.not_le.1 fun h' => hne (Char.le_antisymm h' h)

theorem Component.isStrict_before : IsStrict Component.before where
  irrefl a := by
    cases a with
    | name n => exact (isStrict_lexLe isStrict_lt).irrefl n
    | root | here | up => rfl
  trans {a b c} hab hbc := by
    cases a <;> cases b <;> cases c <;>
      first
        | rfl
        | exact (isStrict_lexLe isStrict_lt).trans hab hbc
        | simp [before] at hab hbc
  total {a b} hne := by
    cases a <;> cases b <;>
      first
        | exact (isStrict_lexLe isStrict_lt).total fun e => hne (congrArg _ e)
        | simp [before] at hne ⊢

theorem le_trans {p q r : Path} (hpq : p.le q = true) (hqr : q.le r = true) : p.le r = true :=
  lexLe_trans Component.isStrict_before hpq hqr

theorem le_total (p q : Path) : p.le q = true ∨ q.le p = true :=
  lexLe_total Component.isStrict_before _ _

theorem le_refl (p : Path) : p.le p = true := (or_self_iff).1 (le_total p p)

theorem components_eq_of_le {p q : Path} (hpq : p.le q = true) (hqp : q.le p = true) :
    p.components = q.components :=
  lexLe_antisymm Component.isStrict_before hpq hqp

theorem pairwise_sort (paths : List Path) : (sort paths).Pairwise fun p q => p.le q = true := by
  refine @List.pairwise_mergeSort _ le (fun _ _ _ => le_trans) (fun p q => ?_) paths
  rw [Bool.or_eq_true]
  exact le_total p q

/-- **Sorting forgets the order**, where different paths have different components. -/
theorem sort_eq_of_perm {ps qs : List Path} (h : ps.Perm qs)
    (hinj : ∀ p ∈ ps, ∀ q ∈ ps, p.components = q.components → p = q) : sort ps = sort qs := by
  have hperm : (sort ps).Perm (sort qs) :=
    (List.mergeSort_perm ps le).trans (h.trans (List.mergeSort_perm qs le).symm)
  refine hperm.eq_of_pairwise (fun p q hp hq hpq hqp => ?_) (pairwise_sort ps) (pairwise_sort qs)
  exact hinj p (mem_sort.1 hp) q (h.mem_iff.2 (mem_sort.1 hq)) (components_eq_of_le hpq hqp)

/-- **The first wanted path is the least one**, where paths are listed in order and each once. -/
theorem find?_eq_some_iff_least {paths : List Path} {wanted : Path → Bool}
    (h : paths.Pairwise fun p q => p.le q = true ∧ p.components ≠ q.components) (p : Path) :
    paths.find? wanted = some p ↔
      p ∈ paths ∧ wanted p = true ∧ ∀ q ∈ paths, wanted q = true → p.le q = true := by
  have hleast {p : Path} (hp : paths.find? wanted = some p) :
      p ∈ paths ∧ wanted p = true ∧ ∀ q ∈ paths, wanted q = true → p.le q = true := by
    refine ⟨List.mem_of_find?_eq_some hp, List.find?_some hp, ?_⟩
    intro q hq hwanted
    obtain ⟨-, before, behind, rfl, hbefore⟩ := List.find?_eq_some_iff_append.1 hp
    rcases List.mem_append.1 hq with hq | hq
    · have hnot := hbefore q hq
      rw [hwanted] at hnot
      cases hnot
    · rcases List.mem_cons.1 hq with rfl | hq
      · exact le_refl q
      · have hbehind := (List.pairwise_append.1 h).2.1
        exact ((List.pairwise_cons.1 hbehind).1 q hq).1
  refine ⟨hleast, ?_⟩
  intro hp
  obtain ⟨hmem, hwanted, hle⟩ := hp
  obtain ⟨q, hq⟩ := Option.isSome_iff_exists.1 (List.find?_isSome.2 ⟨p, hmem, hwanted⟩)
  obtain ⟨hmem', hwanted', hle'⟩ := hleast hq
  have hdistinct : (paths.map components).Nodup := List.pairwise_map.2 (h.imp fun e => e.2)
  have hsame := components_eq_of_le (hle' p hmem hwanted) (hle q hmem' hwanted')
  rw [hq, List.inj_on_of_nodup_map hdistinct hmem' hmem hsame]

end Path
end StatusBadges
