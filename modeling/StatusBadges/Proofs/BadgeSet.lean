import Mathlib.Data.List.TakeWhile
import StatusBadges.Pipeline
import StatusBadges.Proofs.Badge

/-!
# What a set of badges says

All tests of a run share one outcome, so that test results are known by their status and their total
(`aggregate_eq_shared`). The message of a badge says the total and its colour the status. Together
with the texts of the other badges this tells what a set of badges was made from: the version, the
build status and the test results, and how the coverage is shown (`of_eq_of_iff`).
-/

namespace StatusBadges

/-! ## What is shown -/

theorem BuildStatus.text_injective : Function.Injective BuildStatus.text := by
  intro a b h
  cases a <;> cases b <;> simp [text] at h ⊢

theorem BuildStatus.dash_notMem_color (status : BuildStatus) : '-' ∉ status.color.toList := by
  cases status <;> decide

theorem TestStatus.color_injective : Function.Injective TestStatus.color := by
  intro a b h
  cases a <;> cases b <;> simp [color] at h ⊢

theorem TestStatus.dash_notMem_color (status : TestStatus) : '-' ∉ status.color.toList := by
  cases status <;> decide

theorem Coverage.dash_notMem_color (c : Coverage) : '-' ∉ c.color.toList := by
  unfold color percentColor
  split
  · decide
  split <;> decide

/-! ## Test results -/

namespace TestResults

/-- The results of a run in which all tests share one outcome. -/
def shared (status : TestStatus) (blocks : Nat) : TestResults :=
  match status with
  | .noTests => none .noTests
  | .passing => ⟨.passing, blocks, 0, blocks, blocks⟩
  | .failing => ⟨.failing, 0, blocks, blocks, blocks⟩

theorem aggregate_eq_shared (code : Int) (outcomes : TestSuite.Outcomes) (blocks : Nat) :
    aggregate code outcomes blocks =
      shared (aggregate code outcomes blocks).status (aggregate code outcomes blocks).total := by
  unfold aggregate
  split
  · rfl
  split
  · rfl
  split <;> rfl

theorem takeWhile_isDigit_numeral (n : Nat) (rest : List Char) :
    (Text.numeral n ++ ' ' :: rest).takeWhile Char.isDigit = Text.numeral n := by
  rw [List.takeWhile_append_of_pos fun c => Text.isDigit_of_mem_numeral]
  exact List.append_nil _

/-- The message says the total. -/
theorem total_eq_of_message (r : TestResults) :
    Text.numeralValue (r.message.toList.takeWhile Char.isDigit) = r.total := by
  by_cases hzero : r.total = 0
  · rw [message, if_pos hzero, hzero]
    decide
  · obtain ⟨rest, hrest⟩ : ∃ rest, r.message.toList = Text.numeral r.total ++ ' ' :: rest := by
      rw [message, if_neg hzero]
      cases r.status <;> simp
    rw [hrest, takeWhile_isDigit_numeral, Text.numeralValue_numeral]

theorem aggregate_eq_of_shown {code code' : Int} {outcomes outcomes' : TestSuite.Outcomes}
    {blocks blocks' : Nat} (hmessage : (aggregate code outcomes blocks).message =
      (aggregate code' outcomes' blocks').message)
    (hcolor : (aggregate code outcomes blocks).status.color =
      (aggregate code' outcomes' blocks').status.color) :
    aggregate code outcomes blocks = aggregate code' outcomes' blocks' := by
  have htotal := total_eq_of_message (aggregate code outcomes blocks)
  rw [hmessage, total_eq_of_message] at htotal
  rw [aggregate_eq_shared code, aggregate_eq_shared code', htotal,
    TestStatus.color_injective hcolor]

end TestResults

/-! ## Badges -/

namespace BadgeSet

/-- **A set of badges tells what it was made from**, but of the coverage only what is shown. -/
theorem of_eq_of_iff {version version' : String} {build build' : BuildStatus} {code code' : Int}
    {outcomes outcomes' : TestSuite.Outcomes} {blocks blocks' : Nat} {c c' : Coverage} :
    BadgeSet.of version build (.aggregate code outcomes blocks) c =
        .of version' build' (.aggregate code' outcomes' blocks') c' ↔
      version = version' ∧ build = build' ∧
        TestResults.aggregate code outcomes blocks = .aggregate code' outcomes' blocks' ∧
        c.message = c'.message ∧ c.color = c'.color := by
  constructor
  · intro h
    obtain ⟨hversion, hbuild, htests, hcoverage⟩ := BadgeSet.mk.inj h
    obtain ⟨-, hversion, -⟩ := Badge.eq_of_url_eq (by decide) (by decide) (by decide) (by decide)
      hversion
    obtain ⟨-, hbuild, -⟩ := Badge.eq_of_url_eq (by decide) (by decide) build.dash_notMem_color
      build'.dash_notMem_color hbuild
    obtain ⟨-, hmessage, hcolor⟩ := Badge.eq_of_url_eq (by decide) (by decide)
      (TestStatus.dash_notMem_color _) (TestStatus.dash_notMem_color _) htests
    obtain ⟨-, hshown, hshade⟩ := Badge.eq_of_url_eq (by decide) (by decide)
      c.dash_notMem_color c'.dash_notMem_color hcoverage
    refine ⟨?_, BuildStatus.text_injective hbuild,
      TestResults.aggregate_eq_of_shown hmessage hcolor, hshown, hshade⟩
    have hchars := congrArg String.toList hversion
    rw [String.toList_append, String.toList_append] at hchars
    exact String.toList_inj.1 (List.append_cancel_left hchars)
  · intro h
    obtain ⟨rfl, rfl, htests, hmessage, hcolor⟩ := h
    rw [BadgeSet.of, BadgeSet.of, htests, hmessage, hcolor]

end BadgeSet
end StatusBadges
