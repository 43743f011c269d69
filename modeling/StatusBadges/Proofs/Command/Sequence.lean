import StatusBadges.Proofs.Command.History

/-!
# Commands one after another

What a path leads to after some commands was there before them, or one of them put it there
(`seen_or_puts`). The program's own changes have no part in this: it is about commands between which
the program leaves the files alone.
-/

namespace StatusBadges

namespace Disk

/-- A node is put where a path leads when one of the trees has it there and the one before has
not. -/
def Puts (d : Disk) (trees : List Tree) (p : Path) (n : Node) : Prop :=
  ∃ before t behind, trees = before ++ t :: behind ∧ (d.through before).node? p ≠ some n ∧
    ((d.through before).withTree t).node? p = some n

theorem seen_or_puts_of_through {d : Disk} {trees : List Tree} {p : Path} {n : Node}
    (h : (d.through trees).node? p = some n) : d.node? p = some n ∨ d.Puts trees p n := by
  induction trees generalizing d with
  | nil => exact .inl h
  | cons t rest ih =>
    by_cases hd : d.node? p = some n
    · exact .inl hd
    · right
      rcases ih h with ht | ⟨before, u, behind, rfl, hno, hyes⟩
      · exact ⟨[], t, rest, rfl, hd, ht⟩
      · exact ⟨t :: before, u, behind, rfl, hno, hyes⟩

end Disk

namespace Session

/-- The commands that a step issues. -/
def issuedBy {α : Type} (x : Step α) (s : Session) : List Command :=
  (x.run s).2.issued.drop s.issued.length

/-- The session after commands that were issued one after another. -/
def afterAll (tools : Toolbox) (s : Session) (commands : List Command) : Session :=
  commands.foldl (after tools) s

/-- One of the commands, issued one after another, puts a node where a path leads. -/
def Puts (tools : Toolbox) (s : Session) (commands : List Command) (p : Path) (n : Node) : Prop :=
  ∃ before command behind, commands = before ++ command :: behind ∧
    (s.afterAll tools before).disk.Puts
      (tools.run (s.afterAll tools before).issued (s.afterAll tools before).disk command).2 p n

section AfterAll

variable (tools : Toolbox) (s : Session)

@[simp] theorem afterAll_nil : s.afterAll tools [] = s := rfl

@[simp] theorem afterAll_cons (c : Command) (commands : List Command) :
    s.afterAll tools (c :: commands) = (s.after tools c).afterAll tools commands :=
  rfl

theorem afterAll_append (first rest : List Command) :
    s.afterAll tools (first ++ rest) = (s.afterAll tools first).afterAll tools rest :=
  List.foldl_append

theorem issued_afterAll (commands : List Command) :
    (s.afterAll tools commands).issued = s.issued ++ commands := by
  induction commands generalizing s with
  | nil => simp
  | cons c rest ih => rw [afterAll_cons, ih, issued_after, List.append_assoc, List.singleton_append]

theorem disk_after (c : Command) :
    (s.after tools c).disk = s.disk.through (tools.run s.issued s.disk c).2 :=
  rfl

variable {tools s}

/-- **What a path leads to after commands** was there before them, or one of them put it there. -/
theorem seen_or_puts {commands : List Command} {p : Path} {n : Node}
    (h : (s.afterAll tools commands).disk.node? p = some n) :
    s.disk.node? p = some n ∨ s.Puts tools commands p n := by
  induction commands generalizing s with
  | nil => exact .inl h
  | cons c rest ih =>
    rcases ih h with hafter | ⟨before, command, behind, rfl, hputs⟩
    · rw [disk_after] at hafter
      rcases Disk.seen_or_puts_of_through hafter with hbefore | hputs
      · exact .inl hbefore
      · exact .inr ⟨[], c, rest, rfl, hputs⟩
    · exact .inr ⟨c :: before, command, behind, rfl, hputs⟩

end AfterAll

end Session

/-! ## Programs that leave the files alone -/

/-- No command makes another tree of the files. -/
def Toolbox.Passive (tools : Toolbox) : Prop :=
  ∀ issued d command, ∀ t ∈ (tools.run issued d command).2, t = d.tree

namespace Disk

theorem Settled.through_eq {d : Disk} (h : d.Settled) {trees : List Tree}
    (hsame : ∀ t ∈ trees, t = d.tree) : d.through trees = d := by
  induction trees with
  | nil => rfl
  | cons t rest ih =>
    obtain ⟨rfl, hrest⟩ := List.forall_mem_cons.1 hsame
    have hfirst : d.withTree d.tree = d := h.withTree_eq (.refl _)
    change (d.withTree d.tree).through rest = d
    rw [hfirst, ih hrest]

end Disk

namespace Toolbox.Passive

variable {tools : Toolbox} (h : tools.Passive) {s : Session} (hs : s.disk.Settled)
include h hs

theorem disk_after (c : Command) : (s.after tools c).disk = s.disk :=
  hs.through_eq (h s.issued s.disk c)

theorem disk_afterAll (commands : List Command) : (s.afterAll tools commands).disk = s.disk := by
  induction commands generalizing s with
  | nil => rfl
  | cons c rest ih =>
    have hfirst := h.disk_after hs c
    rw [Session.afterAll_cons, ih (hfirst ▸ hs), hfirst]

theorem not_puts (commands : List Command) (p : Path) (n : Node) : ¬ s.Puts tools commands p n := by
  rintro ⟨before, command, behind, -, first, t, rest, htrees, hno, hyes⟩
  have hsettled : (s.afterAll tools before).disk.Settled := h.disk_afterAll hs before ▸ hs
  have hsame : ∀ u ∈ first ++ t :: rest, u = (s.afterAll tools before).disk.tree :=
    htrees ▸ h _ _ command
  have hfirst := hsettled.through_eq fun u hu => hsame u (List.mem_append_left _ hu)
  have ht : t = (s.afterAll tools before).disk.tree := hsame t (by simp)
  rw [hfirst] at hno hyes
  rw [ht, hsettled.withTree_eq (.refl _)] at hyes
  exact hno hyes

end Toolbox.Passive
end StatusBadges
