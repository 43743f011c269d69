import StatusBadges.Command.Session
import StatusBadges.Proofs.Storage.Growth

/-!
# What happens in a run

A history lists what happens between two sessions: changes of the files that the program makes, and
commands that it issues, each with the state in which it happens. `Performs` says of a step that it
always has a history of allowed events. It is proved along the step, one law for each way to make
steps (`Performs.bind`, `performs_issue`, `performs_change`).
-/

namespace StatusBadges

/-- Something that happens in a run. -/
inductive Event where
  /-- The program makes a tree of the files on a disk. -/
  | change (disk : Disk) (tree : Tree)
  /-- A command is issued in a session. -/
  | call (session : Session) (command : Command)

/-- The command of an event that is a call. -/
def Event.command? : Event → Option Command
  | .change _ _ => none
  | .call _ c => some c

namespace Disk

/-- The program made one disk of another by trees that are allowed, one after another. -/
inductive Edits (allowed : Disk → Tree → Prop) : Disk → Disk → Prop
  | refl (d : Disk) : Edits allowed d d
  | step {d d' : Disk} (t : Tree) (h : allowed d t) (rest : Edits allowed (d.withTree t) d') :
      Edits allowed d d'

namespace Edits

theorem single {allowed : Disk → Tree → Prop} {d : Disk} {t : Tree} (h : allowed d t) :
    Edits allowed d (d.withTree t) :=
  .step t h (.refl _)

theorem mono {allowed more : Disk → Tree → Prop} (hm : ∀ d t, allowed d t → more d t)
    {d d' : Disk} (h : Edits allowed d d') : Edits more d d' := by
  induction h with
  | refl d => exact .refl d
  | step t ht _ ih => exact .step t (hm _ _ ht) ih

end Edits

end Disk

namespace Session

/-- The session after a command. -/
def after (tools : Toolbox) (s : Session) (c : Command) : Session := ((issue tools c).run s).2

/-- What a command answers. -/
def answer (tools : Toolbox) (s : Session) (c : Command) : Except Failure Output :=
  ((issue tools c).run s).1

theorem run_bind {α β : Type} (x : Step α) (k : α → Step β) (s : Session) :
    (x >>= k).run s = (k (x.run s).1).run (x.run s).2 :=
  rfl

theorem run_issue_bind {α : Type} (tools : Toolbox) (c : Command)
    (k : Except Failure Output → Step α) (s : Session) :
    (issue tools c >>= k).run s = (k (s.answer tools c)).run (s.after tools c) :=
  rfl

theorem run_ask_bind {α β : Type} (question : Disk → α) (k : α → Step β) (s : Session) :
    (ask question >>= k).run s = (k (question s.disk)).run s :=
  rfl

theorem run_change_bind {α β : Type} (f : Disk → α × Disk) (k : α → Step β) (s : Session) :
    (change f >>= k).run s = (k (f s.disk).1).run { s with disk := (f s.disk).2 } :=
  rfl

theorem issued_after (tools : Toolbox) (s : Session) (c : Command) :
    (s.after tools c).issued = s.issued ++ [c] :=
  rfl

theorem settled_after {tools : Toolbox} {s : Session} (h : s.disk.Settled) (c : Command) :
    (s.after tools c).disk.Settled :=
  h.through _

/-! ## Histories -/

/-- The events lead from one session to another. -/
inductive History (tools : Toolbox) : Session → List Event → Session → Prop
  | nil (s : Session) : History tools s [] s
  | change {s s' : Session} {events : List Event} (t : Tree)
      (rest : History tools { s with disk := s.disk.withTree t } events s') :
      History tools s (.change s.disk t :: events) s'
  | call {s s' : Session} {events : List Event} (c : Command)
      (rest : History tools (s.after tools c) events s') :
      History tools s (.call s c :: events) s'

namespace History

variable {tools : Toolbox} {s s' s'' : Session} {events more : List Event}

theorem append (h : History tools s events s') (h' : History tools s' more s'') :
    History tools s (events ++ more) s'' := by
  induction h with
  | nil s => exact h'
  | change t _ ih => exact .change t (ih h')
  | call c _ ih => exact .call c (ih h')

/-- The commands of a history are those that the session notes. -/
theorem issued_eq (h : History tools s events s') :
    s'.issued = s.issued ++ events.filterMap Event.command? := by
  induction h with
  | nil s => simp
  | change t _ ih => exact ih
  | call c _ ih => rw [ih, issued_after, List.append_assoc]; rfl

theorem commands_eq (h : History tools s events s') {commands : List Command}
    (hissued : s'.issued = s.issued ++ commands) : events.filterMap Event.command? = commands := by
  rw [h.issued_eq] at hissued
  exact List.append_cancel_left hissued

theorem settled (h : History tools s events s') (hs : s.disk.Settled) : s'.disk.Settled := by
  induction h with
  | nil s => exact hs
  | change t _ ih => exact ih (Disk.settled_withTree _ t)
  | call c _ ih => exact ih (settled_after hs c)

theorem of_edits (tools : Toolbox) {allowed : Disk → Tree → Prop} {d d' : Disk}
    (h : Disk.Edits allowed d d') (issued : List Command) :
    ∃ events, History tools ⟨d, issued⟩ events ⟨d', issued⟩ ∧
      ∀ e ∈ events, ∃ d t, e = .change d t ∧ allowed d t := by
  induction h with
  | refl d => exact ⟨[], .nil _, by simp⟩
  | @step d d' t ht _ ih =>
    obtain ⟨events, hh, he⟩ := ih
    refine ⟨.change d t :: events, .change t hh, ?_⟩
    intro e hmem
    rcases List.mem_cons.1 hmem with rfl | hmem
    · exact ⟨d, t, rfl, ht⟩
    · exact he e hmem

end History

/-! ## Steps -/

/-- A step always has a history of allowed events. -/
def Performs {α : Type} (tools : Toolbox) (allowed : Event → Prop) (x : Step α) : Prop :=
  ∀ s, ∃ events, History tools s events (x.run s).2 ∧ ∀ e ∈ events, allowed e

section Performs

variable {α β : Type} {tools : Toolbox} {allowed : Event → Prop}

theorem performs_pure (a : α) : Performs tools allowed (pure a) :=
  fun s => ⟨[], .nil s, by simp⟩

theorem performs_ask (question : Disk → α) : Performs tools allowed (ask question) :=
  fun s => ⟨[], .nil s, by simp⟩

theorem performs_issue {c : Command} (h : ∀ s, allowed (.call s c)) :
    Performs tools allowed (issue tools c) := by
  intro s
  refine ⟨[.call s c], .call c (.nil _), ?_⟩
  intro e he
  rw [List.mem_singleton.1 he]
  exact h s

theorem performs_change {f : Disk → α × Disk}
    (h : ∀ d, Disk.Edits (fun d t => allowed (.change d t)) d (f d).2) :
    Performs tools allowed (change f) := by
  intro s
  obtain ⟨events, hh, he⟩ := History.of_edits tools (h s.disk) s.issued
  refine ⟨events, hh, ?_⟩
  intro e hmem
  obtain ⟨d, t, rfl, ht⟩ := he e hmem
  exact ht

namespace Performs

theorem bind {x : Step α} {f : α → Step β} (hx : Performs tools allowed x)
    (hf : ∀ a, Performs tools allowed (f a)) : Performs tools allowed (x >>= f) := by
  intro s
  obtain ⟨events, hh, he⟩ := hx s
  obtain ⟨more, hh', he'⟩ := hf (x.run s).1 (x.run s).2
  refine ⟨events ++ more, hh.append hh', ?_⟩
  intro e hmem
  rcases List.mem_append.1 hmem with h | h
  · exact he e h
  · exact he' e h

/-- What is asked may be used to show that the events behind the question are allowed. -/
theorem ask_bind {question : Disk → α} {f : α → Step β}
    (h : ∀ d, Performs tools allowed (f (question d))) :
    Performs tools allowed (ask question >>= f) :=
  fun s => h s.disk s

end Performs
end Performs

/-! ## Issued commands -/

/-- A step issues allowed commands only. -/
def Issues {α : Type} (allowed : Command → Prop) (x : Step α) : Prop :=
  ∀ s, ∃ more, (x.run s).2.issued = s.issued ++ more ∧ ∀ c ∈ more, allowed c

section Issues

variable {α β : Type} {allowed : Command → Prop}

theorem issues_pure (a : α) : Issues allowed (pure a) :=
  fun s => ⟨[], (List.append_nil _).symm, by simp⟩

theorem issues_ask (question : Disk → α) : Issues allowed (ask question) :=
  fun s => ⟨[], (List.append_nil _).symm, by simp⟩

theorem issues_change (f : Disk → α × Disk) : Issues allowed (change f) :=
  fun s => ⟨[], (List.append_nil _).symm, by simp⟩

theorem issues_issue (tools : Toolbox) {c : Command} (h : allowed c) :
    Issues allowed (issue tools c) :=
  fun s => ⟨[c], issued_after tools s c, by simpa using h⟩

theorem Issues.bind {x : Step α} {f : α → Step β} (hx : Issues allowed x)
    (hf : ∀ a, Issues allowed (f a)) : Issues allowed (x >>= f) := by
  intro s
  obtain ⟨more, hmore, hc⟩ := hx s
  obtain ⟨rest, hrest, hc'⟩ := hf (x.run s).1 (x.run s).2
  refine ⟨more ++ rest, ?_, List.forall_mem_append.2 ⟨hc, hc'⟩⟩
  rw [run_bind, hrest, hmore, List.append_assoc]

/-- A command that was issued stays noted. -/
theorem Issues.mem_bind {x : Step α} {f : α → Step β} (hf : ∀ a, Issues allowed (f a))
    {s : Session} {c : Command} (h : c ∈ (x.run s).2.issued) :
    c ∈ ((x >>= f).run s).2.issued := by
  obtain ⟨rest, hrest, -⟩ := hf (x.run s).1 (x.run s).2
  rw [run_bind, hrest]
  exact List.mem_append_left _ h

end Issues
end Session

/-- A machine on which every program is found and none can be started. -/
def Toolbox.silent : Toolbox where
  locate _ program := some (.ofString program)
  run _ _ _ := (.error .notFound, [])
  localTime := ""

end StatusBadges
