import StatusBadges.CommandLine.Run
import StatusBadges.Proofs.Coverage.Cache

/-!
# The program without a subcommand

The words in front of a subcommand are read as if it were not there (`readLevel_append_generate`),
and making badges without options configures what the standard configuration does, but for the
environment: only behind the subcommand is the variable for the compiler cache looked at, and that
for the root looked at once more. So the program does the same without the subcommand exactly when
the environment suits it (`default_command_iff`).
-/

namespace StatusBadges

open Session

namespace CommandLine

/-! ## Reading the words -/

theorem Reading.awaitsValue_of_settle {r settled : Reading} (h : r.settle = .ok settled) :
    r.awaitsValue = false := by
  obtain ⟨given, pending⟩ := r
  match pending with
  | none => rfl
  | some (_, none) => cases h
  | some (_, some _) => rfl

/-- A word without a dash that no flag waits for may be the subcommand. -/
theorem readLevel_generate {r : Reading} (hr : r.awaitsValue = false) :
    readLevel none r [Subcommand.generate.name] = .ok (r, some (.generate, [])) := by
  obtain ⟨given, pending⟩ := r
  match pending with
  | none => rfl
  | some (_, none) => cases hr
  | some (_, some _) => rfl

/-- **The words in front of a subcommand are read as if it were not there**, unless it would be a
value or stand behind two dashes. -/
theorem readLevel_append_generate {words : List String} (hdash : "--" ∉ words) {r r' : Reading}
    (h : readLevel none r words = .ok (r', none)) (hr : r'.awaitsValue = false) :
    readLevel none r (words ++ [Subcommand.generate.name]) = .ok (r', some (.generate, [])) := by
  fun_induction readLevel none r words with
  | case1 r =>
    cases h
    exact readLevel_generate hr
  | case2 r word rest hword =>
    have e : word = "--" := String.toList_inj.1 hword
    exact absurd (e ▸ List.mem_cons_self) hdash
  | case4 r word rest name hname hword ih =>
    cases hlong : r.readLong none name with
    | error stop =>
      rw [hlong] at h
      cases h
    | ok read =>
      rw [hlong] at h
      simp only [List.cons_append, readLevel, hword, hlong]
      exact ih read (fun hm => hdash (List.mem_cons_of_mem _ hm)) h
  | case5 r word rest c more hc hc' hword ih =>
    cases hshort : r.readShort none (c :: more) with
    | error stop =>
      rw [hshort] at h
      cases h
    | ok read =>
      rw [hshort] at h
      simp only [List.cons_append, readLevel, hword, hshort]
      exact ih read (fun hm => hdash (List.mem_cons_of_mem _ hm)) h
  | case6 r word rest f hpending h₁ h₂ h₃ ih =>
    have hrest := ih (fun hm => hdash (List.mem_cons_of_mem _ hm)) h
    rw [List.cons_append, readLevel]
    · simp only [hpending]
      exact hrest
  -- What ends the reading was no success without a subcommand.
  | _ => cases h

theorem read_append_generate {words : List String} {before : Given}
    (hw : Words.read words = .ok ⟨before, none⟩) (hdash : "--" ∉ words) :
    Words.read (words ++ [Subcommand.generate.name]) = .ok ⟨before, some (.generate, [])⟩ := by
  simp only [Words.read, bind, Except.bind] at hw ⊢
  split at hw
  · cases hw
  · next hread =>
    split at hw
    · next first =>
      split at hw
      · cases hw
      · next settled hsettle =>
        cases hw
        rw [readLevel_append_generate hdash hread (Reading.awaitsValue_of_settle hsettle)]
        simp only [hsettle, readLevel]
        rfl
    · -- A subcommand was read.
      split at hw
      · cases hw
      · split at hw
        · cases hw
        · split at hw <;> cases hw

/-! ## Requests -/

theorem misleads_iff (e : Environment) (level : Level) (given : Given) :
    e.misleads level given = true ↔
      ∃ f ∈ Flag.ofLevel level, f.operand = .path ∧ given.lookup f = none ∧
        e.value? f = some "" := by
  simp only [Environment.misleads, List.any_eq_true, Bool.and_eq_true, decide_eq_true_eq,
    Option.isNone_iff_eq_none, and_assoc]

theorem misleads_none_iff (e : Environment) (before : Given) :
    e.misleads none before = true ↔ before.lookup .root = none ∧ e.root = some "" := by
  rw [misleads_iff]
  simp [Flag.ofLevel, Flag.everywhere, Flag.operand, Environment.value?,
    -List.lookup_eq_none_iff]

theorem misleads_generate_iff (e : Environment) :
    e.misleads (some .generate) [] = true ↔ e.root = some "" ∨ e.nimCache = some "" := by
  rw [misleads_iff]
  simp [Flag.ofLevel, Flag.everywhere, Flag.configuring, Flag.operand, Environment.value?]

/-- The configuration without a subcommand. -/
def standardOf (e : Environment) (before : Given) : Config :=
  .standard e.home (rootOf e before [])

/-- The configuration behind the subcommand, without options. -/
def generateOf (e : Environment) (before : Given) : Config :=
  { standardOf e before with
    nimCache := (e.nimCache.map .ofString).getD (Config.defaultNimCache e.home) }

/-- Behind the subcommand the environment asks for what it asks for without: it stops the program
with and without the subcommand, or not at all, and then a compiler cache that it names is as good
as that of the home directory. -/
def Environment.Suits (e : Environment) (before : Given) (good : Path → Prop) : Prop :=
  before.lookup .root = none ∧ e.root = some "" ∨
    e.root ≠ some "" ∧ ∀ cache, e.nimCache = some cache → cache ≠ "" ∧ good (.ofString cache)

section Requests

variable {e : Environment} {words : List String} {before : Given}

theorem read_default (hw : Words.read words = .ok ⟨before, none⟩) :
    Request.read e words =
      if e.misleads none before then .error .misuse
      else .ok (.generate (standardOf e before) .text) := by
  simp only [Request.read, hw, bind, Except.bind, Bool.or_false]
  rfl

theorem read_generate (hw : Words.read words = .ok ⟨before, none⟩) (hdash : "--" ∉ words) :
    Request.read e (words ++ [Subcommand.generate.name]) =
      if e.misleads none before || e.misleads (some .generate) [] then .error .misuse
      else .ok (.generate (generateOf e before) .text) := by
  simp only [Request.read, read_append_generate hw hdash, bind, Except.bind]
  rfl

theorem suits_iff (good : Path → Prop) (hdefault : good (Config.defaultNimCache e.home)) :
    e.Suits before good ↔ e.misleads none before = true ∨
      e.misleads (some .generate) [] = false ∧ good (generateOf e before).nimCache := by
  rw [Environment.Suits, misleads_none_iff, ← Bool.not_eq_true, misleads_generate_iff]
  cases h : e.nimCache <;> simp [generateOf, h, hdefault, and_assoc]

/-- The requests are equal when the compiler caches are. -/
theorem read_generate_eq_iff (hw : Words.read words = .ok ⟨before, none⟩) (hdash : "--" ∉ words) :
    Request.read e (words ++ [Subcommand.generate.name]) = Request.read e words ↔
      e.Suits before (· = Config.defaultNimCache e.home) := by
  rw [read_default hw, read_generate hw hdash, suits_iff (· = Config.defaultNimCache e.home) rfl]
  cases e.misleads none before with
  | true => simp
  | false =>
    cases e.misleads (some .generate) [] with
    | true => simp
    | false => simp [generateOf, standardOf, Config.standard]

end Requests

/-! ## Runs -/

/-- A machine without files on which nothing has been done. -/
def blankSession : Session := ⟨⟨.empty, []⟩, []⟩

theorem session_generate (tools : Toolbox) (c : Config) (format : Format) (s : Session) :
    ((generate tools c format).run s).2 = ((Pipeline.run tools c).run s).2 := by
  unfold generate
  rw [run_bind]
  cases ((Pipeline.run tools c).run s).1 with
  | error failure => rfl
  | ok summary => cases format <;> rfl

theorem code_generate_ne (tools : Toolbox) (c : Config) (format : Format) (s : Session) :
    ((generate tools c format).run s).1.code ≠ Outcome.misuseCode := by
  unfold generate
  rw [run_bind]
  cases ((Pipeline.run tools c).run s).1 with
  | error failure => exact (by decide : Outcome.failureCode ≠ Outcome.misuseCode)
  | ok summary => cases format <;> exact (by decide : 0 ≠ Outcome.misuseCode)

/-- Badges are made in the same way, with all tools and from all sessions, exactly when the compiler
cache is in the same place. -/
theorem generate_eq_iff (c : Config) (cache : Path) (format : Format) :
    (∀ tools, generate tools { c with nimCache := cache } format = generate tools c format) ↔
      c.resolve cache = c.nimCachePath := by
  constructor
  · intro h
    have hs := congrArg (fun x => (x.run blankSession).2.issued) (h Toolbox.silent)
    simp only [session_generate] at hs
    have hlocate (d : Disk) : (Toolbox.silent.locate d "lcov").isSome = true := rfl
    rw [← Pipeline.captureCommand_mem_issued_iff c hlocate (s := blankSession) rfl, ← hs]
    exact (Pipeline.captureCommand_mem_issued_iff _ hlocate rfl _).2 rfl
  · intro h tools
    unfold generate
    rw [Pipeline.run_congr_cache tools h]

/-- **The program without a subcommand is the program with the subcommand for making badges exactly
where the environment suits it.** For the request to be the same, a compiler cache that the
environment names has to be the default one; for the runs to be the same, with all tools and from
all sessions, it has to be in the same place. -/
theorem default_command_iff {e : Environment} {words : List String} {before : Given}
    (hw : Words.read words = .ok ⟨before, none⟩) (hdash : "--" ∉ words) :
    (Request.read e (words ++ [Subcommand.generate.name]) = Request.read e words ↔
      e.Suits before (· = Config.defaultNimCache e.home)) ∧
    ((∀ tools, run tools e (words ++ [Subcommand.generate.name]) = run tools e words) ↔
      e.Suits before fun cache =>
        (standardOf e before).resolve cache = (standardOf e before).nimCachePath) := by
  refine ⟨read_generate_eq_iff hw hdash, ?_⟩
  simp only [run, read_default hw, read_generate hw hdash]
  rw [suits_iff (fun cache =>
    (standardOf e before).resolve cache = (standardOf e before).nimCachePath) rfl]
  cases e.misleads none before with
  | true => simp
  | false =>
    cases e.misleads (some .generate) [] with
    | true =>
      -- Only the program without the subcommand goes on.
      refine iff_of_false (fun h => ?_) (by simp)
      have hrun : pure Stop.misuse.outcome =
          generate Toolbox.silent (standardOf e before) .text := h Toolbox.silent
      apply code_generate_ne Toolbox.silent (standardOf e before) .text blankSession
      rw [← hrun]
      rfl
    | false =>
      simp only [Bool.or_self, Bool.false_eq_true, if_false, false_or, true_and, perform]
      exact generate_eq_iff (standardOf e before) _ .text

/-- The environment of a user without a home directory and with a compiler cache. -/
def cacheEnvironment : Environment := ⟨none, none, some "/cache"⟩

/-- The condition for a project whose root is given in front of the subcommand. -/
theorem default_command_root :
    Words.read ["--root", "proj"] = .ok ⟨[(.root, "proj")], none⟩ ∧ "--" ∉ ["--root", "proj"] ∧
      ((Request.read cacheEnvironment ["--root", "proj", "generate"] =
          Request.read cacheEnvironment ["--root", "proj"] ↔
        cacheEnvironment.Suits [(.root, "proj")] (· = Config.defaultNimCache none)) ∧
      ((∀ tools, run tools cacheEnvironment ["--root", "proj", "generate"] =
          run tools cacheEnvironment ["--root", "proj"]) ↔
        cacheEnvironment.Suits [(.root, "proj")] fun cache =>
          (standardOf cacheEnvironment [(.root, "proj")]).resolve cache =
            (standardOf cacheEnvironment [(.root, "proj")]).nimCachePath)) :=
  have hdash : "--" ∉ ["--root", "proj"] := by decide
  ⟨rfl, hdash, default_command_iff rfl hdash⟩

/-- A compiler cache that the environment names is looked at only behind the subcommand, so that
other counters are captured without it. -/
theorem default_command_ignores_cache :
    Request.read cacheEnvironment [] = .ok (.generate (standardOf cacheEnvironment []) .text) ∧
      Request.read cacheEnvironment ["generate"] =
        .ok (.generate
          { standardOf cacheEnvironment [] with nimCache := .ofString "/cache" } .text) ∧
      ∃ tools, run tools cacheEnvironment ["generate"] ≠ run tools cacheEnvironment [] := by
  have hdefault : Request.read cacheEnvironment [] =
      .ok (.generate (standardOf cacheEnvironment []) .text) := rfl
  have hgenerate : Request.read cacheEnvironment ["generate"] =
      .ok (.generate
        { standardOf cacheEnvironment [] with nimCache := .ofString "/cache" } .text) := rfl
  refine ⟨hdefault, hgenerate, ?_⟩
  have hcache : (standardOf cacheEnvironment []).resolve (.ofString "/cache") ≠
      (standardOf cacheEnvironment []).nimCachePath := by decide
  obtain ⟨tools, htools⟩ := Classical.not_forall.1 (mt (generate_eq_iff _ _ .text).1 hcache)
  refine ⟨tools, ?_⟩
  simpa only [run, hdefault, hgenerate, perform] using htools

end CommandLine
end StatusBadges
