import Mathlib.Data.List.Forall2
import Phrasebook.Proofs.SearchFailures

/-! What a search through a source does to what was found before it. How it ends, and what it knows of declarations
then, does not depend on the keys that were there or on what was told; what becomes of the keys depends on them alone,
and what is told is told behind the rest, in warnings. -/

namespace Phrasebook

namespace Journal

/-- A journal and behind it what another one tells. -/
def followedBy (journal later : Journal) : Journal where
  messages := journal.messages ++ later.messages
  records := journal.records ++ later.records

@[simp] theorem followedBy_empty (journal : Journal) : journal.followedBy {} = journal := by
  simp [followedBy]

theorem followedBy_followedBy (first second third : Journal) :
    (first.followedBy second).followedBy third = first.followedBy (second.followedBy third) := by
  simp [followedBy]

end Journal

namespace Proofs.SearchSteps

open Catalog SearchFailures Syntax

variable {α β : Type}

/-- A key that can be found: it has a text of its own and one for catalogs. -/
def Usable (key : Key) : Prop := Text.isBlankText key.text = false ∧ key.defaultValue.isSome = true

/-- What is done to keys: one that was seen is added, or a hook of a plugin takes its steps. -/
inductive KeyAct where
  | saw (key : Key)
  | hook (steps : List KeyStep)

namespace KeyAct

def run (settings : Settings) (keys : KeyMap) : KeyAct → KeyMap
  | saw key => keys.add key
  | hook steps => (KeyStep.run settings.extraction.defaultNamespace steps keys).1

/-- The keys that are seen are of a kind; the steps are those of a plugin at a node. -/
def Possible (settings : Settings) (kind : Key → Prop) : KeyAct → Prop
  | saw key => Usable key ∧ kind key
  | hook steps => ∃ plugin ∈ settings.plugins, ∃ hook ∈ plugin.visit, steps = hook.steps

end KeyAct

/-- Keys become others by acts that are possible. -/
def ByActs (settings : Settings) (kind : Key → Prop) (change : KeyMap → KeyMap) : Prop :=
  ∃ acts : List KeyAct, (∀ act ∈ acts, act.Possible settings kind) ∧
    change = fun keys => acts.foldl (KeyAct.run settings) keys

namespace ByActs

variable {settings : Settings} {kind other : Key → Prop}

theorem nothing : ByActs settings kind id := ⟨[], List.forall_mem_nil _, rfl⟩

theorem single {act : KeyAct} (possible : act.Possible settings kind) : ByActs settings kind (act.run settings) :=
  ⟨[act], List.forall_mem_singleton.mpr possible, rfl⟩

theorem seen {keys : List Key} (usable : ∀ key ∈ keys, Usable key ∧ kind key) :
    ByActs settings kind fun known => keys.foldl KeyMap.add known := by
  refine ⟨keys.map .saw, List.forall_mem_map.mpr usable, funext fun known => ?_⟩
  rw [List.foldl_map]
  rfl

theorem behind {first second : KeyMap → KeyMap} (one : ByActs settings kind first)
    (two : ByActs settings kind second) : ByActs settings kind fun keys => second (first keys) := by
  obtain ⟨early, possible, rfl⟩ := one
  obtain ⟨late, possibleLate, rfl⟩ := two
  refine ⟨early ++ late, fun act member => ?_, ?_⟩
  · exact (List.mem_append.mp member).elim (possible act) (possibleLate act)
  · simp only [List.foldl_append]

theorem mono {change : KeyMap → KeyMap} (made : ByActs settings kind change)
    (wider : ∀ key, kind key → other key) : ByActs settings other change := by
  obtain ⟨acts, possible, same⟩ := made
  refine ⟨acts, fun act member => ?_, same⟩
  have here := possible act member
  cases act with
  | saw key => exact ⟨here.1, wider key here.2⟩
  | hook steps => exact here

end ByActs

/-- How a step of a search ends, and what is found then. -/
abbrev outcome (step : Search α) (task : Task) (findings : Findings) : Except Failure α × Findings :=
  (step.run task).run.run findings

/-- What a step of a search starts from besides what was found: its task, and what is known of declarations. -/
structure Situation where
  task : Task
  scopes : Scopes
  constants : Constants

namespace Situation

/-- What findings tell a step to start from. -/
def of (task : Task) (findings : Findings) : Situation := ⟨task, findings.scopes, findings.constants⟩

abbrev extraction (situation : Situation) : Extraction := situation.task.settings.extraction

/-- Findings in a situation. -/
def holding (situation : Situation) (keys : KeyMap) (journal : Journal) : Findings where
  keys := keys
  scopes := situation.scopes
  constants := situation.constants
  journal := journal

/-- Findings in a situation in which nothing was found. -/
abbrev start (situation : Situation) : Findings := situation.holding [] {}

/-- The situation behind a step. -/
def after (situation : Situation) (step : Search α) : Situation :=
  .of situation.task (outcome step situation.task situation.start).2

end Situation

/-- In a situation a step gives a value. -/
def Gives (situation : Situation) (step : Search α) (value : α) : Prop :=
  (outcome step situation.task situation.start).1 = .ok value

/-- What a step of a search does: how it ends, what is then known of declarations, and what becomes of keys. -/
structure Effect (α : Type) where
  result : Except Failure α
  scopes : Scopes
  constants : Constants
  keys : KeyMap → KeyMap := id
  told : KeyMap → Journal := fun _ => {}

/-- The findings after an effect on findings that know the same of declarations. -/
def Effect.after (effect : Effect α) (findings : Findings) : Findings where
  keys := effect.keys findings.keys
  scopes := effect.scopes
  constants := effect.constants
  journal := findings.journal.followedBy (effect.told findings.keys)

/-- What a step does, and before it another one. -/
def Effect.behind (second : Effect β) (first : Effect α) : Effect β where
  result := second.result
  scopes := second.scopes
  constants := second.constants
  keys := fun keys => second.keys (first.keys keys)
  told := fun keys => (first.told keys).followedBy (second.told (first.keys keys))

theorem Effect.after_behind (second : Effect β) (first : Effect α) (findings : Findings) :
    (second.behind first).after findings = second.after (first.after findings) := by
  rw [after, after, behind, after, ← Journal.followedBy_followedBy]

theorem Effect.warns_behind {first : Effect α} {second : Effect β}
    (early : ∀ keys, ∀ message ∈ (first.told keys).messages, message.level = .warning)
    (late : ∀ keys, ∀ message ∈ (second.told keys).messages, message.level = .warning) :
    ∀ keys, ∀ message ∈ ((second.behind first).told keys).messages, message.level = .warning := by
  intro keys message member
  rcases List.mem_append.mp member with before | behind
  · exact early keys message before
  · exact late _ message behind

/-- A step has an effect whatever keys were found before and whatever was told, it finds keys of a kind, and it tells
nothing but warnings. -/
structure Does (kind : Key → Prop) (step : Search α) (situation : Situation) (effect : Effect α) : Prop where
  runs : ∀ keys journal, outcome step situation.task (situation.holding keys journal) =
    (effect.result, effect.after (situation.holding keys journal))
  legible : Legible effect.result
  warns : ∀ keys, ∀ message ∈ (effect.told keys).messages, message.level = .warning
  made : ByActs situation.task.settings kind effect.keys

theorem Does.after {kind : Key → Prop} {step : Search α} {situation : Situation} {effect : Effect α}
    (does : Does kind step situation effect) :
    situation.after step = ⟨situation.task, effect.scopes, effect.constants⟩ := by
  rw [Situation.after, does.runs]
  rfl

/-- In a situation the end of a step does not depend on what was found before, and the step finds keys of a kind. -/
def Finds (situation : Situation) (kind : Key → Prop) (step : Search α) : Prop :=
  ∃ effect, Does kind step situation effect

/-- A step whose end never depends on what was found before, and which finds keys of a kind. -/
def Uniform (task : Task) (kind : Key → Prop) (step : Search α) : Prop :=
  ∀ scopes constants, Finds ⟨task, scopes, constants⟩ kind step

/-- A step that finds no keys and tells nothing. -/
theorem Does.silent {kind : Key → Prop} {step : Search α} {situation : Situation} {later : Scopes}
    {known : Constants} {result : Except Failure α} (legible : Legible result)
    (runs : ∀ keys journal, outcome step situation.task (situation.holding keys journal) =
      (result, ⟨keys, later, known, journal⟩)) :
    Does kind step situation ⟨result, later, known, id, fun _ => {}⟩ where
  runs := by
    intro keys journal
    rw [runs, Effect.after, Journal.followedBy_empty]
    rfl
  legible := legible
  warns := by
    intro keys message member
    cases member
  made := .nothing

section Handlers

variable {task : Task} {findings later : Findings}

theorem run_bind_ok {step : Search α} {next : α → Search β} {value : α}
    (ran : outcome step task findings = (.ok value, later)) :
    outcome (step >>= next) task findings = outcome (next value) task later := by
  unfold outcome at ran ⊢
  rw [ReaderT.run_bind, ExceptT.run_bind, StateT.run_bind, ran]
  rfl

theorem run_bind_error {step : Search α} {next : α → Search β} {failure : Failure}
    (ran : outcome step task findings = (.error failure, later)) :
    outcome (step >>= next) task findings = (.error failure, later) := by
  unfold outcome at ran ⊢
  rw [ReaderT.run_bind, ExceptT.run_bind, StateT.run_bind, ran]
  rfl

theorem run_tryCatch_ok {step : Search α} {handle : Failure → Search α} {value : α}
    (ran : outcome step task findings = (.ok value, later)) :
    outcome (tryCatch step handle) task findings = (.ok value, later) := by
  unfold outcome ReaderT.run ExceptT.run StateT.run at ran
  simp only [outcome, tryCatch, tryCatchThe, MonadExceptOf.tryCatch, ReaderT.run, ExceptT.run, ExceptT.tryCatch,
    ExceptT.mk, StateT.run, bind, StateT.bind]
  rw [ran]
  rfl

theorem run_tryCatch_error {step : Search α} {handle : Failure → Search α} {failure : Failure}
    (ran : outcome step task findings = (.error failure, later)) :
    outcome (tryCatch step handle) task findings = outcome (handle failure) task later := by
  unfold outcome ReaderT.run ExceptT.run StateT.run at ran
  simp only [outcome, tryCatch, tryCatchThe, MonadExceptOf.tryCatch, ReaderT.run, ExceptT.run, ExceptT.tryCatch,
    ExceptT.mk, StateT.run, bind, StateT.bind]
  rw [ran]

/-- A scope of its own ends whether or not the step in it fails. -/
theorem run_inScope {step : Search Unit} {result : Except Failure Unit} (findings : Findings)
    (ran : outcome step task { findings with scopes := findings.scopes.enter [] } = (result, later)) :
    outcome (Search.inScope step) task findings = (result, { later with scopes := later.scopes.exit }) := by
  have entered : (modify (fun findings : Findings => { findings with scopes := findings.scopes.enter [] }) :
      Search Unit) task findings = (.ok (), { findings with scopes := findings.scopes.enter [] }) := rfl
  unfold outcome ReaderT.run ExceptT.run StateT.run at ran
  unfold outcome Search.inScope
  simp only [bind, ReaderT.bind, ExceptT.bind, ReaderT.run, ExceptT.run, StateT.run, ExceptT.mk, StateT.bind,
    entered, ExceptT.bindCont, tryFinally, MonadFinally.tryFinally', Functor.map, ExceptT.map, pure, ran]
  cases result <;> rfl

end Handlers

namespace Finds

variable {situation : Situation} {kind other : Key → Prop}

theorem pure (value : α) : Finds situation kind (Pure.pure value) :=
  ⟨_, .silent (.ok value) fun _ _ => rfl⟩

theorem bind {step : Search α} {next : α → Search β} (one : Finds situation kind step)
    (two : ∀ value, Gives situation step value → Finds (situation.after step) kind (next value)) :
    Finds situation kind (step >>= next) := by
  obtain ⟨first, does⟩ := one
  cases ended : first.result with
  | error failure =>
    let halted : Effect β := ⟨.error failure, first.scopes, first.constants, first.keys, first.told⟩
    refine ⟨halted, ?_, ?_, does.warns, does.made⟩
    · intro keys journal
      exact run_bind_error (ended ▸ does.runs keys journal)
    · exact .error (does.legible failure ended)
  | ok value =>
    have gives : Gives situation step value := by
      rw [Gives, does.runs]
      exact ended
    obtain ⟨second, doesSecond⟩ := does.after ▸ two value gives
    refine ⟨second.behind first, ?_, doesSecond.legible, ?_, does.made.behind doesSecond.made⟩
    · intro keys journal
      rw [run_bind_ok (ended ▸ does.runs keys journal), Effect.after_behind]
      exact doesSecond.runs (first.keys keys) _
    · exact Effect.warns_behind does.warns doesSecond.warns

/-- What follows a step that gives a value starts from the situation behind that step. -/
theorem outcome_bind {step : Search α} {next : α → Search β} {value : α} (gives : Gives situation step value)
    (two : Finds (situation.after step) kind (next value)) :
    (outcome (step >>= next) situation.task situation.start).1 =
        (outcome (next value) situation.task (situation.after step).start).1 ∧
      situation.after (step >>= next) = (situation.after step).after (next value) := by
  obtain ⟨second, does⟩ := two
  have ran : outcome step situation.task situation.start = (.ok value, (situation.after step).holding
      (outcome step situation.task situation.start).2.keys (outcome step situation.task situation.start).2.journal) :=
    Prod.ext gives rfl
  have whole : outcome (step >>= next) situation.task situation.start = _ := (run_bind_ok ran).trans (does.runs _ _)
  have alone := does.runs [] {}
  refine ⟨?_, ?_⟩
  · rw [whole]
    exact (congrArg Prod.fst alone).symm
  · rw [does.after, Situation.after, whole]
    rfl

theorem read {next : Task → Search β} (finds : Finds situation kind (next situation.task)) :
    Finds situation kind (read >>= next) := by
  obtain ⟨effect, does⟩ := finds
  exact ⟨effect, { does with runs := fun keys journal => (run_bind_ok rfl).trans (does.runs keys journal) }⟩

theorem mono {step : Search α} (finds : Finds situation kind step) (wider : ∀ key, kind key → other key) :
    Finds situation other step := by
  obtain ⟨effect, does⟩ := finds
  exact ⟨effect, does.runs, does.legible, does.warns, does.made.mono wider⟩

end Finds

namespace Uniform

variable {task : Task} {kind : Key → Prop}

theorem pure (value : α) : Uniform task kind (Pure.pure value) := fun _ _ => .pure value

theorem bind {step : Search α} {next : α → Search β} (one : Uniform task kind step)
    (two : ∀ value, Uniform task kind (next value)) : Uniform task kind (step >>= next) :=
  fun scopes constants => (one scopes constants).bind fun value _ => two value _ _

theorem read {next : Task → Search β} (uniform : Uniform task kind (next task)) :
    Uniform task kind (read >>= next) :=
  fun scopes constants => .read (uniform scopes constants)

theorem ite {condition : Prop} [Decidable condition] {first second : Search α} (one : Uniform task kind first)
    (two : Uniform task kind second) : Uniform task kind (if condition then first else second) := by
  split
  · exact one
  · exact two

theorem forM {step : α → Search Unit} {items : List α} (each : ∀ item ∈ items, Uniform task kind (step item)) :
    Uniform task kind (items.forM step) := by
  induction items with
  | nil => exact pure ()
  | cons item items ih =>
    apply (each item List.mem_cons_self).bind
    intro _
    exact ih fun other member => each other (List.mem_cons_of_mem _ member)

end Uniform

/-- What a step does that learns nothing of declarations: how it ends, which keys it sees, and what it tells. -/
structure Report (α : Type) where
  result : Except Failure α
  seen : List Key := []
  told : Journal := {}

namespace Report

def behind (second : Report β) (first : Report α) : Report β where
  result := second.result
  seen := first.seen ++ second.seen
  told := first.told.followedBy second.told

/-- The report of a step is what it does whatever was found before. -/
structure Of (report : Report α) (step : Search α) (situation : Situation) : Prop where
  runs : ∀ keys journal, outcome step situation.task (situation.holding keys journal) =
    (report.result, situation.holding (report.seen.foldl KeyMap.add keys) (journal.followedBy report.told))
  inner : Inner report.result
  warns : ∀ message ∈ report.told.messages, message.level = .warning
  usable : ∀ key ∈ report.seen, Usable key

/-- A step that sees no keys and tells nothing. -/
theorem Of.silent {step : Search α} {situation : Situation} {result : Except Failure α} (inner : Inner result)
    (runs : ∀ keys journal, outcome step situation.task (situation.holding keys journal) =
      (result, situation.holding keys journal)) :
    Report.Of ⟨result, [], {}⟩ step situation where
  runs := by
    intro keys journal
    rw [runs, Journal.followedBy_empty]
    rfl
  inner := inner
  warns := List.forall_mem_nil _
  usable := List.forall_mem_nil _

/-- The report of a step that goes on as another one behind what it does first. -/
theorem Of.behind {first : Report α} {second : Report β} {step : Search α} {rest whole : Search β}
    {situation : Situation} (does : first.Of step situation) (doesRest : second.Of rest situation)
    (goesOn : ∀ findings later, outcome step situation.task findings = (first.result, later) →
      outcome whole situation.task findings = outcome rest situation.task later) :
    (second.behind first).Of whole situation where
  runs := by
    intro keys journal
    rw [goesOn _ _ (does.runs keys journal), doesRest.runs, Report.behind, List.foldl_append,
      ← Journal.followedBy_followedBy]
  inner := doesRest.inner
  warns := fun message member => (List.mem_append.mp member).elim (does.warns message) (doesRest.warns message)
  usable := fun key member => (List.mem_append.mp member).elim (does.usable key) (doesRest.usable key)

end Report

/-- In a situation a step learns nothing of declarations and sees keys of a kind; what it gives, if anything, is as
told. -/
def Reports (situation : Situation) (kind : Key → Prop) (step : Search α) (gives : α → Prop) : Prop :=
  ∃ report : Report α, report.Of step situation ∧ Legible report.result ∧ (∀ key ∈ report.seen, kind key) ∧
    ∀ value, report.result = .ok value → gives value

/-- In a situation a step sees a key. -/
def Shows (situation : Situation) (step : Search Unit) (key : Key) : Prop :=
  ∃ report : Report Unit, report.Of step situation ∧ key ∈ report.seen

namespace Reports

variable {situation : Situation} {kind : Key → Prop} {gives : α → Prop}

theorem silent {step : Search α} {result : Except Failure α} (legible : Legible result)
    (runs : ∀ keys journal, outcome step situation.task (situation.holding keys journal) =
      (result, situation.holding keys journal))
    (given : ∀ value, result = .ok value → gives value) : Reports situation kind step gives :=
  ⟨_, .silent legible.inner runs, legible, List.forall_mem_nil _, given⟩

theorem pure {value : α} (given : gives value) : Reports situation kind (Pure.pure value) gives := by
  refine silent (.ok value) (fun _ _ => rfl) fun other same => ?_
  cases same
  exact given

theorem done (value : α) : Reports situation kind (Pure.pure value) fun _ => True := pure trivial

theorem attempt {result : Except Failure α} (legible : Legible result) :
    Reports situation kind (Search.attempt result) fun value => result = .ok value :=
  silent legible (fun _ _ => rfl) fun _ same => same

theorem mono {other : α → Prop} {step : Search α} (reports : Reports situation kind step gives)
    (weaker : ∀ value, gives value → other value) : Reports situation kind step other := by
  obtain ⟨report, does, legible, seen, given⟩ := reports
  exact ⟨report, does, legible, seen, fun value ended => weaker value (given value ended)⟩

theorem bind {step : Search α} {next : α → Search β} {last : β → Prop} (one : Reports situation kind step gives)
    (two : ∀ value, gives value → Reports situation kind (next value) last) :
    Reports situation kind (step >>= next) last := by
  obtain ⟨first, does, legible, seen, given⟩ := one
  cases ended : first.result with
  | error failure =>
    have halted : Legible (α := β) (.error failure) := .error (legible failure ended)
    refine ⟨⟨.error failure, first.seen, first.told⟩, ⟨?_, halted.inner, does.warns, does.usable⟩, halted, seen, ?_⟩
    · intro keys journal
      exact run_bind_error (ended ▸ does.runs keys journal)
    · intro value same
      cases same
  | ok value =>
    obtain ⟨second, doesSecond, legibleSecond, seenSecond, givenSecond⟩ := two value (given value ended)
    refine ⟨second.behind first, does.behind doesSecond ?_, legibleSecond, ?_, givenSecond⟩
    · exact fun _ _ ran => run_bind_ok (ended ▸ ran)
    · exact fun key member => (List.mem_append.mp member).elim (seen key) (seenSecond key)

theorem read {next : Task → Search α} (reports : Reports situation kind (next situation.task) gives) :
    Reports situation kind (read >>= next) gives := by
  obtain ⟨report, does, rest⟩ := reports
  exact ⟨report, { does with runs := fun keys journal => (run_bind_ok rfl).trans (does.runs keys journal) }, rest⟩

theorem ite {condition : Prop} [Decidable condition] {first second : Search α}
    (one : condition → Reports situation kind first gives) (two : ¬ condition → Reports situation kind second gives) :
    Reports situation kind (if condition then first else second) gives := by
  split
  next holds => exact one holds
  next fails => exact two fails

theorem forM {step : β → Search Unit} {items : List β}
    (each : ∀ item ∈ items, Reports situation kind (step item) fun _ => True) :
    Reports situation kind (items.forM step) fun _ => True := by
  induction items with
  | nil => exact pure trivial
  | cons item items ih =>
    apply (each item List.mem_cons_self).bind
    intro _ _
    exact ih fun other member => each other (List.mem_cons_of_mem _ member)

theorem forMOption {step : β → Search Unit} {found : Option β}
    (each : ∀ item ∈ found, Reports situation kind (step item) fun _ => True) :
    Reports situation kind (found.forM step) fun _ => True := by
  cases found with
  | none => exact pure trivial
  | some item => exact each item rfl

theorem mapM {step : β → Search α} {items : List β}
    (each : ∀ item ∈ items, Reports situation kind (step item) fun _ => True) :
    Reports situation kind (items.mapM step) fun _ => True := by
  induction items with
  | nil => exact pure trivial
  | cons item items ih =>
    rw [List.mapM_cons]
    apply (each item List.mem_cons_self).bind
    intro value _
    apply (ih fun other member => each other (List.mem_cons_of_mem _ member)).bind
    intro values _
    exact pure trivial

theorem foldlM {step : α → β → Search α} {items : List β} {start : α} (begun : gives start)
    (each : ∀ reached, gives reached → ∀ item ∈ items, Reports situation kind (step reached item) gives) :
    Reports situation kind (items.foldlM step start) gives := by
  induction items generalizing start with
  | nil => exact pure begun
  | cons item items ih =>
    rw [List.foldlM_cons]
    apply (each start begun item List.mem_cons_self).bind
    intro reached given
    exact ih given fun other given next member => each other given next (List.mem_cons_of_mem _ member)

/-- What was done before a failure that is caught stays done. -/
theorem tryCatch {step : Search α} {handle : Failure → Search α} (one : Reports situation kind step gives)
    (two : ∀ failure, Reports situation kind (handle failure) gives) :
    Reports situation kind (tryCatch step handle) gives := by
  obtain ⟨first, does, legible, seen, given⟩ := one
  cases ended : first.result with
  | ok value =>
    refine ⟨first, ⟨?_, does.inner, does.warns, does.usable⟩, legible, seen, given⟩
    intro keys journal
    rw [ended]
    exact run_tryCatch_ok (ended ▸ does.runs keys journal)
  | error failure =>
    obtain ⟨second, doesSecond, legibleSecond, seenSecond, givenSecond⟩ := two failure
    refine ⟨second.behind first, does.behind doesSecond ?_, legibleSecond, ?_, givenSecond⟩
    · exact fun _ _ ran => run_tryCatch_error (ended ▸ ran)
    · exact fun key member => (List.mem_append.mp member).elim (seen key) (seenSecond key)

/-- What a step gives is what it gives where nothing was found. -/
theorem given {step : Search α} (reports : Reports situation kind step gives) :
    Reports situation kind step fun value => gives value ∧ Gives situation step value := by
  obtain ⟨report, does, legible, seen, given⟩ := reports
  refine ⟨report, does, legible, seen, fun value ended => ⟨given value ended, ?_⟩⟩
  exact (congrArg Prod.fst (does.runs [] {})).trans ended

theorem widen {other : Key → Prop} {step : Search α} (reports : Reports situation kind step gives)
    (wider : ∀ key, kind key → other key) : Reports situation other step gives := by
  obtain ⟨report, does, legible, seen, given⟩ := reports
  exact ⟨report, does, legible, fun key member => wider key (seen key member), given⟩

theorem shown {step : Search Unit} (reports : Reports situation kind step fun _ => True) :
    Reports situation (fun key => Shows situation step key ∧ kind key) step fun _ => True := by
  obtain ⟨report, does, legible, seen, given⟩ := reports
  exact ⟨report, does, legible, fun key member => ⟨⟨report, does, member⟩, seen key member⟩, given⟩

theorem finds {step : Search α} (reports : Reports situation kind step gives) : Finds situation kind step := by
  obtain ⟨report, does, legible, seen, -⟩ := reports
  refine ⟨⟨report.result, situation.scopes, situation.constants, report.seen.foldl KeyMap.add, fun _ => report.told⟩,
    does.runs, legible, fun _ => does.warns, ?_⟩
  exact .seen fun key member => ⟨does.usable key member, seen key member⟩

end Reports

/-- In a situation a step learns nothing of declarations, ends with a value and sees keys. -/
def Yields (situation : Situation) (step : Search α) (value : α) (seen : List Key) : Prop :=
  ∃ report : Report α, report.Of step situation ∧ report.result = .ok value ∧ report.seen = seen

namespace Yields

variable {situation : Situation} {seen later : List Key}

/-- What a step that sees no keys gives is all that it yields. -/
theorem of_gives {step : Search α} {value : α} {told : α → Prop}
    (reports : Reports situation (fun _ => False) step told) (gives : Gives situation step value) :
    Yields situation step value [] := by
  obtain ⟨report, does, -, none, -⟩ := reports
  refine ⟨report, does, ?_, List.eq_nil_iff_forall_not_mem.mpr none⟩
  exact (congrArg Prod.fst (does.runs [] {})).symm.trans gives

theorem gives {step : Search α} {value : α} (yields : Yields situation step value seen) :
    Gives situation step value := by
  obtain ⟨report, does, ended, -⟩ := yields
  exact (congrArg Prod.fst (does.runs [] {})).trans ended

theorem pure (value : α) : Yields situation (Pure.pure value) value [] := of_gives (.done value) rfl

theorem attempt {result : Except Failure α} (legible : Legible result) {value : α} (gives : result = .ok value) :
    Yields situation (Search.attempt result) value [] := of_gives (.attempt legible) gives

theorem bind {step : Search α} {next : α → Search β} {value : α} {result : β}
    (one : Yields situation step value seen) (two : Yields situation (next value) result later) :
    Yields situation (step >>= next) result (seen ++ later) := by
  obtain ⟨first, does, ended, rfl⟩ := one
  obtain ⟨second, doesSecond, gives, rfl⟩ := two
  exact ⟨second.behind first, does.behind doesSecond fun _ _ ran => run_bind_ok (ended ▸ ran), gives, rfl⟩

theorem reports {kind : Key → Prop} {step : Search α} {value : α} (yields : Yields situation step value seen)
    (fits : ∀ key ∈ seen, kind key) : Reports situation kind step fun given => given = value := by
  obtain ⟨report, does, ended, rfl⟩ := yields
  exact ⟨report, does, ended ▸ .ok value, fits, fun given same => (Except.ok.inj (ended.symm.trans same)).symm⟩

/-- A step that sees no keys only hands on its value. -/
theorem after {step : Search α} {next : α → Search β} {value : α} {result : β} (one : Yields situation step value [])
    (two : Yields situation (next value) result later) : Yields situation (step >>= next) result later := bind one two

theorem forM {step : β → Search Unit} {seen : β → List Key} {items : List β}
    (each : ∀ item ∈ items, Yields situation (step item) () (seen item)) :
    Yields situation (items.forM step) () (items.flatMap seen) := by
  induction items with
  | nil => exact pure ()
  | cons item items ih =>
    rw [List.flatMap_cons]
    exact (each item List.mem_cons_self).bind (ih fun other member => each other (List.mem_cons_of_mem _ member))

/-- A step that ends is not changed by what would be done if it failed. -/
theorem tryCatch {step : Search α} {handle : Failure → Search α} {value : α} (one : Yields situation step value seen) :
    Yields situation (tryCatch step handle) value seen := by
  obtain ⟨report, does, ended, same⟩ := one
  refine ⟨report, ⟨?_, does.inner, does.warns, does.usable⟩, ended, same⟩
  intro keys journal
  rw [ended]
  exact run_tryCatch_ok (ended ▸ does.runs keys journal)

end Yields

/-- In a situation a step learns nothing of declarations; where it ends with a value, the value and the keys that it sees
are as told. -/
def Leaves (situation : Situation) (step : Search α) (told : α → List Key → Prop) : Prop :=
  ∃ report : Report α, report.Of step situation ∧ ∀ value, report.result = .ok value → told value report.seen

namespace Leaves

variable {situation : Situation} {told : α → List Key → Prop}

theorem of_yields {step : Search α} {value : α} {seen : List Key} (yields : Yields situation step value seen)
    (here : told value seen) : Leaves situation step told := by
  obtain ⟨report, does, ended, rfl⟩ := yields
  refine ⟨report, does, fun other same => ?_⟩
  exact Except.ok.inj (ended.symm.trans same) ▸ here

theorem pure {value : α} (here : told value []) : Leaves situation (Pure.pure value) told := of_yields (.pure value) here

theorem mono {step : Search α} {other : α → List Key → Prop} (leaves : Leaves situation step told)
    (weaker : ∀ value seen, told value seen → other value seen) : Leaves situation step other := by
  obtain ⟨report, does, left⟩ := leaves
  exact ⟨report, does, fun value ended => weaker value report.seen (left value ended)⟩

/-- A step that sees no keys leaves what it gives. -/
theorem of_reports {step : Search α} {gives : α → Prop} (reports : Reports situation (fun _ => False) step gives) :
    Leaves situation step fun value seen => gives value ∧ seen = [] := by
  obtain ⟨report, does, -, none, given⟩ := reports
  exact ⟨report, does, fun value ended => ⟨given value ended, List.eq_nil_iff_forall_not_mem.mpr none⟩⟩

theorem bind {step : Search α} {next : α → Search β} {last : β → List Key → Prop} (one : Leaves situation step told)
    (two : ∀ value seen, told value seen → Leaves situation (next value) fun result later => last result (seen ++ later)) :
    Leaves situation (step >>= next) last := by
  obtain ⟨first, does, left⟩ := one
  cases ended : first.result with
  | error failure =>
    refine ⟨⟨.error failure, first.seen, first.told⟩, ⟨?_, ?_, does.warns, does.usable⟩, fun value same => by cases same⟩
    · exact fun keys journal => run_bind_error (ended ▸ does.runs keys journal)
    · intro other same
      exact Except.error.inj same ▸ does.inner failure ended
  | ok value =>
    obtain ⟨second, doesSecond, leftSecond⟩ := two value first.seen (left value ended)
    exact ⟨second.behind first, does.behind doesSecond fun _ _ ran => run_bind_ok (ended ▸ ran), leftSecond⟩

/-- Behind a step that sees no keys only what it gives counts. -/
theorem after {step : Search α} {next : α → Search β} {gives : α → Prop} {last : β → List Key → Prop}
    (one : Reports situation (fun _ => False) step gives)
    (two : ∀ value, gives value → Leaves situation (next value) last) : Leaves situation (step >>= next) last := by
  apply (of_reports one).bind
  rintro value _ ⟨given, rfl⟩
  exact two value given

theorem given {step : Search α} {next : α → Search β} {value : α} {last : β → List Key → Prop}
    (one : Yields situation step value []) (two : ∀ given, given = value → Leaves situation (next given) last) :
    Leaves situation (step >>= next) last := by
  have left : Leaves situation step fun given seen => given = value ∧ seen = [] := of_yields one ⟨rfl, rfl⟩
  apply left.bind
  rintro given _ ⟨same, rfl⟩
  exact two given same

/-- A step for each item leaves a group of keys for each. -/
theorem forM {step : β → Search Unit} {group : β → List Key → Prop} {items : List β}
    (each : ∀ item ∈ items, Leaves situation (step item) fun _ seen => group item seen) :
    Leaves situation (items.forM step) fun _ seen => ∃ groups, List.Forall₂ group items groups ∧ seen = groups.flatten := by
  induction items with
  | nil => exact pure ⟨[], .nil, rfl⟩
  | cons item items ih =>
    apply (each item List.mem_cons_self).bind
    intro _ seen first
    obtain ⟨report, does, left⟩ := ih fun other member => each other (List.mem_cons_of_mem _ member)
    refine ⟨report, does, fun value ended => ?_⟩
    obtain ⟨groups, rest, flat⟩ := left value ended
    exact ⟨seen :: groups, .cons first rest, by rw [flat, List.flatten_cons]⟩

theorem yields {step : Search α} {value : α} (leaves : Leaves situation step told) (gives : Gives situation step value) :
    ∃ seen, Yields situation step value seen ∧ told value seen := by
  obtain ⟨report, does, left⟩ := leaves
  have ended : report.result = .ok value := (congrArg Prod.fst (does.runs [] {})).symm.trans gives
  exact ⟨report.seen, ⟨report, does, ended, rfl⟩, left value ended⟩

end Leaves

/-- A property of steps that carries over what is read first: where it holds of all that may follow a step which sees no
keys, it holds of the two together. -/
structure Carries (situation : Situation) (holds : Search Unit → Prop) : Prop where
  behind {α : Type} {step : Search α} {next : α → Search Unit} {gives : α → Prop}
    (read : Reports situation (fun _ => False) step gives) (each : ∀ value, gives value → holds (next value)) :
    holds (step >>= next)

namespace Carries

variable {situation : Situation} {holds : Search Unit → Prop}

theorem reports {kind : Key → Prop} : Carries situation fun step => Reports situation kind step fun _ => True where
  behind read each := (read.widen fun _ impossible => impossible.elim).bind each

theorem leaves {told : Unit → List Key → Prop} : Carries situation fun step => Leaves situation step told where
  behind read each := .after read each

/-- What a step gives is what it gives where nothing was found. -/
theorem given (carries : Carries situation holds) {step : Search α} {next : α → Search Unit} {gives : α → Prop}
    (read : Reports situation (fun _ => False) step gives)
    (each : ∀ value, gives value → Gives situation step value → holds (next value)) : holds (step >>= next) :=
  carries.behind read.given fun value held => each value held.1 held.2

/-- The same where it is known what the step gives. -/
theorem yields (carries : Carries situation holds) {step : Search α} {next : α → Search Unit} {value : α}
    (read : Yields situation step value []) (here : ∀ given, given = value → holds (next given)) :
    holds (step >>= next) := carries.behind (read.reports (List.forall_mem_nil _)) here

end Carries

/-- A step leads, whether or not it fails, from every situation to one that is related to it. -/
def Moves (related : Situation → Situation → Prop) (task : Task) (step : Search α) : Prop :=
  ∀ findings, related (.of task findings) (.of task (outcome step task findings).2)

namespace Moves

variable {related : Situation → Situation → Prop} {task : Task}

theorem bind {step : Search α} {next : α → Search β}
    (trans : ∀ first second third, related first second → related second third → related first third)
    (one : Moves related task step) (two : ∀ value, Moves related task (next value)) :
    Moves related task (step >>= next) := by
  intro findings
  have before := one findings
  cases ran : outcome step task findings with
  | mk result later =>
    rw [ran] at before
    cases result with
    | error failure =>
      rw [run_bind_error ran]
      exact before
    | ok value =>
      rw [run_bind_ok ran]
      exact trans _ _ _ before (two value later)

theorem forM {step : α → Search Unit} {items : List α} (refl : ∀ situation, related situation situation)
    (trans : ∀ first second third, related first second → related second third → related first third)
    (each : ∀ item ∈ items, Moves related task (step item)) : Moves related task (items.forM step) := by
  induction items with
  | nil => exact fun findings => refl _
  | cons item items ih =>
    apply bind trans (each item List.mem_cons_self)
    intro _
    exact ih fun other member => each other (List.mem_cons_of_mem _ member)

theorem ite {condition : Prop} [Decidable condition] {first second : Search α} (one : Moves related task first)
    (two : Moves related task second) : Moves related task (if condition then first else second) := by
  split
  · exact one
  · exact two

theorem of_reports {step : Search α} {gives : α → Prop} (refl : ∀ situation, related situation situation)
    (reports : ∀ scopes constants, Reports ⟨task, scopes, constants⟩ (fun _ => True) step gives) :
    Moves related task step := by
  intro findings
  obtain ⟨report, does, -⟩ := reports findings.scopes findings.constants
  have ran : outcome step task findings = _ := does.runs findings.keys findings.journal
  rw [ran]
  exact refl _

end Moves

end Proofs.SearchSteps
end Phrasebook
