import Phrasebook.Proofs.SearchWalks

/-! What a hook leaves of the keys when it fails. A hook is handed the keys themselves and takes its steps one behind
the other; the first step that fails ends it, and what the steps before it did stays done. A key that none of them names
is where it was, as it was. -/

namespace Phrasebook

/-- The identity of the key that a step adds, replaces or takes away. -/
def KeyStep.named? (defaultNamespace : String) : KeyStep → Option String
  | add request =>
    match request.key? defaultNamespace with
    | .ok (some key) => some key.identity
    | _ => none
  | store (.ok key) => some key.identity
  | store (.error _) => none
  | delete identity => some identity
  | fail _ => none

/-- What a hook does that is handed keys: it fails at once, or it takes steps. -/
structure Invocation where
  raised : Option String
  steps : List KeyStep

namespace Invocation

/-- The keys after an invocation, and why it failed if it did. -/
def run (invocation : Invocation) (defaultNamespace : String) (keys : KeyMap) : KeyMap × Option String :=
  match invocation.raised with
  | some reason => (keys, some reason)
  | none => KeyStep.run defaultNamespace invocation.steps keys

end Invocation

/-- What a hook does at a node, unless it is one for other nodes or only promises to do something. -/
def VisitHook.invocation? (hook : VisitHook) (node : Syntax.Node) : Option Invocation :=
  if hook.kind = node.kind.name ∧ hook.awaited = false then
    some ⟨hook.failure, if hook.texts.all fun texts => texts.contains node.text then hook.steps else []⟩
  else none

def EndHook.invocation (hook : EndHook) : Invocation := ⟨hook.failure, hook.steps⟩

namespace Proofs.HookFailures

open Catalog SearchSteps SearchWalks Syntax

variable {defaultNamespace : String}

section Steps

variable {keys left made : KeyMap} {reason : String}

/-- A step that fails does nothing. -/
theorem eq_of_failed_step {step : KeyStep} (failed : KeyStep.run defaultNamespace [step] keys = (made, some reason)) :
    made = keys := by
  cases step with
  | add request =>
    rw [KeyStep.run] at failed
    cases asked : request.key? defaultNamespace with
    | error failure => simp_all
    | ok key => cases key <;> simp_all [KeyStep.run]
  | store key => cases key <;> simp_all [KeyStep.run]
  | delete identity =>
    rw [KeyStep.run] at failed
    split at failed <;> simp_all [KeyStep.run]
  | fail message => simp_all [KeyStep.run]

theorem run_cons (step : KeyStep) (rest : List KeyStep) (keys : KeyMap) :
    KeyStep.run defaultNamespace (step :: rest) keys =
      match KeyStep.run defaultNamespace [step] keys with
      | (made, none) => KeyStep.run defaultNamespace rest made
      | failed => failed := by
  cases step with
  | add request =>
    rw [KeyStep.run, KeyStep.run]
    cases request.key? defaultNamespace with
    | error failure => rfl
    | ok key => cases key <;> rfl
  | store key => cases key <;> rfl
  | delete identity =>
    rw [KeyStep.run, KeyStep.run]
    cases Table.has identity keys <;> rfl
  | fail message => rfl

theorem run_cons_of_taken {step : KeyStep} (taken : KeyStep.run defaultNamespace [step] keys = (made, none))
    (rest : List KeyStep) :
    KeyStep.run defaultNamespace (step :: rest) keys = KeyStep.run defaultNamespace rest made := by
  rw [run_cons, taken]

/-- Steps fail just when one of them does after all before it were taken, and they leave what those did. -/
theorem run_fails_iff {steps : List KeyStep} :
    KeyStep.run defaultNamespace steps keys = (left, some reason) ↔
      ∃ done failing rest, steps = done ++ failing :: rest ∧
        KeyStep.run defaultNamespace done keys = (left, none) ∧
        KeyStep.run defaultNamespace [failing] left = (left, some reason) := by
  induction steps generalizing keys with
  | nil =>
    constructor
    · intro failed
      cases failed
    · intro ⟨done, failing, rest, same, _⟩
      exact absurd same.symm (List.append_ne_nil_of_right_ne_nil done (List.cons_ne_nil failing rest))
  | cons step later ih =>
    cases single : KeyStep.run defaultNamespace [step] keys with
    | mk made result =>
      cases result with
      | none =>
        rw [run_cons_of_taken single, ih]
        constructor
        · intro ⟨done, failing, rest, same, ran, failed⟩
          refine ⟨step :: done, failing, rest, congrArg (step :: ·) same, ?_, failed⟩
          rw [run_cons_of_taken single, ran]
        · intro ⟨done, failing, rest, same, ran, failed⟩
          cases done with
          | nil =>
            -- the first step was taken, so it is not the one that failed
            obtain ⟨rfl, _⟩ := List.cons.inj same
            obtain rfl : keys = left := congrArg Prod.fst ran
            rw [failed] at single
            cases single
          | cons first done =>
            obtain ⟨rfl, inside⟩ := List.cons.inj same
            rw [run_cons_of_taken single] at ran
            exact ⟨done, failing, rest, inside, ran, failed⟩
      | some message =>
        rw [run_cons, single]
        constructor
        · intro failed
          obtain rfl := eq_of_failed_step single
          cases failed
          exact ⟨[], step, later, rfl, rfl, single⟩
        · intro ⟨done, failing, rest, same, ran, failed⟩
          cases done with
          | nil =>
            obtain ⟨rfl, _⟩ := List.cons.inj same
            obtain rfl : keys = left := congrArg Prod.fst ran
            exact single.symm.trans failed
          | cons first done =>
            obtain ⟨rfl, _⟩ := List.cons.inj same
            rw [run_cons, single] at ran
            cases ran

/-- Keys that no step names stay where they are, as they are. -/
theorem filter_run (steps : List KeyStep) (keys : KeyMap) {keeps : String → Bool}
    (named : ∀ step ∈ steps, ∀ identity ∈ step.named? defaultNamespace, keeps identity = false) :
    (KeyStep.run defaultNamespace steps keys).1.filter (fun entry => keeps entry.1) =
      keys.filter fun entry => keeps entry.1 := by
  induction steps generalizing keys with
  | nil => rfl
  | cons step rest ih =>
    have later := fun step member => named step (List.mem_cons_of_mem _ member)
    have here := named step List.mem_cons_self
    cases step with
    | add request =>
      rw [KeyStep.run]
      cases asked : request.key? defaultNamespace with
      | error failure => rfl
      | ok key =>
        cases key with
        | none => exact ih keys later
        | some key =>
          refine (ih _ later).trans ?_
          have gone : keeps key.identity = false := here key.identity (by simp [KeyStep.named?, asked])
          unfold KeyMap.add
          split <;> exact Table.filter_put gone _ keys
    | store key =>
      cases key with
      | error failure => rfl
      | ok key =>
        refine (ih _ later).trans ?_
        exact Table.filter_put (here key.identity rfl) key keys
    | delete identity =>
      rw [KeyStep.run]
      split
      · refine (ih _ later).trans ?_
        exact Table.filter_erase (here identity rfl) keys
      · rfl
    | fail message => rfl

end Steps

section Invocations

variable {task : Task} {invocation : Invocation} {keys left : KeyMap} {reason : String}

/-- An invocation that fails: at once, with the keys as they were, or at one of its steps, with what all steps before
that one made of the keys. -/
inductive Halts (defaultNamespace : String) (invocation : Invocation) (keys : KeyMap) (reason : String) :
    KeyMap → Prop
  | atOnce (raised : invocation.raised = some reason) : Halts defaultNamespace invocation keys reason keys
  | atStep {done rest : List KeyStep} {failing : KeyStep} {left : KeyMap} (raised : invocation.raised = none)
      (steps : invocation.steps = done ++ failing :: rest)
      (taken : KeyStep.run defaultNamespace done keys = (left, none))
      (fails : KeyStep.run defaultNamespace [failing] left = (left, some reason)) :
      Halts defaultNamespace invocation keys reason left

theorem run_invocation_iff :
    invocation.run defaultNamespace keys = (left, some reason) ↔
      Halts defaultNamespace invocation keys reason left := by
  unfold Invocation.run
  constructor
  · intro failed
    cases raised : invocation.raised with
    | some message =>
      rw [raised] at failed
      cases failed
      exact .atOnce raised
    | none =>
      rw [raised] at failed
      obtain ⟨done, failing, rest, steps, taken, fails⟩ := run_fails_iff.mp failed
      exact .atStep raised steps taken fails
  · intro halts
    cases halts with
    | atOnce raised => rw [raised]
    | atStep raised steps taken fails =>
      rw [raised]
      exact run_fails_iff.mpr ⟨_, _, _, steps, taken, fails⟩

/-- The steps that a hook takes at a node, none where it waits for other texts. -/
def stepsAt (hook : VisitHook) (node : Node) : List KeyStep :=
  if hook.texts.all fun texts => texts.contains node.text then hook.steps else []

theorem outcome_takeStepsAt (plugin : Plugin) (hook : VisitHook) (node : Node) (findings : Findings) :
    outcome (if hook.texts.all fun texts => texts.contains node.text then do
        let (keys, failure) := KeyStep.run (← Search.extraction).defaultNamespace hook.steps (← get).keys
        modify fun findings => { findings with keys }
        failure.forM (Search.warnOfHook plugin "on_visit_node")
      else pure ()) task findings =
    let taken := KeyStep.run task.settings.extraction.defaultNamespace (stepsAt hook node) findings.keys
    (.ok (), { findings with
      keys := taken.1
      journal := findings.journal.followedBy (toldOfSteps plugin taken.2) }) := by
  unfold stepsAt
  split
  · exact outcome_takeSteps plugin hook findings
  · exact congrArg (fun journal => (_, { findings with journal })) (Journal.followedBy_empty _).symm

/-- At a node a hook makes of the keys what it can, and the search goes on; a failure is told. -/
theorem outcome_visitWith {hook : VisitHook} {node : Node} (called : hook.invocation? node = some invocation)
    (plugin : Plugin) (findings : Findings) :
    let after := outcome (Search.visitWith plugin hook node) task findings
    let made := invocation.run task.settings.extraction.defaultNamespace findings.keys
    after.1 = .ok () ∧ after.2.keys = made.1 ∧
      after.2.journal.messages = findings.journal.messages ++ (toldOfSteps plugin made.2).messages := by
  unfold VisitHook.invocation? at called
  split at called
  next concerned =>
    obtain rfl := Option.some.inj called
    rw [Search.visitWith, if_pos concerned.1, concerned.2]
    simp only [Bool.false_eq_true, if_false, Invocation.run]
    cases hook.failure with
    | some message => exact ⟨rfl, rfl, rfl⟩
    | none =>
      dsimp only
      split
      · -- the binding of a name is recorded before the steps are taken
        have resolved : outcome (Search.resolve node.text) task findings =
            (.ok (findings.scopes.resolve node.text), findings) := rfl
        have recorded (text : String) : outcome (Search.record text) task findings =
            (.ok (), { findings with journal := findings.journal.record text }) := rfl
        rw [run_bind_ok resolved, run_bind_ok (recorded _), outcome_takeStepsAt]
        exact ⟨rfl, rfl, rfl⟩
      · rw [outcome_takeStepsAt]
        exact ⟨rfl, rfl, rfl⟩
  next => cases called

/-- At the end a hook makes of the keys what it can; a failure is told. -/
theorem endAll_singleton {plugin : Plugin} {hook : EndHook} (given : plugin.atEnd = some hook)
    (defaultNamespace : String) (keys : KeyMap) (journal : Journal) :
    let after := Plugin.endAll [plugin] defaultNamespace keys journal
    let made := hook.invocation.run defaultNamespace keys
    after.1 = made.1 ∧ after.2.messages =
      journal.messages ++ (made.2.map (plugin.failureMessage "on_end")).toList := by
  simp only [Plugin.endAll, List.foldl_cons, List.foldl_nil, given, EndHook.invocation, Invocation.run]
  cases hook.failure with
  | some message => exact ⟨rfl, rfl⟩
  | none =>
    dsimp only
    generalize KeyStep.run defaultNamespace hook.steps keys = taken
    obtain ⟨left, reason⟩ := taken
    cases reason with
    | none => exact ⟨rfl, (List.append_nil _).symm⟩
    | some message => exact ⟨rfl, rfl⟩

/-- The steps an invocation took before it failed, and what they left alone. -/
theorem exists_done_of_halts (halts : Halts defaultNamespace invocation keys reason left) :
    ∃ done, done <+: invocation.steps ∧ KeyStep.run defaultNamespace done keys = (left, none) ∧
      ∀ keeps : String → Bool,
        (∀ step ∈ done, ∀ identity ∈ step.named? defaultNamespace, keeps identity = false) →
        left.filter (fun entry => keeps entry.1) = keys.filter fun entry => keeps entry.1 := by
  cases halts with
  | atOnce raised => exact ⟨[], List.nil_prefix, rfl, fun _ _ => rfl⟩
  | @atStep done rest failing _ raised steps taken fails =>
    refine ⟨done, ⟨failing :: rest, steps.symm⟩, taken, ?_⟩
    intro keeps named
    have kept := filter_run done keys named
    rw [taken] at kept
    exact kept

/-- An invocation that fails leaves the keys as its steps before the failing one made them: the keys are as they were
when it failed at once or at its first step, and any key that no step before the failing one names is where it was, as
it was. The failure is told, and a search goes on. -/
theorem failing_hook_leaves_steps_done (settings : Settings) (file : String) (plugin : Plugin)
    (invocation : Invocation) (keys left : KeyMap) (reason : String)
    (failed : invocation.run settings.extraction.defaultNamespace keys = (left, some reason)) :
    Halts settings.extraction.defaultNamespace invocation keys reason left ∧
    (∃ done, done <+: invocation.steps ∧
      KeyStep.run settings.extraction.defaultNamespace done keys = (left, none) ∧
      ∀ keeps : String → Bool,
        (∀ step ∈ done, ∀ identity ∈ step.named? settings.extraction.defaultNamespace, keeps identity = false) →
        left.filter (fun entry => keeps entry.1) = keys.filter fun entry => keeps entry.1) ∧
    (∀ hook node findings, VisitHook.invocation? hook node = some invocation → findings.keys = keys →
      let after := outcome (Search.visitWith plugin hook node) ⟨settings, file⟩ findings
      after.1 = .ok () ∧ after.2.keys = left ∧
        after.2.journal.messages = findings.journal.messages ++ [plugin.failureMessage "on_visit_node" reason]) ∧
    (∀ hook journal, plugin.atEnd = some hook → hook.invocation = invocation →
      let after := Plugin.endAll [plugin] settings.extraction.defaultNamespace keys journal
      after.1 = left ∧ after.2.messages = journal.messages ++ [plugin.failureMessage "on_end" reason]) := by
  have halts := run_invocation_iff.mp failed
  refine ⟨halts, exists_done_of_halts halts, ?_, ?_⟩
  · intro hook node findings called same
    subst same
    have visited := @outcome_visitWith ⟨settings, file⟩ invocation hook node called plugin findings
    rw [failed] at visited
    exact visited
  · intro hook journal given same
    subst same
    have ended := endAll_singleton given settings.extraction.defaultNamespace keys journal
    rw [failed] at ended
    exact ended

def menuKey : Key where
  text := "menu"
  namespaceName := "translation"
  defaultValue := some "Menu"

def menuKeys : KeyMap := [(menuKey.identity, menuKey)]

/-- A hook that takes two keys away at the end. -/
def clearingHook : EndHook where
  steps := [.delete "translation:menu", .delete "translation:title"]

def clearing : Plugin where
  title := "clearing"
  atEnd := some clearingHook

theorem clearing_leaves_steps_done :
    clearingHook.invocation.run "translation" menuKeys = ([], some "'translation:title'") ∧
    (Plugin.endAll [clearing] "translation" menuKeys {}).1 = [] := by
  have failed : clearingHook.invocation.run "translation" menuKeys = ([], some "'translation:title'") := by
    decide +kernel
  obtain ⟨_, _, _, ended⟩ :=
    failing_hook_leaves_steps_done { locales := ["en"], extraction := {} } "src/a.ts" clearing
      clearingHook.invocation menuKeys [] _ failed
  exact ⟨failed, (ended clearingHook {} rfl rfl).1⟩

/-- The first deletion stays done although the second one fails: a key that the source uses is lost. -/
theorem key_lost_by_failing_hook :
    Plugin.endAll [clearing] "translation" menuKeys {} =
      ([], { messages := [⟨.warning, "Plugin 'clearing' failed in on_end: 'translation:title'"⟩]
             records := [" on_end 1"] }) ∧
    menuKeys ≠ [] := by
  decide +kernel

end Invocations

end Proofs.HookFailures

end Phrasebook
