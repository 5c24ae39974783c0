import Mathlib.Data.List.Induction
import Phrasebook.Proofs.SiteReports

/-! A walk through the tree of a source. It comes to every node with what is known of declarations there, and what it
finds depends on that alone: keys that are seen at the sites of the nodes it comes to, and whatever the steps of plugins
make of the keys. -/

namespace Phrasebook

namespace Search

/-- What a walk does at a child of a node: signs between operands are passed over. -/
def walkChild (child : Syntax.Node) : Search Unit := if child.kind ≠ .operator then walk child else pure ()

/-- What a walk does at a node before it comes to the children behind the given ones. -/
def upTo (node : Syntax.Node) (earlier : List Syntax.Node) : Search Unit := do
  (declaratorsIn node).forM declare
  reportNode node
  visitWithPlugins node
  earlier.forM walkChild

/-- What a walk does up to some children is followed by the walk through the next ones. -/
theorem upTo_append (node : Syntax.Node) (earlier later : List Syntax.Node) :
    upTo node (earlier ++ later) = upTo node earlier >>= fun _ => later.forM walkChild := by
  have behind : (earlier ++ later).forM walkChild = earlier.forM walkChild >>= fun _ => later.forM walkChild :=
    List.forM_append
  simp only [upTo, behind, bind_assoc]

theorem upTo_concat (node : Syntax.Node) (earlier : List Syntax.Node) (child : Syntax.Node) :
    upTo node (earlier ++ [child]) = upTo node earlier >>= fun _ => walkChild child := by
  rw [upTo_append]
  exact bind_congr fun _ => List.forM_cons.trans bind_pure_unit

theorem forM_attach {α : Type} (items : List α) (step : α → Search Unit) :
    (items.attach.forM fun item => step item.1) = items.forM step := by
  have mapped : (items.attach.map Subtype.val).forM step = items.attach.forM fun item => step item.1 := List.forM_map
  rw [← mapped, List.attach_map_subtype_val]

theorem walk_eq (node : Syntax.Node) :
    walk node = if opensScope node then inScope (upTo node node.children) else upTo node node.children := by
  rw [walk, upTo, ← forM_attach node.children]
  rfl

end Search

namespace Proofs.SearchWalks

open Catalog SearchFailures SearchSteps SiteReports Syntax

variable {task : Task} {situation : Situation} {kind : Key → Prop}

section Declarations

/-- What is known of declarations before a failure in one of them stays known. -/
theorem outcome_declare (task : Task) (declarator : Node) (findings : Findings) :
    outcome (Search.declare declarator) task findings =
      match findings.constants.declare declarator with
      | .error failure => (.error failure, findings)
      | .ok constants =>
        let declared := (Scopes.declare task.settings.extraction declarator).run.run findings.scopes
        (declared.1, { findings with scopes := declared.2, constants }) := by
  have attempted (findings : Findings) :
      outcome (Search.attempt (findings.constants.declare declarator)) task findings =
        (findings.constants.declare declarator, findings) := rfl
  cases known : findings.constants.declare declarator with
  | error failure => exact (run_bind_ok rfl).trans (run_bind_error ((attempted findings).trans (congrArg (·, _) known)))
  | ok constants =>
    refine (run_bind_ok rfl).trans ?_
    refine (run_bind_ok ((attempted findings).trans (congrArg (·, _) known))).trans ?_
    refine (run_bind_ok rfl).trans ?_
    refine (run_bind_ok rfl).trans ?_
    refine (run_bind_ok rfl).trans ?_
    exact run_bind_ok rfl

theorem finds_declare (declarator : Node) : Finds situation kind (Search.declare declarator) := by
  have ran (keys : KeyMap) (journal : Journal) :=
    outcome_declare situation.task declarator (situation.holding keys journal)
  simp only [Situation.holding] at ran
  cases known : situation.constants.declare declarator with
  | error failure =>
    rw [known] at ran
    exact ⟨_, .silent (.error (legible_declare situation.constants declarator failure known)) ran⟩
  | ok constants =>
    rw [known] at ran
    exact ⟨_, .silent (legible_declareScopes situation.extraction declarator situation.scopes) ran⟩

theorem uniform_declarations (node : Node) :
    Uniform task kind ((declaratorsIn node).forM Search.declare) :=
  .forM fun declarator _ _ _ => finds_declare declarator

end Declarations

section Hooks

/-- What plugins are told to have failed in, when they have. -/
def toldOfSteps (plugin : Plugin) (reason : Option String) : Journal :=
  { messages := (reason.map (plugin.failureMessage "on_visit_node")).toList }

/-- A hook's steps make of the keys what they can, and a failure in them is told. -/
theorem outcome_takeSteps (plugin : Plugin) (hook : VisitHook) (findings : Findings) :
    outcome (do
      let (keys, failure) := KeyStep.run (← Search.extraction).defaultNamespace hook.steps (← get).keys
      modify fun findings => { findings with keys }
      failure.forM (Search.warnOfHook plugin "on_visit_node")) task findings =
    let taken := KeyStep.run task.settings.extraction.defaultNamespace hook.steps findings.keys
    (.ok (), { findings with
      keys := taken.1
      journal := findings.journal.followedBy (toldOfSteps plugin taken.2) }) := by
  refine (run_bind_ok rfl).trans ?_
  refine (run_bind_ok rfl).trans ?_
  refine (run_bind_ok rfl).trans ?_
  dsimp only
  generalize KeyStep.run task.settings.extraction.defaultNamespace hook.steps findings.keys = taken
  obtain ⟨keys, reason⟩ := taken
  cases reason with
  | none => exact congrArg (fun journal => (_, { findings with keys, journal })) (Journal.followedBy_empty _).symm
  | some text =>
    have told : findings.journal.followedBy (toldOfSteps plugin (some text)) =
        { findings.journal with
          messages := findings.journal.messages ++ [plugin.failureMessage "on_visit_node" text] } := by
      simp [Journal.followedBy, toldOfSteps]
    rw [told]
    rfl

/-- The keys that a hook's steps find and leave out depend on those found before, and so does what is told of them. -/
theorem finds_takeSteps {plugin : Plugin} {hook : VisitHook} (known : plugin ∈ situation.task.settings.plugins)
    (given : plugin.visit = some hook) : Finds situation kind (do
    let (keys, failure) := KeyStep.run (← Search.extraction).defaultNamespace hook.steps (← get).keys
    modify fun findings => { findings with keys }
    failure.forM (Search.warnOfHook plugin "on_visit_node")) := by
  let taken (keys : KeyMap) := KeyStep.run situation.extraction.defaultNamespace hook.steps keys
  have possible : (KeyAct.hook hook.steps).Possible situation.task.settings kind := ⟨plugin, known, hook, given, rfl⟩
  refine ⟨⟨.ok (), situation.scopes, situation.constants, fun keys => (taken keys).1,
    fun keys => toldOfSteps plugin (taken keys).2⟩, ?_, .ok (), ?_, .single possible⟩
  · intro keys journal
    exact outcome_takeSteps plugin hook (situation.holding keys journal)
  · intro keys message member
    obtain ⟨reason, -, rfl⟩ := Option.map_eq_some_iff.mp (Option.mem_toList.mp member)
    rfl

theorem uniform_record (text : String) : Uniform task kind (Search.record text) := by
  intro scopes constants
  refine ⟨⟨.ok (), scopes, constants, id, fun _ => ⟨[], [text]⟩⟩, ?_, .ok (), fun _ => List.forall_mem_nil _, .nothing⟩
  intro keys journal
  simp only [Effect.after, Journal.followedBy, List.append_nil]
  rfl

theorem uniform_resolve (name : String) : Uniform task kind (Search.resolve name) :=
  fun _ _ => (reports_resolve name).finds

theorem uniform_warn (text : String) : Uniform task kind (Search.warn text) :=
  fun _ _ => (reports_warn text).finds

theorem uniform_visitWith {plugin : Plugin} {hook : VisitHook} (known : plugin ∈ task.settings.plugins)
    (given : plugin.visit = some hook) (node : Node) : Uniform task kind (Search.visitWith plugin hook node) := by
  refine .ite (.ite (uniform_warn _) ?_) (.pure ())
  split
  · exact uniform_warn _
  extract_lets further
  have uniform : ∀ unused, Uniform task kind (further unused) := by
    intro unused
    refine .ite ?_ (.pure ())
    exact fun _ _ => finds_takeSteps known given
  clear_value further
  split
  · refine (uniform_resolve node.text).bind fun binding => ?_
    exact (uniform_record _).bind uniform
  · exact uniform ()

theorem uniform_visitWithPlugins (node : Node) : Uniform task kind (Search.visitWithPlugins node) := by
  refine Uniform.read (.forM fun plugin known => ?_)
  cases given : plugin.visit with
  | none => exact .pure ()
  | some hook => exact uniform_visitWith known given node

/-- No hook of a plugin changes what is known of declarations. -/
theorem moves_visitWith (plugin : Plugin) (hook : VisitHook) (node : Node) :
    Moves Eq task (Search.visitWith plugin hook node) := by
  have same : ∀ first second third : Situation, first = second → second = third → first = third :=
    fun _ _ _ => Eq.trans
  refine .ite (.ite (fun _ => rfl) ?_) fun _ => rfl
  split
  · exact fun _ => rfl
  extract_lets further
  have moves : ∀ unused, Moves Eq task (further unused) := by
    intro unused
    refine .ite (fun findings => ?_) fun _ => rfl
    rw [outcome_takeSteps]
    rfl
  clear_value further
  split
  · refine Moves.bind same (fun _ => rfl) fun binding => ?_
    exact Moves.bind same (fun _ => rfl) moves
  · exact moves ()

theorem moves_visitWithPlugins (node : Node) : Moves Eq task (Search.visitWithPlugins node) := by
  have same : ∀ first second third : Situation, first = second → second = third → first = third :=
    fun _ _ _ => Eq.trans
  refine .bind same (fun _ => rfl) fun task => .forM (fun _ => rfl) same fun plugin _ => ?_
  cases plugin.visit with
  | none => exact fun _ => rfl
  | some hook => exact moves_visitWith plugin hook node

theorem moves_reportNode (node : Node) : Moves Eq task (Search.reportNode node) :=
  .of_reports (fun _ => rfl) fun _ _ => (reports_reportNode node).widen fun _ _ => trivial

end Hooks

section Walks

/-- The situation in which a walk begins to look at a node. -/
def entering (situation : Situation) (node : Node) : Situation :=
  if opensScope node then { situation with scopes := situation.scopes.enter [] } else situation

/-- A node on the way to another, and the children of it before the one that the way leads through. -/
structure Stage where
  node : Node
  earlier : List Node

/-- A walk from a node comes on a way to a node, in the situation in which it reports its keys. -/
inductive Reaches : Situation → Node → List Stage → Situation → Node → Prop
  | here {situation node}
      (declared : Gives (entering situation node) ((declaratorsIn node).forM Search.declare) ()) :
      Reaches situation node [⟨node, []⟩] ((entering situation node).after ((declaratorsIn node).forM Search.declare)) node
  | inside {situation node earlier child later way there found} (children : node.children = earlier ++ child :: later)
      (seen : child.kind ≠ .operator) (before : Gives (entering situation node) (Search.upTo node earlier) ())
      (below : Reaches ((entering situation node).after (Search.upTo node earlier)) child way there found) :
      Reaches situation node (⟨node, earlier⟩ :: way) there found

/-- Whether a walk from a node comes to a node at whose sites a key is seen. -/
def ShownFrom (situation : Situation) (node : Node) (key : Key) : Prop :=
  ∃ way there found, Reaches situation node way there found ∧ ShownAt there found key

theorem finds_inScope {step : Search Unit}
    (finds : Finds { situation with scopes := situation.scopes.enter [] } kind step) :
    Finds situation kind (Search.inScope step) := by
  obtain ⟨effect, does⟩ := finds
  refine ⟨{ effect with scopes := effect.scopes.exit }, ?_, does.legible, does.warns, does.made⟩
  intro keys journal
  exact run_inScope (situation.holding keys journal) (does.runs keys journal)

theorem finds_walk (node : Node) : Finds situation (ShownFrom situation node) (Search.walk node) := by
  induction size : node.size using Nat.strongRecOn generalizing node situation with
  | ind bound ih =>
    subst size
    have finds (earlier later : List Node) (children : node.children = earlier ++ later) :
        Finds (entering situation node) (ShownFrom situation node) (Search.upTo node earlier) := by
      induction earlier using List.reverseRecOn generalizing later with
      | nil =>
        refine Finds.bind (uniform_declarations node _ _) fun _ declared => ?_
        refine Finds.bind ((reports_reportNode node).widen fun key shown => ?_).finds fun _ _ => ?_
        · exact ⟨_, _, _, .here declared, shown⟩
        · exact Finds.bind (uniform_visitWithPlugins node _ _) fun _ _ => .pure ()
      | append_singleton earlier child before =>
        rw [Search.upTo_concat]
        have whole : node.children = earlier ++ child :: later := by simpa using children
        refine Finds.bind (before (child :: later) whole) fun _ gives => ?_
        unfold Search.walkChild
        split
        next seen =>
          have inside : child ∈ node.children := by simp [whole]
          refine Finds.mono (ih child.size (Node.size_lt_of_mem_children inside) child rfl) ?_
          rintro key ⟨way, there, found, reaches, shown⟩
          exact ⟨_, there, found, .inside whole seen gives reaches, shown⟩
        next => exact .pure ()
    have whole := finds node.children [] (List.append_nil _).symm
    rw [Search.walk_eq]
    unfold entering at whole
    split
    next opens =>
      rw [if_pos opens] at whole
      exact finds_inScope whole
    next opens =>
      rw [if_neg opens] at whole
      exact whole

theorem uniform_walkChild (child : Node) : Uniform task (fun _ => True) (Search.walkChild child) := by
  unfold Search.walkChild
  split
  · exact fun _ _ => (finds_walk child).mono fun _ _ => trivial
  · exact .pure ()

/-- The situation in which the walk through a source begins: in one scope, with nothing declared. -/
def opening (settings : Settings) (file : String) : Situation :=
  ⟨⟨settings, file⟩, Scopes.enter {} [], []⟩

theorem finds_source (settings : Settings) (file : String) (root : Node) :
    Finds ⟨⟨settings, file⟩, {}, []⟩ (ShownFrom (opening settings file) root) (Search.inScope (Search.walk root)) :=
  finds_inScope (finds_walk root)

end Walks

end Proofs.SearchWalks

end Phrasebook
