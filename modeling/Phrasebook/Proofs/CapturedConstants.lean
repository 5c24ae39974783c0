import Phrasebook.Proofs.PossibleTexts
import Phrasebook.Proofs.SearchWalks

/-! Which declaration tells the text of a constant that a call names. All constants of a source are in one table, so it is
the last declaration of the name that the walk has come by before it comes to the call, whether or not it stands around
the call: that of an earlier function counts, too. -/

namespace Phrasebook.Proofs.CapturedConstants

open PossibleTexts SearchSteps SearchWalks SiteReports Syntax

variable {task : Task}

section Captures

/-- The declarators that a walk through a node captures, in the order in which it captures them. -/
def capturedIn (node : Node) : List Node :=
  declaratorsIn node ++ node.children.attach.flatMap fun ⟨child, member⟩ =>
    have : child.size < node.size := Node.size_lt_of_mem_children member
    if child.kind ≠ .operator then capturedIn child else []
termination_by node.size

/-- The declarators that a walk captures at a child. -/
def capturedAt (child : Node) : List Node := if child.kind ≠ .operator then capturedIn child else []

theorem capturedIn_eq (node : Node) : capturedIn node = declaratorsIn node ++ node.children.flatMap capturedAt := by
  have children : (node.children.attach.flatMap fun child => capturedAt child.1) = node.children.flatMap capturedAt := by
    rw [← List.flatMap_map, List.attach_map_subtype_val]
  rw [capturedIn, ← children]
  rfl

/-- A step that ends well leaves the constants as the declarators make them, one behind the other. -/
def Captures (task : Task) (step : Search Unit) (declarators : List Node) : Prop :=
  ∀ findings later, outcome step task findings = (.ok (), later) →
    declarators.foldlM Constants.declare findings.constants = .ok later.constants

namespace Captures

theorem bind {step : Search Unit} {next : Unit → Search Unit} {first second : List Node}
    (one : Captures task step first) (two : Captures task (next ()) second) :
    Captures task (step >>= next) (first ++ second) := by
  intro findings later ran
  rw [List.foldlM_append]
  cases begun : outcome step task findings with
  | mk result between =>
    cases result with
    | error failure =>
      rw [run_bind_error begun] at ran
      cases ran
    | ok value =>
      rw [run_bind_ok begun] at ran
      rw [one findings between begun]
      exact two between later ran

theorem forM {step : Node → Search Unit} {captured : Node → List Node} {items : List Node}
    (each : ∀ item ∈ items, Captures task (step item) (captured item)) :
    Captures task (items.forM step) (items.flatMap captured) := by
  induction items with
  | nil =>
    intro findings later ran
    obtain ⟨-, rfl⟩ := Prod.mk.inj ran
    rfl
  | cons item items ih =>
    rw [List.flatMap_cons]
    exact (each item List.mem_cons_self).bind (ih fun other member => each other (List.mem_cons_of_mem _ member))

theorem of_unchanged {step : Search Unit} (moves : Moves Eq task step) : Captures task step [] := by
  intro findings later ran
  have same := moves findings
  rw [ran] at same
  exact congrArg (fun situation => Except.ok situation.constants) same

theorem inScope {step : Search Unit} {declarators : List Node} (captures : Captures task step declarators) :
    Captures task (Search.inScope step) declarators := by
  intro findings later ran
  cases inside : outcome step task { findings with scopes := findings.scopes.enter [] } with
  | mk result between =>
    rw [run_inScope findings inside] at ran
    obtain ⟨rfl, rfl⟩ := Prod.mk.inj ran
    exact captures { findings with scopes := findings.scopes.enter [] } between inside

end Captures

theorem captures_declare (declarator : Node) : Captures task (Search.declare declarator) [declarator] := by
  intro findings later ran
  rw [outcome_declare] at ran
  rw [List.foldlM_cons]
  cases known : findings.constants.declare declarator with
  | error failure =>
    rw [known] at ran
    cases ran
  | ok constants =>
    rw [known] at ran
    obtain ⟨-, rfl⟩ := Prod.mk.inj ran
    rfl

theorem captures_declarations (node : Node) :
    Captures task ((declaratorsIn node).forM Search.declare) (declaratorsIn node) := by
  have captures : Captures task ((declaratorsIn node).forM Search.declare)
      ((declaratorsIn node).flatMap fun declarator => [declarator]) :=
    .forM fun declarator _ => captures_declare declarator
  rwa [List.flatMap_singleton'] at captures

theorem captures_upTo {node : Node} {earlier : List Node}
    (each : ∀ child ∈ earlier, Captures task (Search.walkChild child) (capturedAt child)) :
    Captures task (Search.upTo node earlier) (declaratorsIn node ++ earlier.flatMap capturedAt) := by
  have reported : Captures task (Search.reportNode node) [] := .of_unchanged (moves_reportNode node)
  have visited : Captures task (Search.visitWithPlugins node) [] := .of_unchanged (moves_visitWithPlugins node)
  exact (captures_declarations node).bind (reported.bind (visited.bind (.forM each)))

theorem captures_walkChild (child : Node) : Captures task (Search.walkChild child) (capturedAt child) := by
  induction size : child.size using Nat.strongRecOn generalizing child with
  | ind bound ih =>
    subst size
    unfold Search.walkChild capturedAt
    split
    · have captures : Captures task (Search.upTo child child.children) (capturedIn child) := by
        rw [capturedIn_eq]
        exact captures_upTo fun inner member => ih inner.size (Node.size_lt_of_mem_children member) inner rfl
      rw [Search.walk_eq]
      split
      · exact captures.inScope
      · exact captures
    · exact .of_unchanged fun _ => rfl

end Captures

section Ways

/-- The declarators that a walk captures on a way, in the order in which it captures them. -/
def captured (way : List Stage) : List Node :=
  way.flatMap fun stage => declaratorsIn stage.node ++ stage.earlier.flatMap capturedAt

/-- The declarators that stand around the end of a way, those further out first. -/
def enclosing (way : List Stage) : List Node := way.flatMap fun stage => declaratorsIn stage.node

/-- The declarators that a walk captures on a way, but which do not stand around its end. -/
def aside (way : List Stage) : List Node := way.flatMap fun stage => stage.earlier.flatMap capturedAt

/-- A way leads from a node to one inside it. -/
inductive LeadsTo : Node → List Stage → Node → Prop
  | here {node} : LeadsTo node [⟨node, []⟩] node
  | inside {node earlier child later way found} (children : node.children = earlier ++ child :: later)
      (seen : child.kind ≠ .operator) (below : LeadsTo child way found) : LeadsTo node (⟨node, earlier⟩ :: way) found

variable {situation there : Situation} {node found : Node} {way : List Stage}

theorem constants_entering (situation : Situation) (node : Node) :
    (entering situation node).constants = situation.constants := by
  unfold entering
  split <;> rfl

theorem task_entering (situation : Situation) (node : Node) : (entering situation node).task = situation.task := by
  unfold entering
  split <;> rfl

theorem Captures.gives {step : Search Unit} {declarators : List Node} (captures : Captures situation.task step declarators)
    (gives : Gives situation step ()) :
    declarators.foldlM Constants.declare situation.constants = .ok (situation.after step).constants :=
  captures situation.start _ (Prod.ext gives rfl)

/-- Where a walk comes to a node, the constants are those that the declarators on its way make. -/
theorem constants_of_reaches (reaches : Reaches situation node way there found) :
    there.task = situation.task ∧
      (captured way).foldlM Constants.declare situation.constants = .ok there.constants := by
  induction reaches with
  | here declared =>
    rename_i situation node
    have captures := Captures.gives (captures_declarations node) declared
    rw [constants_entering] at captures
    refine ⟨task_entering situation node, ?_⟩
    simpa [captured] using captures
  | inside children seen before below ih =>
    rename_i situation node earlier child later way there found
    obtain ⟨sameTask, folded⟩ := ih
    have captures := Captures.gives (captures_upTo fun child _ => captures_walkChild child) before
    rw [constants_entering] at captures
    refine ⟨sameTask.trans (task_entering situation node), ?_⟩
    rw [captured, List.flatMap_cons, List.foldlM_append, captures]
    exact folded

theorem gives_first {step : Search Unit} {next : Unit → Search Unit} (gives : Gives situation (step >>= next) ()) :
    Gives situation step () := by
  cases ran : outcome step situation.task situation.start with
  | mk result later =>
    cases result with
    | ok value => exact congrArg Prod.fst ran
    | error failure =>
      rw [Gives, run_bind_error ran] at gives
      cases gives

theorem gives_second {step : Search Unit} {next : Unit → Search Unit} (gives : Gives situation (step >>= next) ())
    (uniform : Uniform situation.task (fun _ => True) (next ())) : Gives (situation.after step) (next ()) () :=
  (Finds.outcome_bind (gives_first gives) (uniform _ _)).1.symm.trans gives

/-- A walk that ends well has been through all children of the node. -/
theorem gives_upTo (gives : Gives situation (Search.walk node) ()) :
    Gives (entering situation node) (Search.upTo node node.children) () := by
  rw [Search.walk_eq] at gives
  unfold entering
  split at gives
  next opens =>
    rw [if_pos opens]
    cases ran : outcome (Search.upTo node node.children) situation.task
        { situation.start with scopes := situation.scopes.enter [] } with
    | mk result later =>
      rw [Gives, run_inScope situation.start ran] at gives
      exact (congrArg Prod.fst ran).trans gives
  next opens =>
    rw [if_neg opens]
    exact gives

/-- A walk that ends well comes to every node inside. -/
theorem reaches_of_gives (leads : LeadsTo node way found) (gives : Gives situation (Search.walk node) ()) :
    ∃ there, Reaches situation node way there found := by
  induction leads generalizing situation with
  | here => exact ⟨_, .here (gives_first (gives_upTo gives))⟩
  | inside children seen below ih =>
    rename_i node earlier child later way found
    have through := gives_upTo gives
    rw [children, Search.upTo_append] at through
    have before := gives_first through
    have uniform : Uniform (entering situation node).task (fun _ => True) ((child :: later).forM Search.walkChild) :=
      .forM fun child _ => uniform_walkChild child
    have inside : Gives ((entering situation node).after (Search.upTo node earlier)) (Search.walkChild child) () :=
      gives_first (gives_second through uniform)
    rw [Search.walkChild, if_pos seen] at inside
    obtain ⟨there, reaches⟩ := ih inside
    exact ⟨there, .inside children seen before reaches⟩

end Ways

section Texts

/-- The value that a declarator gives to a name, when it declares the name by itself. -/
def valueFor? (name : String) (declarator : Node) : Option Node :=
  match declarator.child? .name with
  | some target =>
    if target.kind = .identifier ∧ target.text = name then (declarator.child? .value).bind Node.unwrap else none
  | none => none

/-- The text that a declarator gives to a name by a string, unless it is empty. -/
def textFor? (name : String) (declarator : Node) : Option String :=
  match valueFor? name declarator with
  | some value =>
    match value.stringValue? with
    | .ok text => text.filter (· ≠ "")
    | .error _ => none
  | none => none

/-- The text that the last of some declarators of a name gives it. -/
def lastText? (name : String) (declarators : List Node) : Option String :=
  (declarators.filterMap (textFor? name)).getLast?

variable {constants known : Constants} {name : String} {declarator value : Node}

/-- A string gives the constant with its text, unless that is empty. -/
theorem constant?_of_literal (literal : value.kind = .stringLiteral) :
    constants.constant? value = value.stringValue?.map fun text =>
      (text.filter (· ≠ "")).map fun text => .texts [text] := by
  have plain : value.kind ≠ .asExpression ∧ value.kind ≠ .satisfiesExpression ∧ value.kind ≠ .object := by
    simp [literal]
  unfold Constants.constant?
  simp only [plain, or_self, if_false, pure_bind, List.isEmpty_nil, if_true, possibleTexts_of_literal literal]
  cases value.stringValue? with
  | error failure => rfl
  | ok text =>
    cases text with
    | none => rfl
    | some text =>
      by_cases empty : text = ""
      · simp only [onlyText, empty, Except.map, Option.filter, bind, Except.bind]
        rfl
      · have kept : onlyText false (some text) = [text] := by simp [onlyText, empty]
        simp only [kept, Except.map, Option.filter, decide_eq_true empty, bind, Except.bind]
        rfl

theorem texts_put_self (texts : List String) : Constants.texts (Table.put name (.texts texts) constants) name = texts := by
  rw [Constants.texts, Table.find?_put_self]

theorem texts_put_other {other : String} (different : other ≠ name) (constant : Constant) :
    Constants.texts (Table.put name constant constants) other = constants.texts other := by
  rw [Constants.texts, Table.find?_put_other different, Constants.texts]

/-- What a declarator does to the texts of a name: they become those of the constant that it gives to the name, or they
stay as they were, if it gives none. -/
theorem declare_cases (name : String) (declared : constants.declare declarator = .ok known) :
    (∃ value constant, valueFor? name declarator = some value ∧ constants.constant? value = .ok (some constant) ∧
      known = Table.put name constant constants) ∨
    known.texts name = constants.texts name ∧
      ∀ value ∈ valueFor? name declarator, constants.constant? value = .ok none := by
  have untouched (nothing : valueFor? name declarator = none) :
      ∀ value ∈ valueFor? name declarator, constants.constant? value = .ok none := by simp [nothing]
  unfold Constants.declare at declared
  split at declared
  next target value named given =>
    have valueFor : valueFor? name declarator =
        if target.kind = .identifier ∧ target.text = name then some value else none := by
      simp only [valueFor?, named, given]
    split at declared
    next identifier =>
      obtain ⟨constant, tells, put⟩ := bind_eq_ok declared
      by_cases same : target.text = name
      · rw [if_pos ⟨identifier, same⟩] at valueFor
        cases constant with
        | none =>
          obtain rfl := Except.ok.inj put
          refine .inr ⟨rfl, fun found held => ?_⟩
          obtain rfl := Option.some.inj (valueFor.symm.trans held)
          exact tells
        | some constant =>
          obtain rfl := Except.ok.inj put
          exact .inl ⟨value, constant, valueFor, tells, by rw [same]⟩
      · refine .inr ⟨?_, untouched (valueFor.trans (if_neg fun here => same here.2))⟩
        cases constant with
        | none => exact congrArg (Constants.texts · name) (Except.ok.inj put).symm
        | some constant =>
          obtain rfl := Except.ok.inj put
          exact texts_put_other (Ne.symm same) constant
    next unnamed =>
      obtain rfl := Except.ok.inj declared
      exact .inr ⟨rfl, untouched (valueFor.trans (if_neg fun here => unnamed here.1))⟩
  next missing =>
    obtain rfl := Except.ok.inj declared
    refine .inr ⟨rfl, untouched ?_⟩
    unfold valueFor?
    split
    next target named =>
      split
      · exact Option.eq_none_iff_forall_ne_some.mpr fun value given => missing target value named given
      · rfl
    next => rfl

theorem constant_of_literal {constant : Option Constant} (given : valueFor? name declarator = some value)
    (literal : value.kind = .stringLiteral) (tells : constants.constant? value = .ok constant) :
    constant = (textFor? name declarator).map fun text => .texts [text] := by
  rw [constant?_of_literal literal] at tells
  rw [textFor?, given]
  dsimp only
  cases told : value.stringValue? with
  | error failure =>
    rw [told] at tells
    cases tells
  | ok text =>
    rw [told] at tells
    exact (Except.ok.inj tells).symm

/-- A declarator that gives a name a string leaves the name with that text, and any other leaves it as it was. -/
theorem texts_of_declare (declared : constants.declare declarator = .ok known)
    (literal : ∀ value ∈ valueFor? name declarator, value.kind = .stringLiteral) :
    known.texts name = ((textFor? name declarator).map fun text => [text]).getD (constants.texts name) := by
  rcases declare_cases name declared with ⟨value, constant, given, tells, rfl⟩ | ⟨same, silent⟩
  · have told := constant_of_literal given (literal value given) tells
    obtain ⟨text, known, rfl⟩ := Option.map_eq_some_iff.mp told.symm
    rw [known, texts_put_self]
    rfl
  · have untold : textFor? name declarator = none := by
      cases given : valueFor? name declarator with
      | none => rw [textFor?, given]
      | some value =>
        have nothing := constant_of_literal given (literal value given) (silent value given)
        exact Option.map_eq_none_iff.mp nothing.symm
    rw [untold, same]
    rfl

/-- Declarators that give a name nothing but strings leave it with the last of those that is not empty. -/
theorem texts_of_declarators {declarators : List Node}
    (declared : declarators.foldlM Constants.declare constants = .ok known)
    (literals : ∀ declarator ∈ declarators, ∀ value ∈ valueFor? name declarator, value.kind = .stringLiteral) :
    known.texts name = ((lastText? name declarators).map fun text => [text]).getD (constants.texts name) := by
  induction declarators using List.reverseRecOn generalizing known with
  | nil =>
    obtain rfl := Except.ok.inj declared
    rfl
  | append_singleton earlier last ih =>
    rw [List.foldlM_append] at declared
    obtain ⟨between, before, declared⟩ := bind_eq_ok declared
    have one : between.declare last = .ok known := by
      simpa using declared
    have here := texts_of_declare one (literals last (by simp))
    rw [here, lastText?, List.filterMap_append]
    cases told : textFor? name last with
    | some text => simp [told]
    | none =>
      simpa [told, lastText?] using ih before fun declarator member =>
        literals declarator (List.mem_append_left _ member)

end Texts

section Keys

variable {settings : Settings} {file : String} {root call name argument : Node} {way : List Stage}

theorem gives_keysOfArgument {there : Situation} (unplugged : there.task.settings.plugins = [])
    (plain : argument.unwrap = some name) (identifier : name.kind = .identifier) :
    Gives there (Search.keysOfArgument argument)
      (if name.text = "undefined" then [] else there.constants.texts name.text, false) := by
  have named : Yields there (Search.keyTexts name) _ [] :=
    yields_keyTexts unplugged (possibleTexts_of_identifier identifier)
  unfold Search.keysOfArgument
  rw [plain]
  dsimp only
  rw [if_neg (by simp [identifier]), if_neg (by simp [identifier])]
  have whole : Yields there (Search.keyTexts name >>= fun texts => pure (texts, false)) _ [] := named.after (.pure _)
  exact whole.gives

theorem filterMap_captured {text? : Node → Option String} (nothing : ∀ declarator ∈ aside way, text? declarator = none) :
    (captured way).filterMap text? = (enclosing way).filterMap text? := by
  induction way with
  | nil => rfl
  | cons stage way ih =>
    have here : (stage.earlier.flatMap capturedAt).filterMap text? = [] :=
      List.filterMap_eq_nil_iff.mpr fun declarator member => nothing declarator (List.mem_append_left _ member)
    have further := ih fun declarator member => nothing declarator (List.mem_append_right _ member)
    simp only [captured, enclosing, List.flatMap_cons, List.filterMap_append, here, List.append_nil] at further ⊢
    rw [further]

/-- A search that ends well has walked through the whole source. -/
theorem gives_of_searchSource {code : String} {findings : Findings} (parsed : parse? (Dialect.ofPath file) code = some root)
    (searched : (searchSource settings file code findings).1 = .ok ()) :
    Gives (opening settings file) (Search.walk root) () := by
  obtain ⟨effect, does⟩ : Finds (opening settings file) _ (Search.walk root) := finds_walk root
  have ran := run_inScope { findings with scopes := {}, constants := [] } (does.runs findings.keys findings.journal)
  rw [searchSource, parsed] at searched
  have ended : effect.result = .ok () := (congrArg Prod.fst ran).symm.trans searched
  exact (congrArg Prod.fst (does.runs [] {})).trans ended

/-- The keys that a call names by a constant are the text of the last declarator of it that the walk has come by before it
comes to the call, where no plugin has a say and all those declarators give it strings. That is the innermost one around
the call unless another one was captured behind it. A search that ends well comes to every call. -/
theorem keys_of_constant (settings : Settings) (unplugged : settings.plugins = []) (file code : String) (root : Node)
    (parsed : parse? (Dialect.ofPath file) code = some root) (way : List Stage) (call name : Node)
    (leads : LeadsTo root way call) (identifier : name.kind = .identifier)
    (literals : ∀ declarator ∈ captured way, ∀ value ∈ valueFor? name.text declarator, value.kind = .stringLiteral) :
    (∀ there, Reaches (opening settings file) root way there call → ∀ argument ∈ call.callArguments.head?,
      argument.unwrap = some name → Gives there (Search.keysOfArgument argument)
        (if name.text = "undefined" then [] else (lastText? name.text (captured way)).toList, false)) ∧
    ((∀ declarator ∈ aside way, textFor? name.text declarator = none) →
      lastText? name.text (captured way) = lastText? name.text (enclosing way)) ∧
    ∀ findings, (searchSource settings file code findings).1 = .ok () →
      ∃ there, Reaches (opening settings file) root way there call := by
  refine ⟨fun there reaches argument _ plain => ?_, fun none => ?_, fun findings searched => ?_⟩
  · obtain ⟨sameTask, declared⟩ := constants_of_reaches reaches
    have texts := texts_of_declarators declared literals
    have unpluggedThere : there.task.settings.plugins = [] := by
      rw [sameTask]
      exact unplugged
    have gives := gives_keysOfArgument unpluggedThere plain identifier
    rw [texts] at gives
    cases told : lastText? name.text (captured way) <;> rw [told] at gives <;> exact gives
  · exact congrArg List.getLast? (filterMap_captured none)
  · exact reaches_of_gives leads (gives_of_searchSource parsed searched)

end Keys

section Examples

def plainSettings : Settings := { locales := ["en"], extraction := {} }

def sourceFile : String := "src/a.ts"

/-- The way from a node through the children at the given places, and the node at its end. -/
def wayAlong (node : Node) : List Nat → Option (List Stage × Node)
  | [] => some ([⟨node, []⟩], node)
  | place :: rest =>
    match node.children[place]? with
    | some child =>
      if child.kind ≠ .operator then
        (wayAlong child rest).map fun (way, found) => (⟨node, node.children.take place⟩ :: way, found)
      else none
    | none => none

theorem leadsTo_of_wayAlong {node found : Node} {places : List Nat} {way : List Stage}
    (along : wayAlong node places = some (way, found)) : LeadsTo node way found := by
  induction places generalizing node way with
  | nil =>
    obtain ⟨rfl, rfl⟩ := Prod.mk.inj (Option.some.inj along)
    exact .here
  | cons place rest ih =>
    unfold wayAlong at along
    split at along
    next child there =>
      split at along
      next seen =>
        obtain ⟨⟨below, inner⟩, alongBelow, same⟩ := Option.map_eq_some_iff.mp along
        obtain ⟨rfl, rfl⟩ := Prod.mk.inj same
        obtain ⟨inside, held⟩ := List.getElem?_eq_some_iff.mp there
        have children : node.children = node.children.take place ++ child :: node.children.drop (place + 1) := by
          rw [← held, List.getElem_cons_drop, List.take_append_drop]
        exact .inside children seen (ih alongBelow)
      next => cases along
    next => cases along

/-- A call in a text: the tree, the way to the call, the call, and the name that it is given. -/
structure CallIn where
  root : Node
  way : List Stage
  call : Node
  argument : Node
  name : Node

def callIn? (code : String) (places : List Nat) : Option CallIn :=
  (parse? (Dialect.ofPath sourceFile) code).bind fun root =>
    (wayAlong root places).bind fun (way, call) =>
      (call.callArguments.head?).bind fun argument =>
        argument.unwrap.map fun name => { root, way, call, argument, name }

/-- Whether a call names a constant to which nothing but strings are given, the last of them a given text. -/
def namesConstant (found : CallIn) (text : String) : Bool :=
  found.name.kind = .identifier && found.name.text ≠ "undefined" &&
    (captured found.way).all (fun declarator =>
      (valueFor? found.name.text declarator).all fun value => value.kind = .stringLiteral) &&
    lastText? found.name.text (captured found.way) = some text

def shadowingCode : String := "const K = 'outer'; function f() \x7b const K = 'inner'; t(K); \x7d"

/-- A call in a function that declares a constant names the constant of that function. -/
theorem inner_constant_names_key :
    ∃ found, callIn? shadowingCode [1, 2, 1, 0] = some found ∧ ∃ there,
      Reaches (opening plainSettings sourceFile) found.root found.way there found.call ∧
      Gives there (Search.keysOfArgument found.argument) (["inner"], false) := by
  have checked : (callIn? shadowingCode [1, 2, 1, 0]).map (namesConstant · "inner") = some true := by decide +kernel
  have ended : (searchSource plainSettings sourceFile shadowingCode {}).1.isOk = true := by decide +kernel
  obtain ⟨found, there, named⟩ := Option.map_eq_some_iff.mp checked
  obtain ⟨root, parsed, further⟩ := Option.bind_eq_some_iff.mp there
  obtain ⟨⟨way, call⟩, along, further⟩ := Option.bind_eq_some_iff.mp further
  obtain ⟨argument, first, further⟩ := Option.bind_eq_some_iff.mp further
  obtain ⟨name, plain, rfl⟩ := Option.map_eq_some_iff.mp further
  simp only [namesConstant, Bool.and_eq_true, decide_eq_true_eq, List.all_eq_true, Option.all_eq_true] at named
  obtain ⟨⟨⟨identifier, defined⟩, literals⟩, last⟩ := named
  obtain ⟨keys, -, reached⟩ := keys_of_constant plainSettings rfl sourceFile shadowingCode root parsed way call name
    (leadsTo_of_wayAlong along) identifier literals
  have searched : (searchSource plainSettings sourceFile shadowingCode {}).1 = .ok () := by
    cases result : (searchSource plainSettings sourceFile shadowingCode {}).1 with
    | ok value => rfl
    | error failure =>
      rw [result] at ended
      cases ended
  obtain ⟨situation, reaches⟩ := reached {} searched
  have gives := keys situation reaches argument first plain
  rw [if_neg defined, last] at gives
  exact ⟨_, there, situation, reaches, gives⟩

def sideCode : String := "const K = 'outer'; function f() \x7b const K = 'inner'; \x7d t(K);"

/-- A constant of a function gives the key of a call behind that function, although the declaration that stands around the
call is another one. -/
theorem constant_of_function_names_key :
    (callIn? sideCode [2, 0]).map (fun found => (lastText? found.name.text (enclosing found.way),
      lastText? found.name.text (captured found.way))) = some (some "outer", some "inner") ∧
    Table.names (searchSource plainSettings sourceFile sideCode {}).2.keys = ["translation:inner"] := by
  exact ⟨by decide +kernel, by decide +kernel⟩

end Examples

end Phrasebook.Proofs.CapturedConstants
