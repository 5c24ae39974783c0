import Phrasebook.Search.Call
import Phrasebook.Search.Element
import Phrasebook.Search.Hint

/-! Searching whole sources: every node is looked at in source order, before the nodes inside it, with the
declarations around it in force. -/

namespace Phrasebook

open Catalog Syntax

def opensScope (node : Node) : Bool :=
  match node.kind with
  | .arrowFunction | .functionExpression | .functionDeclaration | .generatorFunction
  | .generatorFunctionDeclaration | .methodDefinition | .statementBlock | .classBody => true
  | _ => false

/-- The declarators directly inside a node, those of exported declarations included. -/
def declaratorsIn (node : Node) : List Node :=
  node.parts.flatMap fun part =>
    match if part.kind = .exportStatement then part.child? .declaration else some part with
    | some declaration =>
      if declaration.kind = .lexicalDeclaration || declaration.kind = .variableDeclaration then
        declaration.parts.filter fun declarator => declarator.kind = .variableDeclarator
      else []
    | none => []

namespace Binding

def toValue (binding : Binding) : Value :=
  let textOrNull (text : Option String) : Value := text.elim .null .text
  .object
    [("namespace", match binding.namespaces with
      | some (.one name) => .text name
      | some (.several names) => .list (names.map .text)
      | none => .null),
     ("default_namespace", textOrNull binding.defaultNamespace),
     ("key_prefix", textOrNull binding.keyPrefix),
     ("alias_name", textOrNull binding.aliasName),
     ("alias_kind", .text binding.aliasKind.name)]

end Binding

namespace Search

def declare (declarator : Node) : Search Unit := do
  let constants ← attempt ((← get).constants.declare declarator)
  modify fun findings => { findings with constants }
  let (result, scopes) := (Scopes.declare (← extraction) declarator).run (← get).scopes
  modify fun findings => { findings with scopes }
  attempt result

def visitWith (plugin : Plugin) (hook : VisitHook) (node : Node) : Search Unit := do
  if hook.kind = node.kind.name then
    if hook.awaited then warnOfPromise plugin "on_visit_node"
    else
      match hook.failure with
      | some message => warnOfHook plugin "on_visit_node" message
      | none =>
        if hook.recordsBinding then
          let binding ← resolve node.text
          record (plugin.signature ++ " visit " ++ node.text ++ " " ++
            Value.render .oneLine ((binding.map Binding.toValue).getD .null))
        if hook.texts.all fun texts => texts.contains node.text then
          let (keys, failure) := KeyStep.run (← extraction).defaultNamespace hook.steps (← get).keys
          modify fun findings => { findings with keys }
          failure.forM (warnOfHook plugin "on_visit_node")

def visitWithPlugins (node : Node) : Search Unit := do
  (← read).settings.plugins.forM fun plugin => plugin.visit.forM fun hook => visitWith plugin hook node

def reportNode (node : Node) : Search Unit := do
  match node.kind with
  | .callExpression => reportCall node none none
  | .jsxElement | .jsxSelfClosingElement => reportElement node
  | .comment => reportHints node
  | _ => pure ()

/-- Takes a step in a scope of its own, which ends even if the step fails. -/
def inScope (step : Search Unit) : Search Unit := do
  modify fun findings => { findings with scopes := findings.scopes.enter [] }
  try step
  finally modify fun findings => { findings with scopes := findings.scopes.exit }

def walk (node : Node) : Search Unit := do
  let look : Search Unit := do
    (declaratorsIn node).forM declare
    reportNode node
    visitWithPlugins node
    node.children.attach.forM fun ⟨child, member⟩ => do
      have : child.size < node.size := Node.size_lt_of_mem_children member
      if child.kind ≠ .operator then walk child
  if opensScope node then inScope look else look
termination_by node.size

end Search

/-- Searches a source whose text may be in error. Nothing of what other sources declared is known. -/
def searchSource (settings : Settings) (file code : String) (findings : Findings) :
    Except Failure Unit × Findings :=
  let findings := { findings with scopes := {}, constants := [] }
  match parse? (Dialect.ofPath file) code with
  | none => (.error (.unparsed file), findings)
  | some root => ((Search.inScope (Search.walk root)).run ⟨settings, file⟩).run findings

end Phrasebook
