import Phrasebook.Proofs.LocalDeclarations
import Phrasebook.Proofs.SearchWalks

/-! What a visit leaves of the scopes around it. It declares in the innermost scope alone, and a node that opens a scope
takes what is declared in it away again, whether or not the visit fails. -/

namespace Phrasebook

namespace ScopeStack

/-- A stack has the scopes of another below its innermost one, and still has an innermost one where that has. -/
structure SameBelow (before after : ScopeStack) : Prop where
  tail : after.tail = before.tail
  filled : before ≠ [] → after ≠ []

namespace SameBelow

theorem refl (stack : ScopeStack) : SameBelow stack stack := ⟨rfl, id⟩

theorem trans {first second third : ScopeStack} (one : SameBelow first second) (two : SameBelow second third) :
    SameBelow first third :=
  ⟨two.tail.trans one.tail, two.filled ∘ one.filled⟩

theorem set (stack : ScopeStack) (name : String) (binding : Option Binding) :
    SameBelow stack (stack.set name binding) := by
  cases stack with
  | nil => exact ⟨rfl, fun _ => List.cons_ne_nil _ _⟩
  | cons scope outer => exact ⟨rfl, fun _ => List.cons_ne_nil _ _⟩

theorem length_eq {before after : ScopeStack} (same : SameBelow before after) (filled : before ≠ []) :
    after.length = before.length := by
  obtain ⟨scope, outer, rfl⟩ := List.exists_cons_of_ne_nil filled
  obtain ⟨changed, rest, rfl⟩ := List.exists_cons_of_ne_nil (same.filled filled)
  exact congrArg (·.length + 1) same.tail

theorem length_le_one {after : ScopeStack} (same : SameBelow [] after) : after.length ≤ 1 := by
  cases after with
  | nil => exact Nat.zero_le 1
  | cons scope rest =>
    obtain rfl : rest = [] := same.tail
    exact Nat.le_refl 1

end SameBelow

end ScopeStack

namespace Proofs.ScopeDiscipline

open LocalDeclarations SearchSteps SearchWalks Syntax
open ScopeStack (SameBelow)

section Declarations

variable {extraction : Extraction} {scopes : Scopes} {target value : Node}

theorem sameBelow_foldl_set (names : List String) (binding : Option Binding) (scopes : Scopes) :
    SameBelow scopes.stack (names.foldl (fun scopes name => scopes.set name binding) scopes).stack := by
  induction names generalizing scopes with
  | nil => exact .refl _
  | cons name names ih => exact (SameBelow.set scopes.stack name binding).trans (ih (scopes.set name binding))

theorem sameBelow_declareCall? {bound : Scopes}
    (called : scopes.declareCall? extraction target value = .ok (some bound)) : SameBelow scopes.stack bound.stack := by
  unfold Scopes.declareCall? at called
  split at called
  · cases called
  split at called
  · cases called
  split at called
  · obtain ⟨hooks, -, found⟩ := bind_eq_ok called
    split at found
    · obtain ⟨binding, -, same⟩ := bind_eq_ok found
      obtain rfl := Option.some.inj (Except.ok.inj same)
      exact sameBelow_foldl_set _ _ scopes
    · split at found
      · split at found
        · obtain ⟨binding, -, same⟩ := bind_eq_ok found
          obtain rfl := Option.some.inj (Except.ok.inj same)
          exact .set scopes.stack _ _
        · cases found
      · cases found
  · split at called
    · split at called
      · obtain ⟨binding, -, same⟩ := bind_eq_ok called
        split at same
        · cases same
        · obtain rfl := Option.some.inj (Except.ok.inj same)
          exact .set scopes.stack _ _
      · cases called
    · cases called

theorem sameBelow_declareAlias? {bound : Scopes} (named : scopes.declareAlias? extraction target value = some bound) :
    SameBelow scopes.stack bound.stack := by
  unfold Scopes.declareAlias? at named
  split at named
  · cases named
  · dsimp only at named
    split at named
    · cases named
    · obtain rfl := Option.some.inj named
      exact .set scopes.stack _ _

theorem sameBelow_shadow (scopes : Scopes) (target : Node) : SameBelow scopes.stack (scopes.shadow target).stack := by
  unfold Scopes.shadow
  split
  · exact .set scopes.stack _ _
  · exact .refl _

theorem sameBelow_handed {bound : Scopes} (hands : handed extraction scopes target value = .ok (some bound)) :
    SameBelow scopes.stack bound.stack := by
  unfold handed at hands
  split at hands
  · exact sameBelow_declareCall? hands
  · split at hands
    · exact sameBelow_declareAlias? (Except.ok.inj hands)
    · cases hands

theorem sameBelow_declare (extraction : Extraction) (declarator : Node) (scopes : Scopes) :
    SameBelow scopes.stack ((Scopes.declare extraction declarator).run.run scopes).2.stack := by
  cases named : declarator.child? .name with
  | none =>
    rw [Scopes.declare, named]
    exact .refl _
  | some target =>
    cases given : (declarator.child? .value).bind Node.unwrap with
    | none =>
      rw [Scopes.declare, named, given]
      exact .refl _
    | some written =>
      rw [run_declare extraction scopes named given]
      cases remembers : remembered scopes target written with
      | error failure => exact .refl _
      | ok known =>
        rw [← stack_of_remembered remembers]
        dsimp only
        cases hands : handed extraction known target (valueOf written) with
        | error failure => exact .refl _
        | ok bound =>
          cases bound with
          | none => exact sameBelow_shadow known target
          | some bound => exact sameBelow_handed hands

end Declarations

section Visits

variable {task : Task}

/-- A step declares in the innermost scope alone. -/
def DeclaresWithin (task : Task) (step : Search Unit) : Prop :=
  Moves (fun before after => SameBelow before.scopes.stack after.scopes.stack) task step

theorem declaresWithin_declare (declarator : Node) : DeclaresWithin task (Search.declare declarator) := by
  intro findings
  rw [outcome_declare]
  cases findings.constants.declare declarator with
  | error failure => exact .refl _
  | ok constants => exact sameBelow_declare task.settings.extraction declarator findings.scopes

theorem declaresWithin_of_unchanged {step : Search Unit} (moves : Moves Eq task step) : DeclaresWithin task step := by
  intro findings
  rw [← moves findings]
  exact .refl _

theorem DeclaresWithin.bind {first : Search Unit} {second : Unit → Search Unit} (one : DeclaresWithin task first)
    (two : ∀ value, DeclaresWithin task (second value)) : DeclaresWithin task (first >>= second) :=
  Moves.bind (fun _ _ _ => SameBelow.trans) one two

theorem DeclaresWithin.forM {step : Node → Search Unit} {items : List Node}
    (each : ∀ item ∈ items, DeclaresWithin task (step item)) : DeclaresWithin task (items.forM step) :=
  Moves.forM (fun _ => .refl _) (fun _ _ _ => SameBelow.trans) each

/-- A step in a scope of its own leaves all scopes around it as they were. -/
theorem stack_inScope {step : Search Unit} (within : DeclaresWithin task step) (findings : Findings) :
    (outcome (Search.inScope step) task findings).2.scopes.stack = findings.scopes.stack := by
  have inside := within { findings with scopes := findings.scopes.enter [] }
  rw [run_inScope findings rfl]
  exact inside.tail

theorem declaresWithin_upTo_of_children {node : Node}
    (inside : ∀ child ∈ node.children, DeclaresWithin task (Search.walk child)) :
    DeclaresWithin task (Search.upTo node node.children) := by
  refine .bind (.forM fun declarator _ => declaresWithin_declare declarator) fun _ => ?_
  refine .bind (declaresWithin_of_unchanged (moves_reportNode node)) fun _ => ?_
  refine .bind (declaresWithin_of_unchanged (moves_visitWithPlugins node)) fun _ => ?_
  refine .forM fun child member => ?_
  unfold Search.walkChild
  split
  · exact inside child member
  · exact fun _ => .refl _

theorem declaresWithin_walk (node : Node) : DeclaresWithin task (Search.walk node) := by
  induction size : node.size using Nat.strongRecOn generalizing node with
  | ind bound ih =>
    subst size
    have within : DeclaresWithin task (Search.upTo node node.children) :=
      declaresWithin_upTo_of_children fun child member => ih child.size (Node.size_lt_of_mem_children member) child rfl
    rw [Search.walk_eq]
    split
    · intro findings
      have same := stack_inScope within findings
      exact ⟨congrArg List.tail same, fun filled => same ▸ filled⟩
    · exact within

theorem declaresWithin_upTo (node : Node) : DeclaresWithin task (Search.upTo node node.children) :=
  declaresWithin_upTo_of_children fun child _ => declaresWithin_walk child

end Visits

/-- A visit of a node leaves the scopes below the innermost one as they were, and there are as many scopes as before. A
visit of a node that opens a scope leaves all scopes as they were, so that a call behind it finds every name bound to what
it was bound to. That holds whether the visit ends well or with a failure. Where there was no scope, a node that opens
none can leave one. -/
theorem walk_keeps_outer_scopes (task : Task) (node : Node) (findings : Findings) :
    let visited := (outcome (Search.walk node) task findings).2
    (findings.scopes.stack ≠ [] → visited.scopes.stack.length = findings.scopes.stack.length ∧
      visited.scopes.stack.tail = findings.scopes.stack.tail) ∧
    (findings.scopes.stack = [] → visited.scopes.stack.length ≤ 1) ∧
    (opensScope node = true → visited.scopes.stack = findings.scopes.stack ∧
      ∀ name, (outcome (Search.resolve name) task visited).1 = .ok (findings.scopes.resolve name)) := by
  dsimp only
  have within : SameBelow findings.scopes.stack (outcome (Search.walk node) task findings).2.scopes.stack :=
    declaresWithin_walk node findings
  refine ⟨fun filled => ⟨within.length_eq filled, within.tail⟩, fun empty => ?_, fun opens => ?_⟩
  · exact (empty ▸ within).length_le_one
  · have same : (outcome (Search.walk node) task findings).2.scopes.stack = findings.scopes.stack := by
      rw [Search.walk_eq, if_pos opens]
      exact stack_inScope (declaresWithin_upTo node) findings
    exact ⟨same, fun name => congrArg (fun stack => Except.ok (ScopeStack.resolve name stack)) same⟩

section Examples

def task : Task := ⟨{ locales := ["en"], extraction := {} }, "src/a.ts"⟩

def hookCode : String := "const { t } = useTranslation('a');"

/-- Where there is no scope, a program that opens none leaves the one that its first declaration opens. -/
theorem declaration_leaves_scope :
    (parse? .typed hookCode).map (fun root => (opensScope root, (outcome (Search.walk root) task {}).2.scopes.stack)) =
      some (false, [[("t", some { namespaces := some (.one "a") })]]) := by
  decide +kernel

end Examples

end Proofs.ScopeDiscipline

end Phrasebook
