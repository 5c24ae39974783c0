import Phrasebook.Proofs.SearchFailures
import Phrasebook.Search.Walk

/-! What a declaration that hands no binding on does to the scopes. A plain name that it declares is bound to nothing from
then on, whatever it was bound to further out. The names in a pattern are passed over: each of them stays bound to what it
was bound to before. -/

namespace Phrasebook

namespace ScopeStack

variable {name other : String} {binding : Option Binding}

@[simp] theorem resolve_set_self (stack : ScopeStack) : (stack.set name binding).resolve name = binding := by
  cases stack with
  | nil => simp [set, resolve, Table.find?]
  | cons scope outer => simp [set, resolve]

theorem resolve_set_other (different : other ≠ name) (stack : ScopeStack) :
    (stack.set name binding).resolve other = stack.resolve other := by
  cases stack with
  | nil => simp [set, resolve, Table.find?, Ne.symm different]
  | cons scope outer => rw [set, resolve, resolve, Table.find?_put_other different]

end ScopeStack

namespace Proofs.LocalDeclarations

open Syntax

/-- The value that a declaration gives to its names: what stands in it, or what is awaited there. -/
def valueOf (written : Node) : Node :=
  if written.kind = .awaitExpression then ((written.parts.head?).bind Node.unwrap).getD written else written

/-- The scopes with the text of a plain constant. -/
def remembered (scopes : Scopes) (target written : Node) : Except Failure Scopes :=
  if target.kind = .identifier then
    written.stringValue?.map fun text =>
      match text with
      | some text => { scopes with texts := Table.put target.text text scopes.texts }
      | none => scopes
  else .ok scopes

/-- The scopes with the bindings that a value hands on, when it hands any on. -/
def handed (extraction : Extraction) (scopes : Scopes) (target value : Node) : Except Failure (Option Scopes) :=
  if value.kind = .callExpression then scopes.declareCall? extraction target value
  else if (value.kind = .identifier || value.kind = .memberExpression) && target.kind = .identifier then
    .ok (scopes.declareAlias? extraction target value)
  else .ok none

/-- A declaration first remembers its text, then hands a binding on, and hides its name only when it has none to hand
on. -/
theorem run_declare (extraction : Extraction) {declarator target written : Node} (scopes : Scopes)
    (named : declarator.child? .name = some target)
    (given : (declarator.child? .value).bind Node.unwrap = some written) :
    (Scopes.declare extraction declarator).run.run scopes =
      match remembered scopes target written with
      | .error failure => (.error failure, scopes)
      | .ok known =>
        match handed extraction known target (valueOf written) with
        | .error failure => (.error failure, known)
        | .ok bound => (.ok (), bound.getD (known.shadow target)) := by
  have binds (known : Scopes) : (
      if (valueOf written).kind = .callExpression then do
        let bound ← Scopes.declare.liftExcept (known.declareCall? extraction target (valueOf written))
        modify fun scopes => bound.getD (scopes.shadow target)
      else if ((valueOf written).kind = .identifier || (valueOf written).kind = .memberExpression) &&
          target.kind = .identifier then
        modify fun scopes => (known.declareAlias? extraction target (valueOf written)).getD (scopes.shadow target)
      else modify fun scopes => scopes.shadow target : ExceptT Failure (StateM Scopes) Unit).run.run known =
      match handed extraction known target (valueOf written) with
      | .error failure => (.error failure, known)
      | .ok bound => (.ok (), bound.getD (known.shadow target)) := by
    unfold handed
    split
    · cases known.declareCall? extraction target (valueOf written) <;> rfl
    · split <;> rfl
  unfold Scopes.declare
  rw [named, given]
  dsimp only
  unfold remembered
  split
  next identifier =>
    cases held : written.stringValue? with
    | error failure => rfl
    | ok text =>
      cases text with
      | none => exact binds scopes
      | some text => exact binds { scopes with texts := Table.put target.text text scopes.texts }
  next pattern => exact binds scopes

/-- Whether a value hands a binding on to the name it is declared as: it calls a hook, or a function with a fixed
namespace, or a name that is bound, or it is itself the name of a translation function. -/
inductive HandsOn (extraction : Extraction) (stack : ScopeStack) (value : Node) : Prop
  | hook {callee : Node} {hooks : List Hook} {hook : Hook} (call : value.kind = .callExpression)
      (calls : (value.child? .function).bind Node.unwrap = some callee) (plain : callee.kind = .identifier)
      (given : extraction.hooks = .ok hooks) (member : hook ∈ hooks) (named : callee.memberChain? = some hook.name)
  | fixed {callee : Node} {name : String} (call : value.kind = .callExpression)
      (calls : (value.child? .function).bind Node.unwrap = some callee) (member : callee.kind = .memberExpression)
      (named : callee.memberChain? = some name) (fixed : (Text.split "." name).getLast? = some "getFixedT")
  | bound {callee : Node} {name : String} (call : value.kind = .callExpression)
      (calls : (value.child? .function).bind Node.unwrap = some callee) (plain : callee.kind = .identifier)
      (named : callee.memberChain? = some name) (bound : (stack.resolve name).isSome = true)
  | copy {name : String} (plain : value.kind = .identifier ∨ value.kind = .memberExpression)
      (named : value.memberChain? = some name)
      (function : (stack.resolve name).isSome = true ∨ matchesFunction extraction.functions name = true)

variable {extraction : Extraction} {scopes : Scopes} {target value : Node}

theorem declareCall?_of_plain (plain : ¬ HandsOn extraction scopes.stack value) (call : value.kind = .callExpression) :
    scopes.declareCall? extraction target value = .ok none ∨
      ∃ failure, extraction.hooks = .error failure ∧ scopes.declareCall? extraction target value = .error failure := by
  unfold Scopes.declareCall?
  split
  · exact .inl rfl
  next callee calls =>
    split
    · exact .inl rfl
    next name named =>
      split
      next identifier =>
        cases given : extraction.hooks with
        | error failure => exact .inr ⟨failure, rfl, rfl⟩
        | ok hooks =>
          have unhooked : (hooks.find? fun hook => hook.name = name) = none := by
            refine List.find?_eq_none.mpr fun hook member same => ?_
            obtain rfl := of_decide_eq_true same
            exact plain (.hook call calls identifier given member named)
          have unbound : scopes.resolve name = none :=
            Option.not_isSome_iff_eq_none.mp fun bound => plain (.bound call calls identifier named bound)
          simp only [bind, Except.bind, unhooked, unbound]
          exact .inl rfl
      next =>
        split
        next fixed =>
          obtain ⟨member, last⟩ := Bool.and_eq_true_iff.mp fixed
          exact absurd (.fixed call calls (of_decide_eq_true member) named (beq_iff_eq.mp last)) plain
        next => exact .inl rfl

theorem declareAlias?_of_plain (plain : ¬ HandsOn extraction scopes.stack value)
    (named : value.kind = .identifier ∨ value.kind = .memberExpression) :
    scopes.declareAlias? extraction target value = none := by
  unfold Scopes.declareAlias?
  split
  · rfl
  next name chain =>
    have unbound : scopes.resolve name = none :=
      Option.not_isSome_iff_eq_none.mp fun bound => plain (.copy named chain (.inl bound))
    have unmatched : matchesFunction extraction.functions name = false :=
      Bool.eq_false_iff.mpr fun matched => plain (.copy named chain (.inr matched))
    simp [unbound, unmatched]

theorem handed_of_plain (plain : ¬ HandsOn extraction scopes.stack value) :
    handed extraction scopes target value = .ok none ∨
      ∃ failure, extraction.hooks = .error failure ∧ handed extraction scopes target value = .error failure := by
  unfold handed
  split
  next call => exact declareCall?_of_plain plain call
  next =>
    split
    next named =>
      have plainName : value.kind = .identifier ∨ value.kind = .memberExpression := by
        simpa using (Bool.and_eq_true_iff.mp named).1
      exact .inl (congrArg Except.ok (declareAlias?_of_plain plain plainName))
    next => exact .inl rfl

/-- What is remembered of a plain constant is beside the bindings. -/
theorem stack_of_remembered {written : Node} {known : Scopes} (remembers : remembered scopes target written = .ok known) :
    known.stack = scopes.stack := by
  unfold remembered at remembers
  split at remembers
  · cases held : written.stringValue? with
    | error failure =>
      rw [held] at remembers
      cases remembers
    | ok text =>
      rw [held] at remembers
      obtain rfl := Except.ok.inj remembers
      cases text <;> rfl
  · obtain rfl := Except.ok.inj remembers
    rfl

theorem resolve_shadow (scopes : Scopes) (target : Node) (name : String) :
    (scopes.shadow target).resolve name =
      if target.kind = .identifier ∧ name = target.text then none else scopes.resolve name := by
  unfold Scopes.shadow
  split
  next bound =>
    have identifier : target.kind = .identifier := of_decide_eq_true (Bool.and_eq_true_iff.mp bound).1
    by_cases same : name = target.text
    · rw [if_pos ⟨identifier, same⟩, same]
      exact ScopeStack.resolve_set_self scopes.stack
    · rw [if_neg fun here => same here.2]
      exact ScopeStack.resolve_set_other same scopes.stack
  next unbound =>
    split
    next here =>
      obtain ⟨identifier, rfl⟩ := here
      simpa [identifier] using unbound
    next => rfl

/-- A declaration that hands no binding on hides the name that it declares, if it is a plain one, and leaves all other
names bound to what they were bound to: those in a pattern, too. It fails only at a text that cannot be read or at hooks
that are not well formed, and then leaves all names as they were. -/
theorem resolve_declare_plain (extraction : Extraction) (declarator target written : Node) (scopes : Scopes)
    (named : declarator.child? .name = some target)
    (given : (declarator.child? .value).bind Node.unwrap = some written)
    (plain : ¬ HandsOn extraction scopes.stack (valueOf written)) :
    let ended := (Scopes.declare extraction declarator).run.run scopes
    ((target.kind = .identifier → ∃ text, written.stringValue? = .ok text) → (∃ hooks, extraction.hooks = .ok hooks) →
      ended.1 = .ok ()) ∧
    (∀ failure, ended.1 = .error failure → ended.2.stack = scopes.stack) ∧
    (ended.1 = .ok () → ∀ name, ended.2.resolve name =
      if target.kind = .identifier ∧ name = target.text then none else scopes.resolve name) := by
  dsimp only
  rw [run_declare extraction scopes named given]
  cases remembers : remembered scopes target written with
  | error failure =>
    refine ⟨fun readable _ => ?_, fun _ _ => rfl, nofun⟩
    unfold remembered at remembers
    split at remembers
    next identifier =>
      obtain ⟨text, read⟩ := readable identifier
      rw [read] at remembers
      cases remembers
    next => cases remembers
  | ok known =>
    have same := stack_of_remembered remembers
    rcases handed_of_plain (same ▸ plain) with nothing | ⟨failure, malformed, halted⟩
    · dsimp only
      rw [nothing]
      refine ⟨fun _ _ => rfl, nofun, fun _ name => ?_⟩
      refine (resolve_shadow known target name).trans ?_
      rw [Scopes.resolve, same]
      rfl
    · dsimp only
      rw [halted]
      refine ⟨?_, fun _ _ => same, nofun⟩
      rintro - ⟨hooks, given⟩
      cases given.symm.trans malformed

section Examples

def plainExtraction : Extraction := {}

/-- A scope inside one in which a name is bound. -/
def boundOutside : Scopes where
  stack := [[], [("t", some { namespaces := some (.one "outer") })]]

/-- The first declarator of a text. -/
def declaratorOf (code : String) : Node := (((parse? .typed code).bind fun root => (declaratorsIn root).head?)).getD default

def targetOf (declarator : Node) : Node := (declarator.child? .name).getD default

def writtenIn (declarator : Node) : Node := ((declarator.child? .value).bind Node.unwrap).getD default

/-- Whether a declarator gives something the value of another name, which is no translation function. -/
def isPlain (declarator : Node) (name : String) : Bool :=
  (declarator.child? .name).isSome && ((declarator.child? .value).bind Node.unwrap).isSome &&
    (valueOf (writtenIn declarator)).kind = .identifier && (valueOf (writtenIn declarator)).memberChain? = some name &&
    (boundOutside.resolve name).isNone && !matchesFunction plainExtraction.functions name &&
    (writtenIn declarator).stringValue?.isOk

theorem plain_of_isPlain {declarator : Node} {name : String} (plain : isPlain declarator name = true) :
    declarator.child? .name = some (targetOf declarator) ∧
    (declarator.child? .value).bind Node.unwrap = some (writtenIn declarator) ∧
    ¬ HandsOn plainExtraction boundOutside.stack (valueOf (writtenIn declarator)) ∧
    ∃ text, (writtenIn declarator).stringValue? = .ok text := by
  simp only [isPlain, Bool.and_eq_true, decide_eq_true_eq, Bool.not_eq_true', Option.isNone_iff_eq_none] at plain
  obtain ⟨⟨⟨⟨⟨⟨named, given⟩, identifier⟩, chain⟩, unbound⟩, unmatched⟩, readable⟩ := plain
  obtain ⟨target, named⟩ := Option.isSome_iff_exists.mp named
  obtain ⟨written, given⟩ := Option.isSome_iff_exists.mp given
  refine ⟨by rw [targetOf, named, Option.getD_some], by rw [writtenIn, given, Option.getD_some], fun hands => ?_, ?_⟩
  · cases hands with
    | hook call => cases identifier.symm.trans call
    | fixed call => cases identifier.symm.trans call
    | bound call => cases identifier.symm.trans call
    | copy _ named function =>
      obtain rfl := Option.some.inj (chain.symm.trans named)
      rcases function with bound | matched
      · exact absurd unbound (Option.isSome_iff_ne_none.mp bound)
      · cases unmatched.symm.trans matched
  · cases held : (writtenIn declarator).stringValue? with
    | ok text => exact ⟨text, rfl⟩
    | error failure =>
      rw [held] at readable
      cases readable

def nameDeclarator : Node := declaratorOf "const t = lib;"

theorem plain_name_is_hidden :
    isPlain nameDeclarator "lib" = true ∧
      ((Scopes.declare plainExtraction nameDeclarator).run.run boundOutside).2.resolve "t" = none := by
  have plain : isPlain nameDeclarator "lib" = true := by decide +kernel
  obtain ⟨named, given, unhanded, readable⟩ := plain_of_isPlain plain
  obtain ⟨succeeds, -, resolved⟩ :=
    resolve_declare_plain plainExtraction nameDeclarator _ _ boundOutside named given unhanded
  refine ⟨plain, (resolved (succeeds (fun _ => readable) ⟨_, rfl⟩) "t").trans (if_pos ?_)⟩
  decide +kernel

def patternDeclarator : Node := declaratorOf "const { t } = lib;"

/-- A name in a pattern is declared, and stays bound to what it is bound to further out. -/
theorem name_in_pattern_stays_bound :
    ¬ HandsOn plainExtraction boundOutside.stack (valueOf (writtenIn patternDeclarator)) ∧
      "t" ∈ declaredNames (targetOf patternDeclarator) ∧
      ((Scopes.declare plainExtraction patternDeclarator).run.run boundOutside).2.resolve "t" =
        some { namespaces := some (.one "outer") } := by
  have plain : isPlain patternDeclarator "lib" = true := by decide +kernel
  exact ⟨(plain_of_isPlain plain).2.2.1, by decide +kernel, by decide +kernel⟩

end Examples

end Proofs.LocalDeclarations

end Phrasebook
