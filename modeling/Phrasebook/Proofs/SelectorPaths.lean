import Phrasebook.Search.Call
import Phrasebook.Syntax.Source

/-! The key that a selector names. It is the way of accesses from a base to what the function returns, taken from the
returned expression alone: whatever stands at the base, a call or a name from elsewhere just as the parameter of the
function, its members are segments of a key. -/

namespace Phrasebook

namespace Syntax.Node

/-- Whether an expression picks a member of another one. -/
def isAccess (node : Node) : Bool := node.kind == .memberExpression || node.kind == .subscriptExpression

/-- What an access picks a member of. -/
def accessed? (access : Node) : Option Node := (access.child? .object).bind Node.unwrap

/-- The name that a parameter in a list binds, if it binds one and is no pattern. -/
def boundName? (parameter : Node) : Option String :=
  let target := parameter.parts.find? fun part =>
    part.kind ≠ .decorator ∧ part.kind ≠ .accessibilityModifier ∧ part.kind ≠ .overrideModifier
  (target.filter fun name => name.kind = .identifier).map Node.text

/-- The name of the parameter of a function that has one parameter, and this is a name. -/
def onlyParameter? (function : Node) : Option String :=
  match function.child? .parameter, (function.child? .parameters).map Node.parts with
  | some name, _ => if name.kind = .identifier then some name.text else none
  | none, some [parameter] => parameter.boundName?
  | none, _ => none

end Syntax.Node

open Syntax

/-- The name of the member that an access picks: the one of a property, or a text as an index. -/
inductive Picks : Node → String → Prop
  | property {access name : Node} (kind : access.kind = .memberExpression) (held : access.child? .property = some name)
      (plain : name.kind = .propertyIdentifier) : Picks access name.text
  | index {access index : Node} {text : String} (kind : access.kind = .subscriptExpression)
      (held : access.child? .index = some index) (literal : index.stringValue? = .ok (some text)) : Picks access text

/-- The names on the way of accesses from a base to an expression. -/
inductive Accesses (base : Option Node) : Option Node → List String → Prop
  | here : Accesses base base []
  | behind {access : Node} {name : String} {path : List String} (picks : Picks access name)
      (before : Accesses base access.accessed? path) : Accesses base (some access) (path ++ [name])

/-- What a function returns is reached from a base, which is no access itself, by the names on a path. -/
def Returns (function : Node) (base : Option Node) (path : List String) : Prop :=
  ∃ body, returned? function = some body ∧ Accesses base (some body) path ∧ ∀ node ∈ base, node.isAccess = false

/-- The base is the parameter of a function that has only one. -/
def IsOnlyParameter (function : Node) (base : Option Node) : Prop :=
  ∃ parameter, base = some parameter ∧ parameter.kind = .identifier ∧ function.onlyParameter? = some parameter.text

/-- The key with the segments on a path, which are joined by points where there is no separator. -/
def Extraction.keyOfPath (extraction : Extraction) (path : List String) : String :=
  Text.join (extraction.keySeparator.mark?.getD ".") path

/-- A function names a key by at least one access from a base. -/
def Selects (extraction : Extraction) (function : Node) (base : Option Node) (key : String) : Prop :=
  ∃ path, Returns function base path ∧ path ≠ [] ∧ key = extraction.keyOfPath path

namespace Proofs.SelectorPaths

section Accesses

variable {access : Node} {base : Option Node} {name other : String} {path : List String}

theorem Picks.isAccess (picks : Picks access name) : access.isAccess = true := by
  cases picks with
  | property kind => simp [Node.isAccess, kind]
  | index kind => simp [Node.isAccess, kind]

theorem Picks.unique (one : Picks access name) (two : Picks access other) : name = other := by
  cases one with
  | property kind held plain =>
    cases two with
    | property _ heldAgain _ => exact congrArg Node.text (Option.some.inj (held.symm.trans heldAgain))
    | index kindAgain _ _ => cases kind.symm.trans kindAgain
  | index kind held literal =>
    cases two with
    | property kindAgain _ _ => cases kind.symm.trans kindAgain
    | index _ heldAgain literalAgain =>
      obtain rfl := Option.some.inj (held.symm.trans heldAgain)
      exact Option.some.inj (Except.ok.inj (literal.symm.trans literalAgain))

/-- An expression is reached from only one base that is no access, and by one path. -/
theorem Accesses.unique {expression otherBase : Option Node} {otherPath : List String}
    (one : Accesses base expression path) (bare : ∀ node ∈ base, node.isAccess = false)
    (two : Accesses otherBase expression otherPath) (otherBare : ∀ node ∈ otherBase, node.isAccess = false) :
    base = otherBase ∧ path = otherPath := by
  induction one generalizing otherPath with
  | here =>
    cases two with
    | here => exact ⟨rfl, rfl⟩
    | behind picks _ => exact absurd (Picks.isAccess picks) (by simp [bare _ rfl])
  | behind picks _ ih =>
    cases two with
    | here => exact absurd (Picks.isAccess picks) (by simp [otherBare _ rfl])
    | behind picksAgain before =>
      obtain ⟨same, rfl⟩ := ih before
      rw [Picks.unique picks picksAgain]
      exact ⟨same, rfl⟩

/-- The path to what an access picks a member of. -/
def pathBefore (access : Node) : Except Failure (Option (List String)) :=
  match access.accessed? with
  | none => .ok (some [])
  | some inner => memberPath? inner

theorem memberPath?_of_base (bare : access.isAccess = false) : memberPath? access = .ok (some []) := by
  simp only [Node.isAccess, Bool.or_eq_false_iff, beq_eq_false_iff_ne] at bare
  rw [memberPath?.eq_def]
  split
  next kind => exact absurd kind bare.1
  next kind => exact absurd kind bare.2
  next => rfl

theorem pathBelow_eq (access : Node) (name : String) :
    (match _held : access.child? .object with
      | none => pure (some [name])
      | some object =>
        match _unwrapped : object.unwrap with
        | none => pure (some [name])
        | some inner => do pure ((← memberPath? inner).map (· ++ [name]))) =
      (do pure ((← pathBefore access).map (· ++ [name])) : Except Failure (Option (List String))) := by
  unfold pathBefore Node.accessed?
  split
  next none =>
    rw [none]
    rfl
  next object held =>
    rw [held, Option.bind_some]
    split
    next none =>
      rw [none]
      rfl
    next inner unwrapped => rw [unwrapped]

theorem memberPath?_of_picks (picks : Picks access name) :
    memberPath? access = (do pure ((← pathBefore access).map (· ++ [name]))) := by
  rw [← pathBelow_eq, memberPath?.eq_def]
  cases picks with
  | property kind held plain =>
    simp only [kind, held, plain]
    rfl
  | index kind held literal =>
    simp only [kind, held, literal]
    rfl

/-- An access of which a path is read picks a member with a name. -/
theorem picks_of_memberPath? (isAccess : access.isAccess = true) (read : memberPath? access = .ok (some path)) :
    ∃ name, Picks access name := by
  rw [memberPath?.eq_def] at read
  dsimp only at read
  split at read
  next kind =>
    split at read
    next name held =>
      split at read
      next plain => exact ⟨name.text, .property kind held plain⟩
      next => cases read
    next => cases read
  next kind =>
    split at read
    next index held =>
      obtain ⟨literal, readIndex, further⟩ := bind_eq_ok read
      cases literal with
      | none => cases further
      | some text => exact ⟨text, .index kind held readIndex⟩
    next => cases read
  next noMember noSubscript =>
    simp only [Node.isAccess, Bool.or_eq_true, beq_iff_eq] at isAccess
    exact absurd isAccess (not_or.mpr ⟨noMember, noSubscript⟩)

/-- A path is read of an expression where accesses lead to it from a base that is none. -/
theorem memberPath?_eq_ok_iff (expression : Node) (path : List String) :
    memberPath? expression = .ok (some path) ↔
      ∃ base, Accesses base (some expression) path ∧ ∀ node ∈ base, node.isAccess = false := by
  induction size : expression.size using Nat.strongRecOn generalizing expression path with
  | ind bound ih =>
    subst size
    have inside {inner : Node} (held : expression.accessed? = some inner) : inner.size < expression.size := by
      obtain ⟨object, child, unwrapped⟩ := Option.bind_eq_some_iff.mp held
      exact Nat.lt_of_le_of_lt (Node.size_le_of_unwrap unwrapped) (Node.size_lt_of_child? child)
    constructor
    · intro read
      cases bare : expression.isAccess with
      | false =>
        rw [memberPath?_of_base bare] at read
        obtain rfl := Option.some.inj (Except.ok.inj read)
        refine ⟨some expression, .here, ?_⟩
        intro node same
        exact Option.some.inj same ▸ bare
      | true =>
        obtain ⟨name, picks⟩ := picks_of_memberPath? bare read
        rw [memberPath?_of_picks picks] at read
        obtain ⟨before, readBefore, same⟩ := bind_eq_ok read
        obtain ⟨front, rfl, rfl⟩ := Option.map_eq_some_iff.mp (Except.ok.inj same)
        cases held : expression.accessed? with
        | none =>
          rw [pathBefore, held] at readBefore
          obtain rfl := Option.some.inj (Except.ok.inj readBefore)
          exact ⟨none, .behind picks (held ▸ .here), by simp⟩
        | some inner =>
          rw [pathBefore, held] at readBefore
          obtain ⟨base, accesses, bare⟩ := (ih inner.size (inside held) inner front rfl).mp readBefore
          exact ⟨base, .behind picks (held ▸ accesses), bare⟩
    · rintro ⟨base, accesses, bare⟩
      cases accesses with
      | here => exact memberPath?_of_base (bare expression rfl)
      | @behind _ name front picks before =>
        have readBefore : pathBefore expression = .ok (some front) := by
          rw [pathBefore]
          split
          next none =>
            rw [none] at before
            cases before
            rfl
          next inner held =>
            rw [held] at before
            exact (ih inner.size (inside held) inner front rfl).mpr ⟨base, before, bare⟩
        rw [memberPath?_of_picks picks, readBefore]
        rfl

end Accesses

section Selectors

variable {extraction : Extraction} {function : Node} {key : String}

theorem selectedKey?_eq_ok_some_iff :
    selectedKey? extraction function = .ok (some key) ↔ ∃ base, Selects extraction function base key := by
  constructor
  · intro selected
    unfold selectedKey? at selected
    split at selected
    · cases selected
    next body returned =>
      obtain ⟨read, path, further⟩ := bind_eq_ok selected
      split at further
      · cases further
      · cases further
      next names some =>
        obtain ⟨base, accesses, bare⟩ := (memberPath?_eq_ok_iff body _).mp path
        exact ⟨base, names, ⟨body, returned, accesses, bare⟩, some, (Option.some.inj (Except.ok.inj further)).symm⟩
  · rintro ⟨base, path, ⟨body, returned, accesses, bare⟩, some, rfl⟩
    have read := (memberPath?_eq_ok_iff body path).mpr ⟨base, accesses, bare⟩
    rw [selectedKey?, returned]
    dsimp only
    rw [read]
    cases path with
    | nil => exact absurd rfl some
    | cons first further => rfl

theorem Returns.unique {base other : Option Node} {path otherPath : List String} (one : Returns function base path)
    (two : Returns function other otherPath) : base = other ∧ path = otherPath := by
  obtain ⟨body, returned, accesses, bare⟩ := one
  obtain ⟨_, returnedAgain, accessesAgain, otherBare⟩ := two
  obtain rfl := Option.some.inj (returned.symm.trans returnedAgain)
  exact Accesses.unique accesses bare accessesAgain otherBare

/-- A function names a key just where accesses lead from some base to what it returns, and the key is their names put
together. There is one base at most, and nothing is asked of it: the key is one of the function's parameter just where
this base is the only parameter of the function. -/
theorem selectedKey?_iff_selects (extraction : Extraction) (function : Node) (key : String) :
    (selectedKey? extraction function = .ok (some key) ↔ ∃ base, Selects extraction function base key) ∧
      ∀ base, Selects extraction function base key →
        ((∃ parameter, IsOnlyParameter function parameter ∧ Selects extraction function parameter key) ↔
          IsOnlyParameter function base) := by
  refine ⟨selectedKey?_eq_ok_some_iff, ?_⟩
  intro base selects
  constructor
  · rintro ⟨parameter, only, path, returns, -⟩
    obtain ⟨_, returnsBase, -⟩ := selects
    obtain ⟨rfl, -⟩ := Returns.unique returns returnsBase
    exact only
  · intro only
    exact ⟨base, only, selects⟩

section Examples

/-- Whether accesses with these names, the last one first, lead to an expression from a base that passes a test. -/
def leadsFrom (test : Node → Bool) : List String → Node → Bool
  | [], base => !base.isAccess && test base
  | name :: names, access =>
    let picks : Bool :=
      match access.kind with
      | .memberExpression =>
        (access.child? .property).any fun property => property.kind = .propertyIdentifier ∧ property.text = name
      | .subscriptExpression =>
        (access.child? .index).any fun index =>
          match index.stringValue? with
          | .ok (some text) => text = name
          | _ => false
      | _ => false
    picks && access.accessed?.any (leadsFrom test names)

theorem accesses_of_leadsFrom {test : Node → Bool} {names : List String} {expression : Node}
    (leads : leadsFrom test names expression = true) :
    ∃ base, Accesses (some base) (some expression) names.reverse ∧ base.isAccess = false ∧ test base = true := by
  induction names generalizing expression with
  | nil =>
    rw [leadsFrom, Bool.and_eq_true, Bool.not_eq_true'] at leads
    exact ⟨expression, .here, leads⟩
  | cons name names ih =>
    rw [leadsFrom, Bool.and_eq_true, Option.any_eq_true] at leads
    obtain ⟨taken, inner, held, further⟩ := leads
    obtain ⟨base, accesses, passes⟩ := ih further
    refine ⟨base, ?_, passes⟩
    rw [List.reverse_cons]
    refine .behind ?_ (held ▸ accesses)
    split at taken
    next kind =>
      obtain ⟨property, child, fits⟩ := (Option.any_eq_true _ _).mp taken
      obtain ⟨plain, rfl⟩ := of_decide_eq_true fits
      exact .property kind child plain
    next kind =>
      obtain ⟨index, child, literal⟩ := (Option.any_eq_true _ _).mp taken
      split at literal
      next text read => exact of_decide_eq_true literal ▸ .index kind child read
      next => cases literal
    next => cases taken

/-- The expression that a script consists of. -/
def expressionOf (code : String) : Node :=
  (((parse? .markup code).bind fun root => root.parts.head?).bind fun statement => statement.parts.head?).getD default

theorem selects_of_leadsFrom (test : Node → Bool) (names : List String) {function : Node} (filled : names ≠ [])
    (leads : (returned? function).any (leadsFrom test names) = true) :
    ∃ base, Selects {} function (some base) (Text.join "." names.reverse) ∧ test base = true := by
  obtain ⟨body, returned, leads⟩ := (Option.any_eq_true _ _).mp leads
  obtain ⟨base, accesses, bare, passes⟩ := accesses_of_leadsFrom leads
  refine ⟨base, ⟨names.reverse, ⟨body, returned, accesses, ?_⟩, by simpa using filled, rfl⟩, passes⟩
  intro node same
  exact Option.some.inj same ▸ bare

/-- An access by a text and an assertion do not hide the parameter. -/
theorem key_of_parameter : ∃ base, Selects {} (expressionOf "$ => $.user!['name'];") base "user.name" ∧
    ∃ parameter, IsOnlyParameter (expressionOf "$ => $.user!['name'];") parameter ∧
      Selects {} (expressionOf "$ => $.user!['name'];") parameter "user.name" := by
  let function := expressionOf "$ => $.user!['name'];"
  let test (base : Node) : Bool := base.kind = .identifier ∧ function.onlyParameter? = some base.text
  have leads : (returned? function).any (leadsFrom test ["name", "user"]) = true := by decide +kernel
  obtain ⟨base, selects, passes⟩ := selects_of_leadsFrom test ["name", "user"] (by simp) leads
  obtain ⟨isName, only⟩ := of_decide_eq_true passes
  exact ⟨some base, selects, ((selectedKey?_iff_selects {} _ _).2 _ selects).mpr ⟨base, rfl, isName, only⟩⟩

/-- A member of what a call gives is taken for a key, though it is no member of the parameter. -/
theorem key_of_loaded_value :
    selectedKey? {} (expressionOf "$ => load().name;") = .ok (some "name") ∧
      ∀ parameter, IsOnlyParameter (expressionOf "$ => load().name;") parameter →
        ¬ Selects {} (expressionOf "$ => load().name;") parameter "name" := by
  let function := expressionOf "$ => load().name;"
  have leads : (returned? function).any (leadsFrom (fun base => base.kind = .callExpression) ["name"]) = true := by
    decide +kernel
  obtain ⟨base, selects, passes⟩ := selects_of_leadsFrom _ ["name"] (by simp) leads
  refine ⟨selectedKey?_eq_ok_some_iff.mpr ⟨some base, selects⟩, ?_⟩
  rintro _ ⟨parameter, rfl, isName, -⟩ ⟨path, returns, -⟩
  obtain ⟨_, returnsBase, -⟩ := selects
  obtain ⟨same, -⟩ := Returns.unique returns returnsBase
  rw [Option.some.inj same, of_decide_eq_true passes] at isName
  cases isName

end Examples

end Selectors

end Proofs.SelectorPaths

end Phrasebook
