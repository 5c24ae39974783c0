import Phrasebook.Project.Catalogs

/-! What stops the reading of a catalog. Every failure to read one is a warning, but for one: an escape that writes a
number in braces which is far beyond all characters. Of the numbers in braces in a script's catalog, in the order in
which its texts are read, the first that is no character's decides. -/

namespace Phrasebook

namespace Syntax

/-- The number in the braces that are open at the start of a text, if they hold hexadecimal digits only. -/
def bracedNumber? (text : List Char) : Option Nat :=
  let digits := text.takeWhile isHexDigit
  match digits, text.drop digits.length with
  | _ :: _, '\x7d' :: _ => some (hexValue digits)
  | _, _ => none

/-- The numbers that the escapes in a text write in braces. -/
def bracedNumbers : List Char → List Nat
  | [] => []
  | '\\' :: 'u' :: '\x7b' :: rest => (bracedNumber? rest).toList ++ bracedNumbers rest
  | '\\' :: _ :: rest => bracedNumbers rest
  | _ :: rest => bracedNumbers rest

/-- Why there is no character with a number. -/
def numberFailure? (number : Nat) : Option Failure :=
  if 0x7FFFFFFF < number then some .characterNumberTooLarge
  else if 0x10FFFF < number then some .noSuchCharacter
  else none

namespace Node

/-- The string, or template without holes, that an expression is. -/
def text? (node : Node) : Option Node :=
  node.unwrap.filter fun inner => inner.kind = .stringLiteral || inner.isPlainTemplate

/-- The numbers that a string, or a template without holes, writes in braces; other expressions write none. -/
def textNumbers (node : Node) : List Nat := node.text?.elim [] fun text => bracedNumbers text.quoted.toList

/-- The numbers that the key of a member writes in braces. -/
def keyNumbers (key : Node) : List Nat :=
  match key.kind with
  | .stringLiteral => key.textNumbers
  | .computedPropertyName => key.parts.head?.elim [] textNumbers
  | _ => []

/-- Whether the key of a member gives a name. -/
def givesName (key : Node) : Bool :=
  match key.kind with
  | .propertyIdentifier | .identifier | .shorthandPropertyIdentifier | .shorthandPropertyIdentifierPattern
  | .numberLiteral | .privatePropertyIdentifier | .stringLiteral => true
  | .computedPropertyName => (key.parts.head?.bind text?).isSome
  | _ => false

mutual

/-- The numbers in braces in the texts of which the value of a catalog is made, in the order in which they are read. -/
def valueNumbers (expression : Node) : List Nat :=
  match unwrapped : expression.unwrap with
  | none => []
  | some node =>
    have within : node.size ≤ expression.size := size_le_of_unwrap unwrapped
    match node.kind with
    | .asExpression | .satisfiesExpression =>
      match held : node.parts with
      | [] => []
      | value :: _ =>
        have : value.size < expression.size :=
          Nat.lt_of_lt_of_le (size_lt_of_mem_parts (held ▸ List.mem_cons_self)) within
        valueNumbers value
    | .object => node.parts.attach.flatMap fun ⟨member, inside⟩ =>
      have : member.size < expression.size := Nat.lt_of_lt_of_le (size_lt_of_mem_parts inside) within
      memberNumbers member
    | .array => node.parts.attach.flatMap fun ⟨item, inside⟩ =>
      have : item.size < expression.size := Nat.lt_of_lt_of_le (size_lt_of_mem_parts inside) within
      valueNumbers item
    | .unaryExpression =>
      if node.text.toList.head? == some '-' then node.parts.head?.elim [] textNumbers else node.textNumbers
    | _ => node.textNumbers
termination_by expression.size

/-- The same for a member of an object: its name comes before its value, which is read only if there is a name. -/
def memberNumbers (member : Node) : List Nat :=
  if member.kind = .pair then
    match member.child? .key with
    | none => []
    | some key => key.keyNumbers ++ if key.givesName then
      match held : member.child? .value with
      | none => []
      | some value =>
        have : value.size < member.size := size_lt_of_child? held
        valueNumbers value
      else []
  else []
termination_by member.size

end

end Node

end Syntax

namespace Proofs.CatalogFailures

open Catalog Syntax

variable {α β : Type}

/-- The failure of what has failed. -/
def failureOf : Except Failure α → Option Failure
  | .error failure => some failure
  | .ok _ => none

theorem failureOf_eq_some_iff {result : Except Failure α} {failure : Failure} :
    failureOf result = some failure ↔ result = .error failure := by
  cases result <;> simp [failureOf]

/-- Of two steps the second one fails only where the first one does not. -/
theorem failureOf_bind {first : Except Failure α} {next : α → Except Failure β} {later : Option Failure}
    (same : ∀ value, first = .ok value → failureOf (next value) = later) :
    failureOf (first >>= next) = (failureOf first).or later := by
  cases first with
  | error failure => rfl
  | ok value => exact same value rfl

theorem failureOf_bind_pure (first : Except Failure α) (convert : α → β) :
    failureOf (first >>= fun value => pure (convert value)) = failureOf first := by
  cases first <;> rfl

theorem findSome?_toList_append (test : α → Option β) (first : Option α) (rest : List α) :
    (first.toList ++ rest).findSome? test = (first.bind test).or (rest.findSome? test) := by
  cases first with
  | none => rfl
  | some item =>
    rw [List.findSome?_append, Option.toList_some, List.findSome?_singleton, Option.bind_some]

section Numbers

theorem bracedNumbers_cons {c : Char} (unescaped : c ≠ '\\') (rest : List Char) :
    bracedNumbers (c :: rest) = bracedNumbers rest := by
  rw [bracedNumbers.eq_def]
  split <;> simp_all

theorem bracedNumbers_append {front : List Char} (unescaped : '\\' ∉ front) (rest : List Char) :
    bracedNumbers (front ++ rest) = bracedNumbers rest := by
  induction front with
  | nil => rfl
  | cons c front ih =>
    rw [List.mem_cons, not_or] at unescaped
    rw [List.cons_append, bracedNumbers_cons (Ne.symm unescaped.1), ih unescaped.2]

theorem bracedNumbers_escape {c : Char} {rest : List Char} (unbraced : c = 'u' → rest.head? ≠ some '\x7b') :
    bracedNumbers ('\\' :: c :: rest) = bracedNumbers rest := by
  rw [bracedNumbers]
  rintro more rfl rfl
  exact unbraced rfl rfl

theorem bracedNumbers_braces (rest : List Char) :
    bracedNumbers ('\\' :: 'u' :: '\x7b' :: rest) = (bracedNumber? rest).toList ++ bracedNumbers rest := by
  rw [bracedNumbers]

theorem notMem_of_digits {digits : List Char} (hex : digits.all isHexDigit = true) : '\\' ∉ digits := by
  intro member
  exact absurd (List.all_eq_true.mp hex _ member) (by decide)

/-- A number in braces, and what is behind it. -/
theorem failureOf_number (number : Nat) (behind : Except Failure (List Nat)) :
    failureOf (if 0x7FFFFFFF < number then .error .characterNumberTooLarge
      else if 0x10FFFF < number then .error .noSuchCharacter
      else do pure (number :: (← behind))) = (numberFailure? number).or (failureOf behind) := by
  unfold numberFailure?
  split
  · rfl
  · split
    · rfl
    · exact failureOf_bind_pure behind _

/-- Digits that an escape counts write nothing in braces. -/
theorem bracedNumbers_of_counted {count value : Nat} {more behind : List Char}
    (counted : (if (decide ((more.take count).length = count) && (more.take count).all isHexDigit) = true then
      some (hexValue (more.take count), more.drop count) else none) = some (value, behind)) :
    bracedNumbers more = bracedNumbers behind ∧ behind.length ≤ more.length := by
  split at counted
  next fits =>
    obtain ⟨-, rfl⟩ := Prod.mk.inj (Option.some.inj counted)
    rw [Bool.and_eq_true] at fits
    have passed := bracedNumbers_append (notMem_of_digits fits.2) (more.drop count)
    rw [List.take_append_drop] at passed
    exact ⟨passed, by rw [List.length_drop]; omega⟩
  next => cases counted

/-- Decoding fails where the first number in braces that is no character's does. -/
theorem failureOf_decodeNumbers (steps : Nat) (cs : List Char) (enough : cs.length < steps) :
    failureOf (decodeNumbers steps cs) = (bracedNumbers cs).findSome? numberFailure? := by
  induction steps generalizing cs with
  | zero => omega
  | succ steps ih =>
    rw [decodeNumbers.eq_def]
    dsimp only
    split
    · rfl
    · simp only [List.length_cons] at enough
      split
      · rfl
      next _ _ more =>
        simp only [List.length_cons] at enough
        rw [bracedNumbers_braces]
        split
        next first others behind digits closed =>
          have hex : (first :: others).all isHexDigit = true := digits ▸ List.all_takeWhile
          have whole : (first :: others) ++ '\x7d' :: behind = more := by
            rw [← digits, ← closed]
            exact List.prefix_iff_eq_append.mp (List.takeWhile_prefix _)
          have shorter : behind.length < steps := by
            have total := congrArg List.length whole
            simp only [List.length_append, List.length_cons] at total
            omega
          have number : bracedNumber? more = some (hexValue (first :: others)) := by
            rw [bracedNumber?, closed, digits]
            rfl
          -- there is no escape among the digits, so the numbers behind them are those of the whole
          rw [digits, failureOf_number, ih behind shorter, number, ← whole,
            bracedNumbers_append (notMem_of_digits hex), bracedNumbers_cons (by decide)]
          exact (findSome?_toList_append numberFailure? (some _) _).symm
        next unclosed =>
          have noNumber : bracedNumber? more = none := by
            unfold bracedNumber?
            dsimp only
            split
            next first others behind digits closed => exact (unclosed _ _ _ digits closed).elim
            next => rfl
          rw [failureOf_bind_pure, ih _ (by simp only [List.length_cons]; omega), bracedNumbers_cons (by decide),
            noNumber]
          rfl
      next _ c more noBraces =>
        simp only [List.length_cons] at enough
        have unbraced : c = 'u' → more.head? ≠ some '\x7b' := by
          intro same head
          obtain ⟨rest, rfl⟩ := List.head?_eq_some_iff.mp head
          exact noBraces rest same rfl
        rw [bracedNumbers_escape unbraced]
        split
        next value behind numbered =>
          have counted : bracedNumbers more = bracedNumbers behind ∧ behind.length ≤ more.length := by
            split at numbered
            · exact bracedNumbers_of_counted numbered
            · split at numbered
              · exact bracedNumbers_of_counted numbered
              · cases numbered
          rw [failureOf_bind_pure, ih behind (by omega), counted.1]
        next =>
          split
          next behind _ =>
            rw [ih behind (by simp only [List.length_cons] at enough; omega), bracedNumbers_cons (by decide)]
          next => rw [failureOf_bind_pure, ih more (by omega)]
    next _ c rest unescaped =>
      simp only [List.length_cons] at enough
      rw [failureOf_bind_pure, ih rest (by omega), bracedNumbers_cons unescaped]

end Numbers

section Nodes

theorem failureOf_decodeEscapes (text : String) :
    failureOf (decodeEscapes text) = (bracedNumbers text.toList).findSome? numberFailure? := by
  rw [decodeEscapes, failureOf_bind_pure]
  exact failureOf_decodeNumbers _ _ (by rw [String.length_toList]; omega)

/-- What is unwrapped stays as it is. -/
theorem unwrap_of_unwrap {node inner : Node} (unwrapped : node.unwrap = some inner) : inner.unwrap = some inner := by
  fun_induction Node.unwrap node with
  | case1 => cases unwrapped
  | case2 _ _ _ _ _ _ ih => exact ih unwrapped
  | case3 node bare =>
    obtain rfl := Option.some.inj unwrapped
    exact Node.unwrap_eq (by simpa using bare)

theorem stringValue?_eq (node : Node) : node.stringValue? =
    match node.text? with
    | none => .ok none
    | some text => (decodeEscapes text.quoted).map some := by
  unfold Node.stringValue? Node.text?
  cases node.unwrap with
  | none => rfl
  | some inner =>
    rw [Option.filter_some]
    dsimp only
    split
    · show _ = (decodeEscapes inner.quoted).map some
      cases decodeEscapes inner.quoted <;> rfl
    · rfl

theorem failureOf_map (convert : α → β) (result : Except Failure α) :
    failureOf (result.map convert) = failureOf result := by
  cases result <;> rfl

theorem failureOf_stringValue? (node : Node) :
    failureOf node.stringValue? = node.textNumbers.findSome? numberFailure? := by
  rw [stringValue?_eq, Node.textNumbers]
  cases node.text? with
  | none => rfl
  | some text => exact (failureOf_map _ _).trans (failureOf_decodeEscapes _)

theorem isSome_stringValue? {node : Node} {value : Option String} (read : node.stringValue? = .ok value) :
    value.isSome = node.text?.isSome := by
  rw [stringValue?_eq] at read
  split at read
  next none =>
    obtain rfl := Except.ok.inj read
    rw [none]
    rfl
  next text some =>
    cases decoded : decodeEscapes text.quoted with
    | error failure =>
      rw [decoded] at read
      cases read
    | ok content =>
      rw [decoded] at read
      obtain rfl := Except.ok.inj read
      rw [some]
      rfl

theorem failureOf_literal? (node : Node) : failureOf node.literal? = node.textNumbers.findSome? numberFailure? := by
  unfold Node.literal?
  cases unwrapped : node.unwrap with
  | none =>
    rw [Node.textNumbers, Node.text?, unwrapped]
    rfl
  | some inner =>
    have same : inner.text? = node.text? := by rw [Node.text?, Node.text?, unwrapped, unwrap_of_unwrap unwrapped]
    dsimp only
    rw [Node.textNumbers, ← same, ← Node.textNumbers, ← failureOf_stringValue?,
      ← Option.or_none (o := failureOf inner.stringValue?)]
    apply failureOf_bind
    intro text _
    split
    · rfl
    · split <;> rfl

/-- Reading the name of a key fails as its text does, and gives a name for keys of certain kinds. -/
theorem propertyName?_cases (key : Node) :
    failureOf key.propertyName? = key.keyNumbers.findSome? numberFailure? ∧
      ∀ name, key.propertyName? = .ok name → name.isSome = key.givesName := by
  have named {text : String} {name : Option String} (same : Except.ok (some text) = Except.ok (ε := Failure) name) :
      name.isSome = true := by
    obtain rfl := Except.ok.inj same
    rfl
  have unnamed {name : Option String} (same : Except.ok none = Except.ok (ε := Failure) name) :
      name.isSome = false := by
    obtain rfl := Except.ok.inj same
    rfl
  unfold Node.propertyName? Node.keyNumbers Node.givesName
  cases kind : key.kind
  case stringLiteral =>
    refine ⟨failureOf_stringValue? key, fun name read => ?_⟩
    rw [isSome_stringValue? read, Node.text?, Node.unwrap_eq (by simp [Node.isWrapper, kind])]
    simp [kind]
  case computedPropertyName =>
    dsimp only
    cases key.parts with
    | nil => exact ⟨rfl, fun _ => unnamed⟩
    | cons first rest => exact ⟨failureOf_stringValue? first, fun _ => isSome_stringValue?⟩
  all_goals first | exact ⟨rfl, fun _ => named⟩ | exact ⟨rfl, fun _ => unnamed⟩

theorem failureOf_mapM {step : α → Except Failure β} {numbers : α → List Nat} (items : List α)
    (each : ∀ item ∈ items, failureOf (step item) = (numbers item).findSome? numberFailure?) :
    failureOf (items.mapM step) = (items.flatMap numbers).findSome? numberFailure? := by
  induction items with
  | nil => rfl
  | cons item items ih =>
    rw [List.mapM_cons, List.flatMap_cons, List.findSome?_append, ← each item List.mem_cons_self,
      ← ih fun other member => each other (List.mem_cons_of_mem _ member)]
    apply failureOf_bind
    intro value _
    exact failureOf_bind_pure _ _

section

variable {node object : Node}

theorem flatMap_attach (items : List α) (numbers : α → List Nat) :
    (items.attach.flatMap fun item => numbers item.1) = items.flatMap numbers := by
  rw [List.flatMap_subtype fun _ _ => rfl, List.unattach_attach]

theorem valueNumbers_of_unwrap {expression : Node} (unwrapped : expression.unwrap = some node) :
    expression.valueNumbers = match node.kind with
      | .asExpression | .satisfiesExpression => node.parts.head?.elim [] Node.valueNumbers
      | .object => node.parts.flatMap Node.memberNumbers
      | .array => node.parts.flatMap Node.valueNumbers
      | .unaryExpression =>
        if node.text.toList.head? == some '-' then node.parts.head?.elim [] Node.textNumbers else node.textNumbers
      | _ => node.textNumbers := by
  rw [Node.valueNumbers]
  split
  next none => cases unwrapped.symm.trans none
  next inner unwrappedAgain =>
    obtain rfl := Option.some.inj (unwrapped.symm.trans unwrappedAgain)
    split
    iterate 2
      split
      next none =>
        rw [none]
        rfl
      next value rest held =>
        have first : node.parts.head? = some value := held ▸ rfl
        rw [first]
        rfl
    · exact flatMap_attach _ _
    · exact flatMap_attach _ _
    · rfl
    · rfl

theorem failureOf_entriesOf
    (values : ∀ node : Node, node.size < object.size →
      failureOf (Value.ofNode? node) = node.valueNumbers.findSome? numberFailure?) :
    failureOf (Value.entriesOf object) = (object.parts.flatMap Node.memberNumbers).findSome? numberFailure? := by
  rw [Value.entriesOf, failureOf_bind_pure, ← flatMap_attach]
  apply failureOf_mapM
  rintro ⟨member, inside⟩ -
  dsimp only
  rw [Node.memberNumbers]
  split
  · split
    next key named =>
      obtain ⟨fails, names⟩ := propertyName?_cases key
      rw [named]
      dsimp only
      rw [List.findSome?_append, ← fails]
      apply failureOf_bind
      intro name read
      rw [← names name read]
      cases name with
      | none => rfl
      | some name =>
        rw [Option.isSome_some, if_pos rfl]
        split
        next _ value same held =>
          have smaller := Nat.lt_trans (Node.size_lt_of_child? held) (Node.size_lt_of_mem_parts inside)
          rw [failureOf_bind_pure, values value smaller]
          split
          next absent => cases held.symm.trans absent
          next other heldAgain =>
            obtain rfl := Option.some.inj (held.symm.trans heldAgain)
            rfl
        next noValue =>
          split
          next => rfl
          next value held => exact (noValue _ _ rfl held).elim
    next unnamed =>
      rw [unnamed]
      rfl
  · rfl

/-- Making a value of an expression fails where the first number in braces that is no character's does. -/
theorem failureOf_ofNode? (expression : Node) :
    failureOf (Value.ofNode? expression) = expression.valueNumbers.findSome? numberFailure? := by
  -- by induction on the size, since parentheses are taken away before the parts are read
  induction size : expression.size using Nat.strongRecOn generalizing expression with
  | ind bound ih =>
    subst size
    rw [Value.ofNode?]
    split
    next absent =>
      rw [Node.valueNumbers]
      split
      next => rfl
      next present => cases absent.symm.trans present
    next node unwrapped =>
      have inside (inner : Node) (smaller : inner.size < node.size) :
          failureOf (Value.ofNode? inner) = inner.valueNumbers.findSome? numberFailure? :=
        ih inner.size (Nat.lt_of_lt_of_le smaller (Node.size_le_of_unwrap unwrapped)) inner rfl
      have numbers := valueNumbers_of_unwrap unwrapped
      dsimp only
      split
      iterate 2
        next kind =>
          rw [kind] at numbers
          dsimp only at numbers
          rw [numbers]
          split
          next none =>
            rw [none]
            rfl
          next value rest held =>
            rw [held]
            exact inside value (Node.size_lt_of_mem_parts (held ▸ List.mem_cons_self))
      next kind =>
        rw [kind] at numbers
        dsimp only at numbers
        rw [failureOf_bind_pure, numbers]
        exact failureOf_entriesOf inside
      next kind =>
        rw [kind] at numbers
        dsimp only at numbers
        rw [failureOf_bind_pure, numbers, ← flatMap_attach]
        apply failureOf_mapM
        rintro ⟨item, member⟩ -
        exact inside item (Node.size_lt_of_mem_parts member)
      next kind =>
        rw [kind] at numbers
        dsimp only at numbers
        rw [numbers]
        split
        · cases node.parts with
          | nil => rfl
          | cons operand rest => exact (failureOf_bind_pure _ _).trans (failureOf_literal? operand)
        · exact (failureOf_bind_pure _ _).trans (failureOf_literal? node)
      next noAs noSatisfies noObject noArray noUnary =>
        split at numbers
        next kind => exact (noAs kind).elim
        next kind => exact (noSatisfies kind).elim
        next kind => exact (noObject kind).elim
        next kind => exact (noArray kind).elim
        next kind => exact (noUnary kind).elim
        next =>
          rw [numbers]
          exact (failureOf_bind_pure _ _).trans (failureOf_literal? node)

end

end Nodes

section Json

open JsonText

/-- What cannot fail for a number without bounds. -/
def Bounded (result : Except Failure α) : Prop := failureOf result ≠ some .characterNumberTooLarge

theorem Bounded.ok (value : α) : Bounded (.ok value) := nofun

theorem Bounded.bind {first : Except Failure α} {next : α → Except Failure β} (bounded : Bounded first)
    (further : ∀ value, Bounded (next value)) : Bounded (first >>= next) := by
  cases first with
  | error failure => exact bounded
  | ok value => exact further value

theorem Bounded.malformed : Bounded (.error .malformedJson : Except Failure α) := nofun

theorem bounded_unsignedNumber (negative : Bool) (cs : List Char) : Bounded (unsignedNumber negative cs) := by
  unfold unsignedNumber
  dsimp only
  split
  · exact .malformed
  · split
    · split
      · exact nofun
      · exact .ok _
    · exact .ok _

theorem bounded_number (cs : List Char) : Bounded (number cs) := by
  unfold number
  split <;> exact bounded_unsignedNumber _ _

theorem bounded_value_succ {steps : Nat} (lists : ∀ cs, Bounded (items steps cs))
    (objects : ∀ cs, Bounded (JsonText.entries steps cs)) (cs : List Char) : Bounded (value (steps + 1) cs) := by
  rw [value.eq_def]
  dsimp only
  split
  · split
    · exact .ok _
    · exact .malformed
  · split
    · exact .ok _
    · exact (lists _).bind fun _ => .ok _
  · split
    · exact .ok _
    · exact (objects _).bind fun _ => .ok _
  · exact .ok _
  · exact .ok _
  · exact .ok _
  · exact .ok _
  · exact .ok _
  · exact .ok _
  · exact bounded_number _

theorem bounded_items_succ {steps : Nat} (values : ∀ cs, Bounded (value steps cs))
    (lists : ∀ cs, Bounded (items steps cs)) (cs : List Char) : Bounded (items (steps + 1) cs) := by
  rw [items]
  apply (values cs).bind
  intro _
  dsimp only
  split
  · exact .ok _
  · exact (lists _).bind fun _ => .ok _
  · exact .malformed

theorem bounded_entries_succ {steps : Nat} (values : ∀ cs, Bounded (value steps cs))
    (objects : ∀ cs, Bounded (JsonText.entries steps cs)) (cs : List Char) :
    Bounded (JsonText.entries (steps + 1) cs) := by
  rw [JsonText.entries.eq_def]
  dsimp only
  split
  · split
    · exact .malformed
    · split
      · apply (values _).bind
        intro _
        split
        · exact .ok _
        · exact (objects _).bind fun _ => .ok _
        · exact .malformed
      · exact .malformed
  · exact .malformed

theorem bounded_steps (steps : Nat) : (∀ cs, Bounded (value steps cs)) ∧ (∀ cs, Bounded (items steps cs)) ∧
    ∀ cs, Bounded (JsonText.entries steps cs) := by
  -- all three at once, since they call each other
  induction steps with
  | zero => exact ⟨fun _ => .malformed, fun _ => .malformed, fun _ => .malformed⟩
  | succ steps ih =>
    obtain ⟨values, lists, objects⟩ := ih
    exact ⟨bounded_value_succ lists objects, bounded_items_succ values lists, bounded_entries_succ values objects⟩

/-- JSON writes its characters with four digits, so no number is beyond all of them. -/
theorem bounded_read (text : String) : Bounded (JsonText.read text) := by
  apply ((bounded_steps _).1 _).bind
  intro _
  dsimp only
  split
  · exact .ok _
  · exact .malformed

end Json

section Scripts

theorem numberFailure?_eq_some_iff {number : Nat} :
    numberFailure? number = some .characterNumberTooLarge ↔ 0x7FFFFFFF < number := by
  unfold numberFailure?
  split
  next large => exact iff_of_true rfl large
  next small =>
    refine iff_of_false ?_ small
    split <;> exact nofun

theorem numberFailure?_eq_none_iff {number : Nat} : numberFailure? number = none ↔ ¬ 0x10FFFF < number := by
  unfold numberFailure?
  split
  next large => exact iff_of_false nofun (by omega)
  next =>
    split
    next beyond => exact iff_of_false nofun (not_not_intro beyond)
    next within => exact iff_of_true rfl within

theorem findSome?_numberFailure? (numbers : List Nat) :
    numbers.findSome? numberFailure? = (numbers.find? (0x10FFFF < ·)).bind numberFailure? := by
  induction numbers with
  | nil => rfl
  | cons number numbers ih =>
    rw [List.findSome?_cons, List.find?_cons, ih]
    by_cases beyond : 0x10FFFF < number
    · rw [decide_eq_true beyond, Option.bind_some]
      cases fails : numberFailure? number with
      | none => exact absurd beyond (numberFailure?_eq_none_iff.mp fails)
      | some failure => rfl
    · rw [decide_eq_false beyond, numberFailure?_eq_none_iff.mpr beyond]

/-- Of the numbers in braces in an object, the first that is no character's is too large even to be refused. -/
def FarBeyond (object : Node) : Prop :=
  ∃ number, (object.parts.flatMap Node.memberNumbers).find? (0x10FFFF < ·) = some number ∧ 0x7FFFFFFF < number

theorem entriesOf_eq_error_iff {object : Node} :
    Value.entriesOf object = .error .characterNumberTooLarge ↔ FarBeyond object := by
  rw [← failureOf_eq_some_iff, failureOf_entriesOf fun node _ => failureOf_ofNode? node, findSome?_numberFailure?,
    Option.bind_eq_some_iff]
  simp only [numberFailure?_eq_some_iff, FarBeyond]

/-- The object that a script gives as its catalog. -/
def catalogObject? (path text : String) : Option Node :=
  (parse? (Dialect.ofPath path) text).bind fun root => firstObject? root.size [root]

theorem readScript_eq_error_iff {path text : String} :
    readScript path text = .error .characterNumberTooLarge ↔
      ∃ object, catalogObject? path text = some object ∧ FarBeyond object := by
  rw [readScript, catalogObject?]
  cases parse? (Dialect.ofPath path) text with
  | none => simp
  | some root =>
    dsimp only
    rw [Option.bind_some]
    cases firstObject? root.size [root] with
    | none => simp
    | some object =>
      rw [← failureOf_eq_some_iff, failureOf_bind_pure, failureOf_eq_some_iff, entriesOf_eq_error_iff]
      simp

/-- A text that is read as a script, at whose numbers the reading stops. -/
def Stops (format : Format) (path text : String) : Prop :=
  (format = .json || Text.endsWith ".json" path) = false ∧
    ∃ object, catalogObject? path text = some object ∧ FarBeyond object

theorem read_eq_error_iff {format : Format} {path text : String} :
    format.read path text = .error .characterNumberTooLarge ↔ Stops format path text := by
  unfold Format.read Stops
  cases json : (format = .json || Text.endsWith ".json" path : Bool) with
  | true =>
    rw [if_pos rfl]
    refine ⟨fun failed => ?_, nofun⟩
    split at failed
    · cases failed
    · exact (bounded_read text (failureOf_eq_some_iff.mpr failed)).elim
  | false =>
    rw [if_neg Bool.false_ne_true, readScript_eq_error_iff]
    exact (and_iff_right rfl).symm

end Scripts

section Catalogs

theorem readCatalog_eq_error_iff {format : Format} {files : Files} {path : String} {failure : Failure} :
    readCatalog format files path = .error failure ↔ failure = .characterNumberTooLarge ∧
      ∃ text, files.read path = .text text ∧ Stops format path text := by
  unfold readCatalog
  cases found : files.read path with
  | missing => simp
  | unreadable => simp
  | text text =>
    simp only [Files.Found.text.injEq, exists_eq_left', ← read_eq_error_iff]
    cases format.read path text with
    | ok value => cases value <;> simp
    | error other => cases other <;> simp [eq_comm]

/-- Reading a catalog stops at a number in braces far beyond all characters, if no number before it is refused, and at
nothing else. Otherwise a file that is missing is passed over, and one that is there gives the entries of an object or a
warning. -/
theorem readCatalog_outcomes (format : Format) (files : Files) (path : String) :
    (∀ failure, readCatalog format files path = .error failure ↔ failure = .characterNumberTooLarge ∧
      ∃ text, files.read path = .text text ∧ Stops format path text) ∧
    ((∃ failure, readCatalog format files path = .error failure) ∨
      (files.read path = .missing ∧ readCatalog format files path = .ok (none, none)) ∨
      files.read path ≠ .missing ∧ ((∃ entries, readCatalog format files path = .ok (some entries, none)) ∨
        ∃ reason, readCatalog format files path = .ok (none, some ⟨.warning, reason⟩))) := by
  refine ⟨fun _ => readCatalog_eq_error_iff, ?_⟩
  unfold readCatalog
  cases files.read path with
  | missing => exact .inr (.inl ⟨rfl, rfl⟩)
  | unreadable => exact .inr (.inr ⟨nofun, .inr ⟨_, rfl⟩⟩)
  | text text =>
    dsimp only
    split
    · exact .inr (.inr ⟨nofun, .inl ⟨_, rfl⟩⟩)
    · exact .inr (.inr ⟨nofun, .inr ⟨_, rfl⟩⟩)
    · exact .inl ⟨_, rfl⟩
    · exact .inr (.inr ⟨nofun, .inr ⟨_, rfl⟩⟩)

/-- Whether the first member of an object is a string that starts with a number far beyond all characters. -/
def startsFarBeyond (object : Node) : Bool :=
  object.parts.head?.any fun member =>
    member.kind = .pair && (member.child? .key).any (fun key => key.kind = .propertyIdentifier) &&
      (member.child? .value).any fun value =>
        value.kind = .stringLiteral && (bracedNumbers value.quoted.toList).head?.any (0x7FFFFFFF < ·)

theorem valueNumbers_of_string {value : Node} (kind : value.kind = .stringLiteral) :
    value.valueNumbers = bracedNumbers value.quoted.toList := by
  have bare : value.unwrap = some value := Node.unwrap_eq (by simp [Node.isWrapper, kind])
  have numbers := valueNumbers_of_unwrap bare
  rw [kind] at numbers
  rw [numbers]
  dsimp only
  rw [Node.textNumbers, Node.text?, bare, Option.filter_some, if_pos (by simp [kind])]
  rfl

theorem farBeyond_of_starts {object : Node} (starts : startsFarBeyond object = true) : FarBeyond object := by
  obtain ⟨member, first, starts⟩ := (Option.any_eq_true _ _).mp starts
  obtain ⟨⟨pair, named⟩, starts⟩ := by simpa only [Bool.and_eq_true] using starts
  obtain ⟨key, keyed, identifier⟩ := (Option.any_eq_true _ _).mp named
  obtain ⟨value, held, starts⟩ := (Option.any_eq_true _ _).mp starts
  obtain ⟨string, starts⟩ := by simpa only [Bool.and_eq_true] using starts
  obtain ⟨number, firstNumber, large⟩ := (Option.any_eq_true _ _).mp starts
  obtain ⟨others, parts⟩ := List.head?_eq_some_iff.mp first
  obtain ⟨further, numbers⟩ := List.head?_eq_some_iff.mp firstNumber
  have silent : key.keyNumbers = [] := by rw [Node.keyNumbers, of_decide_eq_true identifier]
  have name : key.givesName = true := by rw [Node.givesName, of_decide_eq_true identifier]
  have memberNumbers : member.memberNumbers = number :: further := by
    rw [Node.memberNumbers, if_pos (of_decide_eq_true pair), keyed]
    dsimp only
    rw [silent, name, if_pos rfl, List.nil_append]
    split
    next absent => cases held.symm.trans absent
    next other heldAgain =>
      obtain rfl := Option.some.inj (held.symm.trans heldAgain)
      exact (valueNumbers_of_string (of_decide_eq_true string)).trans numbers
  refine ⟨number, ?_, of_decide_eq_true large⟩
  rw [parts, List.flatMap_cons, memberNumbers, List.cons_append, List.find?_cons_of_pos]
  have := of_decide_eq_true large
  exact decide_eq_true (by omega)

def largeNumber : String := "export default \x7ba: '\\u\x7b80000000\x7d'\x7d;\n"

/-- A number far beyond all characters stops the reading of a catalog, without a warning. -/
theorem no_warning_for_large_number :
    readCatalog .js ⟨[(["en.js"], .text largeNumber)], []⟩ "en.js" = .error .characterNumberTooLarge := by
  have starts : (catalogObject? "en.js" largeNumber).any startsFarBeyond = true := by decide +kernel
  obtain ⟨object, found, starts⟩ := (Option.any_eq_true _ _).mp starts
  exact readCatalog_eq_error_iff.mpr ⟨rfl, _, by decide +kernel, by decide, object, found, farBeyond_of_starts starts⟩

end Catalogs

end Proofs.CatalogFailures

end Phrasebook
