import Phrasebook.Proofs.ScriptValues

/-! The text of lists and objects as a script. Their items stand on lines of their own with commas between them, so a
value of any depth is parsed as the literal that it is. -/

namespace Phrasebook.Proofs.ScriptContainers

open Catalog Value CatalogText ParseSteps QuotedText ScriptExpressions ScriptNodes ScriptTokens ScriptValues
open Syntax Parse

variable {rules : Rules} {total : ℕ} {cs tok behind : List Char} {indent : String}

section Separated

variable {α : Type} {item : Parse Node} {found : Node → Prop} {text : List Char}

/-- A step reads the text of an item, whatever follows it in a list or an object. -/
structure ReadsItem (total : ℕ) (item : Parse Node) (text : List Char) (found : Node → Prop) : Prop where
  starts : ∀ behind, Follows behind → Skips (text ++ behind) (text ++ behind)
  reads : ∀ cs behind, Follows behind → Skips cs (text ++ behind) → Reads total item cs behind found

/-- Items with a comma and a margin in front of each. -/
def separated (margin : List Char) (text : α → List Char) (items : List α) : List Char :=
  items.flatMap fun item => ',' :: (margin ++ text item)

theorem separated_cons (margin : List Char) (text : α → List Char) (item : α) (items : List α) :
    separated margin text (item :: items) = ',' :: (margin ++ (text item ++ separated margin text items)) := by
  rw [separated, List.flatMap_cons, List.cons_append, List.append_assoc]
  rfl

theorem length_le_separated (margin : List Char) (text : α → List Char) (items : List α) :
    items.length ≤ (separated margin text items).length := by
  induction items with
  | nil => exact Nat.le_refl _
  | cons item items ih =>
    rw [separated_cons, List.length_cons, List.length_cons, List.length_append, List.length_append]
    omega

theorem length_le_of_mem_separated (margin : List Char) (text : α → List Char) {items : List α} {item : α}
    (member : item ∈ items) : (text item).length ≤ (separated margin text items).length := by
  induction items with
  | nil => cases member
  | cons first items ih =>
    rw [separated_cons, List.length_cons, List.length_append, List.length_append]
    rcases List.mem_cons.mp member with rfl | inside
    · omega
    · have later := ih inside
      omega

/-- Items that are read one by one are read as a list. -/
theorem reads_separated {shown : α → List Char} {holds : α → Node → Prop} {margin closing next : List Char}
    (blank : ∀ c ∈ margin, isSeparator c = true) (follows : Follows closing) (closingSkips : Skips closing next)
    (noComma : sign? next ≠ some ",") {first : α} {rest : List α}
    (each : ∀ one ∈ first :: rest, ReadsItem total item (shown one) (holds one)) {limit : ℕ}
    (enough : rest.length < limit) (skips : Skips cs (shown first ++ (separated margin shown rest ++ closing))) :
    Reads total (commaListUpTo item true true limit) cs closing (List.Forall₂ holds (first :: rest)) := by
  induction rest generalizing first limit cs with
  | nil =>
    obtain ⟨limit, rfl⟩ := Nat.exists_eq_succ_of_ne_zero (Nat.ne_zero_of_lt enough)
    have reads := (each first List.mem_cons_self).reads cs closing follows skips
    exact reads_commaList_last reads closingSkips noComma fun node known => .cons known .nil
  | cons second rest ih =>
    obtain ⟨limit, rfl⟩ := Nat.exists_eq_succ_of_ne_zero (Nat.ne_zero_of_lt enough)
    rw [separated_cons, List.cons_append, List.append_assoc, List.append_assoc] at skips
    have here := (each first List.mem_cons_self).reads cs _ (.comma _) skips
    have others : ∀ one ∈ second :: rest, ReadsItem total item (shown one) (holds one) :=
      fun one member => each one (List.mem_cons_of_mem _ member)
    have separatedFollows : Follows (separated margin shown rest ++ closing) := by
      cases rest with
      | nil => exact follows
      | cons third rest => exact .comma _
    have secondSkips := ((others second List.mem_cons_self).starts _ separatedFollows).append blank
    refine reads_commaList_more here fun node known => ?_
    refine (ih others (Nat.lt_of_succ_lt_succ enough) secondSkips).weaken fun nodes known' => ?_
    exact .cons known known'

end Separated

section Layout

variable (separate : ∀ c ∈ indent.toList, isSeparator c = true)

theorem toList_margin (indent : String) (depth : ℕ) :
    (margin (.lines indent) depth).toList = '\n' :: (List.replicate depth indent).flatMap String.toList := by
  rw [margin, String.toList_append, String.toList_join]
  rfl

theorem sign?_closing {closing : Char} (closes : closing = ']' ∨ closing = '\x7d') (rest : List Char) :
    sign? (closing :: rest) = some (String.singleton closing) := by
  rcases closes with rfl | rfl
  · rfl
  · rfl

include separate

theorem blank_copies (depth : ℕ) : ∀ c ∈ (List.replicate depth indent).flatMap String.toList, isSeparator c = true := by
  intro c member
  obtain ⟨copy, copied, inside⟩ := List.mem_flatMap.mp member
  rw [List.eq_of_mem_replicate copied] at inside
  exact separate c inside

theorem blank_margin (depth : ℕ) : ∀ c ∈ (margin (.lines indent) depth).toList, isSeparator c = true := by
  rw [toList_margin]
  exact List.forall_mem_cons.mpr ⟨rfl, blank_copies separate depth⟩

theorem follows_margin (depth : ℕ) {closing : Char} (closes : closing = ']' ∨ closing = '\x7d') (rest : List Char) :
    Follows ((margin (.lines indent) depth).toList ++ closing :: rest) := by
  rw [toList_margin, List.cons_append]
  exact .line (blank_copies separate depth) closes rest

theorem skips_margin (depth : ℕ) {closing : Char} (closes : closing = ']' ∨ closing = '\x7d') (rest : List Char) :
    Skips ((margin (.lines indent) depth).toList ++ closing :: rest) (closing :: rest) := by
  refine Skips.append (blank_margin separate depth) ?_
  rcases closes with rfl | rfl
  · exact skips_cons (by decide) rest
  · exact skips_cons (by decide) rest

/-- The items between a list's brackets or an object's braces, each on a line of its own. -/
theorem reads_lines {α : Type} {item : Parse Node} {shown : α → List Char} {holds : α → Node → Prop} {first : α}
    {rest : List α} (each : ∀ one ∈ first :: rest, ReadsItem total item (shown one) (holds one)) (depth : ℕ)
    {closing : Char} (closes : closing = ']' ∨ closing = '\x7d') :
    Reads total (commaHoles item)
      ((margin (.lines indent) (depth + 1)).toList ++ (shown first ++
        (separated (margin (.lines indent) (depth + 1)).toList shown rest ++
          ((margin (.lines indent) depth).toList ++ closing :: behind))))
      ((margin (.lines indent) depth).toList ++ closing :: behind) (List.Forall₂ holds (first :: rest)) := by
  have follows := follows_margin separate depth closes behind
  have noComma : sign? (closing :: behind) ≠ some "," := by
    rw [sign?_closing closes]
    rcases closes with rfl | rfl <;> decide
  have restFollows : Follows (separated (margin (.lines indent) (depth + 1)).toList shown rest ++
      ((margin (.lines indent) depth).toList ++ closing :: behind)) := by
    cases rest with
    | nil => exact follows
    | cons second rest => exact .comma _
  have starts := (each first List.mem_cons_self).starts _ restFollows
  refine reads_commaHoles fun limit enough => ?_
  have bound : rest.length < limit := by
    have few := length_le_separated (margin (.lines indent) (depth + 1)).toList shown rest
    simp only [List.length_append] at enough
    omega
  exact reads_separated (blank_margin separate (depth + 1)) follows (skips_margin separate depth closes behind) noComma
    each bound (starts.append (blank_margin separate (depth + 1)))

end Layout

section Arrays

/-- The rule for items that are spread into a list or an object. -/
def spread (rules : Rules) : Parse Node := node .spreadElement do
  sign "..."
  pure [← rules (.expression false false)]

/-- The rule for the items of a list. -/
def arrayItem (rules : Rules) : Parse Node := spread rules <|> rules (.expression false false)

theorem fails_spread (skips : Skips cs tok) (noSpread : sign? tok ≠ some "...") : Fails total (spread rules) cs :=
  fails_node skips _ ((fails_sign skips.token noSpread).bind _)

/-- Nothing starts with the bracket that closes a list. -/
theorem fails_expression_closing (steps : ℕ) (behind : List Char) :
    Fails total (goal steps (.expression false false)) (']' :: behind) := by
  have skips : Skips (']' :: behind) (']' :: behind) := skips_cons (by decide) behind
  have noWord : WordAt (']' :: behind) none := wordAt_none (by decide) behind
  refine fails_expression skips noWord (.inr rfl) (fun rules => ?_) steps
  unfold primary
  refine (reads_peek skips).bindFails fun cursor stands => (reads_wordAt noWord stands).thenFails ?_
  rw [stands.rest]
  show Fails total (if behind.isEmpty then failure else failure) _
  split
  · exact fails_failure
  · exact fails_failure

theorem readsItem_value {value : Value} (readsAs : ReadsAsScript indent value) {depth steps : ℕ}
    (enough : (renderAt (.lines indent) depth value).length < steps) :
    ReadsItem total (arrayItem (goal steps)) (renderAt (.lines indent) depth value).toList (Holds value) where
  starts := fun behind follows => (readsAs.starts depth behind follows).skips
  reads := by
    intro cs behind follows skips
    have noSpread := (readsAs.starts depth behind follows).noSpread
    exact (fails_spread skips noSpread).orElseReads (readsAs.reads depth steps total cs behind enough follows skips)

theorem toList_renderItems (depth : ℕ) (items : List Value) :
    (renderItems (.lines indent) depth items).toList =
      separated (margin (.lines indent) depth).toList (fun item => (renderAt (.lines indent) depth item).toList) items := by
  induction items with
  | nil =>
    rw [renderItems]
    rfl
  | cons item items ih =>
    rw [separated_cons, renderItems, String.toList_append, String.toList_append, separator_lines, ih, List.append_assoc]
    rfl

/-- The text of a list with items. -/
theorem toList_list (depth : ℕ) (first : Value) (rest : List Value) (behind : List Char) :
    (renderAt (.lines indent) depth (.list (first :: rest))).toList ++ behind =
      '[' :: ((margin (.lines indent) (depth + 1)).toList ++ ((renderAt (.lines indent) (depth + 1) first).toList ++
        (separated (margin (.lines indent) (depth + 1)).toList
          (fun item => (renderAt (.lines indent) (depth + 1) item).toList) rest ++
          ((margin (.lines indent) depth).toList ++ ']' :: behind)))) := by
  have opens : "[".toList = ['['] := rfl
  have closes : "]".toList = [']'] := rfl
  simp only [renderAt, String.toList_append, opens, closes, toList_renderItems, List.append_assoc, List.cons_append,
    List.nil_append]

theorem length_item_lt {depth : ℕ} {items : List Value} {item : Value} (member : item ∈ items) :
    (renderAt (.lines indent) (depth + 1) item).length < (renderAt (.lines indent) depth (.list items)).length := by
  cases items with
  | nil => cases member
  | cons first rest =>
    have shown := congrArg List.length (@toList_list indent depth first rest [])
    simp only [List.append_nil, List.length_cons, List.length_append, String.length_toList] at shown
    rcases List.mem_cons.mp member with rfl | inside
    · omega
    · have within := length_le_of_mem_separated (margin (.lines indent) (depth + 1)).toList
        (fun item => (renderAt (.lines indent) (depth + 1) item).toList) inside
      rw [String.length_toList] at within
      omega

theorem reads_array (separate : ∀ c ∈ indent.toList, isSeparator c = true) {items : List Value}
    (each : ∀ item ∈ items, ReadsAsScript indent item) {depth steps : ℕ}
    (enough : (renderAt (.lines indent) depth (.list items)).length ≤ steps) :
    Reads total (arrayLiteral (goal steps)) ((renderAt (.lines indent) depth (.list items)).toList ++ behind) behind
      (Holds (.list items)) := by
  have closing : Skips (']' :: behind) (']' :: behind) := skips_cons (by decide) behind
  have made {tok : List Char} (skips : Skips tok tok) (inside : Reads total (do
      sign "["
      let items ← commaHoles (arrayItem (goal steps))
      sign "]"
      pure items) tok behind (List.Forall₂ Holds items)) :
      Reads total (arrayLiteral (goal steps)) tok behind (Holds (.list items)) := by
    refine (reads_node skips .array inside).weaken ?_
    rintro _ ⟨start, nodes, holds, rfl⟩
    exact holds_array holds
  cases items with
  | nil =>
    have text : (renderAt (.lines indent) depth (.list [])).toList ++ behind = '[' :: ']' :: behind := by
      rw [renderAt]
      rfl
    have opening : Skips ('[' :: ']' :: behind) ('[' :: ']' :: behind) := skips_cons (by decide) _
    rw [text]
    have noSign {text : String} (other : text ≠ "]") : sign? (']' :: behind) ≠ some text :=
      fun same => other (Option.some.inj same).symm
    have noItem : Fails total (arrayItem (goal steps)) (']' :: behind) :=
      (fails_spread closing (noSign (by decide))).orElse (fails_expression_closing steps behind)
    have nothing : Reads total (commaHoles (arrayItem (goal steps))) (']' :: behind) (']' :: behind) (· = []) :=
      reads_commaHoles fun limit _ => reads_commaList_none noItem closing (noSign (by decide)) limit
    refine made opening ((reads_sign opening rfl rfl).bind fun _ _ => nothing.andThen ?_)
    exact (reads_sign closing rfl rfl).bind fun _ _ => .pure [] .nil
  | cons first rest =>
    rw [toList_list]
    have opening {rest : List Char} : Skips ('[' :: rest) ('[' :: rest) := skips_cons (by decide) rest
    have one (item : Value) (member : item ∈ first :: rest) : ReadsItem total (arrayItem (goal steps))
        (renderAt (.lines indent) (depth + 1) item).toList (Holds item) :=
      readsItem_value (each item member) (Nat.lt_of_lt_of_le (length_item_lt member) enough)
    refine made opening ((reads_sign opening rfl rfl).bind fun _ _ => ?_)
    refine (reads_lines separate one depth (.inl rfl)).bind fun nodes holds => ?_
    exact (reads_sign (skips_margin separate depth (.inl rfl) behind) rfl rfl).bind fun _ _ => .pure nodes holds

end Arrays

section Objects

theorem fails_privateName (skips : Skips cs tok) (other : tok.head? ≠ some '#') : Fails total privateName cs := by
  refine (reads_peek skips).bindFails fun cursor stands => ?_
  rw [stands.rest]
  split
  · exact absurd rfl other
  · exact fails_failure

theorem fails_modifiers {word : Option String} (skips : Skips cs tok) (wordAt : WordAt tok word)
    {words : List (String × Option Kind)} (none : ∀ known ∈ words, word ≠ some known.1) {rule : Parse Node}
    (fails : Fails total rule cs) :
    Fails total (words.foldl (fun rule (known, kind) => rule <|> modifier known kind) rule) cs := by
  induction words generalizing rule with
  | nil => exact fails
  | cons known words ih =>
    obtain ⟨text, kind⟩ := known
    have noWord : Fails total (wordNode (kind.getD .operator) text) cs := by
      refine (reads_seesWord skips wordAt text).thenFails ?_
      rw [beq_eq_false_iff_ne.mpr (none _ List.mem_cons_self), if_neg Bool.false_ne_true]
      exact fails_failure
    exact ih (fun other member => none other (List.mem_cons_of_mem _ member)) (fails.orElse (noWord.bind _))

section Closing

variable (behind : List Char)

theorem skips_brace : Skips ('\x7d' :: behind) ('\x7d' :: behind) := skips_cons (by decide) behind

theorem wordAt_brace : WordAt ('\x7d' :: behind) none := wordAt_none (by decide) behind

theorem sign?_brace {text : String} (other : text ≠ "\x7d") : sign? ('\x7d' :: behind) ≠ some text :=
  fun same => other (Option.some.inj same).symm

theorem fails_propertyName_closing : Fails total (propertyName rules) ('\x7d' :: behind) := by
  have skips := skips_brace behind
  have noString : Fails total stringLiteral ('\x7d' :: behind) := by
    refine (reads_peek skips).bindFails fun cursor stands => ?_
    rw [stands.rest]
    exact fails_failure
  have noNumber : Fails total numberLiteral ('\x7d' :: behind) := by
    refine (reads_peek skips).bindFails fun cursor stands => ?_
    rw [stands.rest]
    exact fails_failure
  have noBracket : Fails total (sign "[") ('\x7d' :: behind) := fails_sign skips (sign?_brace behind (by decide))
  unfold propertyName
  refine (fails_anyWord skips _ (wordAt_brace behind)).orElse ?_
  refine (fails_privateName skips (by simp)).orElse ?_
  exact noString.orElse (noNumber.orElse (fails_node skips _ (noBracket.bind _)))

/-- Nothing starts with the brace that closes an object. -/
theorem fails_member_closing : Fails total (objectMember rules) ('\x7d' :: behind) := by
  have skips := skips_brace behind
  have wordAt := wordAt_brace behind
  have noName : Fails total (propertyName rules) ('\x7d' :: behind) := fails_propertyName_closing behind
  have noMethod : Fails total (objectMethod rules) ('\x7d' :: behind) := by
    have noWords : Reads total (modifiers objectModifiers) ('\x7d' :: behind) ('\x7d' :: behind) (· = []) :=
      reads_many_none (fails_modifiers skips wordAt (by simp) fails_failure)
    refine fails_node skips _ (noWords.thenFails ?_)
    exact (reads_accept_false skips (sign?_brace behind (by decide))).thenFails (noName.bind _)
  have noSpread : Fails total (spread rules) ('\x7d' :: behind) := fails_spread skips (sign?_brace behind (by decide))
  refine noSpread.orElse ((fails_node skips _ (noName.bind _)).orElse (noMethod.orElse ?_))
  exact (reads_begin skips).bindFails fun start _ => (fails_anyWord skips _ wordAt).bind _

end Closing

/-- The text of an entry. -/
def entryText (indent : String) (depth : ℕ) (entry : String × Value) : List Char :=
  (quote entry.1).toList ++ ':' :: ' ' :: (renderAt (.lines indent) depth entry.2).toList

theorem reads_keyName {name : String} (skips : Skips cs ((quote name).toList ++ behind)) :
    Reads total (propertyName rules) cs behind (IsString name) := by
  have noWord : Fails total (anyWord .propertyIdentifier) cs := fails_anyWord skips _ (wordAt_quoted name behind)
  have noPrivate : Fails total privateName cs := fails_privateName skips (by rw [quoted_append]; simp)
  exact noWord.orElseReads (noPrivate.orElseReads ((reads_stringLiteral skips).orElse _))

theorem readsItem_entry {entry : String × Value} (readsAs : ReadsAsScript indent entry.2) {depth steps : ℕ}
    (enough : (renderAt (.lines indent) depth entry.2).length < steps) :
    ReadsItem total (objectMember (goal steps)) (entryText indent depth entry) (IsEntry entry) where
  starts := by
    intro behind _
    rw [entryText, List.append_assoc]
    exact (startsOperand_quoted _ _).skips
  reads := by
    intro cs behind follows skips
    rw [entryText, List.append_assoc, List.cons_append, List.cons_append] at skips
    have noSpread : Fails total (spread (goal steps)) cs :=
      fails_spread skips (by rw [quoted_append]; exact nofun)
    have colon {rest : List Char} : Skips (':' :: rest) (':' :: rest) := skips_cons (by decide) rest
    have valueSkips : Skips (' ' :: ((renderAt (.lines indent) depth entry.2).toList ++ behind)) _ :=
      .separator rfl (readsAs.starts depth behind follows).skips
    have value := readsAs.reads depth steps total _ behind enough follows valueSkips
    have inside : Reads total (do
        let key ← propertyName (goal steps)
        sign ":"
        pure [key.as .key, (← goal steps (.expression false false)).as .value])
        ((quote entry.1).toList ++ ':' :: ' ' :: ((renderAt (.lines indent) depth entry.2).toList ++ behind)) behind
        fun nodes => ∃ key node, IsString entry.1 key ∧ Holds entry.2 node ∧ nodes = [key.as .key, node.as .value] := by
      refine (reads_keyName skips.token).bind fun key isKey => (reads_sign colon rfl rfl).bind fun _ _ => ?_
      exact value.bind fun node holds => .pure _ ⟨key, node, isKey, holds, rfl⟩
    refine noSpread.orElseReads (Reads.orElse ((reads_node skips .pair inside).weaken ?_) _)
    rintro _ ⟨start, _, ⟨key, node, isKey, holds, rfl⟩, rfl⟩
    exact ⟨start, _, key, node, isKey, holds, rfl⟩

theorem toList_renderEntries (depth : ℕ) (entries : Entries) :
    (renderEntries (.lines indent) depth entries).toList =
      separated (margin (.lines indent) depth).toList (entryText indent depth) entries := by
  have colon : ": ".toList = [':', ' '] := rfl
  induction entries with
  | nil =>
    rw [renderEntries]
    rfl
  | cons entry entries ih =>
    obtain ⟨name, value⟩ := entry
    rw [separated_cons]
    simp only [renderEntries, entryText, String.toList_append, separator_lines, ih, colon, List.append_assoc,
      List.cons_append, List.nil_append]

/-- The text of an object with entries. -/
theorem toList_object (depth : ℕ) (first : String × Value) (rest : Entries) (behind : List Char) :
    (renderAt (.lines indent) depth (.object (first :: rest))).toList ++ behind =
      '\x7b' :: ((margin (.lines indent) (depth + 1)).toList ++ (entryText indent (depth + 1) first ++
        (separated (margin (.lines indent) (depth + 1)).toList (entryText indent (depth + 1)) rest ++
          ((margin (.lines indent) depth).toList ++ '\x7d' :: behind)))) := by
  have opens : "\x7b".toList = ['\x7b'] := rfl
  have closes : "\x7d".toList = ['\x7d'] := rfl
  have colon : ": ".toList = [':', ' '] := rfl
  obtain ⟨name, value⟩ := first
  simp only [renderAt, entryText, String.toList_append, opens, closes, colon, toList_renderEntries, List.append_assoc,
    List.cons_append, List.nil_append]

theorem length_value_lt {depth : ℕ} {entries : Entries} {entry : String × Value} (member : entry ∈ entries) :
    (renderAt (.lines indent) (depth + 1) entry.2).length <
      (renderAt (.lines indent) depth (.object entries)).length := by
  cases entries with
  | nil => cases member
  | cons first rest =>
    have shown := congrArg List.length (@toList_object indent depth first rest [])
    have inside : (renderAt (.lines indent) (depth + 1) entry.2).length < (entryText indent (depth + 1) entry).length := by
      rw [entryText, List.length_append, List.length_cons, List.length_cons, String.length_toList, String.length_toList]
      omega
    simp only [List.append_nil, List.length_cons, List.length_append, String.length_toList] at shown
    rcases List.mem_cons.mp member with rfl | later
    · omega
    · have within := length_le_of_mem_separated (margin (.lines indent) (depth + 1)).toList
        (entryText indent (depth + 1)) later
      omega

/-- An object is read whatever stands behind it. -/
theorem reads_object (separate : ∀ c ∈ indent.toList, isSeparator c = true) {entries : Entries}
    (each : ∀ entry ∈ entries, ReadsAsScript indent entry.2) {depth steps : ℕ}
    (enough : (renderAt (.lines indent) depth (.object entries)).length ≤ steps) :
    Reads total (objectLiteral (goal steps)) ((renderAt (.lines indent) depth (.object entries)).toList ++ behind) behind
      (IsObject entries) := by
  have made {tok : List Char} (skips : Skips tok tok) (inside : Reads total (do
      sign "\x7b"
      let members ← commaHoles (objectMember (goal steps))
      sign "\x7d"
      pure members) tok behind (List.Forall₂ IsEntry entries)) :
      Reads total (objectLiteral (goal steps)) tok behind (IsObject entries) := by
    refine (reads_node skips .object inside).weaken ?_
    rintro _ ⟨start, nodes, holds, rfl⟩
    exact ⟨_, start, nodes, holds, rfl⟩
  have opening {rest : List Char} : Skips ('\x7b' :: rest) ('\x7b' :: rest) := skips_cons (by decide) rest
  cases entries with
  | nil =>
    have text : (renderAt (.lines indent) depth (.object [])).toList ++ behind = '\x7b' :: '\x7d' :: behind := by
      rw [renderAt]
      rfl
    have closing := skips_brace behind
    have nothing : Reads total (commaHoles (objectMember (goal steps))) ('\x7d' :: behind) ('\x7d' :: behind) (· = []) :=
      reads_commaHoles fun limit _ =>
        reads_commaList_none (fails_member_closing behind) closing (sign?_brace behind (by decide)) limit
    rw [text]
    refine made opening ((reads_sign opening rfl rfl).bind fun _ _ => nothing.andThen ?_)
    exact (reads_sign closing rfl rfl).bind fun _ _ => .pure [] .nil
  | cons first rest =>
    rw [toList_object]
    have one (entry : String × Value) (member : entry ∈ first :: rest) : ReadsItem total (objectMember (goal steps))
        (entryText indent (depth + 1) entry) (IsEntry entry) :=
      readsItem_entry (each entry member) (Nat.lt_of_lt_of_le (length_value_lt member) enough)
    refine made opening ((reads_sign opening rfl rfl).bind fun _ _ => ?_)
    refine (reads_lines separate one depth (.inr rfl)).bind fun nodes holds => ?_
    exact (reads_sign (skips_margin separate depth (.inr rfl) behind) rfl rfl).bind fun _ _ => .pure nodes holds

end Objects

section Values

theorem opens_list (depth : ℕ) (items : List Value) :
    ∃ more, (renderAt (.lines indent) depth (.list items)).toList = '[' :: more := by
  cases items with
  | nil =>
    rw [renderAt]
    exact ⟨_, rfl⟩
  | cons first rest =>
    have shown := @toList_list indent depth first rest []
    rw [List.append_nil] at shown
    exact ⟨_, shown⟩

theorem opens_object (depth : ℕ) (entries : Entries) :
    ∃ more, (renderAt (.lines indent) depth (.object entries)).toList = '\x7b' :: more := by
  cases entries with
  | nil =>
    rw [renderAt]
    exact ⟨_, rfl⟩
  | cons first rest =>
    have shown := @toList_object indent depth first rest []
    rw [List.append_nil] at shown
    exact ⟨_, shown⟩

theorem reads_opening {rules : Rules} {tail plain : Bool} {opening : Char} {literal : Parse Node} {found : Node → Prop}
    (opens : opening = '[' ∧ literal = arrayLiteral rules ∨ opening = '\x7b' ∧ literal = objectLiteral rules)
    {more : List Char} (reads : Reads total literal (opening :: more) behind found) :
    Reads total (primary rules tail plain) (opening :: more) behind found := by
  have known : StartsOperand (opening :: more) ∧ WordAt (opening :: more) none := by
    rcases opens with ⟨rfl, -⟩ | ⟨rfl, -⟩
    · exact ⟨startsOperand_opening (by decide) _, wordAt_none (by decide) _⟩
    · exact ⟨startsOperand_opening (by decide) _, wordAt_none (by decide) _⟩
  unfold primary
  refine (reads_peek known.1.skips).bind fun cursor stands => (reads_wordAt known.2 stands).andThen ?_
  rw [stands.rest]
  rcases opens with ⟨rfl, rfl⟩ | ⟨rfl, rfl⟩
  · exact reads
  · exact reads

/-- A value of lines that is read behind its opening bracket or brace. -/
theorem readsAsScript_opening {value : Value} {opening : Char} (opens : opening ∈ ['"', '[', '\x7b'])
    (starts : ∀ depth, ∃ more, (renderAt (.lines indent) depth value).toList = opening :: more)
    (reads : ∀ depth steps total behind, (renderAt (.lines indent) depth value).length ≤ steps →
      Reads total (primary (goal steps) false false) ((renderAt (.lines indent) depth value).toList ++ behind) behind
        (Holds value)) : ReadsAsScript indent value := by
  have operand (depth : ℕ) (behind : List Char) :
      StartsOperand ((renderAt (.lines indent) depth value).toList ++ behind) := by
    obtain ⟨more, text⟩ := starts depth
    rw [text]
    exact startsOperand_opening opens _
  constructor
  · exact fun depth behind _ => startsItem_of_operand (operand depth behind)
  · intro depth steps total cs behind enough follows skips
    obtain ⟨steps, rfl⟩ := Nat.exists_eq_succ_of_ne_zero (Nat.ne_zero_of_lt enough)
    exact reads_operand (fun _ => id) (operand depth behind) follows skips
      (reads depth steps total behind (Nat.le_of_lt_succ enough))

variable (separate : ∀ c ∈ indent.toList, isSeparator c = true)
include separate

theorem reads_objectOperand {entries : Entries} (each : ∀ entry ∈ entries, ReadsAsScript indent entry.2)
    {tail plain : Bool} {depth steps : ℕ} (enough : (renderAt (.lines indent) depth (.object entries)).length ≤ steps) :
    Reads total (primary (goal steps) tail plain)
      ((renderAt (.lines indent) depth (.object entries)).toList ++ behind) behind (IsObject entries) := by
  have reads : Reads total (objectLiteral (goal steps)) _ behind (IsObject entries) := reads_object separate each enough
  obtain ⟨more, text⟩ := @opens_object indent depth entries
  rw [text] at reads ⊢
  exact reads_opening (.inr ⟨rfl, rfl⟩) reads

/-- Every value that can be read is read from its lines. -/
theorem readsAsScript {value : Value} (rounded : value.Rounded) : ReadsAsScript indent value := by
  induction rounded with
  | null => exact readsAsScript_null
  | truth value => exact readsAsScript_truth value
  | whole value => exact readsAsScript_whole value
  | real canonical => exact readsAsScript_real canonical
  | text value => exact readsAsScript_text value
  | @list items _ ih =>
    refine readsAsScript_opening (by decide) (fun depth => opens_list depth items) fun depth steps total behind enough => ?_
    have reads : Reads total (arrayLiteral (goal steps)) _ behind (Holds (.list items)) := reads_array separate ih enough
    obtain ⟨more, text⟩ := @opens_list indent depth items
    rw [text] at reads ⊢
    exact reads_opening (.inl ⟨rfl, rfl⟩) reads
  | @object entries _ _ ih =>
    refine readsAsScript_opening (by decide) (fun depth => opens_object depth entries) ?_
    intro depth steps total behind enough
    exact (reads_objectOperand separate ih enough).weaken fun _ => holds_object

end Values

end Phrasebook.Proofs.ScriptContainers
