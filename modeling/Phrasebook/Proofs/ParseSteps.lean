import Phrasebook.Syntax.Parse

/-! Rules for the steps that read a script without comments. A step is described by the characters in front of it: it
takes some of them, and then its result is known and so are the characters behind it, or it fails on them. -/

namespace Phrasebook.Proofs.ParseSteps

open Syntax Parse

variable {α β : Type} {total : Nat} {cs tok mid behind : List Char}

/-- A cursor before given characters of a text of known length. -/
structure Stands (total : Nat) (cs : List Char) (cursor : Cursor) : Prop where
  rest : cursor.rest = cs
  offset : cursor.place.offset + cs.length = total

/-- A reading that stands before given characters, with no comment behind it. -/
structure Ready (total : Nat) (cs : List Char) (reading : Reading) : Prop where
  cursor : Stands total cs reading.cursor
  comments : reading.comments = []
  limit : total < reading.limit

/-- Before `cs` a step succeeds, with a result of which something is known, and stands before `behind` then. -/
def Reads (total : Nat) (step : Parse α) (cs behind : List Char) (post : α → Prop) : Prop :=
  ∀ reading, Ready total cs reading →
    ∃ value later, step.run reading = some (value, later) ∧ Ready total behind later ∧ post value

def Fails (total : Nat) (step : Parse α) (cs : List Char) : Prop :=
  ∀ reading, Ready total cs reading → step.run reading = none

section Rules

variable {step : Parse α} {next : α → Parse β} {value : α} {found : α → Prop} {post : β → Prop}

theorem Reads.weaken {other : α → Prop} (reads : Reads total step cs behind found)
    (implies : ∀ value, found value → other value) : Reads total step cs behind other := by
  intro reading ready
  obtain ⟨value, later, ran, stands, known⟩ := reads reading ready
  exact ⟨value, later, ran, stands, implies value known⟩

theorem Reads.pure (value : α) {known : α → Prop} (holds : known value) :
    Reads total (pure value : Parse α) cs cs known :=
  fun reading ready => ⟨value, reading, rfl, ready, holds⟩

theorem Reads.bind (first : Reads total step cs mid found)
    (second : ∀ value, found value → Reads total (next value) mid behind post) :
    Reads total (step >>= next) cs behind post := by
  intro reading ready
  obtain ⟨value, later, ran, stands, known⟩ := first reading ready
  obtain ⟨result, last, ranLater, ends, holds⟩ := second value known later stands
  refine ⟨result, last, ?_, ends, holds⟩
  rw [StateT.run_bind, ran]
  exact ranLater

/-- Goes on with a result that is known. -/
theorem Reads.andThen (first : Reads total step cs mid (· = value)) (second : Reads total (next value) mid behind post) :
    Reads total (step >>= next) cs behind post := by
  apply first.bind
  rintro _ rfl
  exact second

theorem Reads.get {next : Reading → Parse β} (second : ∀ reading, Ready total cs reading →
    Reads total (next reading) cs behind post) : Reads total (get >>= next) cs behind post := by
  have same : Reads total (MonadState.get : Parse Reading) cs cs (Ready total cs) :=
    fun reading ready => ⟨reading, reading, rfl, ready, ready⟩
  exact same.bind second

theorem fails_failure : Fails total (failure : Parse α) cs := fun _ _ => rfl

theorem Fails.bind (fails : Fails total step cs) (next : α → Parse β) : Fails total (step >>= next) cs := by
  intro reading ready
  rw [StateT.run_bind, fails reading ready]
  rfl

theorem Reads.bindFails (first : Reads total step cs mid found)
    (second : ∀ value, found value → Fails total (next value) mid) : Fails total (step >>= next) cs := by
  intro reading ready
  obtain ⟨value, later, ran, stands, known⟩ := first reading ready
  rw [StateT.run_bind, ran]
  exact second value known later stands

theorem Reads.thenFails (first : Reads total step cs mid (· = value)) (second : Fails total (next value) mid) :
    Fails total (step >>= next) cs := by
  apply first.bindFails
  rintro _ rfl
  exact second

theorem fails_get {next : Reading → Parse β} (second : ∀ reading, Ready total cs reading →
    Fails total (next reading) cs) : Fails total (get >>= next) cs :=
  fun reading ready => second reading ready reading ready

variable {first second : Parse α}

theorem Reads.orElse (reads : Reads total first cs behind found) (second : Parse α) :
    Reads total (first <|> second) cs behind found := by
  intro reading ready
  obtain ⟨value, later, ran, rest⟩ := reads reading ready
  refine ⟨value, later, ?_, rest⟩
  show (first.run reading <|> second.run reading) = _
  rw [ran]
  rfl

theorem Fails.orElseReads (fails : Fails total first cs) (reads : Reads total second cs behind found) :
    Reads total (first <|> second) cs behind found := by
  intro reading ready
  obtain ⟨value, later, ran, rest⟩ := reads reading ready
  refine ⟨value, later, ?_, rest⟩
  show (first.run reading <|> second.run reading) = _
  rw [fails reading ready, ran]
  rfl

theorem Fails.orElse (one : Fails total first cs) (two : Fails total second cs) :
    Fails total (first <|> second) cs := by
  intro reading ready
  show (first.run reading <|> second.run reading) = _
  rw [one reading ready, two reading ready]
  rfl

theorem Reads.optional (reads : Reads total step cs behind found) :
    Reads total (Parse.optional step) cs behind fun result => ∃ value, result = some value ∧ found value := by
  refine Reads.orElse (reads.bind fun value known => ?_) _
  exact .pure _ ⟨value, rfl, known⟩

theorem Fails.optional (fails : Fails total step cs) : Reads total (Parse.optional step) cs cs (· = none) :=
  Fails.orElseReads (fails.bind _) (.pure none rfl)

end Rules

section Repetition

variable {step : Parse α} {found : α → Prop} {all : List α → Prop}

/-- As often as there are characters left, and once more, a step can be repeated. -/
theorem reads_many (reads : ∀ limit, cs.length < limit → Reads total (repeatUpTo step limit) cs behind all) :
    Reads total (many step) cs behind all := by
  refine Reads.get fun reading ready => reads _ ?_
  have within := ready.cursor.offset
  have bound := ready.limit
  omega

theorem reads_repeatUpTo_none (fails : Fails total step cs) (limit : Nat) :
    Reads total (repeatUpTo step limit) cs cs (· = []) := by
  cases limit with
  | zero => exact .pure [] rfl
  | succ limit => exact fails.optional.andThen (.pure [] rfl)

theorem reads_repeatUpTo_cons {limit : Nat} (reads : Reads total step cs mid found)
    (others : ∀ first, found first → Reads total (repeatUpTo step limit) mid behind fun rest => all (first :: rest)) :
    Reads total (repeatUpTo step (limit + 1)) cs behind all := by
  refine reads.optional.bind ?_
  rintro _ ⟨first, rfl, known⟩
  exact (others first known).bind fun rest holds => .pure _ holds

theorem reads_many_none (fails : Fails total step cs) : Reads total (many step) cs cs (· = []) :=
  reads_many fun limit _ => reads_repeatUpTo_none fails limit

end Repetition

section Places

theorem Stands.skip {cursor : Cursor} (stands : Stands total cs cursor) {count : Nat} (enough : count ≤ cs.length) :
    Stands total (cs.drop count) (cursor.skip count) := by
  induction count generalizing cs cursor with
  | zero => exact stands
  | succ count ih =>
    obtain ⟨rest, offset⟩ := stands
    cases cs with
    | nil => exact absurd enough (Nat.not_succ_le_zero count)
    | cons c cs =>
      have moved : (cursor.place.advance c).offset = cursor.place.offset + 1 := by
        unfold Position.advance
        split <;> rfl
      have stands : Stands total cs ⟨cs, cursor.place.advance c⟩ := by
        refine ⟨rfl, ?_⟩
        rw [moved]
        simp only [List.length_cons] at offset
        omega
      rw [Cursor.skip, rest]
      exact ih stands (Nat.le_of_succ_le_succ enough)

theorem Stands.textUpTo {start cursor : Cursor} (stands : Stands total tok start) (later : Stands total cs cursor) :
    start.textUpTo cursor = String.ofList (tok.take (tok.length - cs.length)) := by
  have difference : cursor.place.offset - start.place.offset = tok.length - cs.length := by
    have one := stands.offset
    have two := later.offset
    omega
  rw [Cursor.textUpTo, stands.rest, difference]

/-- Characters that separate tokens, and behind them a token or the end of the text. -/
inductive Skips : List Char → List Char → Prop
  | here {tok : List Char} (noSeparator : ∀ c ∈ tok.head?, isSeparator c = false)
      (noComment : commentAt? true tok = none) : Skips tok tok
  | separator {c : Char} {cs tok : List Char} (separates : isSeparator c = true) (skips : Skips cs tok) :
      Skips (c :: cs) tok

theorem Skips.append {blanks : List Char} (separate : ∀ c ∈ blanks, isSeparator c = true) (skips : Skips cs tok) :
    Skips (blanks ++ cs) tok := by
  induction blanks with
  | nil => exact skips
  | cons c blanks ih =>
    exact .separator (separate c List.mem_cons_self) (ih fun other member => separate other (List.mem_cons_of_mem _ member))

theorem Skips.token (skips : Skips cs tok) : Skips tok tok := by
  induction skips with
  | here noSeparator noComment => exact .here noSeparator noComment
  | separator _ _ ih => exact ih

theorem commentAt?_of_fresh (noComment : commentAt? true cs = none) (fresh : Bool) : commentAt? fresh cs = none := by
  unfold commentAt? at noComment ⊢
  cases closed : commentLength? cs with
  | some length =>
    rw [closed] at noComment
    cases noComment
  | none =>
    rw [closed] at noComment
    cases fresh with
    | true => exact noComment
    | false => rfl

theorem skipTrivia_of_skips (skips : Skips cs tok) (fresh : Bool) {steps : Nat} (enough : cs.length ≤ steps)
    {cursor : Cursor} (stands : Stands total cs cursor) :
    Stands total tok (cursor.skipTrivia fresh steps []).1 ∧ (cursor.skipTrivia fresh steps []).2 = [] := by
  induction skips generalizing steps cursor with
  | @here tok noSeparator noComment =>
    have same : cursor.skipTrivia fresh steps [] = (cursor, []) := by
      cases steps with
      | zero => rfl
      | succ steps =>
        rw [Cursor.skipTrivia]
        cases tok with
        | nil => rw [stands.rest]
        | cons c rest =>
          rw [stands.rest]
          simp only [noSeparator c rfl, commentAt?_of_fresh noComment, Bool.false_eq_true, if_false]
    rw [same]
    exact ⟨stands, rfl⟩
  | @separator c cs tok separates skips ih =>
    cases steps with
    | zero => exact absurd enough (Nat.not_succ_le_zero cs.length)
    | succ steps =>
      have moved : Stands total cs ⟨cs, cursor.place.advance c⟩ := by
        have one := stands.skip (Nat.le_add_left 1 cs.length)
        rw [Cursor.skip, stands.rest] at one
        exact one
      rw [Cursor.skipTrivia, stands.rest]
      simp only [separates, if_true]
      exact ih (Nat.le_of_succ_le_succ enough) moved

end Places

section Tokens

theorem Ready.exists_limit {reading : Reading} (ready : Ready total cs reading) :
    ∃ limit, reading.limit = limit + 1 :=
  Nat.exists_eq_succ_of_ne_zero (Nat.ne_zero_of_lt ready.limit)

theorem Ready.length_le {reading : Reading} (ready : Ready total cs reading) : cs.length ≤ reading.limit := by
  have within := ready.cursor.offset
  have bound := ready.limit
  omega

theorem reads_ahead (skips : Skips cs tok) :
    Reads total ahead cs cs fun result => Stands total tok result.1 ∧ result.2 = [] := by
  intro reading ready
  have skipped := skipTrivia_of_skips skips reading.fresh (Nat.le_succ_of_le ready.length_le) ready.cursor
  rw [← ready.comments] at skipped
  exact ⟨_, reading, rfl, ready, skipped.1, skipped.2.trans ready.comments⟩

theorem reads_peek (skips : Skips cs tok) : Reads total peek cs cs (Stands total tok) :=
  (reads_ahead skips).bind fun result known => .pure result.1 known.1

theorem reads_begin (skips : Skips cs tok) : Reads total begin cs tok (Stands total tok) := by
  refine (reads_ahead skips).bind fun result known => ?_
  obtain ⟨cursor, comments⟩ := result
  obtain ⟨stands, rfl⟩ := known
  intro reading ready
  exact ⟨cursor, _, rfl, ⟨stands, rfl, ready.limit⟩, stands⟩

/-- The word at the start of a text, however many steps are taken for it. -/
def WordAt (tok : List Char) (word : Option String) : Prop := ∀ steps, tok.length < steps → word? steps tok = word

theorem reads_wordAt {word : Option String} (starts : WordAt tok word) {cursor : Cursor}
    (stands : Stands total tok cursor) : Reads total (wordAt cursor) cs cs (· = word) := by
  refine Reads.get fun reading ready => .pure _ ?_
  rw [stands.rest]
  have within := stands.offset
  have bound := ready.limit
  exact starts _ (by omega)

theorem reads_nextWord {word : Option String} (skips : Skips cs tok) (starts : WordAt tok word) :
    Reads total nextWord cs cs (· = word) :=
  (reads_peek skips).bind fun _ stands => reads_wordAt starts stands

theorem reads_nextSign (skips : Skips cs tok) : Reads total nextSign cs cs (· = sign? tok) :=
  (reads_peek skips).bind fun _ stands => .pure _ (congrArg sign? stands.rest)

theorem reads_sees (skips : Skips cs tok) (text : String) :
    Reads total (sees text) cs cs (· = (sign? tok == some text)) :=
  (reads_nextSign skips).andThen (.pure _ rfl)

theorem reads_seesWord {word : Option String} (skips : Skips cs tok) (starts : WordAt tok word) (text : String) :
    Reads total (seesWord text) cs cs (· = (word == some text)) :=
  (reads_nextWord skips starts).andThen (.pure _ rfl)

theorem reads_take {count : Nat} (enough : count ≤ cs.length) :
    Reads total (take count) cs (cs.drop count) fun _ => True :=
  fun _ ready => ⟨(), _, rfl, ⟨ready.cursor.skip enough, ready.comments, ready.limit⟩, trivial⟩

theorem reads_sign (skips : Skips cs tok) {text : String} (starts : sign? tok = some text)
    (parts : tok = text.toList ++ behind) : Reads total (sign text) cs behind fun _ => True := by
  refine (reads_sees skips text).andThen ?_
  rw [starts, beq_self_eq_true, if_pos rfl]
  refine (reads_begin skips).bind fun _ _ => ?_
  have taken : Reads total (take text.length) tok (tok.drop text.length) fun _ => True :=
    reads_take (by rw [parts, List.length_append, String.length_toList]; omega)
  rwa [parts, ← String.length_toList, List.drop_left, ← parts, String.length_toList] at taken

theorem fails_sign (skips : Skips cs tok) {text : String} (other : sign? tok ≠ some text) :
    Fails total (sign text) cs := by
  refine (reads_sees skips text).thenFails ?_
  rw [beq_eq_false_iff_ne.mpr other, if_neg Bool.false_ne_true]
  exact fails_failure

theorem reads_keyword (skips : Skips cs tok) {text : String} (starts : WordAt tok (some text))
    (parts : tok = text.toList ++ behind) : Reads total (keyword text) cs behind fun _ => True := by
  refine (reads_seesWord skips starts text).andThen ?_
  rw [beq_self_eq_true, if_pos rfl]
  refine (reads_begin skips).bind fun _ _ => ?_
  have taken : Reads total (take text.length) tok (tok.drop text.length) fun _ => True :=
    reads_take (by rw [parts, List.length_append, String.length_toList]; omega)
  rwa [parts, ← String.length_toList, List.drop_left, ← parts, String.length_toList] at taken

theorem fails_keyword {word : Option String} (skips : Skips cs tok) (starts : WordAt tok word) {text : String}
    (other : word ≠ some text) : Fails total (keyword text) cs := by
  refine (reads_seesWord skips starts text).thenFails ?_
  rw [beq_eq_false_iff_ne.mpr other, if_neg Bool.false_ne_true]
  exact fails_failure

theorem reads_accept_false (skips : Skips cs tok) {text : String} (other : sign? tok ≠ some text) :
    Reads total (accept text) cs cs (· = false) := by
  refine (reads_sees skips text).andThen ?_
  rw [beq_eq_false_iff_ne.mpr other, if_neg Bool.false_ne_true]
  exact .pure false rfl

theorem reads_accept (skips : Skips cs tok) {text : String} (starts : sign? tok = some text)
    (parts : tok = text.toList ++ behind) : Reads total (accept text) cs behind (· = true) := by
  refine (reads_sees skips text).andThen ?_
  rw [starts, beq_self_eq_true, if_pos rfl]
  exact (reads_sign skips starts parts).bind fun _ _ => .pure true rfl

end Tokens

section Nodes

/-- A node made of what was read since its start. -/
theorem reads_finish {start : Cursor} (stands : Stands total tok start) (kind : Kind) (children : List Node) :
    Reads total (finish kind start children) cs cs
      (· = ⟨kind, none, String.ofList (tok.take (tok.length - cs.length)), start.place, children⟩) := by
  rintro ⟨dialect, limit, cursor, comments, fresh⟩ ready
  obtain rfl : comments = [] := ready.comments
  refine ⟨_, ⟨dialect, limit, cursor, [], fresh⟩, rfl, ⟨ready.cursor, rfl, ready.limit⟩, ?_⟩
  rw [← stands.textUpTo ready.cursor]
  rfl

theorem reads_node (skips : Skips cs tok) (kind : Kind) {step : Parse (List Node)} {made : List Node → Prop}
    (reads : Reads total step tok behind made) :
    Reads total (node kind step) cs behind fun result => ∃ start children, made children ∧
      result = ⟨kind, none, String.ofList (tok.take (tok.length - behind.length)), start, children⟩ := by
  refine (reads_begin skips).bind fun start stands => reads.bind fun children known => ?_
  refine (reads_finish stands kind children).weaken fun result same => ?_
  exact ⟨start.place, children, known, same⟩

theorem fails_node (skips : Skips cs tok) (kind : Kind) {step : Parse (List Node)} (fails : Fails total step tok) :
    Fails total (node kind step) cs :=
  (reads_begin skips).bindFails fun _ _ => fails.bind _

/-- A node without children, over the next characters. -/
def IsLeaf (kind : Kind) (text : List Char) (node : Node) : Prop :=
  ∃ start, node = ⟨kind, none, String.ofList text, start, []⟩

theorem reads_leaf (skips : Skips cs tok) (kind : Kind) {text : List Char} (parts : tok = text ++ behind) :
    Reads total (leaf kind text.length) cs behind (IsLeaf kind text) := by
  have taken : Reads total (take text.length) tok (tok.drop text.length) fun _ => True :=
    reads_take (by rw [parts, List.length_append]; omega)
  rw [parts, List.drop_left, ← parts] at taken
  have nothing : Reads total (do take text.length; pure []) tok behind (· = ([] : List Node)) :=
    taken.bind fun _ _ => .pure [] rfl
  refine (reads_node skips kind nothing).weaken ?_
  rintro _ ⟨start, _, rfl, rfl⟩
  have covered : tok.take (tok.length - behind.length) = text := by
    rw [parts, List.length_append, Nat.add_sub_cancel, List.take_left]
  exact ⟨start, by rw [covered]⟩

theorem reads_anyWord (skips : Skips cs tok) (kind : Kind) {word : String} (starts : WordAt tok (some word))
    (parts : tok = word.toList ++ behind) : Reads total (anyWord kind) cs behind (IsLeaf kind word.toList) := by
  refine (reads_nextWord skips starts).andThen ?_
  show Reads total (leaf kind word.length) cs behind _
  rw [← String.length_toList]
  exact reads_leaf skips kind parts

theorem fails_anyWord (skips : Skips cs tok) (kind : Kind) (starts : WordAt tok none) :
    Fails total (anyWord kind) cs :=
  (reads_nextWord skips starts).thenFails fails_failure

theorem reads_wordNode (skips : Skips cs tok) (kind : Kind) {word : String} (starts : WordAt tok (some word))
    (parts : tok = word.toList ++ behind) : Reads total (wordNode kind word) cs behind (IsLeaf kind word.toList) := by
  refine (reads_seesWord skips starts word).andThen ?_
  rw [beq_self_eq_true, if_pos rfl, ← String.length_toList]
  exact reads_leaf skips kind parts

end Nodes

section Lists

variable {item : Parse Node} {found : Node → Prop} {all : List Node → Prop}

theorem reads_commaHoles (reads : ∀ limit, cs.length < limit →
    Reads total (commaListUpTo item true true limit) cs behind all) : Reads total (commaHoles item) cs behind all := by
  refine Reads.get fun reading ready => reads _ ?_
  have within := ready.cursor.offset
  have bound := ready.limit
  omega

theorem reads_commaList_none (fails : Fails total item cs) (skips : Skips cs tok) (other : sign? tok ≠ some ",")
    (limit : Nat) : Reads total (commaListUpTo item true true limit) cs cs (· = []) := by
  cases limit with
  | zero => exact .pure [] rfl
  | succ limit => exact fails.optional.andThen ((reads_accept_false skips other).andThen (.pure [] rfl))

theorem reads_commaList_last {limit : Nat} (reads : Reads total item cs behind found) (skips : Skips behind tok)
    (other : sign? tok ≠ some ",") (holds : ∀ node, found node → all [node]) :
    Reads total (commaListUpTo item true true (limit + 1)) cs behind all := by
  refine reads.optional.bind ?_
  rintro _ ⟨node, rfl, known⟩
  exact (reads_accept_false skips other).andThen (.pure _ (holds node known))

theorem reads_commaList_more {limit : Nat} (reads : Reads total item cs (',' :: mid) found)
    (others : ∀ node, found node →
      Reads total (commaListUpTo item true true limit) mid behind fun rest => all (node :: rest)) :
    Reads total (commaListUpTo item true true (limit + 1)) cs behind all := by
  refine reads.optional.bind ?_
  rintro _ ⟨node, rfl, known⟩
  have skips : Skips (',' :: mid) (',' :: mid) := .here (by rintro _ ⟨⟩; rfl) rfl
  refine (reads_accept skips rfl rfl).andThen ?_
  exact (others node known).bind fun rest holds => .pure _ holds

end Lists

end Phrasebook.Proofs.ParseSteps
