import Phrasebook.Search.Hint

/-! Where a call in a comment ends. The characters of a call are told by a grammar: parentheses around a body of plain
characters, quoted texts and further parentheses. Behind an opening parenthesis the end that is found is the one of the
only text from there on that the grammar gives, and none is found where it gives none. -/

namespace Phrasebook

def quoteMarks : List Char := ['"', '\'', '\x60']

/-- What follows an opening quote, up to the closing one: pairs of a backslash and any character, and characters that
are neither. -/
inductive QuotedRest (mark : Char) : List Char → Prop
  | close : QuotedRest mark [mark]
  | escaped {c : Char} {rest : List Char} (later : QuotedRest mark rest) : QuotedRest mark ('\\' :: c :: rest)
  | plain {c : Char} {rest : List Char} (unquoted : c ≠ mark) (unescaped : c ≠ '\\') (later : QuotedRest mark rest) :
      QuotedRest mark (c :: rest)

mutual

/-- A body with the parentheses around it. -/
inductive Enclosed : List Char → Prop
  | parentheses {body : List Char} (inside : Balanced body) : Enclosed ('(' :: (body ++ [')']))

/-- What can stand in parentheses: plain characters, quoted texts, and bodies in parentheses of their own. -/
inductive Balanced : List Char → Prop
  | nothing : Balanced []
  | plain {c : Char} {rest : List Char} (unquoted : c ∉ quoteMarks) (outside : c ∉ ['(', ')']) (later : Balanced rest) :
      Balanced (c :: rest)
  | quoted {mark : Char} {text rest : List Char} (opens : mark ∈ quoteMarks) (content : QuotedRest mark text)
      (later : Balanced rest) : Balanced (mark :: (text ++ rest))
  | enclosed {inner rest : List Char} (inside : Enclosed inner) (later : Balanced rest) : Balanced (inner ++ rest)

end

namespace Proofs.CallEnds

/-- The length of a text that begins with a piece, by the length of what is behind it. -/
def behind (piece : List Char) (found : Option Nat) : Option Nat := found.map (· + piece.length)

theorem behind_append (first second : List Char) (found : Option Nat) :
    behind (first ++ second) found = behind first (behind second found) := by
  rw [behind, behind, behind, Option.map_map]
  congr 1
  funext length
  rw [Function.comp_apply, List.length_append]
  omega

section Reading

variable {c mark : Char} {level : Int} {rest : List Char}

theorem mem_quoteMarks_iff : c ∈ quoteMarks ↔ (c = '"' || c = '\'' || c = '\x60') = true := by
  simp only [quoteMarks, List.mem_cons, List.not_mem_nil, or_false, Bool.or_eq_true, decide_eq_true_eq, or_assoc]

theorem callLength?_escaped : callLength? level (some mark) ('\\' :: c :: rest) =
    behind ['\\', c] (callLength? level (some mark) rest) := by
  rw [callLength?, if_pos rfl]
  rfl

theorem callLength?_inQuotes (unescaped : c ≠ '\\') : callLength? level (some mark) (c :: rest) =
    behind [c] (callLength? level (if c = mark then none else some mark) rest) := by
  rw [callLength?.eq_def]
  exact if_neg unescaped

theorem callLength?_opensQuote (opens : c ∈ quoteMarks) : callLength? level none (c :: rest) =
    behind [c] (callLength? level (some c) rest) := by
  rw [callLength?, if_pos (mem_quoteMarks_iff.mp opens)]
  rfl

theorem callLength?_opens : callLength? level none ('(' :: rest) =
    behind ['('] (callLength? (level + 1) none rest) := by
  rw [callLength?, if_neg (by decide), if_pos rfl]
  rfl

theorem callLength?_closes_last : callLength? 1 none (')' :: rest) = some 1 := by
  rw [callLength?, if_neg (by decide), if_neg (by decide), if_pos rfl, if_pos rfl]

theorem callLength?_closes (inner : level ≠ 1) : callLength? level none (')' :: rest) =
    behind [')'] (callLength? (level - 1) none rest) := by
  rw [callLength?, if_neg (by decide), if_neg (by decide), if_pos rfl, if_neg inner]
  rfl

theorem callLength?_plain (unquoted : c ∉ quoteMarks) (outside : c ∉ ['(', ')']) :
    callLength? level none (c :: rest) = behind [c] (callLength? level none rest) := by
  rw [mem_quoteMarks_iff] at unquoted
  simp only [List.mem_cons, List.not_mem_nil, or_false, not_or] at outside
  rw [callLength?, if_neg unquoted, if_neg outside.1, if_neg outside.2]
  rfl

end Reading

section Complete

variable {mark : Char} {text : List Char}

theorem ne_backslash_of_mem_quoteMarks (quote : mark ∈ quoteMarks) : mark ≠ '\\' := by
  rintro rfl
  revert quote
  decide

/-- Behind the quote that closes a text the reading goes on as before the text. -/
theorem callLength?_quotedRest (quote : mark ∈ quoteMarks) (content : QuotedRest mark text) (level : Int)
    (rest : List Char) :
    callLength? level (some mark) (text ++ rest) = behind text (callLength? level none rest) := by
  induction content with
  | close => rw [List.singleton_append, callLength?_inQuotes (ne_backslash_of_mem_quoteMarks quote), if_pos rfl]
  | escaped _ ih =>
    rw [List.cons_append, List.cons_append, callLength?_escaped, ih, ← behind_append]
    rfl
  | plain unquoted unescaped _ ih =>
    rw [List.cons_append, callLength?_inQuotes unescaped, if_neg unquoted, ih, ← behind_append]
    rfl

mutual

/-- Inside of parentheses a body in parentheses of its own is passed over. -/
theorem callLength?_enclosed {inner : List Char} (inside : Enclosed inner) (depth : Nat) (rest : List Char) :
    callLength? (depth + 1) none (inner ++ rest) = behind inner (callLength? (depth + 1) none rest) := by
  match inside with
  | @Enclosed.parentheses body inside =>
    have deeper : (depth : Int) + 1 + 1 = (depth + 1 : Nat) + 1 := by omega
    have opened : ('(' :: (body ++ [')'])) ++ rest = '(' :: (body ++ (')' :: rest)) := by simp
    rw [opened, callLength?_opens, deeper, callLength?_balanced inside (depth + 1) (')' :: rest),
      callLength?_closes (by omega), Int.add_sub_cancel, ← behind_append, ← behind_append]
    rfl
termination_by structural inside

/-- Inside of parentheses a balanced text is passed over. -/
theorem callLength?_balanced {body : List Char} (inside : Balanced body) (depth : Nat) (rest : List Char) :
    callLength? (depth + 1) none (body ++ rest) = behind body (callLength? (depth + 1) none rest) := by
  match inside with
  | .nothing => simp [behind]
  | .plain unquoted outside later =>
    rw [List.cons_append, callLength?_plain unquoted outside, callLength?_balanced later depth rest, ← behind_append]
    rfl
  | .quoted opens content later =>
    rw [List.cons_append, List.append_assoc, callLength?_opensQuote opens, callLength?_quotedRest opens content,
      callLength?_balanced later depth rest, ← behind_append, ← behind_append]
    rfl
  | .enclosed inside later =>
    rw [List.append_assoc, callLength?_enclosed inside depth, callLength?_balanced later depth rest, ← behind_append]
termination_by structural inside

end

theorem callLength?_of_enclosed {inner : List Char} (inside : Enclosed inner) (rest : List Char) :
    callLength? 0 none (inner ++ rest) = some inner.length := by
  cases inside with
  | @parentheses body inside =>
    have opened : ('(' :: (body ++ [')'])) ++ rest = '(' :: (body ++ (')' :: rest)) := by simp
    have read := callLength?_balanced inside 0 (')' :: rest)
    rw [Int.natCast_zero, Int.zero_add, callLength?_closes_last] at read
    rw [opened, callLength?_opens, Int.zero_add, read]
    simp only [behind, Option.map_some, List.length_cons, List.length_append, List.length_nil]
    congr 1
    omega

end Complete

section Sound

variable {depth length : Nat} {front rest text : List Char}

/-- What closes so many parentheses: balanced texts, with a closing parenthesis behind each. -/
inductive Closing : Nat → List Char → Prop
  | done : Closing 0 []
  | close {depth : Nat} {body rest : List Char} (inside : Balanced body) (later : Closing depth rest) :
      Closing (depth + 1) (body ++ ')' :: rest)

theorem Closing.behind (closing : Closing (depth + 1) rest)
    (keeps : ∀ body, Balanced body → Balanced (front ++ body)) : Closing (depth + 1) (front ++ rest) := by
  cases closing with
  | close inside later =>
    rw [← List.append_assoc]
    exact .close (keeps _ inside) later

theorem Closing.opened (closing : Closing (depth + 2) rest) : Closing (depth + 1) ('(' :: rest) := by
  cases closing with
  | @close _ body _ inside closing =>
    have enclosed : Enclosed ('(' :: (body ++ [')'])) := .parentheses inside
    have whole := closing.behind fun _ => Balanced.enclosed enclosed
    simpa using whole

/-- What is read until all parentheses are closed, from inside of a quoted text or outside. -/
def Closes (depth : Nat) : Option Char → List Char → Prop
  | none, piece => Closing depth piece
  | some mark, piece => ∃ text rest, piece = text ++ rest ∧ QuotedRest mark text ∧ Closing depth rest

/-- A text has a piece of a shape and a length at its start. -/
def Starts (shape : List Char → Prop) (text : List Char) (length : Nat) : Prop :=
  ∃ piece, piece <+: text ∧ piece.length = length ∧ shape piece

theorem starts_iff {shape : List Char → Prop} :
    Starts shape text length ↔ length ≤ text.length ∧ shape (text.take length) := by
  constructor
  · rintro ⟨piece, before, rfl, shaped⟩
    refine ⟨before.length_le, ?_⟩
    rwa [← List.prefix_iff_eq_take.mp before]
  · rintro ⟨inside, shaped⟩
    exact ⟨text.take length, List.take_prefix length text, List.length_take_of_le inside, shaped⟩

theorem starts_behind (front : List Char) {within around : List Char → Prop} {found : Option Nat}
    (whole : found.map (· + front.length) = some length)
    (later : ∀ length, found = some length → Starts within rest length)
    (keeps : ∀ piece, within piece → around (front ++ piece)) : Starts around (front ++ rest) length := by
  obtain ⟨shorter, known, rfl⟩ := Option.map_eq_some_iff.mp whole
  obtain ⟨piece, before, rfl, shaped⟩ := later shorter known
  refine ⟨front ++ piece, (List.prefix_append_right_inj front).mpr before, ?_, keeps piece shaped⟩
  rw [List.length_append, Nat.add_comm]

/-- A length that is found is the one of a text that closes the parentheses open so far. -/
theorem starts_of_callLength? {quote : Option Char} {level : Int} (opened : level = depth + 1)
    (found : callLength? level quote text = some length) : Starts (Closes (depth + 1) quote) text length := by
  fun_induction callLength? level quote text generalizing depth length with
  | case1 => cases found
  | case2 => cases found
  | case3 level mark c rest ih =>
    apply starts_behind ['\\', c] found
    · intro shorter known
      exact ih opened known
    · rintro _ ⟨text, closed, rfl, content, closing⟩
      exact ⟨'\\' :: c :: text, closed, rfl, .escaped content, closing⟩
  | case4 level c rest mark unescaped ih =>
    apply starts_behind [c] found
    · intro shorter known
      exact ih opened known
    · intro piece closes
      split at closes
      next same => exact ⟨[c], piece, rfl, same ▸ .close, closes⟩
      next different =>
        obtain ⟨text, closed, rfl, content, closing⟩ := closes
        exact ⟨c :: text, closed, rfl, .plain different unescaped content, closing⟩
  | case5 level c rest isQuote ih =>
    apply starts_behind [c] found
    · intro shorter known
      exact ih opened known
    · rintro _ ⟨text, closed, rfl, content, closing⟩
      rw [← List.append_assoc]
      exact closing.behind fun _ => .quoted (mem_quoteMarks_iff.mpr isQuote) content
  | case6 level rest noQuote ih =>
    have deeper : level + 1 = (depth + 1 : Nat) + 1 := by omega
    apply starts_behind ['('] found
    · intro shorter known
      exact ih deeper known
    · intro piece closes
      exact Closing.opened closes
  | case7 rest noQuote noOpening =>
    obtain rfl := Option.some.inj found
    obtain rfl : depth = 0 := by omega
    exact ⟨[')'], ⟨rest, rfl⟩, rfl, .close .nothing .done⟩
  | case8 level rest noQuote noOpening inner ih =>
    obtain ⟨shallower, rfl⟩ : ∃ shallower, depth = shallower + 1 := Nat.exists_eq_succ_of_ne_zero (by omega)
    have remaining : level - 1 = shallower + 1 := by omega
    apply starts_behind [')'] found
    · intro shorter known
      exact ih remaining known
    · intro piece closes
      exact .close .nothing closes
  | case9 level c rest noQuote noOpening noClosing ih =>
    apply starts_behind [c] found
    · intro shorter known
      exact ih opened known
    · intro piece closes
      have unquoted : c ∉ quoteMarks := mt mem_quoteMarks_iff.mp noQuote
      exact Closing.behind closes fun _ => .plain unquoted (by simp [noOpening, noClosing])

/-- Behind an opening parenthesis the length that is found is the one of a body in parentheses. -/
theorem callLength?_eq_some_iff :
    callLength? 0 none ('(' :: rest) = some length ↔ Starts Enclosed ('(' :: rest) length := by
  constructor
  · intro found
    rw [callLength?_opens] at found
    have closing (shorter : Nat) (known : callLength? (0 + 1) none rest = some shorter) :
        Starts (Closing 1) rest shorter := starts_of_callLength? (Int.zero_add 1) known
    apply starts_behind ['('] found closing
    rintro _ (_ | ⟨inside, ⟨⟩⟩)
    exact .parentheses inside
  · rintro ⟨inner, ⟨more, whole⟩, rfl, inside⟩
    rw [← whole]
    exact callLength?_of_enclosed inside more

end Sound

section Ends

variable {text : String} {place : Nat}

theorem not_enclosed_nil : ¬ Enclosed [] := nofun

theorem drop_of_opens (opens : text.toList[place]? = some '(') :
    text.toList.drop place = '(' :: text.toList.drop (place + 1) := by
  obtain ⟨inside, here⟩ := List.getElem?_eq_some_iff.mp opens
  rw [List.drop_eq_getElem_cons inside, here]

theorem callEnd?_eq_some_iff (opens : text.toList[place]? = some '(') (ending : Nat) :
    callEnd? text place = some ending ↔ ending ≤ text.length ∧ Enclosed ((text.toList.take ending).drop place) := by
  have size : text.toList.length = text.length := String.length_toList
  have found (length : Nat) : callLength? 0 none (text.toList.drop place) = some length ↔
      length ≤ text.length - place ∧ Enclosed ((text.toList.drop place).take length) := by
    rw [drop_of_opens opens, callLength?_eq_some_iff, ← drop_of_opens opens, starts_iff, List.length_drop, size]
  rw [callEnd?, Option.map_eq_some_iff, List.drop_take]
  constructor
  · rintro ⟨length, known, rfl⟩
    obtain ⟨short, inside⟩ := (found length).mp known
    rw [Nat.add_sub_cancel_left]
    refine ⟨?_, inside⟩
    have within : place < text.toList.length := (List.getElem?_eq_some_iff.mp opens).1
    omega
  · rintro ⟨short, inside⟩
    have behind : place < ending := by
      apply Nat.lt_of_not_le
      intro before
      rw [Nat.sub_eq_zero_of_le before, List.take_zero] at inside
      exact not_enclosed_nil inside
    exact ⟨ending - place, (found _).mpr ⟨by omega, inside⟩, by omega⟩

/-- The end of a call is found just where a body in parentheses ends that starts at the opening one. There is none where
no such body starts, and never a second one. -/
theorem callEnd?_iff_enclosed (opens : text.toList[place]? = some '(') :
    (∀ ending, callEnd? text place = some ending ↔
      ending ≤ text.length ∧ Enclosed ((text.toList.take ending).drop place)) ∧
    (callEnd? text place = none ↔ ∀ piece, piece <+: text.toList.drop place → ¬ Enclosed piece) ∧
    ∀ first second, first <+: text.toList.drop place → second <+: text.toList.drop place →
      Enclosed first → Enclosed second → first = second := by
  have length_of_enclosed {piece : List Char} (before : piece <+: text.toList.drop place) (inside : Enclosed piece) :
      callLength? 0 none (text.toList.drop place) = some piece.length := by
    obtain ⟨rest, whole⟩ := before
    rw [← whole]
    exact callLength?_of_enclosed inside rest
  refine ⟨callEnd?_eq_some_iff opens, ?_, ?_⟩
  · rw [callEnd?, Option.map_eq_none_iff]
    constructor
    · intro absent piece before inside
      rw [length_of_enclosed before inside] at absent
      cases absent
    · intro never
      apply Option.eq_none_iff_forall_ne_some.mpr
      intro length known
      rw [drop_of_opens opens, callLength?_eq_some_iff, ← drop_of_opens opens] at known
      obtain ⟨piece, before, -, inside⟩ := known
      exact never piece before inside
  · intro first second before before' inside inside'
    have same : some first.length = some second.length :=
      (length_of_enclosed before inside).symm.trans (length_of_enclosed before' inside')
    rw [List.prefix_iff_eq_take.mp before, List.prefix_iff_eq_take.mp before', Option.some.inj same]

/-- Escaped quotes and parentheses in quotes do not count. -/
theorem end_behind_quotes :
    "t('\\')', f()) x".toList[1]? = some '(' ∧ callEnd? "t('\\')', f()) x" 1 = some 13 := by
  have opens : "t('\\')', f()) x".toList[1]? = some '(' := by decide
  have quoted : QuotedRest '\'' ['\\', '\'', ')', '\''] := .escaped (.plain (by decide) (by decide) .close)
  have call : Enclosed ['(', ')'] := .parentheses .nothing
  have name : Balanced ['f', '(', ')'] := .plain (by decide) (by decide) (.enclosed call .nothing)
  have further : Balanced [',', ' ', 'f', '(', ')'] :=
    .plain (by decide) (by decide) (.plain (by decide) (by decide) name)
  have inside : Enclosed (("t('\\')', f()) x".toList.take 13).drop 1) :=
    .parentheses (.quoted (by decide) quoted further)
  exact ⟨opens, ((callEnd?_iff_enclosed opens).1 13).mpr ⟨by decide, inside⟩⟩

end Ends

end Proofs.CallEnds

end Phrasebook
