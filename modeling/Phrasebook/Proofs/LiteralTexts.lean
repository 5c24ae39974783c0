import Phrasebook.Proofs.QuotedText
import Phrasebook.Syntax.Literal

/-! The text that the content of a literal spells. A script knows texts by their code units, of which a character has
one or two; an escape gives one unit, a whole character, or nothing. Decoding gives the text whose units these are. -/

namespace Phrasebook

open Syntax

/-- The code units of the character with a number: one, or two halves. -/
def codeUnits (number : Nat) : List Nat :=
  if number < 0x10000 then [number]
  else [0xD800 + (number - 0x10000) / 0x400, 0xDC00 + (number - 0x10000) % 0x400]

def textUnits (characters : List Char) : List Nat := characters.flatMap fun c => codeUnits c.toNat

/-- The letters behind a backslash that stand for control characters, and the numbers of these. -/
def controlEscapes : List (Char × Nat) := [('b', 8), ('t', 9), ('n', 10), ('v', 11), ('f', 12), ('r', 13)]

def lineEnds : List Char := ['\n', '\r', '\u2028', '\u2029']

/-- The characters that stand for something else behind a backslash, digits aside. -/
def escapeMarks : List Char := ['x', 'u'] ++ lineEnds ++ controlEscapes.map Prod.fst

/-- The code units that the content of a literal stands for, in scripts whose line ends are line feeds and which have no
escapes for octal numbers. -/
inductive Spells : List Char → List Nat → Prop
  | nothing : Spells [] []
  | plain {c : Char} {source : List Char} {units : List Nat} (unescaped : c ≠ '\\') (feed : c ≠ '\r')
      (rest : Spells source units) : Spells (c :: source) (codeUnits c.toNat ++ units)
  | control {c : Char} {number : Nat} {source : List Char} {units : List Nat} (known : (c, number) ∈ controlEscapes)
      (rest : Spells source units) : Spells ('\\' :: c :: source) (number :: units)
  | zero {source : List Char} {units : List Nat} (last : ∀ c ∈ source.head?, c.isDigit = false)
      (rest : Spells source units) : Spells ('\\' :: '0' :: source) (0 :: units)
  | itself {c : Char} {source : List Char} {units : List Nat} (noMark : c ∉ escapeMarks) (noDigit : c.isDigit = false)
      (rest : Spells source units) : Spells ('\\' :: c :: source) (codeUnits c.toNat ++ units)
  | lineEnd {c : Char} {source : List Char} {units : List Nat} (ends : c ∈ lineEnds)
      (alone : c = '\r' → source.head? ≠ some '\n') (rest : Spells source units) : Spells ('\\' :: c :: source) units
  | returnAndFeed {source : List Char} {units : List Nat} (rest : Spells source units) :
      Spells ('\\' :: '\r' :: '\n' :: source) units
  | byte {high low : Char} {source : List Char} {units : List Nat} (digits : [high, low].all isHexDigit = true)
      (rest : Spells source units) : Spells ('\\' :: 'x' :: high :: low :: source) (hexValue [high, low] :: units)
  | unit {a b c d : Char} {source : List Char} {units : List Nat} (digits : [a, b, c, d].all isHexDigit = true)
      (rest : Spells source units) : Spells ('\\' :: 'u' :: a :: b :: c :: d :: source) (hexValue [a, b, c, d] :: units)
  | character {digits source : List Char} {units : List Nat} (some : digits ≠ []) (hex : digits.all isHexDigit = true)
      (known : hexValue digits ≤ 0x10FFFF) (rest : Spells source units) :
      Spells ('\\' :: 'u' :: '\x7b' :: (digits ++ '\x7d' :: source)) (codeUnits (hexValue digits) ++ units)

namespace Proofs.LiteralTexts

open QuotedText

section Steps

variable {steps : Nat} {source : List Char}

theorem decodeNumbers_plain {c : Char} (unescaped : c ≠ '\\') :
    decodeNumbers (steps + 1) (c :: source) = (do pure (c.toNat :: (← decodeNumbers steps source))) := by
  rw [decodeNumbers]
  exact unescaped

theorem decodeNumbers_simple {c : Char} (noNumber : c ∉ ['x', 'u']) (alone : c = '\r' → source.head? ≠ some '\n') :
    decodeNumbers (steps + 1) ('\\' :: c :: source) =
      (do pure (simpleEscape c ++ (← decodeNumbers steps source))) := by
  simp only [List.mem_cons, List.not_mem_nil, or_false, not_or] at noNumber
  rw [decodeNumbers]
  · rw [if_neg noNumber.2, if_neg noNumber.1]
  · exact fun _ same => absurd same noNumber.2
  · rintro behind returned rfl
    exact alone returned rfl

theorem decodeNumbers_byte {high low : Char} (digits : [high, low].all isHexDigit = true) :
    decodeNumbers (steps + 1) ('\\' :: 'x' :: high :: low :: source) =
      (do pure (hexValue [high, low] :: (← decodeNumbers steps source))) := by
  rw [decodeNumbers]
  · simp [digits]
  · intro _ same
    exact absurd same (by decide)
  · intro _ same
    exact absurd same (by decide)

theorem decodeNumbers_unit {a b c d : Char} (digits : [a, b, c, d].all isHexDigit = true) :
    decodeNumbers (steps + 1) ('\\' :: 'u' :: a :: b :: c :: d :: source) =
      (do pure (hexValue [a, b, c, d] :: (← decodeNumbers steps source))) := by
  rw [decodeNumbers]
  · simp [digits]
  · rintro more - same
    obtain ⟨rfl, -⟩ := List.cons.inj same
    exact absurd digits (by simp [isHexDigit])
  · intro _ same
    exact absurd same (by decide)

theorem decodeNumbers_character {digits : List Char} (some : digits ≠ []) (hex : digits.all isHexDigit = true)
    (known : hexValue digits ≤ 0x10FFFF) :
    decodeNumbers (steps + 1) ('\\' :: 'u' :: '\x7b' :: (digits ++ '\x7d' :: source)) =
      (do pure (hexValue digits :: (← decodeNumbers steps source))) := by
  have taken : (digits ++ '\x7d' :: source).takeWhile isHexDigit = digits := by
    rw [List.takeWhile_append_of_pos (List.all_eq_true.mp hex)]
    exact List.append_nil digits
  rw [decodeNumbers, taken, List.drop_left]
  obtain ⟨first, others, rfl⟩ := List.exists_cons_of_ne_nil some
  have small : ¬ 0x7FFFFFFF < hexValue (first :: others) := by omega
  have there : ¬ 0x10FFFF < hexValue (first :: others) := Nat.not_lt.mpr known
  exact (if_neg small).trans (if_neg there)

end Steps

section Units

theorem codeUnits_of_small {number : Nat} (small : number < 0x10000) : codeUnits number = [number] := if_pos small

theorem codeUnits_of_large {number : Nat} (large : ¬ number < 0x10000) :
    codeUnits number = [0xD800 + (number - 0x10000) / 0x400, 0xDC00 + (number - 0x10000) % 0x400] := if_neg large

theorem codeUnits_ne_nil (number : Nat) : codeUnits number ≠ [] := by
  unfold codeUnits
  split <;> exact List.cons_ne_nil _ _

theorem charactersOf_cons {number : Nat} (outside : number < 0xD800 ∨ 0xDFFF < number) (numbers : List Nat) :
    charactersOf (number :: numbers) = Char.ofNat number :: charactersOf numbers := by
  have itself : (decide (number < 0xD800) || decide (0xDFFF < number)) = true := by simpa using outside
  cases numbers with
  | nil => exact congrArg (· :: []) (if_pos itself)
  | cons second numbers =>
    have noHalf : ¬ (0xD800 ≤ number && number ≤ 0xDBFF && 0xDC00 ≤ second && second ≤ 0xDFFF) = true := by
      simp only [Bool.and_eq_true, decide_eq_true_eq]
      omega
    rw [charactersOf, if_neg noHalf, if_pos itself]

theorem charactersOf_halves {number : Nat} (large : ¬ number < 0x10000) (known : number ≤ 0x10FFFF)
    (numbers : List Nat) :
    charactersOf ((0xD800 + (number - 0x10000) / 0x400) :: (0xDC00 + (number - 0x10000) % 0x400) :: numbers) =
      Char.ofNat number :: charactersOf numbers := by
  have halves : (0xD800 ≤ 0xD800 + (number - 0x10000) / 0x400 && 0xD800 + (number - 0x10000) / 0x400 ≤ 0xDBFF &&
      0xDC00 ≤ 0xDC00 + (number - 0x10000) % 0x400 && 0xDC00 + (number - 0x10000) % 0x400 ≤ 0xDFFF) = true := by
    simp only [Bool.and_eq_true, decide_eq_true_eq]
    omega
  have whole : 0x10000 + (0xD800 + (number - 0x10000) / 0x400 - 0xD800) * 0x400 +
      (0xDC00 + (number - 0x10000) % 0x400 - 0xDC00) = number := by omega
  rw [charactersOf, if_pos halves, whole]

theorem toNat_le (c : Char) : c.toNat ≤ 0x10FFFF := by
  rcases c.valid with low | high
  · have small : c.toNat < 0xD800 := low
    omega
  · exact Nat.le_of_lt_succ high.2

/-- Characters are known by their code units, even where the halves of one were given one by one. -/
theorem charactersOf_of_units {numbers : List Nat} {characters : List Char}
    (known : ∀ number ∈ numbers, number ≤ 0x10FFFF) (same : numbers.flatMap codeUnits = textUnits characters) :
    charactersOf numbers = characters := by
  induction characters generalizing numbers with
  | nil =>
    cases numbers with
    | nil => rfl
    | cons number numbers =>
      rw [List.flatMap_cons] at same
      exact absurd (List.append_eq_nil_iff.mp same).1 (codeUnits_ne_nil number)
  | cons c characters ih =>
    have outside := toNat_outside c
    have inside := toNat_le c
    cases numbers with
    | nil => exact absurd (List.append_eq_nil_iff.mp same.symm).1 (codeUnits_ne_nil _)
    | cons number numbers =>
      obtain ⟨knownHere, knownBehind⟩ := List.forall_mem_cons.mp known
      rw [textUnits, List.flatMap_cons, List.flatMap_cons] at same
      by_cases small : number < 0x10000 <;> by_cases single : c.toNat < 0x10000
      · rw [codeUnits_of_small small, codeUnits_of_small single] at same
        obtain ⟨rfl, rest⟩ := List.cons.inj same
        rw [charactersOf_cons outside, Char.ofNat_toNat, ih knownBehind rest]
      · -- the first half of a character is a number of its own only before the second half
        rw [codeUnits_of_small small, codeUnits_of_large single] at same
        obtain ⟨rfl, rest⟩ := List.cons.inj same
        cases numbers with
        | nil => cases rest
        | cons second numbers =>
          obtain ⟨knownSecond, knownRest⟩ := List.forall_mem_cons.mp knownBehind
          have halves : codeUnits second ++ numbers.flatMap codeUnits =
            (0xDC00 + (c.toNat - 0x10000) % 0x400) :: textUnits characters := rest
          by_cases smallSecond : second < 0x10000
          · rw [codeUnits_of_small smallSecond, List.singleton_append, List.cons.injEq] at halves
            rw [halves.1, charactersOf_halves single inside, Char.ofNat_toNat, ih knownRest halves.2]
          · rw [codeUnits_of_large smallSecond] at halves
            have half := (List.cons.inj halves).1
            omega
      · rw [codeUnits_of_large small, codeUnits_of_small single] at same
        have half := (List.cons.inj same).1
        omega
      · rw [codeUnits_of_large small, codeUnits_of_large single] at same
        obtain ⟨high, rest⟩ := List.cons.inj same
        obtain ⟨low, rest⟩ := List.cons.inj rest
        have equal : number = c.toNat := by omega
        rw [equal, charactersOf_cons outside, Char.ofNat_toNat, ih knownBehind rest]

theorem hexDigit_lt {c : Char} (hex : isHexDigit c = true) :
    (if c.isDigit then c.toNat - 48 else if 'a' ≤ c then c.toNat - 87 else c.toNat - 55) < 16 := by
  have digit : c.isDigit = true ↔ 48 ≤ c.toNat ∧ c.toNat ≤ 57 := by
    simp [Char.isDigit, UInt32.le_iff_toNat_le]
  have above {first : Char} : first ≤ c ↔ first.toNat ≤ c.toNat := Iff.rfl
  have below {last : Char} : c ≤ last ↔ c.toNat ≤ last.toNat := Iff.rfl
  simp only [isHexDigit, Bool.or_eq_true, Bool.and_eq_true, decide_eq_true_eq, digit, above, below] at hex ⊢
  have letters : 'a'.toNat = 97 ∧ 'f'.toNat = 102 ∧ 'A'.toNat = 65 ∧ 'F'.toNat = 70 := by decide
  obtain ⟨a, f, bigA, bigF⟩ := letters
  rw [a, f, bigA, bigF] at hex
  rw [a]
  split
  · omega
  · split <;> omega

theorem hexValue_append_lt {c : Char} (digits : List Char) (hex : isHexDigit c = true) :
    hexValue (digits ++ [c]) < 16 * (hexValue digits + 1) := by
  have here := hexDigit_lt hex
  rw [hexValue, List.foldl_append]
  show 16 * hexValue digits + _ < _
  omega

theorem hexValue_lt_of_two {a b : Char} (digits : [a, b].all isHexDigit = true) : hexValue [a, b] < 0x100 := by
  simp only [List.all_cons, List.all_nil, Bool.and_eq_true] at digits
  obtain ⟨isFirst, isSecond, -⟩ := digits
  have first : hexValue [a] < 16 := hexValue_append_lt [] isFirst
  have second : hexValue [a, b] < 16 * (hexValue [a] + 1) := hexValue_append_lt [a] isSecond
  omega

theorem hexValue_lt_of_four {a b c d : Char} (digits : [a, b, c, d].all isHexDigit = true) :
    hexValue [a, b, c, d] < 0x10000 := by
  have pairs : ([a, b] ++ [c, d]).all isHexDigit = true := digits
  rw [List.all_append, Bool.and_eq_true] at pairs
  obtain ⟨before, behind⟩ := pairs
  simp only [List.all_cons, List.all_nil, Bool.and_eq_true] at behind
  obtain ⟨isThird, isFourth, -⟩ := behind
  have two := hexValue_lt_of_two before
  have third : hexValue [a, b, c] < 16 * (hexValue [a, b] + 1) := hexValue_append_lt [a, b] isThird
  have fourth : hexValue [a, b, c, d] < 16 * (hexValue [a, b, c] + 1) := hexValue_append_lt [a, b, c] isFourth
  omega

end Units

section Decoding

/-- In enough steps a source is decoded to numbers of characters and of halves that have code units. -/
def Decodes (source : List Char) (units : List Nat) : Prop :=
  ∀ steps, source.length < steps → ∃ numbers, decodeNumbers steps source = .ok numbers ∧
    numbers.flatMap codeUnits = units ∧ ∀ number ∈ numbers, number ≤ 0x10FFFF

variable {c : Char} {whole source : List Char} {single : Nat} {front units : List Nat}

theorem Decodes.behind (decodes : Decodes source units) (shorter : source.length < whole.length)
    (known : ∀ number ∈ front, number ≤ 0x10FFFF)
    (step : ∀ steps, decodeNumbers (steps + 1) whole = (do pure (front ++ (← decodeNumbers steps source)))) :
    Decodes whole (front.flatMap codeUnits ++ units) := by
  intro steps enough
  obtain ⟨steps, rfl⟩ := Nat.exists_eq_succ_of_ne_zero (Nat.ne_of_gt (Nat.zero_lt_of_lt enough))
  obtain ⟨numbers, decoded, rfl, small⟩ := decodes steps (by omega)
  refine ⟨front ++ numbers, ?_, List.flatMap_append, ?_⟩
  · rw [step, decoded]
    rfl
  · exact fun number member => (List.mem_append.mp member).elim (known number) (small number)

/-- A piece of a source that is decoded to one number gives the code units of this. -/
theorem Decodes.numbered (decodes : Decodes source units) (shorter : source.length < whole.length)
    (known : single ≤ 0x10FFFF)
    (step : ∀ steps, decodeNumbers (steps + 1) whole = (do pure (single :: (← decodeNumbers steps source)))) :
    Decodes whole (codeUnits single ++ units) := by
  have alone : [single].flatMap codeUnits = codeUnits single := List.append_nil _
  rw [← alone]
  exact decodes.behind shorter (List.forall_mem_singleton.mpr known) step

/-- A small number is its own code unit. -/
theorem Decodes.codeUnit (decodes : Decodes source units) (shorter : source.length < whole.length)
    (small : single < 0x10000)
    (step : ∀ steps, decodeNumbers (steps + 1) whole = (do pure (single :: (← decodeNumbers steps source)))) :
    Decodes whole (single :: units) := by
  have behind := decodes.numbered shorter (Nat.le_trans (Nat.le_of_lt small) (by decide)) step
  rwa [codeUnits_of_small small] at behind

theorem simpleEscape_of_control (known : (c, single) ∈ controlEscapes) :
    simpleEscape c = [single] ∧ single < 0x10000 ∧ c ∉ ['x', 'u'] ∧ c ≠ '\r' := by
  simp only [controlEscapes, List.mem_cons, Prod.mk.injEq, List.not_mem_nil, or_false] at known
  rcases known with ⟨rfl, rfl⟩ | ⟨rfl, rfl⟩ | ⟨rfl, rfl⟩ | ⟨rfl, rfl⟩ | ⟨rfl, rfl⟩ | ⟨rfl, rfl⟩ <;> decide

theorem simpleEscape_of_lineEnd (ends : c ∈ lineEnds) : simpleEscape c = [] ∧ c ∉ ['x', 'u'] := by
  simp only [lineEnds, List.mem_cons, List.not_mem_nil, or_false] at ends
  rcases ends with rfl | rfl | rfl | rfl <;> decide

theorem simpleEscape_of_noMark (noMark : c ∉ escapeMarks) (noDigit : c.isDigit = false) :
    simpleEscape c = [c.toNat] ∧ c ∉ ['x', 'u'] ∧ c ≠ '\r' := by
  have differs (mark : Char) (marked : mark ∈ escapeMarks) : c ≠ mark := fun same => noMark (same ▸ marked)
  have noLine : ¬ (c.toNat = 0x2028 || c.toNat = 0x2029) = true := by
    simp only [Bool.or_eq_true, decide_eq_true_eq, not_or]
    exact ⟨fun same => differs '\u2028' (by decide) (Char.toNat_inj.mp same),
      fun same => differs '\u2029' (by decide) (Char.toNat_inj.mp same)⟩
  refine ⟨?_, fun member => noMark (List.mem_append_left _ (List.mem_append_left _ member)), differs _ (by decide)⟩
  unfold simpleEscape
  split
  case h_7 => cases noDigit
  case h_10 => exact if_neg noLine
  all_goals exact absurd rfl (differs _ (by decide))

/-- The content of a literal is decoded to numbers of the code units that it spells. -/
theorem decodes_of_spells (spelled : Spells source units) : Decodes source units := by
  induction spelled with
  | nothing =>
    rintro (_ | steps) -
    · exact ⟨[], rfl, rfl, List.forall_mem_nil _⟩
    · exact ⟨[], rfl, rfl, List.forall_mem_nil _⟩
  | @plain c source _ unescaped _ _ ih =>
    exact ih.numbered (Nat.lt_succ_self _) (toNat_le c) fun steps => decodeNumbers_plain unescaped
  | control known _ ih =>
    obtain ⟨escaped, small, noNumber, noReturn⟩ := simpleEscape_of_control known
    refine ih.codeUnit (by simp only [List.length_cons]; omega) small fun steps => ?_
    rw [decodeNumbers_simple noNumber (absurd · noReturn), escaped]
    rfl
  | zero _ _ ih =>
    refine ih.codeUnit (by simp only [List.length_cons]; omega) (by decide) fun steps => ?_
    exact decodeNumbers_simple (by decide) (absurd · (by decide))
  | @itself c _ _ noMark noDigit _ ih =>
    obtain ⟨escaped, noNumber, noReturn⟩ := simpleEscape_of_noMark noMark noDigit
    refine ih.numbered (by simp only [List.length_cons]; omega) (toNat_le c) fun steps => ?_
    rw [decodeNumbers_simple noNumber (absurd · noReturn), escaped]
    rfl
  | lineEnd ends alone _ ih =>
    obtain ⟨escaped, noNumber⟩ := simpleEscape_of_lineEnd ends
    refine ih.behind (by simp only [List.length_cons]; omega) (List.forall_mem_nil _) fun steps => ?_
    rw [decodeNumbers_simple noNumber alone, escaped]
  | @returnAndFeed source _ _ ih =>
    refine ih.behind (by simp only [List.length_cons]; omega) (List.forall_mem_nil _) fun steps => ?_
    show decodeNumbers steps source = _
    cases decodeNumbers steps source <;> rfl
  | byte digits _ ih =>
    have small := hexValue_lt_of_two digits
    exact ih.codeUnit (by simp only [List.length_cons]; omega) (by omega) fun steps => decodeNumbers_byte digits
  | unit digits _ ih =>
    exact ih.codeUnit (by simp only [List.length_cons]; omega) (hexValue_lt_of_four digits)
      fun steps => decodeNumbers_unit digits
  | character some hex known _ ih =>
    exact ih.numbered (by simp only [List.length_cons, List.length_append]; omega) known
      fun steps => decodeNumbers_character some hex known

theorem decodeEscapes_of_spells {source text : String} (spelled : Spells source.toList (textUnits text.toList)) :
    decodeEscapes source = .ok text := by
  obtain ⟨numbers, decoded, units, known⟩ :=
    decodes_of_spells spelled (source.toList.length + 1) (Nat.lt_succ_self _)
  rw [decodeEscapes, ← String.length_toList, decoded]
  show Except.ok (String.ofList (charactersOf numbers)) = _
  rw [charactersOf_of_units known units, String.ofList_toList]

/-- A string whose content spells a text has this as its value. -/
theorem stringValue?_of_spells {node : Node} {text : String} (kind : node.kind = .stringLiteral)
    (spelled : Spells node.quoted.toList (textUnits text.toList)) : node.stringValue? = .ok (some text) := by
  have bare : node.unwrap = some node := Node.unwrap_eq (by simp [Node.isWrapper, kind])
  unfold Node.stringValue?
  simp only [bare, kind, decide_true, Bool.true_or, if_true, decodeEscapes_of_spells spelled]
  rfl

end Decoding

end Proofs.LiteralTexts

end Phrasebook
