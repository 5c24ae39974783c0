import Phrasebook.Catalog.JsonText

/-! A text in quotes is read as the text. Every character is written so that reading finds its number, and numbers of
characters never meet as halves of one. -/

namespace Phrasebook.Proofs.QuotedText

open Catalog JsonText Syntax

/-- A character as it stands in quotes. -/
def quotedChar (c : Char) : List Char := ((Value.escape? c).getD (String.singleton c)).toList

theorem toList_quote (text : String) :
    (Value.quote text).toList = '"' :: (text.toList.flatMap quotedChar ++ ['"']) := by
  simp [Value.quote, List.flatMap_map]
  rfl

/-- The digits of a control character are read as its number. -/
theorem hexValue_of_control {number : Nat} (control : number < 32) :
    ['0', '0', Nat.digitChar (number / 16), Nat.digitChar (number % 16)].all isHexDigit = true ∧
      hexValue ['0', '0', Nat.digitChar (number / 16), Nat.digitChar (number % 16)] = number := by
  decide +revert

/-- A character in quotes is read as its number. -/
theorem quotedNumbers_quotedChar (c : Char) (rest : List Char) :
    quotedNumbers (quotedChar c ++ rest) =
      (quotedNumbers rest).map fun (numbers, behind) => (c.toNat :: numbers, behind) := by
  unfold quotedChar Value.escape?
  split
  next => rfl
  next => rfl
  next => rfl
  next => rfl
  next => rfl
  next noQuote noSlash _ _ _ =>
    split
    next back =>
      rw [back, Option.getD_some]
      rfl
    next =>
      split
      next feed =>
        rw [feed, Option.getD_some]
        rfl
      next =>
        split
        next control =>
          have digits := hexValue_of_control control
          rw [Option.getD_some, String.toList_append, String.toList_ofList, String.toList_ofList]
          show quotedNumbers ('\\' :: 'u' :: '0' :: '0' :: _ :: _ :: rest) = _
          rw [quotedNumbers, if_pos digits.1, digits.2]
        next printed =>
          rw [Option.getD_none, String.toList_singleton, List.singleton_append]
          have plain : ¬ (decide (c.toNat < 32) || decide (c = '\\')) = true := by
            simpa using ⟨Nat.le_of_not_lt printed, noSlash⟩
          rw [quotedNumbers, if_neg plain]
          · exact noQuote
          · exact fun _ _ _ _ _ same _ => noSlash same
          · exact fun _ _ same _ => noSlash same

/-- A character is no half of another one. -/
theorem toNat_outside (c : Char) : c.toNat < 0xD800 ∨ 0xDFFF < c.toNat := by
  rcases c.valid with low | high
  · exact Or.inl low
  · exact Or.inr high.1

theorem charactersOf_toNat (characters : List Char) : charactersOf (characters.map Char.toNat) = characters := by
  induction characters with
  | nil => rfl
  | cons c rest ih =>
    have itself : (if c.toNat < 0xD800 || 0xDFFF < c.toNat then Char.ofNat c.toNat else '\ufffd') = c := by
      rw [if_pos (by simpa using toNat_outside c), Char.ofNat_toNat]
    cases rest with
    | nil => rw [List.map_cons, List.map_nil, charactersOf, itself]
    | cons second rest =>
      have noHalf : ¬ (0xD800 ≤ c.toNat && c.toNat ≤ 0xDBFF && 0xDC00 ≤ second.toNat && second.toNat ≤ 0xDFFF) := by
        have := toNat_outside c
        simp only [Bool.and_eq_true, decide_eq_true_eq]
        omega
      rw [List.map_cons] at ih ⊢
      rw [List.map_cons, charactersOf, if_neg noHalf, itself, ih]

/-- A text in quotes is read as the text. -/
theorem quoted_quote (text : String) (rest : List Char) :
    quoted (text.toList.flatMap quotedChar ++ '"' :: rest) = some (text, rest) := by
  have numbers : quotedNumbers (text.toList.flatMap quotedChar ++ '"' :: rest) =
      some (text.toList.map Char.toNat, rest) := by
    induction text.toList with
    | nil => rw [List.flatMap_nil, List.nil_append, quotedNumbers]; rfl
    | cons c characters ih =>
      rw [List.flatMap_cons, List.append_assoc, quotedNumbers_quotedChar, ih]
      rfl
  rw [quoted, numbers, Option.map_some]
  dsimp only
  rw [charactersOf_toNat, String.ofList_toList]

end Phrasebook.Proofs.QuotedText
