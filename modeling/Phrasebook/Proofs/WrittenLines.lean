import Phrasebook.Project.Files
import Phrasebook.Proofs.CatalogText

/-! The text of a value has no carriage return of its own: in a text it stands as an escape, and nothing else is written
with one. So the lines that are read from a written file are those that were written. -/

namespace Phrasebook.Proofs.WrittenLines

open Catalog Value Decimal NumberText QuotedText

theorem lines?_text {text : String} (noReturn : '\r' ∉ text.toList) : (Content.text text).lines? = some text := by
  have unified : ∀ cs : List Char, '\r' ∉ cs → Content.unifyBreaks cs = cs := by
    intro cs noReturn
    induction cs with
    | nil => rfl
    | cons c rest ih =>
      rw [List.mem_cons, not_or] at noReturn
      have other : c ≠ '\r' := Ne.symm noReturn.1
      rw [Content.unifyBreaks, if_neg other, ih noReturn.2]
      exact fun _ same => absurd same other
  rw [Content.lines?, unified _ noReturn, String.ofList_toList]

theorem notMem_positional {digits : List Char} (noReturn : '\r' ∉ digits) (point : ℤ) :
    '\r' ∉ Binary64.positional digits point := by
  have front : '\r' ∉ digits.take point.toNat := fun member => noReturn (List.mem_of_mem_take member)
  have behind : '\r' ∉ digits.drop point.toNat := fun member => noReturn (List.mem_of_mem_drop member)
  unfold Binary64.positional
  split
  · simp [noReturn]
  · dsimp only
    split <;> simp [front, behind]

theorem notMem_scientific {digits : List Char} (noReturn : '\r' ∉ digits) (point : ℤ) :
    '\r' ∉ Binary64.scientific digits point := by
  have size : '\r' ∉ digitsOf (point - 1).natAbs := notMem_digitsOf (by decide) _
  unfold Binary64.scientific
  dsimp only
  cases digits with
  | nil => split_ifs <;> simp [size]
  | cons first rest => cases rest <;> split_ifs <;> simp_all

theorem notMem_decimalText (digits : ℕ) (power : ℤ) : '\r' ∉ Binary64.decimalText digits power := by
  have significant : '\r' ∉ Binary64.significant (digitsOf digits) := by
    intro member
    have inside := (List.dropWhile_suffix _).subset (List.mem_reverse.mp member)
    exact notMem_digitsOf (by decide) digits (List.mem_reverse.mp inside)
  unfold Binary64.decimalText
  dsimp only
  split
  · exact notMem_positional significant _
  · exact notMem_scientific significant _

theorem notMem_text (number : Binary64) : '\r' ∉ number.text.toList := by
  cases number with
  | undefined => decide
  | infinite negative => cases negative <;> decide
  | finite negative significand exponent =>
    have shown := notMem_decimalText (Binary64.shortest significand exponent).1 (Binary64.shortest significand exponent).2
    by_cases none : significand = 0 <;> cases negative <;> simp [Binary64.text, none, shown]

theorem notMem_whole (number : ℤ) : '\r' ∉ (toString number).toList := by
  rw [toList_toString]
  split <;> simp [notMem_digitsOf]

theorem notMem_quote (text : String) : '\r' ∉ (quote text).toList := by
  have none (c : Char) : '\r' ∉ quotedChar c := by
    unfold quotedChar escape?
    split
    next => decide
    next => decide
    next => decide
    next => decide
    next => decide
    next other _ =>
      split_ifs
      · simp
      · simp
      · simp
      · simp [Ne.symm other]
  rw [toList_quote]
  simp [none]

section Layout

variable {indent : String} (noReturn : '\r' ∉ indent.toList)
include noReturn

theorem notMem_margin (depth : ℕ) : '\r' ∉ (margin (.lines indent) depth).toList := by
  simp [margin, noReturn]

theorem notMem_separator (depth : ℕ) : '\r' ∉ (separator (.lines indent) depth).toList := by
  simp [separator, noReturn]

theorem notMem_renderItems {items : List Value} (each : ∀ item ∈ items, ∀ depth,
    '\r' ∉ (renderAt (.lines indent) depth item).toList) (depth : ℕ) :
    '\r' ∉ (renderItems (.lines indent) depth items).toList := by
  induction items with
  | nil => simp [renderItems]
  | cons item rest ih =>
    have here := each item List.mem_cons_self depth
    have others := ih fun other member => each other (List.mem_cons_of_mem _ member)
    simp [renderItems, notMem_separator noReturn, here, others]

theorem notMem_renderEntries {entries : Entries} (each : ∀ entry ∈ entries, ∀ depth,
    '\r' ∉ (renderAt (.lines indent) depth entry.2).toList) (depth : ℕ) :
    '\r' ∉ (renderEntries (.lines indent) depth entries).toList := by
  induction entries with
  | nil => simp [renderEntries]
  | cons entry rest ih =>
    have here := each entry List.mem_cons_self depth
    have others := ih fun other member => each other (List.mem_cons_of_mem _ member)
    simp [renderEntries, notMem_separator noReturn, notMem_quote, here, others]

theorem notMem_renderAt (found : Value) : ∀ depth, '\r' ∉ (renderAt (.lines indent) depth found).toList := by
  induction found using Value.induction with
  | null => exact fun _ => by rw [renderAt]; decide
  | truth found => exact fun _ => by rw [renderAt]; cases found <;> decide
  | whole found => exact fun _ => by rw [renderAt]; exact notMem_whole found
  | real found => exact fun _ => by rw [renderAt]; exact notMem_text found
  | text found => exact fun _ => by rw [renderAt]; exact notMem_quote found
  | list items ih =>
    intro depth
    cases items with
    | nil => rw [renderAt]; decide
    | cons first rest =>
      have here := ih first List.mem_cons_self (depth + 1)
      have others := notMem_renderItems noReturn (fun item member => ih item (List.mem_cons_of_mem _ member)) (depth + 1)
      simp [renderAt, notMem_margin noReturn, here, others]
  | object entries ih =>
    intro depth
    cases entries with
    | nil => rw [renderAt]; decide
    | cons first rest =>
      have here := ih first List.mem_cons_self (depth + 1)
      have others := notMem_renderEntries noReturn (fun entry member => ih entry (List.mem_cons_of_mem _ member)) (depth + 1)
      simp [renderAt, notMem_margin noReturn, notMem_quote, here, others]

end Layout

end Phrasebook.Proofs.WrittenLines
