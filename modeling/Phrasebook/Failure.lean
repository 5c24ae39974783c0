/-! What can go wrong, by cause. -/

namespace Phrasebook

inductive Failure where
  /-- The settings or a run cannot be used; the message tells why. -/
  | unusable (message : String)
  /-- A setting or an argument has a value that is not allowed. -/
  | invalid (message : String)
  /-- The text of a script has an error. -/
  | unparsed (file : String)
  /-- The bytes of a source file are no text, or cannot be read. -/
  | unreadable (file : String)
  /-- A file cannot be written, because a directory has its name or a file has the name of a directory. -/
  | unwritable (file : String)
  /-- An escape names a character above the last one. -/
  | noSuchCharacter
  /-- An escape names a number far beyond all characters. -/
  | characterNumberTooLarge
  /-- A text is not JSON. -/
  | malformedJson
  /-- A whole number in a text has too many digits to be read. -/
  | tooManyDigits
deriving DecidableEq, Repr, Inhabited

namespace Failure

/-- The message of a failure; failures of a general nature have none of their own. -/
def message? : Failure → Option String
  | .unusable message => some message
  | .invalid message => some message
  | .unparsed file => some s!"Failed to parse source in file {file}"
  | .unreadable file => some s!"Failed to read source in file {file}"
  | _ => none

def message (failure : Failure) : String := failure.message?.getD ""

end Failure

/-- What gives a result in two steps gives one in the first. -/
theorem bind_eq_ok {α β : Type} {step : Except Failure α} {next : α → Except Failure β} {result : β}
    (ran : step >>= next = .ok result) : ∃ value, step = .ok value ∧ next value = .ok result := by
  cases step with
  | error failure => cases ran
  | ok value => exact ⟨value, rfl, ran⟩

end Phrasebook
