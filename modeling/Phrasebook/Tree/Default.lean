import Phrasebook.Journal
import Phrasebook.Settings.Basic

/-! What locales other than the primary one get for a key that has no text yet. -/

namespace Phrasebook

open Catalog

namespace DefaultSource

/-- The value for a request: nothing but the empty text if the source of values fails. -/
def value (request : DefaultRequest) : DefaultSource → Value
  | .nothing => .text ""
  | .text value => .text value
  | .function does =>
    match does request with
    | .ok value => value
    | .error _ => .text ""

/-- The message for a request if the source of values fails. -/
def message? (request : DefaultRequest) : DefaultSource → Option Message
  | .function does =>
    match does request with
    | .ok _ => none
    | .error message =>
      some ⟨.warning, "Default value function failed for key '" ++ request.key ++ "': " ++ message⟩
  | _ => none

end DefaultSource

end Phrasebook
