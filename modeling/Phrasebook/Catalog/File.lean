import Phrasebook.Catalog.JsonText
import Phrasebook.Catalog.Script
import Phrasebook.Settings.Basic

/-! The text of catalog files in their formats. -/

namespace Phrasebook

open Catalog

namespace Format

def frame : Format → String × String
  | .json => ("", "\n")
  | .js | .jsModule => ("export default ", ";\n")
  | .jsCommon => ("module.exports = ", ";\n")
  | .ts => ("export default ", " as const;\n")

def write (format : Format) (indentation : Indentation) (tree : Value) : String :=
  let (before, behind) := format.frame
  before ++ tree.render (.lines indentation.unit) ++ behind

/-- The value in a catalog's text. Files named as JSON hold JSON whatever the format; a blank one is an empty
catalog. -/
def read (format : Format) (path text : String) : Except Failure Value :=
  if format = .json || Text.endsWith ".json" path then
    if Text.isBlankText text then .ok (.object []) else JsonText.read text
  else readScript path text

end Format

end Phrasebook
