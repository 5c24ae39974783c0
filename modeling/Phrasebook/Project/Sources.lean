import Phrasebook.Pattern.Brace
import Phrasebook.Pattern.Shell
import Phrasebook.Project.Files

/-! Finding the sources of a project by patterns of paths. Two stars as a whole name stand for any directories;
names that start with a point have to be asked for by one. -/

namespace Phrasebook

def alwaysIgnored : List String := ["node_modules/**", "**/node_modules/**"]

def isHidden (name : String) : Bool := Text.startsWith "." name

def isPattern (name : String) : Bool := name.toList.any fun c => c = '*' || c = '?' || c = '['

namespace Files

/-- The places that a name in a pattern leads to from a place. -/
def follow (files : Files) (name : String) (place : Place) : List Place :=
  if name = "**" then
    if files.isFolder place then
      place :: files.places.filter fun inner =>
        isInside inner place && (inner.drop place.length).all fun name => !isHidden name
    else []
  else if isPattern name then
    files.places.filter fun inner =>
      inner.dropLast == place &&
        match inner.getLast? with
        | some last => (isHidden name || !isHidden last) && Pattern.shellMatches name last
        | none => false
  else
    match files.step? place name with
    | some reached => if files.isFile reached || files.isFolder reached then [reached] else []
    | none => []

def matching (files : Files) (pattern : String) : List Place :=
  (Text.split "/" pattern).foldl (fun places name => (places.flatMap (files.follow name)).eraseDups) [[]]

def sources (files : Files) (patterns ignored : List String) : List String :=
  let ignored := (alwaysIgnored ++ ignored).flatMap Pattern.expandBraces
  let found := (patterns.flatMap Pattern.expandBraces).flatMap fun pattern =>
    if Text.startsWith "/" pattern || Text.endsWith "/" pattern then []
    else (files.matching pattern).filter files.isFile
  let paths := (found.map Place.path).filter fun path => !Pattern.ignores ignored path
  paths.eraseDups.mergeSort fun first second => first ≤ second

end Files

end Phrasebook
