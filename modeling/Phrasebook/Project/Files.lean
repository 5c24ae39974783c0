import Phrasebook.Table
import Phrasebook.Text.Split

/-! The files of a project. Paths are relative to the project's directory; on the way along a path a point stays
in a directory and two points lead out of it. -/

namespace Phrasebook

/-- The content of a file: a text, or bytes that are none. -/
inductive Content where
  | text (value : String)
  | bytes (values : List UInt8)
deriving DecidableEq, Repr, Inhabited

namespace Content

/-- Line breaks of all kinds as line feeds. -/
def unifyBreaks : List Char → List Char
  | [] => []
  | '\r' :: '\n' :: rest => '\n' :: unifyBreaks rest
  | c :: rest => (if c = '\r' then '\n' else c) :: unifyBreaks rest

/-- The text of a content with its lines ended by line feeds. -/
def lines? : Content → Option String
  | .text value => some (String.ofList (unifyBreaks value.toList))
  | .bytes _ => none

end Content

/-- A place in a project: the names of the directories on the way and the last name. -/
abbrev Place := List String

def Place.path (place : Place) : String := Text.join "/" place

/-- The files of a project by their places, and the directories that were made for no file. -/
structure Files where
  files : List (Place × Content) := []
  folders : List Place := []
deriving DecidableEq, Repr, Inhabited

namespace Files

def isInside (place folder : Place) : Bool := folder.isPrefixOf place && folder.length < place.length

def isFolder (files : Files) (place : Place) : Bool :=
  place == [] || files.folders.any (fun folder => place.isPrefixOf folder) ||
    files.files.any fun (file, _) => isInside file place

def find? (files : Files) (place : Place) : Option Content := Table.find? place files.files

def isFile (files : Files) (place : Place) : Bool := (files.find? place).isSome

def places (files : Files) : List Place :=
  let known := Table.names files.files ++ files.folders
  (known.flatMap fun place => (List.range place.length).map fun count => place.take (count + 1)).eraseDups

/-- The place reached by a step, when there is one. -/
def step? (files : Files) (place : Place) (name : String) : Option Place :=
  if !files.isFolder place then none
  else if name = "" || name = "." then some place
  else if name = ".." then if place = [] then none else some place.dropLast
  else some (place ++ [name])

/-- The place that a name leads to from a place, whether or not anything is there. -/
def enter (place : Place) (name : String) : Place :=
  if name = "" || name = "." then place
  else if name = ".." then
    if place = [] || place.getLast? == some ".." then place ++ [".."] else place.dropLast
  else place ++ [name]

/-- The place that a path names, whether or not anything is there. -/
def placeOf (path : String) : Place := (Text.split "/" path).foldl enter []

def normalized (path : String) : String := Place.path (placeOf path)

inductive Found where
  /-- There is nothing at the path. -/
  | missing
  /-- There is something, but it is no text. -/
  | unreadable
  | text (value : String)
deriving DecidableEq, Repr

/-- The place that names lead to from a place. Without one, what stands in the way is told. -/
def locate (files : Files) (place : Place) : List String → Except Found Place
  | [] => .ok place
  | name :: rest =>
    match files.step? place name with
    | some reached => locate files reached rest
    | none => .error (if files.isFile place then .unreadable else .missing)

def read (files : Files) (path : String) : Found :=
  match files.locate [] (Text.split "/" path) with
  | .error found => found
  | .ok place =>
    match files.find? place with
    | some content =>
      match content.lines? with
      | some text => .text text
      | none => .unreadable
    | none => if files.isFolder place then .unreadable else .missing

/-- Whether a file can be written: nothing on the way to it is a file, and it is no directory. -/
def canWrite (files : Files) (path : String) : Bool :=
  let place := placeOf path
  !files.isFolder place && (List.range place.length).all fun count => !files.isFile (place.take count)

def write (files : Files) (path : String) (content : Content) : Files :=
  { files with files := Table.put (placeOf path) content files.files }

def makeFolder (files : Files) (path : String) : Files :=
  { files with folders := files.folders ++ [placeOf path] }

/-- Removes a file, or a directory and what is in it. The directory around it stays. -/
def remove (files : Files) (path : String) : Files :=
  let place := placeOf path
  { files := files.files.filter fun (file, _) => !place.isPrefixOf file
    folders := (files.folders.filter fun folder => !place.isPrefixOf folder) ++ [place.dropLast] }

end Files

end Phrasebook
