import Phrasebook.Project.Run
import Phrasebook.Text.Digit

/-! The arguments of the command line. The names of options can be shortened as long as they stay clear, and a
value can be given behind an equals sign. -/

namespace Phrasebook

inductive CommandOption where
  | help | envFile | dryRun | syncPrimary | syncAll
deriving DecidableEq, Repr

namespace CommandOption

def names : List (List Char × CommandOption) :=
  [("--help".toList, .help), ("--env-file".toList, .envFile), ("--dry-run".toList, .dryRun),
   ("--sync-primary".toList, .syncPrimary), ("--sync-all".toList, .syncAll)]

end CommandOption

inductive Argument where
  /-- A plain value, or what may be one. -/
  | value (text : String)
  | option (option : CommandOption) (value : Option String)
  /-- The request for help in its short form, with something behind it that cannot be. -/
  | wrongHelp
  | unknown
  /-- The mark behind which no options come. -/
  | endOfOptions
deriving DecidableEq, Repr

structure CommandOptions where
  envFile : Option String := none
  run : RunOptions := {}
deriving DecidableEq, Repr, Inhabited

inductive CommandLine where
  | wrong
  | help
  | command (options : CommandOptions)
deriving DecidableEq, Repr

namespace Argument

def isNegativeNumber : List Char → Bool
  | '-' :: rest =>
    let isDigit (c : Char) : Bool := (Text.digitValue? c).isSome
    let behind := rest.dropWhile isDigit
    match behind with
    | [] => !rest.isEmpty
    | '.' :: fraction => !fraction.isEmpty && fraction.all isDigit
    | _ => false
  | _ => false

/-- The short form of the request for help, with what stands behind its letter. -/
def shortHelp : List Char → Argument
  | [] => .option .help none
  | '=' :: _ | '-' :: _ => .wrongHelp
  | 'h' :: rest => shortHelp rest
  | _ => .option .help none

def atEquals (cs : List Char) : List Char × Option String :=
  let name := cs.takeWhile (· ≠ '=')
  match cs.drop name.length with
  | _ :: given => (name, some (String.ofList given))
  | [] => (name, none)

/-- What an argument is, by its text; none if it can be short for several options. -/
def ofText? (text : String) : Option Argument :=
  let plain : Argument := if text.toList.contains ' ' || isNegativeNumber text.toList then .value text else .unknown
  match text.toList with
  | '-' :: '-' :: rest =>
    if rest = [] then some .endOfOptions
    else
      let (name, given) := atEquals text.toList
      match Table.find? name CommandOption.names with
      | some named => some (.option named given)
      | none =>
        match CommandOption.names.filter fun (known, _) => name.isPrefixOf known with
        | [] => some plain
        | [(_, named)] => some (.option named given)
        | _ => none
  | '-' :: 'h' :: rest => some (shortHelp rest)
  | '-' :: _ :: _ => some plain
  | _ => some (.value text)

/-- Arguments up to the mark behind which no options come; there is nothing to read behind it. -/
def upToMark : List String → List String
  | [] => []
  | text :: rest => if text = "--" then ["--"] else text :: upToMark rest

/-- Reads arguments one behind the other. `isClean` tells whether all of them so far can be used. -/
def follow (options : CommandOptions) (isClean : Bool) : List Argument → CommandLine
  | [] => if isClean then .command options else .wrong
  | argument :: rest =>
    match argument, rest with
    | .option .help none, _ => .help
    | .option .envFile (some file), rest => follow { options with envFile := some file } isClean rest
    | .option .envFile none, .value file :: rest => follow { options with envFile := some file } isClean rest
    | .option .dryRun none, rest => follow { options with run := { options.run with isDry := true } } isClean rest
    | .option .syncPrimary none, rest =>
      follow { options with run := { options.run with sync := { options.run.sync with primary := true } } } isClean rest
    | .option .syncAll none, rest =>
      follow { options with run := { options.run with sync := { options.run.sync with all := true } } } isClean rest
    | .option _ _, _ | .wrongHelp, _ => .wrong
    | .value _, rest | .unknown, rest | .endOfOptions, rest => follow options false rest

def readAll (arguments : List String) : CommandLine :=
  match (upToMark arguments).mapM ofText? with
  | none => .wrong
  | some arguments => follow {} true arguments

end Argument

end Phrasebook
