import Phrasebook.Command.Arguments
import Phrasebook.Settings.Environment

/-! Commands over a project, one behind the other. Settings are read once for each file of environment variables
and for the plain environment. -/

namespace Phrasebook

/-- A project and the settings read so far, by the place of their file. -/
structure Session where
  project : Project := {}
  loaded : List (Option Place × Settings) := []
deriving Inhabited

namespace Session

def note (session : Session) (level : Level) (text : String) : Session :=
  { session with project := { session.project with journal := session.project.journal.note level text } }

def environmentText (session : Session) (file : String) : Except Failure String :=
  match session.project.files.read file with
  | .text text => .ok text
  | _ => .error (.invalid ("Env file not found: " ++ file))

/-- Reads settings from the environment and a file, whose variables come first. -/
def readSettings (session : Session) (environment : Environment) (file : Option String) :
    Except Failure Settings × Session :=
  let extended : Except Failure Environment :=
    match file with
    | none => .ok environment
    | some file => (session.environmentText file).map (EnvironmentFile.extend environment)
  match extended with
  | .error failure => (.error failure, session)
  | .ok environment =>
    match environment.settings with
    | .error failure => (.error failure, session.note .error ("Failed to load configuration: " ++ failure.message))
    | .ok settings =>
      let session := { session with loaded := Table.put (file.map Files.placeOf) settings session.loaded }
      (.ok settings, session.note .info ("Configuration loaded from " ++ file.getD "environment" ++
        " for locales: " ++ Text.join ", " settings.locales))

/-- The settings for an environment and a file. They are read if they were not yet, or if that is asked for. -/
def settings (session : Session) (environment : Environment) (file : Option String) (reload : Bool) :
    Except Failure Settings × Session :=
  let file := file.filter (· ≠ "")
  match if reload then none else Table.find? (file.map Files.placeOf) session.loaded with
  | some settings => (.ok settings, session)
  | none => session.readSettings environment file

def run {α : Type} (session : Session) (step : Run α) : Except Failure α × Session :=
  let (result, project) := (ExceptT.run step).run session.project
  (result, { session with project })

/-- Runs a command with settings, and tells its exit code. -/
def runWith (session : Session) (settings : Settings) (options : RunOptions) : Except Failure Nat × Session :=
  match session.run (Run.update settings options) with
  | (.ok updated, session) =>
    if updated && options.isDry then (.ok 0, session.note .info "Dry run finished, no files were written")
    else (.ok 0, session)
  | (.error failure, session) =>
    if failure.concernsSource then (.ok 1, session.note .error ("Extraction failed: " ++ failure.message))
    else (.error failure, session)

def command (session : Session) (arguments : List String) (environment : Environment) :
    Except Failure Nat × Session :=
  match Argument.readAll arguments with
  | .wrong => (.ok 2, session)
  | .help => (.ok 0, session)
  | .command options =>
    match session.settings environment options.envFile false with
    | (.error failure, session) => (.ok 1, session.note .error ("Invalid configuration: " ++ failure.message))
    | (.ok settings, session) => session.runWith settings options.run

end Session

end Phrasebook
