import Phrasebook.Command.Session

/-! The command over the project in the current directory. The files of the project are read first, the command
then runs on what was read, and at last the files that it changed are written. -/

namespace Phrasebook

def usage : String := Text.join "\n"
  ["usage: keysync-extract [-h] [--env-file ENV_FILE] [--dry-run] [--sync-primary]",
   "                       [--sync-all]"]

def help : String := Text.join "\n"
  [usage,
   "",
   "Extract translation keys and update locale catalogs",
   "",
   "options:",
   "  -h, --help           show this help message and exit",
   "  --env-file ENV_FILE  read settings from this .env file in addition to the",
   "                       environment",
   "  --dry-run            report changes without writing files",
   "  --sync-primary       overwrite primary language values with explicit",
   "                       defaults from source",
   "  --sync-all           reset secondary language values to the configured",
   "                       default"]

def settingVariables : List String :=
  "LOG_LEVEL" :: ["LOCALES", "INPUT", "OUTPUT", "IGNORE", "DEFAULT_NS", "KEY_SEPARATOR", "NS_SEPARATOR", "FUNCTIONS",
    "TRANS_COMPONENTS", "PRESERVE_PATTERNS", "REMOVE_UNUSED_KEYS", "SORT", "INDENTATION", "OUTPUT_FORMAT",
    "MERGE_NAMESPACES", "PRIMARY_LANGUAGE"].map ("KEYSYNC_" ++ ·)

/-- The variables that a file of environment variables may refer to. -/
def mentioned (text : String) : List String :=
  ((Text.split "$\x7b" text).drop 1).map fun rest =>
    String.ofList (rest.toList.takeWhile fun c => c ≠ '\x7d' && c ≠ ':')

/-- The given variables of the process, as far as they are set. -/
def environmentOf (names : List String) : IO Environment :=
  names.eraseDups.filterMapM fun name => do
    let value ← IO.getEnv name
    pure (value.map (name, ·))

/-- The content of the file of an entry. A file that cannot be opened has no text. -/
def contentOf (entry : IO.FS.DirEntry) : IO Content := do
  try
    let bytes ← IO.FS.readBinFile entry.path
    match String.fromUTF8? bytes with
    | some text => pure (.text text)
    | none => pure (.bytes bytes.toList)
  catch _ => pure (.bytes [])

/-- The files under an entry of the directory at a place. A link back to a directory around it is not followed. -/
partial def filesUnder (around : List String) (outer : Place) (entry : IO.FS.DirEntry) : IO Files := do
  let place := outer ++ [entry.fileName]
  if !(← entry.path.isDir) then return { files := [(place, ← contentOf entry)] }
  let here := (← IO.FS.realPath entry.path).toString
  if around.contains here then return {}
  let inner ← (← entry.path.readDir).toList.mapM (filesUnder (here :: around) place)
  return { files := inner.flatMap (·.files), folders := place :: inner.flatMap (·.folders) }

def currentFiles : IO Files := do
  let folder ← IO.currentDir
  let found ← (← folder.readDir).toList.mapM (filesUnder [folder.toString] [])
  return { files := found.flatMap (·.files), folders := found.flatMap (·.folders) }

def writeFile (place : Place) (content : Content) : IO Unit := do
  if place.length > 1 then IO.FS.createDirAll (Place.path place.dropLast)
  match content with
  | .text text => IO.FS.writeFile place.path text
  | .bytes values => IO.FS.writeBinFile place.path ⟨values.toArray⟩

def runCommand (arguments : List String) : IO UInt32 := do
  let errors ← IO.getStderr
  match Argument.readAll arguments with
  | .wrong =>
    errors.putStrLn usage
    return 2
  | .help =>
    IO.println help
    return 0
  | .command options =>
    let files ← currentFiles
    let session : Session := { project := { files } }
    let file := (options.envFile.bind fun file => (session.environmentText file).toOption).getD ""
    let environment ← environmentOf (settingVariables ++ mentioned file)
    let (code, after) := session.command arguments environment
    for message in after.project.journal.messages do errors.putStrLn message.render
    for (place, content) in after.project.files.files do
      if files.find? place ≠ some content then writeFile place content
    match code with
    | .ok code => return code.toUInt32
    | .error failure =>
      errors.putStrLn failure.message
      return 1

end Phrasebook

def main (arguments : List String) : IO UInt32 := Phrasebook.runCommand arguments
