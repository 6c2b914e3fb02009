import TagOverlay.CommandLine
import TagOverlay.Viewer.Screen

/-! The program. The files come as one line of JSON on standard input, an object with paths as keys
and texts as values; every further line holds the keys that are pressed, and is answered by the
screen. -/
namespace TagOverlay.Program

def programName : Text := "tagtrack-cli".toList

/-- A file system with the files of a JSON object. -/
def fileSystem (listing : Json) : FileSystem :=
  match listing with
  | .object members =>
      members.foldl (fun fs (path,content) =>
        match content with
        | .string text =>
            let (_,made) := fs.makeParent path
            match made.write path (Text.toUtf8 text) with
            | .ok written => written
            | .error _ => made
        | _ => fs) FileSystem.empty
  | _ => .empty

/-- The names that the text of a configuration may use as variables. -/
def mentionedNames (text : Text) : List Text :=
  (text.splitOn '$').tail.map fun rest =>
    (rest.dropWhile (· = '\x7b')).takeWhile Expansion.isNameChar

/-- The environment as far as a text mentions it. -/
def environment (text : Text) : IO Environment := do
  let mut found := []
  for name in "HOME".toList :: mentionedNames text do
    if let some value ← IO.getEnv (String.ofList name) then
      found := (name,value.toList) :: found
  return ⟨found,none⟩

/-- The text of the configuration, or nothing. -/
def configText (fs : FileSystem) (home : Environment) : Text :=
  match fs.read (Config.path home) with
  | .ok bytes => (Text.ofUtf8 bytes).toOption.getD []
  | .error _ => []

def press (fs : FileSystem) (viewer : Viewer) (keys : Text) : Option Viewer :=
  keys.foldlM (fun viewer key =>
    match ViewerCommand.ofKey? key with
    | some command => command.run fs viewer
    | none => some viewer) viewer

partial def view (fs : FileSystem) (viewer : Viewer) : IO Unit := do
  let (rows,viewer) := viewer.draw 80 24
  for row in rows do
    IO.println (String.ofList row)
  let line ← (← IO.getStdin).getLine
  if line.isEmpty then return
  match press fs viewer (line.toList.filter (· ≠ '\n')) with
  | some viewer => view fs viewer
  | none => return

end TagOverlay.Program

open TagOverlay in
def main (arguments : List String) : IO UInt32 := do
  let listing := (← (← IO.getStdin).getLine).toList
  let fs := Program.fileSystem ((Json.parse? listing).getD .null)
  let home ← Program.environment []
  let environment ← Program.environment (Program.configText fs home)
  match CommandLine.start environment fs (arguments.map String.toList) with
  | .error error =>
      for line in CommandLine.complaint Program.programName error do
        IO.eprintln line
      return 1
  | .ok options =>
      match Viewer.new fs options.documentsPath options.tagName options.maxMatches with
      | .error error => IO.println error.message
      | .ok viewer => Program.view fs viewer
      return 0
