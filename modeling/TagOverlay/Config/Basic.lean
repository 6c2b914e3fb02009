import TagOverlay.Config.Expansion
import TagOverlay.Files.Tree
import TagOverlay.Tag.Search
import TagOverlay.Text.Utf8
import TagOverlay.Toml.Reader
import TagOverlay.Toml.Writer

/-! The configuration: where the documents are, which tag is marked in them, and how many at most.
It is kept in a TOML file in the user's home folder. -/
namespace TagOverlay

structure Config where
  documentsPath : Text
  tagName : Text
  maxMatches : Nat
deriving DecidableEq

inductive ConfigError where
  | unreadable (path : Text) (fault : FileFault)
  | unparsable (path : Text)
deriving DecidableEq

def ConfigError.message : ConfigError → String
  | unreadable path fault =>
      s!"Failed to read config file at {String.ofList path}: {fault.message}"
  | unparsable path => s!"Failed to parse config file at {String.ofList path}"

namespace Config

def defaultTagName : Text := "note".toList

def ofPath (documentsPath : Text) : Config :=
  ⟨documentsPath,defaultTagName,Tag.defaultLimit⟩

def documentsPathKey : Text := "documents_path".toList
def tagNameKey : Text := "tag_name".toList
def maxMatchesKey : Text := "max_matches".toList

/-- The text that an entry has to be, or the given one if it is missing. -/
def textAt? (entries : Toml.Entries) (key : Text) (missing : Option Text) : Option Text :=
  match Toml.lookup? key entries with
  | none => missing
  | some (.string text) => some text
  | some _ => none

/-- The largest count, one less than two to the power of 64. -/
def maxCount : Nat := 0xFFFFFFFFFFFFFFFF

/-- The count that an entry has to be, or the given one if it is missing. -/
def countAt? (entries : Toml.Entries) (key : Text) (missing : Nat) : Option Nat :=
  match Toml.lookup? key entries with
  | none => some missing
  | some (.integer value) => if 0 ≤ value ∧ value ≤ maxCount then some value.toNat else none
  | some _ => none

/-- The configuration that the entries of a file give. Further entries are passed over. -/
def ofEntries? (entries : Toml.Entries) : Option Config := do
  let documentsPath ← textAt? entries documentsPathKey none
  let tagName ← textAt? entries tagNameKey (some defaultTagName)
  let maxMatches ← countAt? entries maxMatchesKey Tag.defaultLimit
  return ⟨documentsPath,tagName,maxMatches⟩

/-- The file's text. -/
def toToml (config : Config) : Text :=
  Toml.writeEntry documentsPathKey (Toml.writeString config.documentsPath)
    ++ Toml.writeEntry tagNameKey (Toml.writeString config.tagName)
    ++ Toml.writeEntry maxMatchesKey (Text.digitsOf 10 config.maxMatches)

/-- The configuration in a file, with variables and tilde in the documents' path replaced if they
can be. A file that is not there gives none. -/
def loadFrom (environment : Environment) (fs : FileSystem) (path : Text) :
    Except ConfigError (Option Config) :=
  if fs.exists? path then
    match fs.read path with
    | .error fault => .error (.unreadable path fault)
    | .ok bytes =>
        match Text.ofUtf8 bytes with
        | .error _ => .error (.unreadable path .notText)
        | .ok text =>
            match (Toml.parse? text).bind ofEntries? with
            | none => .error (.unparsable path)
            | some config =>
                let expanded? := Expansion.expand? environment config.documentsPath
                .ok (some { config with
                  documentsPath := expanded?.getD config.documentsPath })
  else .ok none

/-- Writes the configuration to a file and makes the folders that it is in. -/
def saveTo (config : Config) (fs : FileSystem) (path : Text) :
    Except FileFault Unit × FileSystem :=
  match fs.makeParent path with
  | (.error fault,fs) => (.error fault,fs)
  | (.ok (),fs) =>
      match fs.write path (Text.toUtf8 config.toToml) with
      | .error fault => (.error fault,fs)
      | .ok fs => (.ok (),fs)

/-- The folder of the configuration and the log. -/
def folder (environment : Environment) : Text :=
  Expansion.expandTilde environment "~/.config/tagtrack".toList

def path (environment : Environment) : Text :=
  Path.join (folder environment) "config.toml".toList

def logPath (environment : Environment) : Text :=
  Path.join (folder environment) "tagtrack.log".toList

def load (environment : Environment) (fs : FileSystem) : Except ConfigError (Option Config) :=
  loadFrom environment fs (path environment)

def save (config : Config) (environment : Environment) (fs : FileSystem) :
    Except FileFault Unit × FileSystem :=
  config.saveTo fs (path environment)

end Config

end TagOverlay
