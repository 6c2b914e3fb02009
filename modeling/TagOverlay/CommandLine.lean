import TagOverlay.Config.Basic
import TagOverlay.Files.Documents

/-! The command line: an optional folder of documents and an optional tag name. What is not given is
taken from the configuration. -/
namespace TagOverlay

/-- What the viewer is started with. -/
structure StartOptions where
  documentsPath : Text
  tagName : Text
  maxMatches : Nat
deriving DecidableEq

/-- Why the viewer is not started. -/
inductive StartError where
  | config (error : ConfigError)
  | noDocumentsPath (configPath : Text)
  | tooManyArguments
  /-- `source?` is the configuration's file if the path came from there. -/
  | invalidDocumentsPath (path : Text) (source? : Option Text) (error : DocumentError)
deriving DecidableEq

namespace CommandLine

def usage (program : Text) : String :=
  s!"Usage: {String.ofList program} [documents-folder-path] [tag-name]"

/-- The lines that tell of the error. -/
def complaint (program : Text) : StartError → List String
  | .config error => [s!"Error: Failed to load config file: {error.message}",usage program]
  | .noDocumentsPath configPath =>
      ["Error: No documents path provided and no config file found",usage program,
        s!"Or create a config file at {String.ofList configPath}"]
  | .tooManyArguments => [usage program]
  | .invalidDocumentsPath path source? error =>
      let source :=
        match source? with
        | some file => s!" from config file '{String.ofList file}'"
        | none => ""
      [s!"Error: Documents path '{String.ofList path}'{source} is invalid: {error.message}"]

/-- The options that the arguments and the configuration give, or what is wrong with them. A fault
of the configuration comes first, even if the arguments leave it no say. -/
def start (environment : Environment) (fs : FileSystem) (arguments : List Text) :
    Except StartError StartOptions :=
  match Config.load environment fs with
  | .error error => .error (.config error)
  | .ok config? =>
      match arguments.head?.or (config?.map (·.documentsPath)) with
      | none => .error (.noDocumentsPath (Config.path environment))
      | some documentsPath =>
          if 2 < arguments.length then .error .tooManyArguments
          else
            let fallback := config?.getD (.ofPath documentsPath)
            match Documents.validateFolder fs documentsPath with
            | .error error =>
                let source? := if arguments.isEmpty then some (Config.path environment) else none
                .error (.invalidDocumentsPath documentsPath source? error)
            | .ok () =>
                .ok ⟨documentsPath,(arguments[1]?).getD fallback.tagName,fallback.maxMatches⟩

end CommandLine

end TagOverlay
