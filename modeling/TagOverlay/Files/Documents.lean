import TagOverlay.Buffer.Document
import TagOverlay.Files.Tree

/-! The folder of documents: which documents it holds, at any depth, and loading one of them. -/
namespace TagOverlay

inductive DocumentError where
  | notFound (path : Text)
  | file (fault : FileFault)
  | notUtf8 (path : Text) (fault : Text.Utf8Fault)
  | invalidFolder (reason : String)
deriving DecidableEq

def DocumentError.message : DocumentError → String
  | notFound path => s!"File not found: {String.ofList path}"
  | file fault => s!"IO error: {fault.message}"
  | notUtf8 path fault =>
      s!"{String.ofList path} is not valid UTF-8: {Document.faultMessage fault}"
  | invalidFolder reason => s!"Invalid documents directory: {reason}"

/-- A document and its lines as an editor shows them, split at newlines and nothing else. -/
structure LoadedDocument where
  document : Document
  lines : List Text

namespace Documents

def isDocument (path : Text) : Bool :=
  Path.extension? path = some "xml".toList

mutual

/-- The paths of the documents that stand at or below a path. A folder whose path is too long to be looked at
is taken for a file. -/
def paths (path : Text) : FileTree → List Text
  | .file _ => if isDocument path then [path] else []
  | .folder entries =>
      if FileSystem.maxPath < path.width then if isDocument path then [path] else []
      else pathsIn path entries

/-- The paths of the documents at or below the entries of a folder. -/
def pathsIn (folder : Text) : List (Text × FileTree) → List Text
  | [] => []
  | (name,entry) :: entries => paths (Path.join folder name) entry ++ pathsIn folder entries

end

/-- All documents below a folder, in the order of their paths. -/
def scan (fs : FileSystem) (folder : Text) : Except DocumentError (List Text) :=
  if fs.exists? folder then
    match fs.list folder with
    | .error fault => .error (.file fault)
    | .ok entries => .ok ((pathsIn folder entries).mergeSort Path.precedes)
  else .error (.invalidFolder "documents directory not found")

def validateFolder (fs : FileSystem) (folder : Text) : Except DocumentError Unit :=
  if fs.isFolder folder then .ok () else .error (.invalidFolder "Directory does not exist")

def load (fs : FileSystem) (folder relative : Text) : Except DocumentError LoadedDocument :=
  let path := Path.append folder relative
  if fs.exists? path then
    match fs.read path with
    | .error fault => .error (.file fault)
    | .ok bytes =>
        match Document.ofUtf8 bytes with
        | .error fault => .error (.notUtf8 path fault)
        | .ok document => .ok ⟨document,document.text.splitLines⟩
  else .error (.notFound path)

end Documents

end TagOverlay
