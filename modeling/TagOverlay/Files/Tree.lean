import TagOverlay.Files.Path

/-! A tree of files and folders, and what the usual calls of a file system do to it. A path is
followed name by name through existing folders, so `..` leads back only out of a folder that is
there. -/
namespace TagOverlay

inductive FileTree where
  | file (content : ByteArray)
  | folder (entries : List (Text × FileTree))

inductive FileFault where
  | notFound
  | alreadyExists
  | notFolder
  | isFolder
  | nameTooLong
  | zeroByte
  | notText
  | noRoot
deriving DecidableEq

def FileFault.message : FileFault → String
  | notFound => "No such file or directory (os error 2)"
  | alreadyExists => "File exists (os error 17)"
  | notFolder => "Not a directory (os error 20)"
  | isFolder => "Is a directory (os error 21)"
  | nameTooLong => "File name too long (os error 36)"
  | zeroByte => "file name contained an unexpected NUL byte"
  | notText => "stream did not contain valid UTF-8"
  | noRoot => "failed to create whole tree"

namespace FileTree

def isFolder : FileTree → Bool
  | folder _ => true
  | file _ => false

def child? (tree : FileTree) (name : Text) : Option FileTree :=
  match tree with
  | file _ => none
  | folder entries => (entries.find? fun entry => entry.1 = name).map (·.2)

def at? (tree : FileTree) (names : List Text) : Option FileTree :=
  names.foldlM child? tree

/-- The entries with one of them exchanged, or added at the end. -/
def putEntry (name : Text) (entry : FileTree) : List (Text × FileTree) → List (Text × FileTree)
  | [] => [(name,entry)]
  | (other,kept) :: entries =>
      if other = name then (name,entry) :: entries
      else (other,kept) :: putEntry name entry entries

/-- Puts `new` at the end of a row of names; folders on the way that are missing come with it. -/
def put : List Text → (new : FileTree) → FileTree → FileTree
  | [],new,_ => new
  | name :: names,new,tree =>
      let entries :=
        match tree with
        | folder entries => entries
        | file _ => []
      folder (putEntry name (put names new ((tree.child? name).getD (folder []))) entries)

def remove : List Text → FileTree → FileTree
  | [],tree => tree
  | _,file content => file content
  | [name],folder entries => folder (entries.filter fun entry => entry.1 ≠ name)
  | name :: names,folder entries =>
      folder (entries.map fun entry =>
        if entry.1 = name then (name,remove names entry.2) else entry)

end FileTree

/-- A tree with the folder that relative paths begin in. -/
structure FileSystem where
  root : FileTree
  workingFolder : List Text

namespace FileSystem

def empty : FileSystem := ⟨.folder [],[]⟩

/-- The longest name and the longest path, in bytes. -/
def maxName : Nat := 255
def maxPath : Nat := 4095

/-- Names that lead down from the root, the last one first, each with what stands there. -/
abbrev Trail := List (Text × FileTree)

def Trail.endsAt (root : FileTree) (trail : Trail) : FileTree :=
  (trail.head?.map (·.2)).getD root

def walk (root : FileTree) : Trail → List Text → Except FileFault Trail
  | trail,[] => .ok trail
  | trail,part :: parts =>
      match trail.endsAt root with
      | .file _ => .error .notFolder
      | .folder entries =>
          if part = ['.'] then walk root trail parts
          else if part = ['.','.'] then walk root trail.tail parts
          else if maxName < Text.width part then .error .nameTooLong
          else
            match (FileTree.folder entries).child? part with
            | some child => walk root ((part,child) :: trail) parts
            | none => .error .notFound

/-- What is wrong with a path before it is followed. -/
def pathFault? (path : Text) : Option FileFault :=
  if '\x00' ∈ path then some .zeroByte
  else if path.isEmpty then some .notFound
  else if maxPath < path.width then some .nameTooLong
  else none

def follow (fs : FileSystem) (path : Text) (parts : List Text) : Except FileFault (List Text) :=
  match pathFault? path with
  | some fault => .error fault
  | none => do
      let start ← if Path.isAbsolute path then .ok [] else walk fs.root [] fs.workingFolder
      let trail ← walk fs.root start parts
      return (trail.map (·.1)).reverse

/-- The names from the root to what the path leads to. A slash at the end asks for a folder. -/
def locate (fs : FileSystem) (path : Text) : Except FileFault (List Text) :=
  fs.follow path (Path.parts path ++ if Path.endsInSlash path then [['.']] else [])

def find (fs : FileSystem) (path : Text) : Except FileFault FileTree :=
  match fs.locate path with
  | .error fault => .error fault
  | .ok names =>
      match fs.root.at? names with
      | some tree => .ok tree
      | none => .error .notFound

def exists? (fs : FileSystem) (path : Text) : Bool :=
  (fs.find path).isOk

def isFolder (fs : FileSystem) (path : Text) : Bool :=
  match fs.find path with
  | .ok tree => tree.isFolder
  | .error _ => false

def read (fs : FileSystem) (path : Text) : Except FileFault ByteArray :=
  match fs.find path with
  | .ok (.file content) => .ok content
  | .ok (.folder _) => .error .isFolder
  | .error fault => .error fault

def list (fs : FileSystem) (path : Text) : Except FileFault (List (Text × FileTree)) :=
  match fs.find path with
  | .ok (.folder entries) => .ok entries
  | .ok (.file _) => .error .notFolder
  | .error fault => .error fault

/-- The folder that a new entry at the path would be in, and the name it would have there. A path
that ends in dots names no new entry. -/
def slot (fs : FileSystem) (path : Text) : Except FileFault (List Text × Option Text) :=
  let parts := Path.parts path
  let last := parts.getLast?.filter fun part => part ≠ ['.'] ∧ part ≠ ['.','.']
  match last with
  | none => (fs.follow path (parts ++ [['.']])).map fun names => (names,none)
  | some name =>
      (fs.follow path (parts.dropLast ++ [['.']])).map fun names => (names,some name)

/-- Writes a file, in place of the file that is there. A path with a slash at its end is taken for a
folder, whatever is there. -/
def write (fs : FileSystem) (path : Text) (content : ByteArray) : Except FileFault FileSystem :=
  match fs.slot path with
  | .error fault => .error fault
  | .ok (_,none) => .error .isFolder
  | .ok (names,some name) =>
      if Path.endsInSlash path then .error .isFolder
      else if maxName < name.width then .error .nameTooLong
      else
        match fs.root.at? (names ++ [name]) with
        | some (.folder _) => .error .isFolder
        | _ => .ok { fs with root := FileTree.put (names ++ [name]) (.file content) fs.root }

def makeFolder (fs : FileSystem) (path : Text) : Except FileFault FileSystem :=
  match fs.slot path with
  | .error fault => .error fault
  | .ok (_,none) => .error .alreadyExists
  | .ok (names,some name) =>
      if maxName < name.width then .error .nameTooLong
      else
        match fs.root.at? (names ++ [name]) with
        | some _ => .error .alreadyExists
        | none => .ok { fs with root := FileTree.put (names ++ [name]) (.folder []) fs.root }

/-- Makes a folder; up to `depth` folders that it is in are made first if they are missing. -/
def makeFoldersTo (fs : FileSystem) : (depth : Nat) → Text → Except FileFault Unit × FileSystem
  | depth,path =>
      if path.isEmpty then (.ok (),fs)
      else
        match fs.makeFolder path with
        | .ok fs => (.ok (),fs)
        | .error .notFound =>
            match depth,Path.parent? path with
            | depth + 1,some parent =>
                match makeFoldersTo fs depth parent with
                | (.error fault,fs) => (.error fault,fs)
                | (.ok (),fs) =>
                    match fs.makeFolder path with
                    | .ok fs => (.ok (),fs)
                    | .error fault => (if fs.isFolder path then .ok () else .error fault,fs)
            | _,_ => (.error .noRoot,fs)
        | .error fault => (if fs.isFolder path then .ok () else .error fault,fs)

/-- Makes a folder and the folders that it is in, as far as they are missing. -/
def makeFolders (fs : FileSystem) (path : Text) : Except FileFault Unit × FileSystem :=
  fs.makeFoldersTo (Path.components path).length path

/-- Makes the folder that a path is in, if the path has one. -/
def makeParent (fs : FileSystem) (path : Text) : Except FileFault Unit × FileSystem :=
  match Path.parent? path with
  | none => (.ok (),fs)
  | some folder => fs.makeFolders folder

def removeFile (fs : FileSystem) (path : Text) : Except FileFault FileSystem :=
  match fs.locate path with
  | .error fault => .error fault
  | .ok names =>
      match fs.root.at? names with
      | some (.file _) => .ok { fs with root := fs.root.remove names }
      | some (.folder _) => .error .isFolder
      | none => .error .notFound

end FileSystem

end TagOverlay
