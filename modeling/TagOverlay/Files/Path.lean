import TagOverlay.Text.Basic

/-! Paths as texts with slashes. Their components leave out empty parts and single dots, save a dot
at the beginning; paths are ordered by their components, not by their characters. -/
namespace TagOverlay.Path

/-- The nonempty stretches between slashes. -/
def parts (path : Text) : List Text :=
  (path.splitOn '/').filter (· ≠ [])

def isAbsolute (path : Text) : Bool :=
  path.head? = some '/'

def endsInSlash (path : Text) : Bool :=
  path.getLast? = some '/'

/-- `rest` as seen from `base`; an absolute path stays what it is. -/
def join (base rest : Text) : Text :=
  if isAbsolute rest then rest
  else if base.isEmpty || endsInSlash base then base ++ rest
  else base ++ ['/'] ++ rest

/-- The parts of `relative` put behind `base`, each after a slash of its own. -/
def append (base relative : Text) : Text :=
  if base.isEmpty then ['/'].intercalate (parts relative)
  else base ++ (parts relative).flatMap ('/' :: ·)

inductive Component where
  | root
  | here
  | above
  | name (text : Text)
deriving DecidableEq

def Component.ofPart (part : Text) : Component :=
  if part = ['.','.'] then above else name part

def components (path : Text) : List Component :=
  let names := ((parts path).filter (· ≠ ['.'])).map Component.ofPart
  if isAbsolute path then .root :: names
  else if (parts path).head? = some ['.'] then .here :: names
  else names

def Component.toText : Component → Text
  | root => ['/']
  | here => ['.']
  | above => ['.','.']
  | name text => text

def ofComponents : List Component → Text
  | .root :: rest => '/' :: ['/'].intercalate (rest.map Component.toText)
  | components => ['/'].intercalate (components.map Component.toText)

/-- A component as a row of numbers, so that rows are ordered as components are. -/
def Component.order : Component → List Nat
  | root => [0]
  | here => [1]
  | above => [2]
  | name text => 3 :: text.map Char.toNat

def order (path : Text) : List (List Nat) :=
  (components path).map Component.order

def precedes (left right : Text) : Bool :=
  !List.lex (order right) (order left) fun one other => List.lex one other fun a b => a < b

def fileName? (path : Text) : Option Text :=
  match (components path).getLast? with
  | some (.name name) => some name
  | _ => none

/-- What follows the last dot of a name, unless that dot begins the name. -/
def extensionOf? (name : Text) : Option Text :=
  let tail := (name.reverse.takeWhile (· ≠ '.')).reverse
  if tail.length + 1 < name.length then some tail else none

def extension? (path : Text) : Option Text :=
  (fileName? path).bind extensionOf?

/-- The components of `path` after those of `base`. -/
def under? (base path : Text) : Option (List Component) :=
  if (components base).isPrefixOf (components path) then
    some ((components path).drop (components base).length)
  else none

/-- The path without its last component; the root and the empty path have none. -/
def parent? (path : Text) : Option Text :=
  match components path with
  | [] | [.root] => none
  | components => some (ofComponents components.dropLast)

end TagOverlay.Path
