import TagOverlay.Text.Alphanumeric
import TagOverlay.Text.Find

/-! Variables and the home folder in paths, as a shell writes them: `$NAME`, `${NAME}`,
`${NAME:-default}`, and a tilde at the beginning. A path with a variable that is not set and has no
default cannot be expanded at all. -/
namespace TagOverlay

/-- What a program finds around it. -/
structure Environment where
  /-- The variables that are set, with their values. -/
  values : List (Text × Text)
  /-- The home folder of the user's account, where no variable names another. -/
  accountHome : Option Text

namespace Environment

/-- The value of a variable; an empty name never has one. The settings are searched as texts like
`NAME=VALUE` for the name with an equals sign after it, so a name that holds an equals sign itself
reaches into a value. -/
def get? (environment : Environment) (name : Text) : Option Text :=
  if name.isEmpty then none
  else environment.values.findSome? fun setting =>
    (name ++ ['=']).isPrefixOf? (setting.1 ++ ['='] ++ setting.2)

/-- Sets a variable, in place of the value that it had. -/
def set (environment : Environment) (name value : Text) : Environment :=
  { environment with
    values := (name,value) :: environment.values.filter fun entry => entry.1 ≠ name }

def home? (environment : Environment) : Option Text :=
  ((environment.get? "HOME".toList).filter (!·.isEmpty)).or environment.accountHome

end Environment

namespace Expansion

def isNameChar (c : Char) : Bool :=
  Text.isAlphanumeric c || c = '_'

/-- What stands before and after the first place of a character. -/
def splitAt? (mark : Char) (text : Text) : Option (Text × Text) :=
  match text.dropWhile (· ≠ mark) with
  | [] => none
  | _ :: rest => some (text.takeWhile (· ≠ mark),rest)

/-- The name and the default of what stands between braces. A default comes after the first `:-`,
which the name must not begin with. -/
def nameAndDefault (inside : Text) : Text × Option Text :=
  match Text.find? [':','-'] inside with
  | none | some 0 => (inside,none)
  | some _ =>
      let name := go [] inside
      (name,some (inside.drop (name.length + 2)))
where
  go (before : Text) : Text → Text
    | ':' :: '-' :: _ => before.reverse
    | c :: rest => go (c :: before) rest
    | [] => before.reverse

/-- Replaces the variables, after the text in `before` (which is in reverse). `closable` tells
whether a closing brace may still come. -/
def expandFrom? (environment : Environment) :
    (fuel : Nat) → (closable : Bool) → (before : Text) → Text → Option Text
  | 0,_,_,_ => none
  | _ + 1,_,before,[] => some before.reverse
  | fuel + 1,closable,before,'$' :: rest =>
      match rest with
      | '\x7b' :: inner =>
          match if closable then splitAt? '\x7d' inner else none with
          | none => expandFrom? environment fuel false ('\x7b' :: '$' :: before) inner
          | some (inside,rest) =>
              let (name,default) := nameAndDefault inside
              match (environment.get? name).or default with
              | none => none
              | some value => expandFrom? environment fuel closable (value.reverse ++ before) rest
      | '$' :: rest => expandFrom? environment fuel closable ('$' :: before) rest
      | c :: _ =>
          if isNameChar c then
            match environment.get? (rest.takeWhile isNameChar) with
            | none => none
            | some value =>
                expandFrom? environment fuel closable (value.reverse ++ before)
                  (rest.dropWhile isNameChar)
          else expandFrom? environment fuel closable ('$' :: before) rest
      | [] => expandFrom? environment fuel closable ('$' :: before) []
  | fuel + 1,closable,before,c :: rest =>
      expandFrom? environment fuel closable (c :: before) rest

def expandVariables? (environment : Environment) (path : Text) : Option Text :=
  expandFrom? environment (path.length + 1) true [] path

/-- Replaces a tilde that begins the path and is its whole first part. -/
def expandTilde (environment : Environment) (path : Text) : Text :=
  match path with
  | '~' :: rest =>
      if rest.isEmpty ∨ rest.head? = some '/' then
        match environment.home? with
        | some home => home ++ rest
        | none => path
      else path
  | _ => path

/-- Replaces the variables and then the tilde, but not a tilde that a variable brought. -/
def expand? (environment : Environment) (path : Text) : Option Text :=
  (expandVariables? environment path).map fun expanded =>
    if path.head? ≠ some '~' ∧ expanded.head? = some '~' then expanded
    else expandTilde environment expanded

end Expansion

end TagOverlay
