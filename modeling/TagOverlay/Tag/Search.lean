import TagOverlay.Buffer.Basic

/-! Finding start tags. A start tag is recognised by the literal `<` and a name before it, so a name
also finds the longer names that begin with it. -/
namespace TagOverlay

/-- A place of the literal beginning of a start tag. -/
structure TagMatch where
  span : Span
  text : Text
deriving DecidableEq

namespace Tag

/-- The most places that a search gives unless told otherwise. -/
def defaultLimit : Nat := 10000

/-- The literal beginning of the start tags of this name. -/
def opening (name : Text) : Text :=
  '<' :: name

/-- The closing tag of this name. -/
def closing (name : Text) : Text :=
  ['<','/'] ++ name ++ ['>']

/-- The places of a literal on one line. -/
def matchesOn (literal : Needle) (number : Nat) (line : Text) : List TagMatch :=
  (literal.places line).map fun offset =>
    ⟨⟨⟨number,offset + 1⟩,⟨number,offset + literal.width + 1⟩⟩,literal.text⟩

/-- The first `limit` places of start tags of this name, in reading order. -/
def search {β : Type} [TextBuffer β] (buffer : β) (name : Text) (limit : Nat) : List TagMatch :=
  let literal := Needle.ofText (opening name)
  (((TextBuffer.lines buffer).zipIdx 1).flatMap fun (line,number) =>
    matchesOn literal number line).take limit

end Tag

end TagOverlay
