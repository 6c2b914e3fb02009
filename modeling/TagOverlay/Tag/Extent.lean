import TagOverlay.Buffer.Sweep
import TagOverlay.Tag.Search

/-! How far a tag and its element reach. A start tag ends after the first `>` that follows its
beginning, on whatever line, also when that `>` stands inside an attribute. An element ends after
the first closing tag of its name that follows the start tag. -/
namespace TagOverlay

inductive TagError where
  /-- A tag that begins here is never ended. -/
  | malformed (start : Position)
  /-- No closing tag of this name follows this line. -/
  | unclosed (name : Text) (line : Nat)
deriving DecidableEq

def TagError.message : TagError → String
  | malformed start =>
      s!"Tag starting at line {start.line}, column {start.column} is never closed with '>'"
  | unclosed name line => s!"No closing </{String.ofList name}> found after line {line}"

namespace Tag

/-- The start tag with this beginning that stops here, if it stops. -/
def ended (beginning : Span) (stop? : Option Position) : Except TagError Span :=
  match stop? with
  | some stop => .ok (beginning.withStop stop)
  | none => .error (.malformed beginning.start)

/-- The start tag that begins with the given span. -/
def expand {β : Type} [TextBuffer β] (buffer : β) (beginning : Span) : Except TagError Span :=
  ended beginning (TextBuffer.endOfNext? buffer ['>'] beginning.stop)

/-- The start tags that begin with the given spans, each as if it were alone. -/
def expandEach {β : Type} [TextBuffer β] (buffer : β) (beginnings : List Span) :
    List (Except TagError Span) :=
  List.zipWith ended beginnings (TextBuffer.endsOfNext? buffer ['>'] (beginnings.map (·.stop)))

theorem expandEach_eq {β : Type} [TextBuffer β] (buffer : β) (beginnings : List Span) :
    expandEach buffer beginnings = beginnings.map (expand buffer) := by
  rw [expandEach,TextBuffer.endsOfNext?_eq,List.map_map,List.zipWith_map_right,
    List.zipWith_self]
  rfl

/-- The end of the element whose start tag covers the given span. -/
def closingEnd {β : Type} [TextBuffer β] (buffer : β) (name : Text) (startTag : Span) :
    Except TagError Position :=
  match TextBuffer.endOfNext? buffer (closing name) startTag.stop with
  | some stop => .ok stop
  | none => .error (.unclosed name startTag.stop.line)

/-- Whether the text of a tag says that it closes itself. -/
def isSelfClosing (tag : Text) : Bool :=
  Text.hasPart ['/','>'] tag

end Tag

end TagOverlay
