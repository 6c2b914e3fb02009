/-! How a decoration looks, and the review states of a tag that are shown by it. -/
namespace TagOverlay

/-- Class names for an editor's text and margin, and the color of the highlight as `#RRGGBB`. -/
structure Style where
  className : String
  glyphMarginClass : String
  color : String
deriving DecidableEq

namespace Style

/-- Tags that were just marked. -/
def fresh : Style := ⟨"decorationContent","decorationGlyphMargin","#FFFF00"⟩

/-- Tags that were dealt with. -/
def done : Style := ⟨"decorationContentDone","decorationGlyphMarginDone","#90EE90"⟩

/-- The tag that is being dealt with. -/
def current : Style := ⟨"decorationContentCurrent","decorationGlyphMarginCurrent","#bbfaf9"⟩

end Style

inductive ReviewStatus where
  | done
  | current
deriving DecidableEq

/-- A word or number that names no review status. -/
structure InvalidStatus where
  given : String
deriving DecidableEq

def InvalidStatus.message (error : InvalidStatus) : String :=
  s!"Invalid status color: {error.given}"

namespace ReviewStatus

def all : List ReviewStatus := [done,current]

def style : ReviewStatus → Style
  | done => Style.done
  | current => Style.current

def name : ReviewStatus → String
  | done => "done"
  | current => "current"

def number : ReviewStatus → Nat
  | done => 0
  | current => 1

/-- The status of this name; ASCII letters may be of either case. -/
def ofName (given : String) : Except InvalidStatus ReviewStatus :=
  match all.find? fun status => status.name = given.map Char.toLower with
  | some status => .ok status
  | none => .error ⟨given⟩

def ofNumber (given : Nat) : Except InvalidStatus ReviewStatus :=
  match all.find? fun status => status.number = given with
  | some status => .ok status
  | none => .error ⟨toString given⟩

end ReviewStatus

end TagOverlay
