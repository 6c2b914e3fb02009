import TagOverlay.Viewer.Basic
import TagOverlay.Viewer.Canvas

/-! The screen of the viewer: the list of files on the left, the document on the right, and below
them the status and the keys. Drawing scrolls the list so that it shows the selected file. -/
namespace TagOverlay.Viewer

def help : Text :=
  "q: Quit | j/k: File | n/p: Next/Prev tag | Enter: Element | o/c: Open/Close payload".toList

/-- The first of `height` entries to show, so that the selected one is among them and the list moves
no further than it has to. -/
def scrolled (count height : Nat) (selected : Option Nat) (offset : Nat) : Nat :=
  let offset := min offset (count - 1)
  match selected with
  | none => offset
  | some index =>
      let index := min index (count - 1)
      if offset + height ≤ index then index + 1 - height
      else if index < offset then index
      else offset

def listedName (viewer : Viewer) (path : Text) : Text :=
  (relativePath? viewer.folder path).getD path

/-- The list as it is left after drawing it into an area. An area without room leaves it alone. -/
def scrollList (viewer : Viewer) (area : Area) : Viewer :=
  if area.isEmpty then viewer
  else if viewer.files.isEmpty then { viewer with selected := none,listOffset := 0 }
  else
    { viewer with
      listOffset :=
        scrolled viewer.files.length area.height viewer.selected viewer.listOffset }

def lineText (line : List StyledText) : Text :=
  line.flatMap (·.text)

/-- The rows of the screen, and the viewer with its list scrolled. -/
def draw (viewer : Viewer) (width height : Nat) : List Text × Viewer :=
  let (upper,lower) := (Area.mk 0 0 width height).splitBottom 2
  let (listArea,contentArea) := upper.shrink.splitLeft 30
  let viewer := viewer.scrollList listArea.inside
  let names := (viewer.files.drop viewer.listOffset).map viewer.listedName
  let lines := (viewer.visibleLines (contentArea.height - 2)).map lineText
  let canvas := (Canvas.blank width height)
    |>.writeBox listArea "Files".toList
    |>.writeLines listArea.inside names
    |>.writeBox contentArea (['<'] ++ viewer.tagName ++ ['>'])
    |>.writeLines contentArea.inside lines
    |>.writeLines lower [viewer.status.toList,help]
  (canvas.rows,viewer)

end TagOverlay.Viewer
