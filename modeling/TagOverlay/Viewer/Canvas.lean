import TagOverlay.Text.Lines

/-! A canvas of character cells, and the boxes and texts that are drawn on it. What does not fit is
cut off. -/
namespace TagOverlay

structure Area where
  left : Nat
  top : Nat
  width : Nat
  height : Nat
deriving DecidableEq

namespace Area

def isEmpty (area : Area) : Bool :=
  area.width = 0 || area.height = 0

/-- The area without its outermost cells; nothing at the origin if it has no others on some side. -/
def shrink (area : Area) : Area :=
  if area.width < 2 ∨ area.height < 2 then ⟨0,0,0,0⟩
  else ⟨area.left + 1,area.top + 1,area.width - 2,area.height - 2⟩

def inside (area : Area) : Area :=
  ⟨area.left + 1,area.top + 1,area.width - 2,area.height - 2⟩

/-- The upper part of an area and the lowest `count` rows, which come first if they do not fit. -/
def splitBottom (area : Area) (count : Nat) : Area × Area :=
  let lower := min count area.height
  let upper := area.height - lower
  ({ area with height := upper },{ area with top := area.top + upper,height := lower })

/-- The left and the right part of an area; the left one takes so many percent of its width, rounded
to the nearest whole cell. -/
def splitLeft (area : Area) (percent : Nat) : Area × Area :=
  let first := (area.width * percent + 50) / 100
  ({ area with width := first },
    { area with left := area.left + first,width := area.width - first })

end Area

/-- Rows of cells, all of one width. -/
structure Canvas where
  rows : List Text

namespace Canvas

def blank (width height : Nat) : Canvas :=
  ⟨List.replicate height (List.replicate width ' ')⟩

def isDrawn (c : Char) : Bool :=
  32 ≤ c.toNat && !(127 ≤ c.toNat && c.toNat < 160)

def overlay (row : Text) (left : Nat) (text : Text) : Text :=
  row.take left ++ text.take (row.length - left) ++ row.drop (left + text.length)

def writeLines (canvas : Canvas) (area : Area) (lines : List Text) : Canvas :=
  let shown := lines.take area.height
  let cover (row line : Text) := overlay row area.left ((line.filter isDrawn).take area.width)
  ⟨canvas.rows.take area.top ++ List.zipWith cover (canvas.rows.drop area.top) shown
    ++ canvas.rows.drop (area.top + shown.length)⟩

/-- A row with several texts drawn over it. The characters of each stand close together, but it is
given a cell for every one of them, drawn or not; so the next text may begin after a gap. -/
def overlayEach (row : Text) : List Text → Text
  | [] => row
  | text :: texts =>
      overlay (row.take text.length) 0 (text.filter isDrawn)
        ++ overlayEach (row.drop text.length) texts

/-- The width of a title is kept in 16 bits: of a wider one only the excess is seen. -/
def titleWidths : Nat := 65536

/-- A row with a title drawn over it, whose lines follow one another. -/
def overlayTitle (row title : Text) : Text :=
  let lines := title.lines
  let width := lines.flatten.length % titleWidths
  overlayEach (row.take width) lines ++ row.drop width

/-- A row of a box: its ends and what is between them. -/
def boxRow (width : Nat) (first : Char) (middle : Text) (last : Char) : Text :=
  if width < 2 then List.replicate width first else [first] ++ middle ++ [last]

/-- The rows of a box with a title on its upper edge. -/
def boxRows (width height : Nat) (title : Text) : List Text :=
  let across (c : Char) := List.replicate (width - 2) c
  let top := boxRow width '┌' (overlayTitle (across '─') title) '┐'
  let middle := boxRow width '│' (across ' ') '│'
  let bottom := boxRow width '└' (across '─') '┘'
  if height < 2 then List.replicate height top
  else [top] ++ List.replicate (height - 2) middle ++ [bottom]

/-- Draws a box that fills an area, with a title on its upper edge. -/
def writeBox (canvas : Canvas) (area : Area) (title : Text) : Canvas :=
  canvas.writeLines area (boxRows area.width area.height title)

end Canvas

end TagOverlay
