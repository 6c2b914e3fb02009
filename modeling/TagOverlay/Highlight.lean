import TagOverlay.Decoration.Surface
import TagOverlay.Text.Digits
import TagOverlay.Text.Ruler

/-! Highlighting one line. Decorations are clipped to the line, put in order and drawn from left to
right; one that begins inside a drawn one is left out. -/
namespace TagOverlay

inductive Color where
  | black
  | yellow
  | rgb (red green blue : UInt8)
deriving DecidableEq

/-- A stretch of a line in one look; a color that is missing is the terminal's own. -/
structure StyledText where
  text : Text
  background : Option Color
  foreground : Option Color
deriving DecidableEq

/-- A byte range of a line with the style of the decoration that covers it. -/
structure Segment where
  start : Nat
  stop : Nat
  style : Style
deriving DecidableEq

namespace Highlight

/-- A number below 256 in two hexadecimal digits, or in one after a plus sign. -/
def channel? : Text → Option UInt8
  | ['+',low] => (Text.number? 16 [low]).map UInt8.ofNat
  | [high,low] => (Text.number? 16 [high,low]).map UInt8.ofNat
  | _ => none

/-- The color that a text like `#90EE90` names. -/
def parseColor? : Text → Option Color
  | ['#',a,b,c,d,e,f] =>
      match channel? [a,b],channel? [c,d],channel? [e,f] with
      | some red,some green,some blue => some (.rgb red green blue)
      | _,_,_ => none
  | _ => none

/-- The background of a style, yellow if it names no color. -/
def colorOf (style : Style) : Color :=
  (parseColor? style.color.toList).getD .yellow

/-- The part of a decoration on line `number`, cut to the line. There is none if nothing of the
line is left or an end lies inside a character. -/
def segment? (number : Nat) (line : Ruler) (decoration : Decoration) : Option Segment :=
  let span := decoration.span
  let start := if span.start.line = number then span.start.column - 1 else 0
  let stop := if span.stop.line = number then span.stop.column - 1 else line.width
  let start := min start line.width
  let stop := min stop line.width
  if start < stop ∧ line.isBoundary start ∧ line.isBoundary stop then
    some ⟨start,stop,decoration.style⟩
  else none

/-- The parts of the decorations on a line that is measured already, in order. -/
def segmentsOn (number : Nat) (line : Ruler) (decorations : List Decoration) : List Segment :=
  (decorations.filterMap (segment? number line)).mergeSort fun left right =>
    left.start < right.start ∨ (left.start = right.start ∧ left.stop ≤ right.stop)

/-- The parts of the decorations on line `number`, in order. -/
def segments (number : Nat) (line : Text) (decorations : List Decoration) : List Segment :=
  segmentsOn number (.ofText line) decorations

/-- The line from byte `start` to byte `stop`, where both are known to be boundaries. -/
def cut (line : Ruler) (start stop : Nat) : Text :=
  (line.slice? start stop).getD []

def plain (text : Text) : StyledText :=
  ⟨text,none,none⟩

def colored (text : Text) (style : Style) : StyledText :=
  ⟨text,some (colorOf style),some .black⟩

/-- Draws the line from byte `cursor` on. -/
def draw (line : Ruler) : (cursor : Nat) → List Segment → List StyledText
  | cursor,[] => if cursor < line.width then [plain (cut line cursor line.width)] else []
  | cursor,segment :: segments =>
      if segment.start < cursor then draw line cursor segments
      else
        let before :=
          if cursor < segment.start then [plain (cut line cursor segment.start)] else []
        before ++ colored (cut line segment.start segment.stop) segment.style
          :: draw line segment.stop segments

/-- Line `number` with its decorations drawn. -/
def line (number : Nat) (line : Text) (decorations : List Decoration) : List StyledText :=
  let line := Ruler.ofText line
  draw line 0 (segmentsOn number line decorations)

end Highlight

end TagOverlay
