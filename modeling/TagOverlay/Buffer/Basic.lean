import TagOverlay.Position
import TagOverlay.Text.Find
import TagOverlay.Text.Lines

/-! Text buffers: documents that are read line by line, either in a row or by number. Reading the
text of a span and looking for the next place of a literal need no more than that. -/
namespace TagOverlay

/-- A document with numbered lines. Reading by number gives the lines in their order. -/
class TextBuffer (β : Type) where
  lines : β → List Text
  lineCount : β → Nat
  line? : β → Nat → Option Text
  length_lines (buffer : β) : (lines buffer).length = lineCount buffer
  line?_zero (buffer : β) : line? buffer 0 = none
  line?_succ (buffer : β) (index : Nat) : line? buffer (index + 1) = (lines buffer)[index]?

namespace TextBuffer

variable {β : Type} [TextBuffer β]

/-- The part of a span on one of its lines. -/
def piece? (buffer : β) (span : Span) (number : Nat) : Option Text := do
  let line ← line? buffer number
  let start ← if number = span.start.line then span.start.offset? else some 0
  let stop ← if number = span.stop.line then span.stop.offset? else some line.width
  line.slice? start stop

/-- The text of a span, if both of its ends are places of the buffer. A span whose start is on a
later line than its stop holds nothing. -/
def textIn? (buffer : β) (span : Span) : Option Text :=
  if span.stop.line < span.start.line then some []
  else if lineCount buffer < span.stop.line then none
  else
    ((List.range' span.start.line (span.stop.line + 1 - span.start.line)).mapM
      (piece? buffer span)).map Text.joinLines

/-- Looks for `needle` on at most `remaining` lines, from byte `offset` of line `number` on. -/
def seek? (buffer : β) (needle : Needle) : (remaining number offset : Nat) → Option Position
  | 0,_,_ => none
  | remaining + 1,number,offset =>
      match line? buffer number with
      | none => none
      | some line =>
          match (line.dropBytes? offset).bind needle.find? with
          | some found => some ⟨number,offset + found + needle.width + 1⟩
          | none => seek? buffer needle remaining (number + 1) 0

/-- The position just after the first place of `needle`, within one line, at or after `caret`. -/
def endFrom? (buffer : β) (needle : Needle) (caret : Position) : Option Position :=
  seek? buffer needle (lineCount buffer + 1 - caret.line) caret.line (caret.column - 1)

/-- The position just after the first place of a literal, within one line, at or after `caret`. -/
def endOfNext? (buffer : β) (literal : Text) (caret : Position) : Option Position :=
  endFrom? buffer (.ofText literal) caret

end TextBuffer

end TagOverlay
