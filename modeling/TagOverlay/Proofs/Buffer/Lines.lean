import TagOverlay.Buffer.Document
import TagOverlay.Buffer.Sweep
import TagOverlay.Proofs.Text.Breaks

/-! A document read in a row and read by number. A single line is read from its byte offset on, without what
stands before it, and is the one that comes up at its place in the row; the row, put together again, is the
text but for the returns before its newlines. -/
namespace TagOverlay

theorem TextBuffer.isSome_line?_iff {β : Type} [TextBuffer β] {buffer : β} {number : Nat} :
    (line? buffer number).isSome ↔ 1 ≤ number ∧ number ≤ lineCount buffer := by
  constructor
  · intro there
    obtain ⟨line,found⟩ := Option.isSome_iff_exists.mp there
    exact le_lineCount found
  · intro ⟨positive,inside⟩
    obtain ⟨line,found⟩ := exists_line positive inside
    exact Option.isSome_of_eq_some found

namespace Document
open TextBuffer (lines lineCount)

theorem line?_at_offset (text : Text) (index : Nat) :
    TextBuffer.line? (ofText text) (index + 1) =
      (text.dropBytes? (text.lineOffset (index + 1))).bind Text.firstLine? := by
  rw [TextBuffer.line?_succ,← Text.lineStarts_getElem?]
  exact Text.lines_getElem? text index

theorem numbered_lines_are_lines_of_text (text : Text) :
    let document := ofText text
    lineCount document = (lines document).length ∧
    (∀ number, (TextBuffer.line? document number).isSome ↔ 1 ≤ number ∧ number ≤ lineCount document) ∧
    (∀ index, TextBuffer.line? document (index + 1) = (lines document)[index]?) ∧
    (∀ index, TextBuffer.line? document (index + 1) =
      (text.dropBytes? (text.lineOffset (index + 1))).bind Text.firstLine?) ∧
    Text.joinLines (lines document) ++ (if text.EndsInBreak then ['\n'] else []) = text.withoutReturns :=
  ⟨rfl,fun _ => TextBuffer.isSome_line?_iff,TextBuffer.line?_succ _,line?_at_offset text,
    Text.joinLines_lines text⟩

/-- A return that no newline follows is part of its line. -/
example : lines (ofText ['a','\r','\n','\n','\r','b','\r','\r','\n']) = [['a'],[],['\r','b','\r']] := by decide

end Document

end TagOverlay
