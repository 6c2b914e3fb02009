import TagOverlay.Buffer.Basic
import TagOverlay.Text.Utf8

/-! Documents: a text together with an index of its line starts. Lines in a row are read off the
text, a single line from its start in the index; both ways give the same lines. -/
namespace TagOverlay

structure Document where
  text : Text
  starts : Array Text
  count : Nat
  starts_eq : starts = text.lineStarts
  count_eq : count = text.lines.length

namespace Document

def ofText (text : Text) : Document where
  text := text
  starts := text.lineStarts
  count := text.lines.length
  starts_eq := rfl
  count_eq := rfl

def ofUtf8 (bytes : ByteArray) : Except Text.Utf8Fault Document :=
  (Text.ofUtf8 bytes).map ofText

/-- What is said of bytes that are no text. -/
def faultMessage (fault : Text.Utf8Fault) : String :=
  s!"Document is not valid UTF-8: {fault.message}"

/-- A line by its number: the first line of what follows the line's start. -/
def line? (document : Document) (number : Nat) : Option Text :=
  if number = 0 ∨ document.count < number then none
  else document.starts[number - 1]?.bind Text.firstLine?

instance : TextBuffer Document where
  lines document := document.text.lines
  lineCount document := document.count
  line? := line?
  length_lines document := document.count_eq.symm
  line?_zero _ := by simp [line?]
  line?_succ document index := by
    have atIndex := Text.lines_getElem? document.text index
    rw [line?,document.starts_eq,document.count_eq]
    split
    next outside =>
      rw [List.getElem?_eq_none (by omega)]
    next => simpa using atIndex.symm

/-- The document's size in a form for logs. -/
def describe (document : Document) : String :=
  let width := document.text.width
  let count := document.count
  s!"RopeBuffer \x7b len_bytes: {width}, line_count: {count} \x7d"

end Document

end TagOverlay
