import TagOverlay.Position
import TagOverlay.Text.Lines

/-! Positions in a flat text. A position is read as the byte where its line begins, and the bytes
before its column. Splitting the text before it into whole lines and the rest tells which line that
is; carriage returns count here, though they are no part of a line's content. -/
namespace TagOverlay.Text

/-- The byte offset at which a line begins. -/
def lineOffset (text : Text) (number : Nat) : Nat :=
  width ((text.splitLines.take (number - 1)).flatMap fun line => line ++ ['\n'])

/-- The byte offset that a position names. -/
def offsetAt (text : Text) (position : Position) : Nat :=
  text.lineOffset position.line + (position.column - 1)

inductive WholeLines : Nat → Text → Prop where
  | none : WholeLines 0 []
  | line {count : Nat} {first rest : Text} (noBreak : '\n' ∉ first) (later : WholeLines count rest) :
      WholeLines (count + 1) (first ++ '\n' :: rest)

/-- The position that is reached once a text has been read from the start of a document. -/
inductive Reached : Text → Position → Prop where
  | within {count : Nat} {front last : Text} (lines : WholeLines count front) (noBreak : '\n' ∉ last) :
      Reached (front ++ last) ⟨count + 1,last.width + 1⟩

theorem lineOffset_append_break {first : Text} (noBreak : '\n' ∉ first) (rest : Text) (count : Nat) :
    lineOffset (first ++ '\n' :: rest) (count + 2) = first.width + 1 + lineOffset rest (count + 1) := by
  have split : splitLines (first ++ '\n' :: rest) = first :: splitLines rest :=
    List.splitOn_append_cons_self_of_not_mem noBreak rest
  have newline : '\n'.utf8Size = 1 := rfl
  simp [lineOffset,split,newline]
  omega

theorem lineOffset_one (text : Text) : lineOffset text 1 = 0 := by
  simp [lineOffset]

namespace WholeLines

theorem lineOffset_append {count : Nat} {front : Text} (whole : WholeLines count front)
    (rest : Text) : lineOffset (front ++ rest) (count + 1) = front.width := by
  induction whole with
  | none => exact lineOffset_one rest
  | @line count first later noBreak _ ih =>
    rw [List.append_assoc,List.cons_append,lineOffset_append_break noBreak,ih,width_append,width_cons]
    have newline : '\n'.utf8Size = 1 := rfl
    omega

theorem lines_append {count : Nat} {front : Text} (whole : WholeLines count front) (rest : Text) :
    lines (front ++ rest) = lines front ++ lines rest := by
  induction whole with
  | none => simp [lines_of_not_mem]
  | line noBreak _ ih =>
    rw [List.append_assoc,List.cons_append,lines_append_break noBreak,lines_append_break noBreak,ih,
      List.cons_append]

theorem length_lines {count : Nat} {front : Text} (whole : WholeLines count front) :
    (lines front).length = count := by
  induction whole with
  | none => simp [lines_of_not_mem]
  | line noBreak _ ih => rw [lines_append_break noBreak,List.length_cons,ih]

theorem lines_getElem? {count : Nat} {front : Text} (whole : WholeLines count front) (rest : Text)
    (index : Nat) : (lines (front ++ rest))[count + index]? = (lines rest)[index]? := by
  have before := whole.length_lines
  rw [whole.lines_append,List.getElem?_append_right (by omega),before,Nat.add_sub_cancel_left]

theorem append_line {count : Nat} {front last : Text} (whole : WholeLines count front)
    (noBreak : '\n' ∉ last) : WholeLines (count + 1) (front ++ last ++ ['\n']) := by
  induction whole with
  | none => exact .line noBreak .none
  | line first _ ih => simpa using line first ih

end WholeLines

namespace Reached

theorem offsetAt_eq {before : Text} {position : Position} (reached : Reached before position)
    (rest : Text) : offsetAt (before ++ rest) position = before.width := by
  obtain ⟨whole,_⟩ := reached
  rw [offsetAt,List.append_assoc,whole.lineOffset_append,width_append,Nat.add_sub_cancel]

theorem append {before more : Text} {position : Position} (reached : Reached before position)
    (noBreak : '\n' ∉ more) :
    Reached (before ++ more) ⟨position.line,position.column - 1 + more.width + 1⟩ := by
  cases reached with
  | @within count front last whole lastBreak =>
    have inside : '\n' ∉ last ++ more := by simp [lastBreak,noBreak]
    simpa using Reached.within whole inside

theorem append_line {before more : Text} {position : Position} (reached : Reached before position)
    (noBreak : '\n' ∉ more) : Reached (before ++ more ++ ['\n']) ⟨position.line + 1,1⟩ := by
  cases reached with
  | @within count front last whole lastBreak =>
    have inside : '\n' ∉ last ++ more := by simp [lastBreak,noBreak]
    have lines : Reached (front ++ (last ++ more) ++ ['\n'] ++ []) ⟨count + 1 + 1,width [] + 1⟩ :=
      .within (whole.append_line inside) (by simp)
    simpa using lines

end Reached

theorem dropReturn_cases (line : Text) :
    line = dropReturn line ++ ['\r'] ∨ dropReturn line = line := by
  rw [dropReturn]
  cases stripped : stripEnd? ['\r'] line with
  | none => exact .inr rfl
  | some head => exact .inl (stripEnd?_eq_some_iff.mp stripped)

theorem exists_append_dropReturn (line : Text) : ∃ ending, line = dropReturn line ++ ending := by
  rcases dropReturn_cases line with dropped | kept
  · exact ⟨_,dropped⟩
  · exact ⟨[],by rw [kept,List.append_nil]⟩

/-- A line of a text, with all that is before it. -/
theorem exists_wholeLines {text line : Text} {index : Nat} (found : (lines text)[index]? = some line) :
    ∃ front rest, text = front ++ line ++ rest ∧ WholeLines index front ∧ '\n' ∉ line := by
  induction index generalizing text with
  | zero =>
    rcases break_cases text with noBreak | ⟨first,rest,noBreak,rfl⟩
    · rw [lines_of_not_mem noBreak] at found
      obtain rfl : text = line := by
        split at found
        next => simp at found
        next => simpa using found
      exact ⟨[],[],by simp,.none,noBreak⟩
    · rw [lines_append_break noBreak,List.getElem?_cons_zero] at found
      obtain rfl := Option.some.inj found
      obtain ⟨ending,split⟩ := exists_append_dropReturn first
      have whole : first ++ '\n' :: rest = dropReturn first ++ (ending ++ '\n' :: rest) := by
        rw [← List.append_assoc,← split]
      have inside : '\n' ∉ dropReturn first := fun member =>
        noBreak (split ▸ List.mem_append_left _ member)
      exact ⟨[],_,whole,.none,inside⟩
  | succ index ih =>
    rcases break_cases text with noBreak | ⟨first,rest,noBreak,rfl⟩
    · rw [lines_of_not_mem noBreak] at found
      split at found <;> simp at found
    · rw [lines_append_break noBreak,List.getElem?_cons_succ] at found
      obtain ⟨front,after,rfl,whole,inside⟩ := ih found
      exact ⟨first ++ '\n' :: front,after,by simp,.line noBreak whole,inside⟩

end TagOverlay.Text
