import TagOverlay.Text.Basic

/-! Lines of a text. A newline ends a line; one carriage return before it belongs to the line's end.
A text that ends in a newline has no further line after it. -/
namespace TagOverlay.Text

/-- The stretches between newlines. -/
def splitLines (text : Text) : List Text :=
  text.splitOn '\n'

/-- Lines put together with a newline between each two. -/
def joinLines (lines : List Text) : Text :=
  ['\n'].intercalate lines

/-- A line without the carriage return that it ends in. -/
def dropReturn (line : Text) : Text :=
  (stripEnd? ['\r'] line).getD line

/-- The lines of a text, without their ends. -/
def lines (text : Text) : List Text :=
  let parts := text.splitLines
  let last := parts.getLast?.getD []
  parts.dropLast.map dropReturn ++ (if last.isEmpty then [] else [last])

/-- The first line of a text, if it has one. -/
def firstLine? (text : Text) : Option Text :=
  match text.dropWhile (· ≠ '\n') with
  | [] => if text.isEmpty then none else some text
  | _ :: _ => some (dropReturn (text.takeWhile (· ≠ '\n')))

/-- Collects into `found` the rest of the text after each newline. -/
def lineStarts.go : (found : Array Text) → Text → Array Text
  | found,[] => found
  | found,c :: rest => go (if c = '\n' then found.push rest else found) rest

/-- The text from the start of each line on. A final newline is followed by an empty rest. -/
def lineStarts (text : Text) : Array Text :=
  lineStarts.go #[text] text

private theorem go_toList (text : Text) (found : Array Text) :
    (lineStarts.go found text).toList = found.toList ++ (lineStarts.go #[] text).toList := by
  induction text generalizing found with
  | nil => simp [lineStarts.go]
  | cons c rest step =>
    simp only [lineStarts.go]
    rw [step,step (if c = '\n' then _ else _)]
    split <;> simp

private theorem go_of_not_mem {text : Text} (noBreak : '\n' ∉ text) (found : Array Text) :
    lineStarts.go found text = found := by
  induction text generalizing found with
  | nil => rfl
  | cons c rest step =>
    simp only [List.mem_cons,not_or] at noBreak
    rw [lineStarts.go,step noBreak.2,if_neg (Ne.symm noBreak.1)]

private theorem go_append_break {line : Text} (noBreak : '\n' ∉ line) (rest : Text)
    (found : Array Text) :
    lineStarts.go found (line ++ '\n' :: rest) = lineStarts.go (found.push rest) rest := by
  induction line generalizing found with
  | nil => simp [lineStarts.go]
  | cons c line step =>
    simp only [List.mem_cons,not_or] at noBreak
    rw [List.cons_append,lineStarts.go,step noBreak.2,if_neg (Ne.symm noBreak.1)]

theorem lineStarts_of_not_mem {text : Text} (noBreak : '\n' ∉ text) :
    (lineStarts text).toList = [text] := by
  rw [lineStarts,go_of_not_mem noBreak]

theorem lineStarts_append_break {line : Text} (noBreak : '\n' ∉ line) (rest : Text) :
    (lineStarts (line ++ '\n' :: rest)).toList
      = (line ++ '\n' :: rest) :: (lineStarts rest).toList := by
  rw [lineStarts,go_append_break noBreak,go_toList,lineStarts,go_toList rest #[rest]]
  simp

theorem lines_of_not_mem {text : Text} (noBreak : '\n' ∉ text) :
    lines text = if text.isEmpty then [] else [text] := by
  simp [lines,splitLines,List.splitOn_eq_singleton noBreak]

theorem lines_append_break {line : Text} (noBreak : '\n' ∉ line) (rest : Text) :
    lines (line ++ '\n' :: rest) = dropReturn line :: lines rest := by
  have split : splitLines (line ++ '\n' :: rest) = line :: splitLines rest :=
    List.splitOn_append_cons_self_of_not_mem noBreak rest
  have nonempty : splitLines rest ≠ [] := List.splitOn_ne_nil _ _
  simp only [lines,split]
  rw [List.dropLast_cons_of_ne_nil nonempty,List.getLast?_cons_of_ne_nil nonempty]
  simp

theorem firstLine?_of_not_mem {text : Text} (noBreak : '\n' ∉ text) :
    firstLine? text = if text.isEmpty then none else some text := by
  have passes : ∀ c ∈ text, (decide (c ≠ '\n')) = true := by
    intro c member
    simpa using fun same : c = '\n' => noBreak (same ▸ member)
  have none : text.dropWhile (· ≠ '\n') = [] := by
    have whole : (text ++ []).dropWhile (· ≠ '\n') = List.dropWhile (· ≠ '\n') [] :=
      List.dropWhile_append_of_pos passes
    simpa using whole
  simp only [firstLine?,none]

theorem firstLine?_append_break {line : Text} (noBreak : '\n' ∉ line) (rest : Text) :
    firstLine? (line ++ '\n' :: rest) = some (dropReturn line) := by
  have passes : ∀ c ∈ line, (decide (c ≠ '\n')) = true := by
    intro c member
    simpa using fun same : c = '\n' => noBreak (same ▸ member)
  simp only [firstLine?]
  rw [List.dropWhile_append_of_pos passes,List.takeWhile_append_of_pos passes]
  simp

/-- A text without newline, or a first stretch, a newline and the rest. -/
theorem break_cases (text : Text) :
    '\n' ∉ text ∨ ∃ line rest : Text, '\n' ∉ line ∧ text = line ++ '\n' :: rest := by
  by_cases member : '\n' ∈ text
  · obtain ⟨line,rest,rfl,first⟩ := List.eq_append_cons_of_mem member
    exact .inr ⟨line,rest,first,rfl⟩
  · exact .inl member

/-- The lines are the first lines of the texts that begin at the line starts. -/
theorem lines_getElem? (text : Text) (index : Nat) :
    (lines text)[index]? = ((lineStarts text).toList[index]?).bind firstLine? := by
  induction size : text.length using Nat.strongRecOn generalizing text index with
  | ind _ shorter =>
    subst size
    rcases break_cases text with noBreak | ⟨line,rest,noBreak,rfl⟩
    · rw [lines_of_not_mem noBreak,lineStarts_of_not_mem noBreak]
      cases index with
      | zero => simp [firstLine?_of_not_mem noBreak]; split <;> simp
      | succ index => split <;> simp
    · rw [lines_append_break noBreak,lineStarts_append_break noBreak]
      cases index with
      | zero => simp [firstLine?_append_break noBreak]
      | succ index => simpa using shorter rest.length (by simp; omega) rest index rfl

end TagOverlay.Text
