import TagOverlay.Proofs.Text.Offset

/-! Texts taken apart at their newlines. A text that is put together from its lines again has a newline
where it had one, but no return before it; the stretches between the newlines give it back as it was. -/
namespace TagOverlay.Text

/-- A text without newline, or a stretch, a newline and a shorter text. -/
@[elab_as_elim]
theorem break_induction {motive : Text → Prop} (unbroken : ∀ text, '\n' ∉ text → motive text)
    (broken : ∀ line rest, '\n' ∉ line → motive rest → motive (line ++ '\n' :: rest)) (text : Text) :
    motive text := by
  induction size : text.length using Nat.strongRecOn generalizing text with
  | ind _ shorter =>
    subst size
    rcases break_cases text with noBreak | ⟨line,rest,noBreak,rfl⟩
    · exact unbroken text noBreak
    · exact broken line rest noBreak (shorter rest.length (by simp; omega) rest rfl)

theorem splitLines_of_not_mem {text : Text} (noBreak : '\n' ∉ text) : splitLines text = [text] :=
  List.splitOn_eq_singleton noBreak

theorem splitLines_append_break {line : Text} (noBreak : '\n' ∉ line) (rest : Text) :
    splitLines (line ++ '\n' :: rest) = line :: splitLines rest :=
  List.splitOn_append_cons_self_of_not_mem noBreak rest

theorem joinLines_splitLines (text : Text) : joinLines (splitLines text) = text :=
  List.intercalate_splitOn '\n'

/-- What stands before the first newline and what follows it are told by the whole text. -/
theorem append_break_inj {line other rest after : Text} (lineUnbroken : '\n' ∉ line) (otherUnbroken : '\n' ∉ other)
    (same : line ++ '\n' :: rest = other ++ '\n' :: after) : line = other ∧ rest = after := by
  have stretches := congrArg splitLines same
  rw [splitLines_append_break lineUnbroken,splitLines_append_break otherUnbroken] at stretches
  obtain ⟨first,later⟩ := List.cons.inj stretches
  refine ⟨first,?_⟩
  rw [← joinLines_splitLines rest,later,joinLines_splitLines]

theorem joinLines_cons (line : Text) {lines : List Text} (more : lines ≠ []) :
    joinLines (line :: lines) = line ++ '\n' :: joinLines lines := by
  obtain ⟨next,rest,rfl⟩ := List.exists_cons_of_ne_nil more
  simp [joinLines,List.intercalate]

/-- Whether a newline is the last character. -/
def EndsInBreak (text : Text) : Prop :=
  text.getLast? = some '\n'

instance (text : Text) : Decidable (EndsInBreak text) :=
  inferInstanceAs (Decidable (text.getLast? = some '\n'))

theorem not_endsInBreak {text : Text} (noBreak : '\n' ∉ text) : ¬ EndsInBreak text :=
  fun ends => noBreak (List.mem_of_getLast? ends)

theorem endsInBreak_append_break (line rest : Text) :
    EndsInBreak (line ++ '\n' :: rest) ↔ rest = [] ∨ EndsInBreak rest := by
  rw [EndsInBreak,EndsInBreak]
  cases rest with
  | nil => simp
  | cons c rest => simp [List.getLast?_append]

theorem append_dropReturn {line : Text} (returned : line.getLast? = some '\r') :
    dropReturn line ++ ['\r'] = line := by
  obtain ⟨shorter,rfl⟩ := List.getLast?_eq_some_iff.mp returned
  rw [dropReturn,stripEnd?_eq_some_iff.mpr rfl,Option.getD_some]

theorem dropReturn_of_not {line : Text} (unreturned : line.getLast? ≠ some '\r') : dropReturn line = line := by
  rcases dropReturn_cases line with dropped | kept
  · rw [dropped,List.getLast?_concat] at unreturned
    contradiction
  · exact kept

section Returns

/-- The text with each return left out that a newline follows. -/
def withoutReturns : Text → Text
  | '\r' :: '\n' :: rest => '\n' :: withoutReturns rest
  | c :: rest => c :: withoutReturns rest
  | [] => []

theorem withoutReturns_cons {c : Char} {rest : Text} (apart : ¬ (c = '\r' ∧ rest.head? = some '\n')) :
    withoutReturns (c :: rest) = c :: withoutReturns rest := by
  rw [withoutReturns]
  rintro _ rfl rfl
  exact apart ⟨rfl,rfl⟩

theorem withoutReturns_append {line : Text} (noBreak : '\n' ∉ line) {rest : Text}
    (apart : ¬ (line.getLast? = some '\r' ∧ rest.head? = some '\n')) :
    withoutReturns (line ++ rest) = line ++ withoutReturns rest := by
  induction line with
  | nil => rfl
  | cons c line ih =>
    have noBreak : '\n' ∉ line := fun member => noBreak (List.mem_cons_of_mem c member)
    rw [List.cons_append]
    cases line with
    | nil => exact withoutReturns_cons (fun both => apart ⟨congrArg some both.1,both.2⟩)
    | cons d line =>
      have inside : ¬ (c = '\r' ∧ (d :: line ++ rest).head? = some '\n') :=
        fun both => noBreak (Option.some_inj.mp both.2 ▸ List.mem_cons_self)
      rw [withoutReturns_cons inside,ih noBreak (by simpa using apart)]
      rfl

theorem withoutReturns_of_not_mem {text : Text} (noBreak : '\n' ∉ text) : withoutReturns text = text := by
  have alone : withoutReturns (text ++ []) = text ++ withoutReturns [] :=
    withoutReturns_append noBreak fun both => Option.some_ne_none _ both.2.symm
  simpa [withoutReturns] using alone

theorem withoutReturns_append_break {line : Text} (noBreak : '\n' ∉ line) (rest : Text) :
    withoutReturns (line ++ '\n' :: rest) = dropReturn line ++ '\n' :: withoutReturns rest := by
  have newline : withoutReturns ('\n' :: rest) = '\n' :: withoutReturns rest :=
    withoutReturns_cons (by simp)
  by_cases returned : line.getLast? = some '\r'
  · rw [← append_dropReturn returned] at noBreak
    have inside : '\n' ∉ dropReturn line := fun member => noBreak (List.mem_append_left _ member)
    have apart : ¬ ((dropReturn line).getLast? = some '\r' ∧ ('\r' :: '\n' :: rest).head? = some '\n') := by simp
    calc
      _ = withoutReturns (dropReturn line ++ '\r' :: '\n' :: rest) := by
        rw [← List.singleton_append (x := '\r'),← List.append_assoc,append_dropReturn returned]
      _ = dropReturn line ++ '\n' :: withoutReturns rest := by
        rw [withoutReturns_append inside apart,withoutReturns]
  · rw [dropReturn_of_not returned,withoutReturns_append noBreak (fun both => returned both.1),newline]

theorem lines_eq_nil_iff {text : Text} : lines text = [] ↔ text = [] := by
  rcases break_cases text with noBreak | ⟨line,rest,noBreak,rfl⟩
  · simp [lines_of_not_mem noBreak]
  · simp [lines_append_break noBreak]

/-- The lines of a text, put together again. -/
theorem joinLines_lines (text : Text) :
    joinLines (lines text) ++ (if EndsInBreak text then ['\n'] else []) = withoutReturns text := by
  induction text using break_induction with
  | unbroken text noBreak =>
    rw [withoutReturns_of_not_mem noBreak,if_neg (not_endsInBreak noBreak),lines_of_not_mem noBreak]
    cases text <;> simp [joinLines]
  | broken line rest noBreak ih =>
    rw [withoutReturns_append_break noBreak,lines_append_break noBreak,← ih]
    by_cases last : rest = []
    · subst last
      rw [if_pos ((endsInBreak_append_break line []).mpr (.inl rfl))]
      simp [lines_of_not_mem,joinLines,EndsInBreak]
    · rw [joinLines_cons _ (mt lines_eq_nil_iff.mp last)]
      simp [endsInBreak_append_break,last]

end Returns

theorem dropBytes?_of_width_lt {bytes : Nat} {text : Text} (beyond : text.width < bytes) :
    text.dropBytes? bytes = none := by
  rw [Option.eq_none_iff_forall_ne_some]
  intro rest found
  obtain ⟨head,rfl,rfl⟩ := dropBytes?_eq_some_iff.mp found
  rw [width_append] at beyond
  omega

/-- The text from a line's start on is what follows the line's byte offset. -/
theorem lineStarts_getElem? (text : Text) (index : Nat) :
    (lineStarts text).toList[index]? = text.dropBytes? (text.lineOffset (index + 1)) := by
  induction text using break_induction generalizing index with
  | unbroken text noBreak =>
    rw [lineStarts_of_not_mem noBreak]
    cases index with
    | zero => rw [lineOffset_one,dropBytes?_zero]; rfl
    | succ index =>
      have beyond : text.width < text.lineOffset (index + 2) := by
        have newline : '\n'.utf8Size = 1 := rfl
        simp [lineOffset,splitLines_of_not_mem noBreak,newline]
      rw [dropBytes?_of_width_lt beyond]
      rfl
  | broken line rest noBreak ih =>
    rw [lineStarts_append_break noBreak]
    cases index with
    | zero => rw [lineOffset_one,dropBytes?_zero]; rfl
    | succ index =>
      have first : (line ++ '\n' :: rest).dropBytes? (line.width + 1) = some rest :=
        dropBytes?_eq_some_iff.mpr ⟨line ++ ['\n'],by simp,by simp; rfl⟩
      rw [List.getElem?_cons_succ,ih,lineOffset_append_break noBreak,dropBytes?_add first]

section Stretches

/-- The stretch at an index stands in the text, and a newline follows it. -/
def BreaksAfter (text : Text) (index : Nat) (stretch : Text) : Prop :=
  ∃ front rest, WholeLines index front ∧ text = front ++ stretch ++ '\n' :: rest

theorem not_breaksAfter {text stretch : Text} (noBreak : '\n' ∉ text) (index : Nat) :
    ¬ BreaksAfter text index stretch := by
  intro ⟨front,rest,_,whole⟩
  exact noBreak (whole ▸ List.mem_append_right _ List.mem_cons_self)

theorem breaksAfter_zero (line rest : Text) : BreaksAfter (line ++ '\n' :: rest) 0 line :=
  ⟨[],rest,.none,rfl⟩

theorem breaksAfter_succ {line : Text} (noBreak : '\n' ∉ line) (rest : Text) (index : Nat) (stretch : Text) :
    BreaksAfter (line ++ '\n' :: rest) (index + 1) stretch ↔ BreaksAfter rest index stretch := by
  constructor
  · intro ⟨front,after,lines,whole⟩
    cases lines with
    | @line _ first front firstUnbroken later =>
      simp only [List.append_assoc,List.cons_append] at whole
      obtain ⟨_,rfl⟩ := append_break_inj noBreak firstUnbroken whole
      exact ⟨front,after,later,by simp⟩
  · rintro ⟨front,after,later,rfl⟩
    exact ⟨line ++ '\n' :: front,after,.line noBreak later,by simp⟩

/-- A line is its stretch, less the return at its end if a newline follows that. -/
theorem stretch_of_line {text line : Text} {index : Nat} (found : (lines text)[index]? = some line) :
    ∃ stretch, (splitLines text)[index]? = some stretch ∧
      (stretch = line ++ ['\r'] ∧ BreaksAfter text index stretch ∨
        stretch = line ∧ ¬ (stretch.getLast? = some '\r' ∧ BreaksAfter text index stretch)) := by
  induction text using break_induction generalizing index with
  | unbroken text noBreak =>
    obtain ⟨rfl,rfl⟩ : index = 0 ∧ text = line := by
      rw [lines_of_not_mem noBreak] at found
      cases text <;> cases index <;> simp_all
    exact ⟨text,by rw [splitLines_of_not_mem noBreak]; rfl,.inr ⟨rfl,fun both => not_breaksAfter noBreak 0 both.2⟩⟩
  | broken first rest noBreak ih =>
    rw [lines_append_break noBreak] at found
    rw [splitLines_append_break noBreak]
    cases index with
    | zero =>
      obtain rfl := Option.some_inj.mp found
      refine ⟨first,rfl,?_⟩
      by_cases returned : first.getLast? = some '\r'
      · exact .inl ⟨(append_dropReturn returned).symm,breaksAfter_zero first rest⟩
      · exact .inr ⟨(dropReturn_of_not returned).symm,fun both => returned both.1⟩
    | succ index =>
      simp only [List.getElem?_cons_succ,breaksAfter_succ noBreak] at found ⊢
      exact ih found

theorem length_splitLines (text : Text) :
    (splitLines text).length = (lines text).length + if text = [] ∨ EndsInBreak text then 1 else 0 := by
  induction text using break_induction with
  | unbroken text noBreak =>
    rw [splitLines_of_not_mem noBreak,lines_of_not_mem noBreak]
    cases text <;> simp [not_endsInBreak noBreak]
  | broken line rest noBreak ih =>
    have ends := endsInBreak_append_break line rest
    rw [splitLines_append_break noBreak,lines_append_break noBreak,List.length_cons,List.length_cons,ih]
    simp [ends,Nat.add_right_comm]

end Stretches

end TagOverlay.Text
