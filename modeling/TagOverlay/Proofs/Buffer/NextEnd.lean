import TagOverlay.Buffer.Document
import TagOverlay.Buffer.Sweep
import TagOverlay.Proofs.Text.Offset
import TagOverlay.Proofs.Text.PlainScan

/-! The next end of a literal in a buffer. It is found on the caret's line or from the line below,
and there is none without a line. In a document this is the next end in the flat text, provided that
the literal holds neither half of a line break. -/
namespace TagOverlay.TextBuffer
open Text (Reached)

variable {β : Type} [TextBuffer β]

theorem line?_eq_some_iff {buffer : β} {number : Nat} {line : Text} :
    line? buffer number = some line ↔ ∃ index, number = index + 1 ∧ (lines buffer)[index]? = some line := by
  constructor
  · intro here
    obtain ⟨index,rfl⟩ : ∃ index, number = index + 1 := ⟨number - 1,by have := le_lineCount here; omega⟩
    rw [line?_succ] at here
    exact ⟨index,rfl,here⟩
  · rintro ⟨index,rfl,here⟩
    rw [line?_succ,here]

theorem mem_zipIdx_lines_iff {buffer : β} {number : Nat} {line : Text} :
    (line,number) ∈ (lines buffer).zipIdx 1 ↔ line? buffer number = some line := by
  rw [line?_eq_some_iff,List.mk_mem_zipIdx_iff_le_and_getElem?_sub]
  constructor
  · intro ⟨positive,here⟩
    exact ⟨number - 1,by omega,here⟩
  · rintro ⟨index,rfl,here⟩
    exact ⟨Nat.le_add_left _ _,here⟩

theorem line?_of_lineCount_lt {buffer : β} {number : Nat} (beyond : lineCount buffer < number) :
    line? buffer number = none := by
  rw [Option.eq_none_iff_forall_ne_some]
  intro line found
  have := (le_lineCount found).2
  omega

theorem lineCount_lt_of_no_line {buffer : β} {number : Nat} (positive : 0 < number)
    (nowhere : line? buffer number = none) : lineCount buffer < number := by
  refine Nat.lt_of_not_le fun inside => ?_
  obtain ⟨line,found⟩ := exists_line positive inside
  rw [nowhere] at found
  contradiction

theorem endFrom?_of_no_line {buffer : β} {needle : Needle} {caret : Position}
    (nowhere : line? buffer caret.line = none) : endFrom? buffer needle caret = none := by
  rw [endFrom?]
  cases lineCount buffer + 1 - caret.line with
  | zero => rfl
  | succ remaining => rw [seek?,nowhere]

theorem endFrom?_of_line {buffer : β} {needle : Needle} {caret : Position} {line : Text}
    (here : line? buffer caret.line = some line) :
    endFrom? buffer needle caret =
      match (line.dropBytes? (caret.column - 1)).bind needle.find? with
      | some found => some ⟨caret.line,caret.column - 1 + found + needle.width + 1⟩
      | none => endFrom? buffer needle ⟨caret.line + 1,1⟩ := by
  have inside := (le_lineCount here).2
  have count : lineCount buffer + 1 - caret.line = (lineCount buffer - caret.line) + 1 := by omega
  have below : lineCount buffer + 1 - (caret.line + 1) = lineCount buffer - caret.line := by omega
  rw [endFrom?,endFrom?,count,below,seek?,here]
  rfl

end TagOverlay.TextBuffer

namespace TagOverlay.Document
open Text (Reached WholeLines)
open TextBuffer (endFrom? endFrom?_of_line endFrom?_of_no_line)

theorem line?_of_wholeLines {count : Nat} {front : Text} (whole : WholeLines count front)
    (rest : Text) (index : Nat) :
    TextBuffer.line? (ofText (front ++ rest)) (count + index + 1) = (Text.lines rest)[index]? := by
  rw [TextBuffer.line?_succ]
  exact whole.lines_getElem? rest index

/-- The return that ends a line hides no place of a literal without one. -/
theorem bind_find?_dropReturn {needle : Needle} (nonempty : needle.text ≠ [])
    (noReturn : '\r' ∉ needle.text) (head line : Text) :
    ((Text.dropReturn (head ++ line)).dropBytes? head.width).bind needle.find? =
      needle.find? line := by
  rcases Text.dropReturn_cases (head ++ line) with dropped | kept
  · generalize Text.dropReturn (head ++ line) = shorter at dropped
    rcases List.eq_nil_or_concat line with rfl | ⟨init,last,rfl⟩
    · -- the caret stands after the return, which is past the end of the line's content
      have outside : shorter.dropBytes? head.width = none := by
        rw [Option.eq_none_iff_forall_ne_some]
        intro rest found
        obtain ⟨before,rfl,same⟩ := Text.dropBytes?_eq_some_iff.mp found
        rw [List.append_nil] at dropped
        have widths := congrArg Text.width dropped
        rw [Text.width_append,Text.width_append] at widths
        have return_width : Text.width ['\r'] = 1 := rfl
        omega
      rw [outside,Option.bind_none,Needle.find?_nil nonempty]
    · rw [List.concat_eq_append,← List.append_assoc] at dropped
      obtain ⟨rfl,same⟩ := List.append_inj' dropped rfl
      obtain rfl : last = '\r' := by simpa using same
      have rest : (head ++ init).dropBytes? head.width = some init :=
        Text.dropBytes?_eq_some_iff.mpr ⟨head,rfl,rfl⟩
      rw [rest,Option.bind_some,List.concat_eq_append,Needle.find?_append_cons nonempty noReturn,
        Needle.find?_nil nonempty,Option.map_none,Option.or_none]
  · have rest : (head ++ line).dropBytes? head.width = some line :=
      Text.dropBytes?_eq_some_iff.mpr ⟨head,rfl,rfl⟩
    rw [kept,rest,Option.bind_some]

/-- The next end is the one of the first place in the rest of the flat text. -/
def FlatEnd (needle : Needle) (before suffix : Text) (stop? : Option Position) : Prop :=
  (needle.find? suffix = none ∧ stop? = none) ∨
    ∃ between after stop, suffix = between ++ needle.text ++ after ∧
      needle.find? suffix = some between.width ∧
      Reached (before ++ between ++ needle.text) stop ∧ stop? = some stop

theorem flatEnd_of_find? {needle : Needle} {before line rest : Text} {caret : Position} {found : Nat}
    (reached : Reached before caret) (inside : '\n' ∉ line) (hit : needle.find? line = some found)
    (same : needle.find? (line ++ rest) = some found) :
    FlatEnd needle before (line ++ rest)
      (some ⟨caret.line,caret.column - 1 + found + needle.width + 1⟩) := by
  obtain ⟨between,after,rfl,place⟩ := Needle.find?_eq_some_iff.mp hit
  obtain rfl := place.whole
  have clean : '\n' ∉ between ++ needle.text := by
    simp only [List.mem_append,not_or] at inside ⊢
    exact inside.1
  refine .inr ⟨between,after ++ rest,_,by simp,same,?_,rfl⟩
  have longer := reached.append clean
  rw [Text.width_append,← needle.width_eq,← Nat.add_assoc] at longer
  simpa using longer

theorem flatEnd_lastLine {needle : Needle} (nonempty : needle.text ≠ []) {count : Nat}
    {front last suffix : Text} (whole : WholeLines count front) (lastBreak : '\n' ∉ last)
    (inside : '\n' ∉ suffix) :
    FlatEnd needle (front ++ last) suffix
      (endFrom? (ofText (front ++ (last ++ suffix))) needle ⟨count + 1,last.width + 1⟩) := by
  have unbroken : '\n' ∉ last ++ suffix := by simp [lastBreak,inside]
  have here := line?_of_wholeLines whole (last ++ suffix) 0
  have below := line?_of_wholeLines whole (last ++ suffix) 1
  rw [Text.lines_of_not_mem unbroken] at here below
  by_cases empty : last ++ suffix = []
  · rw [if_pos (by simpa using empty)] at here
    obtain ⟨_,rfl⟩ := List.append_eq_nil_iff.mp empty
    exact .inl ⟨Needle.find?_nil nonempty,endFrom?_of_no_line here⟩
  · rw [if_neg (by simpa using empty)] at here below
    have rest : (last ++ suffix).dropBytes? last.width = some suffix :=
      Text.dropBytes?_eq_some_iff.mpr ⟨last,rfl,rfl⟩
    rw [endFrom?_of_line here,Nat.add_sub_cancel,rest,Option.bind_some]
    cases hit : needle.find? suffix with
    | none => exact .inl ⟨hit,endFrom?_of_no_line below⟩
    | some found =>
      have same : needle.find? (suffix ++ []) = some found := by rwa [List.append_nil]
      have own := flatEnd_of_find? (.within whole lastBreak) inside hit same
      rwa [List.append_nil] at own

theorem endFrom?_of_break {needle : Needle} (nonempty : needle.text ≠ [])
    (noReturn : '\r' ∉ needle.text) {before line rest : Text} {caret : Position}
    (reached : Reached before caret) (inside : '\n' ∉ line) :
    endFrom? (ofText (before ++ (line ++ '\n' :: rest))) needle caret =
      match needle.find? line with
      | some found => some ⟨caret.line,caret.column - 1 + found + needle.width + 1⟩
      | none => endFrom? (ofText (before ++ (line ++ '\n' :: rest))) needle ⟨caret.line + 1,1⟩ := by
  cases reached with
  | @within count front last whole lastBreak =>
    have here := line?_of_wholeLines whole (last ++ line ++ '\n' :: rest) 0
    rw [Text.lines_append_break (by simp [lastBreak,inside]),List.append_assoc last,
      ← List.append_assoc front] at here
    rw [endFrom?_of_line here,Nat.add_sub_cancel,bind_find?_dropReturn nonempty noReturn]

/-- An end below a line break is the next one if the line before it has none. -/
theorem FlatEnd.below {needle : Needle} {before line rest : Text} {stop? : Option Position}
    (ends : FlatEnd needle (before ++ line ++ ['\n']) rest stop?)
    (found : needle.find? (line ++ '\n' :: rest) =
      (needle.find? rest).map (line.width + '\n'.utf8Size + ·)) :
    FlatEnd needle before (line ++ '\n' :: rest) stop? := by
  rcases ends with ⟨miss,rfl⟩ | ⟨between,after,stop,rfl,hit,reached,rfl⟩
  · exact .inl ⟨by rw [found,miss,Option.map_none],rfl⟩
  · refine .inr ⟨line ++ '\n' :: between,after,stop,by simp,?_,by simpa using reached,rfl⟩
    rw [found,hit]
    simp [Nat.add_assoc]

theorem flatEnd_endFrom? {needle : Needle} (nonempty : needle.text ≠ [])
    (noBreak : '\n' ∉ needle.text) (noReturn : '\r' ∉ needle.text) {before : Text} (suffix : Text)
    {caret : Position} (reached : Reached before caret) :
    FlatEnd needle before suffix (endFrom? (ofText (before ++ suffix)) needle caret) := by
  -- each newline in what follows the caret is one more line to be looked at
  induction size : suffix.length using Nat.strongRecOn generalizing before suffix caret with
  | _ size shorter =>
    subst size
    rcases Text.break_cases suffix with inside | ⟨line,rest,inside,rfl⟩
    · obtain ⟨whole,lastBreak⟩ := reached
      rw [List.append_assoc]
      exact flatEnd_lastLine nonempty whole lastBreak inside
    · have found := Needle.find?_append_cons nonempty noBreak line rest
      rw [endFrom?_of_break nonempty noReturn reached inside]
      cases hit : needle.find? line with
      | some place => exact flatEnd_of_find? reached inside hit (by rw [found,hit,Option.some_or])
      | none =>
        have below := shorter rest.length (by simp; omega) rest (reached.append_line inside) rfl
        have whole : before ++ line ++ ['\n'] ++ rest = before ++ (line ++ '\n' :: rest) := by simp
        rw [whole] at below
        exact below.below (by rw [found,hit,Option.none_or])

/-- The position is that of the end of some beginning of the text. -/
def Names (text : Text) (position : Position) : Prop :=
  ∃ before suffix, text = before ++ suffix ∧ Reached before position

section Flat

variable (needle : Needle) {text : Text} {caret : Position}

theorem names_of_endFrom? (nonempty : needle.text ≠ []) (noBreak : '\n' ∉ needle.text)
    (noReturn : '\r' ∉ needle.text) (named : Names text caret) {stop : Position}
    (found : endFrom? (ofText text) needle caret = some stop) : Names text stop := by
  obtain ⟨before,suffix,rfl,reached⟩ := named
  have ends := flatEnd_endFrom? nonempty noBreak noReturn suffix reached
  rcases ends with
    ⟨_,nowhere⟩ | ⟨between,after,place,rfl,_,end_reached,here⟩
  · rw [nowhere] at found
    contradiction
  · obtain rfl : place = stop := Option.some.inj (here.symm.trans found)
    exact ⟨before ++ between ++ needle.text,after,by simp,end_reached⟩

theorem map_offsetAt_endFrom? (nonempty : needle.text ≠ []) (noBreak : '\n' ∉ needle.text)
    (noReturn : '\r' ∉ needle.text) (named : Names text caret) :
    (endFrom? (ofText text) needle caret).map text.offsetAt =
      Text.endAfter? needle.text (text.offsetAt caret) text := by
  obtain ⟨before,suffix,rfl,reached⟩ := named
  rw [reached.offsetAt_eq,Needle.endAfter?_append nonempty]
  have ends := flatEnd_endFrom? nonempty noBreak noReturn suffix reached
  rcases ends with
    ⟨miss,nowhere⟩ | ⟨between,after,stop,rfl,hit,end_reached,here⟩
  · rw [miss,nowhere,Option.map_none,Option.map_none]
  · have offset := end_reached.offsetAt_eq after
    have whole : before ++ between ++ needle.text ++ after =
        before ++ (between ++ needle.text ++ after) := by simp
    rw [whole] at offset
    rw [hit,here,Option.map_some,Option.map_some,offset,needle.width_eq]
    simp [Nat.add_assoc]

end Flat

end TagOverlay.Document
