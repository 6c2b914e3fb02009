import TagOverlay.Buffer.LineList
import TagOverlay.Files.Documents
import TagOverlay.Proofs.Tag.FlatText

/-! A document and the lines that an editor is given for it. The editor's lines keep the returns at
their ends, and an empty one follows a final newline. A literal without returns is found in the same
places of both. -/
namespace TagOverlay

namespace Text

/-- The lines are the stretches between newlines, less their returns and an empty last one. -/
theorem exists_lastLine (text : Text) :
    ∃ front last, splitLines text = front ++ [last] ∧
      lines text = front.map dropReturn ++ if last.isEmpty then [] else [last] := by
  have nonempty : splitLines text ≠ [] := List.splitOn_ne_nil _ _
  refine ⟨_,_,(List.dropLast_append_getLast nonempty).symm,?_⟩
  rw [lines,List.getLast?_eq_some_getLast nonempty,Option.getD_some]

theorem bind_lines {α : Type} {seen : Text → Option α} (nothing : seen [] = none)
    (unreturned : ∀ line, seen (dropReturn line) = seen line) (text : Text) (index : Nat) :
    (lines text)[index]?.bind seen = (splitLines text)[index]?.bind seen := by
  obtain ⟨front,last,split,lines_eq⟩ := exists_lastLine text
  rw [split,lines_eq]
  by_cases inside : index < front.length
  · rw [List.getElem?_append_left (by simpa using inside),List.getElem?_append_left inside,
      List.getElem?_map]
    simp [List.getElem?_eq_getElem inside,unreturned]
  · have outside : front.length ≤ index := Nat.le_of_not_lt inside
    rw [List.getElem?_append_right (by simpa using outside),List.getElem?_append_right outside,
      List.length_map]
    split
    next empty =>
      obtain rfl := List.isEmpty_iff.mp empty
      cases index - front.length <;> simp [nothing]
    next => rfl

theorem flatMap_lines {α : Type} {seen : Text × Nat → List α} (nothing : ∀ number, seen ([],number) = [])
    (unreturned : ∀ line number, seen (dropReturn line,number) = seen (line,number)) (text : Text)
    (number : Nat) :
    ((lines text).zipIdx number).flatMap seen = ((splitLines text).zipIdx number).flatMap seen := by
  obtain ⟨front,last,split,lines_eq⟩ := exists_lastLine text
  rw [split,lines_eq,List.zipIdx_append,List.zipIdx_append,List.flatMap_append,List.flatMap_append,
    List.zipIdx_map,List.flatMap_map,List.length_map]
  congr 1
  · apply List.flatMap_congr
    intro counted _
    exact unreturned counted.1 counted.2
  · split
    next empty =>
      obtain rfl := List.isEmpty_iff.mp empty
      simp [nothing]
    next => rfl

theorem bind_find?_dropReturn {needle : Needle} (nonempty : needle.text ≠ [])
    (noReturn : '\r' ∉ needle.text) (line : Text) (offset : Nat) :
    ((dropReturn line).dropBytes? offset).bind needle.find? =
      (line.dropBytes? offset).bind needle.find? := by
  cases dropped : line.dropBytes? offset with
  | some rest =>
    obtain ⟨head,rfl,rfl⟩ := dropBytes?_eq_some_iff.mp dropped
    exact Document.bind_find?_dropReturn nonempty noReturn head rest
  | none =>
    obtain ⟨ending,split⟩ := exists_append_dropReturn line
    have alsoDropped : (dropReturn line).dropBytes? offset = none := by
      rw [Option.eq_none_iff_forall_ne_some]
      intro rest found
      obtain ⟨head,shorter,filled⟩ := dropBytes?_eq_some_iff.mp found
      have longer : line.dropBytes? offset = some (rest ++ ending) :=
        dropBytes?_eq_some_iff.mpr ⟨head,by rw [split,shorter,List.append_assoc],filled⟩
      rw [dropped] at longer
      contradiction
    rw [alsoDropped]

end Text

namespace TextBuffer

variable {β γ : Type} [TextBuffer β] [TextBuffer γ]

/-- The first place of a literal in the rest of the caret's line. -/
def placeAfter? (buffer : β) (needle : Needle) (caret : Position) : Option Nat :=
  (restAt? buffer caret).bind needle.find?

theorem endFrom?_of_placeAfter? (buffer : β) (needle : Needle) {caret : Position}
    (positive : 0 < caret.line) :
    endFrom? buffer needle caret =
      match placeAfter? buffer needle caret with
      | some found => some ⟨caret.line,caret.column - 1 + found + needle.width + 1⟩
      | none => endFrom? buffer needle ⟨caret.line + 1,1⟩ := by
  rw [placeAfter?,restAt?]
  cases here : line? buffer caret.line with
  | some line => exact endFrom?_of_line here
  | none =>
    have beyond := lineCount_lt_of_no_line positive here
    have below : line? buffer (caret.line + 1) = none := line?_of_lineCount_lt (Nat.lt_succ_of_lt beyond)
    rw [endFrom?_of_no_line here,endFrom?_of_no_line below]
    rfl

/-- Buffers that show a literal in the same places of each line end it at the same positions. -/
theorem endFrom?_congr {left : β} {right : γ} {needle : Needle}
    (same : ∀ caret, placeAfter? left needle caret = placeAfter? right needle caret)
    (caret : Position) : endFrom? left needle caret = endFrom? right needle caret := by
  by_cases zero : caret.line = 0
  · rw [endFrom?_of_no_line (by rw [zero,line?_zero]),endFrom?_of_no_line (by rw [zero,line?_zero])]
  · have positive : 0 < caret.line := Nat.pos_of_ne_zero zero
    clear zero
    -- no line of either buffer is left once the caret is below both
    induction remaining : lineCount left + lineCount right + 1 - caret.line generalizing caret with
    | zero =>
      have leftEnded : line? left caret.line = none := line?_of_lineCount_lt (by omega)
      have rightEnded : line? right caret.line = none := line?_of_lineCount_lt (by omega)
      rw [endFrom?_of_no_line leftEnded,endFrom?_of_no_line rightEnded]
    | succ remaining ih =>
      rw [endFrom?_of_placeAfter? left needle positive,endFrom?_of_placeAfter? right needle positive,same]
      cases placeAfter? right needle caret with
      | some found => rfl
      | none => exact ih ⟨caret.line + 1,1⟩ (Nat.succ_pos _) (by simp only; omega)

end TextBuffer

namespace Documents

theorem load_eq {fs : FileSystem} {folder relative : Text} {loaded : LoadedDocument}
    (found : Documents.load fs folder relative = .ok loaded) :
    loaded = ⟨.ofText loaded.document.text,loaded.document.text.splitLines⟩ := by
  revert found
  unfold Documents.load
  dsimp only
  split
  next =>
    split
    next => exact nofun
    next bytes _ =>
      unfold Document.ofUtf8
      cases Text.ofUtf8 bytes with
      | error fault => exact nofun
      | ok text =>
        intro found
        rw [← Except.ok.inj found]
        rfl
  next => exact nofun

end Documents

namespace Tag
open TextBuffer (placeAfter? restAt? line?_zero line?_succ)

theorem placeAfter?_editor {needle : Needle} (nonempty : needle.text ≠ []) (noReturn : '\r' ∉ needle.text)
    (text : Text) (caret : Position) :
    placeAfter? (Document.ofText text) needle caret =
      placeAfter? (LineList.ofList text.splitLines) needle caret := by
  rw [placeAfter?,placeAfter?,restAt?,restAt?]
  cases caret.line with
  | zero => rw [line?_zero,line?_zero]
  | succ index =>
    rw [line?_succ,line?_succ,Option.bind_assoc,Option.bind_assoc]
    have nothing : (Text.dropBytes? (caret.column - 1) []).bind needle.find? = none := by
      rw [Option.bind_eq_none_iff]
      intro rest found
      obtain ⟨head,empty,_⟩ := Text.dropBytes?_eq_some_iff.mp found
      obtain ⟨_,rfl⟩ := List.nil_eq_append_iff.mp empty
      exact Needle.find?_nil nonempty
    exact Text.bind_lines nothing
      (fun line => Text.bind_find?_dropReturn nonempty noReturn line _) text index

theorem search_editor {name : Text} (unreturned : '\r' ∉ name) (text : Text) (limit : Nat) :
    search (Document.ofText text) name limit = search (LineList.ofList text.splitLines) name limit := by
  have nonempty : (Needle.ofText (opening name)).text ≠ [] := by simp [opening]
  have noReturn : '\r' ∉ (Needle.ofText (opening name)).text := by simp [opening,unreturned]
  have seen : ((Text.lines text).zipIdx 1).flatMap
      (fun counted => matchesOn (.ofText (opening name)) counted.2 counted.1) =
      ((Text.splitLines text).zipIdx 1).flatMap
        (fun counted => matchesOn (.ofText (opening name)) counted.2 counted.1) := by
    apply Text.flatMap_lines
    · intro number
      rw [matchesOn,Needle.places_eq_occurrences nonempty]
      rfl
    · intro line number
      simp only [matchesOn,Needle.places_eq_occurrences nonempty]
      rw [occurrences_dropReturn nonempty noReturn]
  rw [search,search]
  exact congrArg (List.take limit) seen

theorem endOfNext?_editor {literal : Text} (nonempty : literal ≠ []) (noReturn : '\r' ∉ literal)
    (text : Text) (caret : Position) :
    TextBuffer.endOfNext? (Document.ofText text) literal caret =
      TextBuffer.endOfNext? (LineList.ofList text.splitLines) literal caret := by
  apply TextBuffer.endFrom?_congr
  exact placeAfter?_editor nonempty noReturn text

/-- Matches, start tags and closing tags are those in the editor's lines, whatever the span. A loaded
document comes with just these lines. -/
theorem document_agrees_with_editor_lines (text name : Text) (limit : Nat) (span : Span)
    (unreturned : '\r' ∉ name) :
    let document := Document.ofText text
    let editor := LineList.ofList text.splitLines
    search document name limit = search editor name limit ∧
    expand document span = expand editor span ∧
    closingEnd document name span = closingEnd editor name span ∧
    ∀ fs folder relative loaded, Documents.load fs folder relative = .ok loaded →
      loaded.document.text = text → loaded = ⟨document,text.splitLines⟩ := by
  intro document editor
  refine ⟨search_editor unreturned text limit,?_,?_,?_⟩
  · rw [expand,expand,endOfNext?_editor (by simp) (by simp)]
  · have noReturn : '\r' ∉ closing name := by simp [closing,unreturned]
    rw [closingEnd,closingEnd,endOfNext?_editor (by simp [closing]) noReturn]
  · intro fs folder relative loaded found sameText
    rw [Documents.load_eq found,sameText]

/-- The editor's lines have two returns and an empty line that are no part of the document's lines. -/
theorem returns_and_final_newline_hide_nothing :
    let text : Text := ['<','n','\r','\n','>','<','/','n','>','\r','\n']
    let span : Span := ⟨⟨1,1⟩,⟨1,3⟩⟩
    '\r' ∉ ['n'] ∧ text.splitLines = [['<','n','\r'],['>','<','/','n','>','\r'],[]] ∧
      search (LineList.ofList text.splitLines) ['n'] 9 = [⟨span,['<','n']⟩] ∧
      expand (LineList.ofList text.splitLines) span = .ok ⟨⟨1,1⟩,⟨2,2⟩⟩ ∧
      closingEnd (LineList.ofList text.splitLines) ['n'] span = .ok ⟨2,6⟩ := by
  intro text span
  obtain ⟨found,expanded,closed,_⟩ := document_agrees_with_editor_lines text ['n'] 9 span (by decide)
  exact ⟨by decide,by decide,found.symm.trans (by decide),expanded.symm.trans (by decide),
    closed.symm.trans (by decide)⟩

end Tag

end TagOverlay
