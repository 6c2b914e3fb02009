import TagOverlay.Buffer.LineList
import TagOverlay.Proofs.Buffer.Carets
import TagOverlay.Proofs.Buffer.Nearest
import TagOverlay.Tag.Extent

/-! Where an element ends. The closing tag that counts is the nearest one of the name from the end of the start
tag on: one that begins before that end, or that is broken over two lines, is not seen. The element has no end
exactly if no closing tag counts. -/
namespace TagOverlay.Tag
open TextBuffer (IsCaret Nearest StandsFrom isCaret_iff_cuts endOfNext? endOfNext?_eq_some_iff
  endOfNext?_eq_none_iff line?)

variable {β : Type} [TextBuffer β] {buffer : β} {name : Text} {startTag : Span}

theorem closingEnd_eq_ok_iff {stop : Position} :
    closingEnd buffer name startTag = .ok stop ↔
      endOfNext? buffer (closing name) startTag.stop = some stop := by
  rw [closingEnd]
  cases endOfNext? buffer (closing name) startTag.stop <;> simp

theorem closingEnd_eq_error_iff {error : TagError} :
    closingEnd buffer name startTag = .error error ↔
      endOfNext? buffer (closing name) startTag.stop = none ∧ error = .unclosed name startTag.stop.line := by
  rw [closingEnd]
  cases endOfNext? buffer (closing name) startTag.stop <;> simp [eq_comm]

theorem closing_end_behind_nearest (buffer : β) (name : Text) (startTag : Span)
    (caret : IsCaret buffer startTag.stop) :
    (∀ stop, closingEnd buffer name startTag = .ok stop ↔
      ∃ place, Nearest buffer (closing name) startTag.stop place ∧
        stop = ⟨place.line,place.column + (closing name).width⟩) ∧
    (∀ stop, closingEnd buffer name startTag = .ok stop →
      ∃ before after, line? buffer stop.line = some (before ++ closing name ++ after) ∧
        stop.column = (before ++ closing name).width + 1) ∧
    ∀ error, closingEnd buffer name startTag = .error error ↔
      ¬ StandsFrom buffer (closing name) startTag.stop ∧ error = .unclosed name startTag.stop.line := by
  obtain ⟨_,_,cut⟩ := isCaret_iff_cuts.mp caret
  have found (stop : Position) : closingEnd buffer name startTag = .ok stop ↔ _ :=
    closingEnd_eq_ok_iff.trans (endOfNext?_eq_some_iff cut)
  refine ⟨found,?_,?_⟩
  · intro stop closed
    obtain ⟨place,near,rfl⟩ := (found stop).mp closed
    obtain ⟨before,after,ends⟩ := near.stands.cuts_stop
    exact ⟨before,after,ends.line,ends.column⟩
  · intro error
    rw [closingEnd_eq_error_iff,endOfNext?_eq_none_iff cut]

/-- The start tag ends inside a closing tag; a later one is broken over two lines. -/
theorem element_ends_in_second_line :
    let buffer := LineList.ofList [['<','/','a','>','<','/','a'],['>','é','<','/','a','>']]
    let startTag : Span := ⟨⟨1,1⟩,⟨1,3⟩⟩
    let further : Span := ⟨⟨1,1⟩,⟨2,5⟩⟩
    IsCaret buffer startTag.stop ∧ IsCaret buffer further.stop ∧
      closingEnd buffer ['a'] startTag = .ok ⟨2,8⟩ ∧
      Nearest buffer (closing ['a']) startTag.stop ⟨2,4⟩ ∧
      (∃ before after, line? buffer 2 = some (before ++ closing ['a'] ++ after) ∧
        8 = (before ++ closing ['a']).width + 1) ∧
      ¬ StandsFrom buffer (closing ['a']) further.stop ∧
      closingEnd buffer ['a'] further = .error (.unclosed ['a'] 2) := by
  intro buffer startTag further
  have caret : IsCaret buffer startTag.stop := by decide
  have caret' : IsCaret buffer further.stop := by decide
  have closed : closingEnd buffer ['a'] startTag = .ok ⟨2,8⟩ := rfl
  have unclosed : closingEnd buffer ['a'] further = .error (.unclosed ['a'] 2) := rfl
  obtain ⟨found,behind,_⟩ := closing_end_behind_nearest buffer ['a'] startTag caret
  obtain ⟨⟨line,column⟩,near,same⟩ := (found _).mp closed
  obtain ⟨rfl,rfl⟩ : line = 2 ∧ column = 4 := by
    have width : (closing ['a']).width = 4 := rfl
    simp only [width,Position.mk.injEq] at same
    omega
  have nowhere := (((closing_end_behind_nearest buffer ['a'] further caret').2.2 _).mp unclosed).1
  exact ⟨caret,caret',closed,near,behind _ closed,nowhere,unclosed⟩

end TagOverlay.Tag
