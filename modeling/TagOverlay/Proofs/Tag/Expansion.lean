import TagOverlay.Proofs.Buffer.Carets
import TagOverlay.Proofs.Tag.Layout

/-! Expanding a span that ends at a caret position, whether a search has found it or not. It grows to the end of
the nearest `>` in reading order, over any number of lines, and cannot be expanded exactly if there is none. -/
namespace TagOverlay.Tag
open TextBuffer (Cuts IsCaret Nearest StandsFrom textIn? isCaret_iff_cuts endOfNext?_cases endOfNext?_isSome_iff)

theorem expand_reaches_nearest_end {β : Type} [TextBuffer β] (buffer : β) (beginning : Span)
    (caret : IsCaret buffer beginning.stop) :
    (StandsFrom buffer ['>'] beginning.stop →
      ∃ place, Nearest buffer ['>'] beginning.stop place ∧
        expand buffer beginning = .ok ⟨beginning.start,⟨place.line,place.column + 1⟩⟩ ∧
        ∃ body, '>' ∉ body ∧
          textIn? buffer ⟨beginning.stop,⟨place.line,place.column + 1⟩⟩ = some (body ++ ['>'])) ∧
    (¬ StandsFrom buffer ['>'] beginning.stop →
      expand buffer beginning = .error (.malformed beginning.start)) := by
  obtain ⟨_,_,cut⟩ := isCaret_iff_cuts.mp caret
  rcases endOfNext?_cases ['>'] cut with ⟨place,body,near,next,reads,first⟩ | ⟨nowhere,next⟩
  · refine ⟨fun _ => ⟨place,near,?_,body,(first (by decide)).not_mem,reads.textIn?_eq⟩,?_⟩
    · rw [expand,next]
      rfl
    · exact fun nowhere => absurd near.standsFrom nowhere
  · refine ⟨fun stands => absurd stands nowhere,fun _ => ?_⟩
    rw [expand,next]
    rfl

/-- A `>` before the caret does not count, an empty line is passed, and after the last `>` there is none. -/
theorem expansion_over_empty_line :
    let buffer := LineList.ofList [['>','é'],[],['é','>','b','>']]
    IsCaret buffer ⟨1,4⟩ ∧ IsCaret buffer ⟨3,6⟩ ∧
      expand buffer ⟨⟨1,2⟩,⟨1,4⟩⟩ = .ok ⟨⟨1,2⟩,⟨3,4⟩⟩ ∧
      textIn? buffer ⟨⟨1,4⟩,⟨3,4⟩⟩ = some ['\n','\n','é','>'] ∧
      Nearest buffer ['>'] ⟨1,4⟩ ⟨3,3⟩ ∧
      expand buffer ⟨⟨3,4⟩,⟨3,6⟩⟩ = .error (.malformed ⟨3,4⟩) := by
  intro buffer
  have inside : IsCaret buffer ⟨1,4⟩ := by decide
  have atEnd : IsCaret buffer ⟨3,6⟩ := by decide
  have stands : StandsFrom buffer ['>'] ⟨1,4⟩ := ⟨⟨3,3⟩,['é'],['b','>'],⟨rfl,rfl⟩,by decide⟩
  have nowhere : ¬ StandsFrom buffer ['>'] ⟨3,6⟩ := by
    have cut : Cuts buffer ⟨3,6⟩ ['é','>','b','>'] [] := ⟨rfl,rfl⟩
    rw [← endOfNext?_isSome_iff cut]
    decide
  obtain ⟨place,near,expanded,_,_,_⟩ :=
    (expand_reaches_nearest_end buffer ⟨⟨1,2⟩,⟨1,4⟩⟩ inside).1 stands
  have ends : expand buffer ⟨⟨1,2⟩,⟨1,4⟩⟩ = .ok ⟨⟨1,2⟩,⟨3,4⟩⟩ := rfl
  obtain ⟨line,column⟩ := place
  obtain ⟨rfl,rfl⟩ : line = 3 ∧ column = 3 := by
    simpa using expanded.symm.trans ends
  exact ⟨inside,atEnd,ends,by decide,near,
    (expand_reaches_nearest_end buffer ⟨⟨3,4⟩,⟨3,6⟩⟩ atEnd).2 nowhere⟩

end TagOverlay.Tag
