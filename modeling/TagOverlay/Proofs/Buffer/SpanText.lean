import TagOverlay.Proofs.Buffer.Carets
import TagOverlay.Proofs.Text.Breaks

/-! The text of a span as a part of the flat text, which has all lines with a newline between each two. A caret
position names a byte of the flat text, and a span between two of them has what stands there from one byte
to the other, so that texts of adjacent spans add up. -/
namespace TagOverlay

theorem Text.exists_joinLines_append (front : List Text) (line : Text) (below : List Text) :
    ∃ tail, joinLines (front ++ line :: below) = (front.flatMap (· ++ ['\n'])) ++ line ++ tail := by
  induction front with
  | nil =>
    cases below with
    | nil => exact ⟨[],by simp [joinLines]⟩
    | cons next below => exact ⟨_,joinLines_cons line (List.cons_ne_nil next below)⟩
  | cons first front ih =>
    obtain ⟨tail,joined⟩ := ih
    refine ⟨tail,?_⟩
    rw [List.cons_append,joinLines_cons first (by simp),joined]
    simp

namespace TextBuffer

variable {β : Type} [TextBuffer β] {buffer : β} {place start stop : Position} {number : Nat}
    {before after line text : Text}

def flatText (buffer : β) : Text :=
  Text.joinLines (lines buffer)

/-- The beginning of the flat text, up to the start of a line. -/
def above (buffer : β) (number : Nat) : Text :=
  ((lines buffer).take (number - 1)).flatMap (· ++ ['\n'])

/-- The byte of the flat text that a position names. -/
def flatOffset (buffer : β) (place : Position) : Nat :=
  (above buffer place.line).width + (place.column - 1)

theorem exists_flatText_eq (here : line? buffer number = some line) :
    ∃ tail, flatText buffer = above buffer number ++ line ++ tail := by
  obtain ⟨index,rfl,found⟩ := line?_eq_some_iff.mp here
  obtain ⟨bound,rfl⟩ := List.getElem?_eq_some_iff.mp found
  obtain ⟨tail,joined⟩ := Text.exists_joinLines_append ((lines buffer).take index) (lines buffer)[index]
    ((lines buffer).drop (index + 1))
  rw [← List.drop_eq_getElem_cons bound,List.take_append_drop] at joined
  exact ⟨tail,joined⟩

theorem above_succ (here : line? buffer number = some line) :
    above buffer (number + 1) = above buffer number ++ line ++ ['\n'] := by
  obtain ⟨index,rfl,found⟩ := line?_eq_some_iff.mp here
  simp [above,List.take_add_one,found]

theorem Cuts.flatOffset_eq (cut : Cuts buffer place before after) :
    flatOffset buffer place = (above buffer place.line ++ before).width := by
  rw [flatOffset,cut.column,Nat.add_sub_cancel,Text.width_append]

namespace Reads

/-- What is read stands in the flat text, behind the lines above and the beginning of the first line. -/
theorem exists_flatText_eq (reads : Reads buffer start text stop) :
    ∃ before rest after, Cuts buffer start before rest ∧
      flatText buffer = above buffer start.line ++ before ++ text ++ after ∧
      flatOffset buffer stop = (above buffer start.line ++ before ++ text).width := by
  induction reads with
  | @within start before part after cut =>
    obtain ⟨tail,whole⟩ := TextBuffer.exists_flatText_eq cut.line
    refine ⟨before,part ++ after,after ++ tail,cut,by simpa using whole,?_⟩
    rw [cut.move.flatOffset_eq]
    simp
  | @across start stop before rest text cut below ih =>
    obtain ⟨nothing,_,after,next,whole,ends⟩ := ih
    obtain rfl : nothing = [] := by
      have column : 1 = nothing.width + 1 := next.column
      exact Text.width_eq_zero.mp (by omega)
    rw [above_succ cut.line] at whole ends
    exact ⟨before,rest,after,cut,by simpa using whole,by simpa using ends⟩

theorem slice?_eq (reads : Reads buffer start text stop) :
    (flatText buffer).slice? (flatOffset buffer start) (flatOffset buffer stop) = some text := by
  obtain ⟨before,rest,after,cut,whole,ends⟩ := reads.exists_flatText_eq
  rw [cut.flatOffset_eq,ends,whole]
  exact Text.slice?_eq_some_iff.mpr ⟨_,_,rfl,rfl,rfl⟩

end Reads

theorem text_of_span_is_part_of_flat_text (buffer : β) {start stop : Position} (ordered : start ≤ stop) :
    ((textIn? buffer ⟨start,stop⟩).isSome ↔ IsCaret buffer start ∧ IsCaret buffer stop) ∧
    (∀ text, textIn? buffer ⟨start,stop⟩ = some text →
      (flatText buffer).slice? (flatOffset buffer start) (flatOffset buffer stop) = some text) ∧
    ∀ middle, IsCaret buffer start → IsCaret buffer middle → IsCaret buffer stop →
      start ≤ middle → middle ≤ stop →
      ∃ left right, textIn? buffer ⟨start,middle⟩ = some left ∧ textIn? buffer ⟨middle,stop⟩ = some right ∧
        textIn? buffer ⟨start,stop⟩ = some (left ++ right) := by
  have forward : ¬ stop.line < start.line := by
    rw [Position.le_def] at ordered
    omega
  have readable : (textIn? buffer ⟨start,stop⟩).isSome ↔ IsCaret buffer start ∧ IsCaret buffer stop := by
    rw [isSome_textIn?_iff]
    simp only [forward,ordered,false_or,and_true]
  refine ⟨readable,?_,?_⟩
  · intro text read
    obtain ⟨first,last⟩ := readable.mp (Option.isSome_of_eq_some read)
    obtain ⟨found,reads⟩ := exists_reads first last ordered
    obtain rfl := Option.some_inj.mp (reads.textIn?_eq.symm.trans read)
    exact reads.slice?_eq
  · intro middle first between last opens closes
    obtain ⟨left,earlier⟩ := exists_reads first between opens
    obtain ⟨right,later⟩ := exists_reads between last closes
    exact ⟨left,right,earlier.textIn?_eq,later.textIn?_eq,(earlier.append later).textIn?_eq⟩

/-- A span from behind a character of two bytes over an empty line, cut in two at that line. -/
theorem text_over_empty_line :
    let buffer := LineList.ofList [['é','<'],[],['b','>']]
    let start : Position := ⟨1,3⟩
    let stop : Position := ⟨3,2⟩
    start ≤ stop ∧ IsCaret buffer start ∧ IsCaret buffer ⟨2,1⟩ ∧ IsCaret buffer stop ∧
      textIn? buffer ⟨start,stop⟩ = some ['<','\n','\n','b'] ∧
      (flatText buffer).slice? (flatOffset buffer start) (flatOffset buffer stop) = some ['<','\n','\n','b'] ∧
      ∃ left right, textIn? buffer ⟨start,⟨2,1⟩⟩ = some left ∧ textIn? buffer ⟨⟨2,1⟩,stop⟩ = some right ∧
        textIn? buffer ⟨start,stop⟩ = some (left ++ right) := by
  intro buffer start stop
  have ordered : start ≤ stop := by decide
  have first : IsCaret buffer start := by decide
  have middle : IsCaret buffer ⟨2,1⟩ := by decide
  have last : IsCaret buffer stop := by decide
  have read : textIn? buffer ⟨start,stop⟩ = some ['<','\n','\n','b'] := by decide
  obtain ⟨_,part,sum⟩ := text_of_span_is_part_of_flat_text buffer ordered
  exact ⟨ordered,first,middle,last,read,part _ read,sum _ first middle last (by decide) (by decide)⟩

end TextBuffer

end TagOverlay
