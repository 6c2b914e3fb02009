import TagOverlay.Proofs.Buffer.Reading
import TagOverlay.Proofs.Highlight.Sweep

/-! Decorations over spans of a buffer, drawn on one of its lines. A byte of the line is in the segment of a
decoration if its position is in the decoration's span. If the spans do not cross, the background of the
byte is that of the first decoration over it. -/
namespace TagOverlay

/-- The second span begins later. It begins after the first one has ended or ends where that one does. -/
structure Span.Uncrossed (first second : Span) : Prop where
  start : first.start < second.start
  stop : first.stop ≤ second.stop
  apart : first.stop ≤ second.start ∨ first.stop = second.stop

namespace Highlight
open TextBuffer (Cuts line?)

variable {β : Type} [TextBuffer β] {buffer : β} {number byte : Nat} {text : Text} {span : Span}
    {decorations : List Decoration}

/-- Both ends of the span are places of the buffer. -/
structure Placed (buffer : β) (span : Span) : Prop where
  start : ∃ before after, Cuts buffer span.start before after
  stop : ∃ before after, Cuts buffer span.stop before after

/-- The byte of the line that the part of a span begins at, and the one that it stops at. -/
def firstByte (number : Nat) (span : Span) : Nat :=
  if span.start.line = number then span.start.column - 1 else 0

def stopByte (number width : Nat) (span : Span) : Nat :=
  if span.stop.line = number then span.stop.column - 1 else width

theorem isBoundary_of_cuts {place : Position} {before after : Text} (cut : Cuts buffer place before after)
    (here : line? buffer number = some text) (sameLine : place.line = number) :
    text.isBoundary (place.column - 1) := by
  have whole := cut.line
  rw [sameLine,here,Option.some_inj] at whole
  exact Text.isBoundary_iff.mpr ⟨before,after,whole,by rw [cut.column,Nat.add_sub_cancel]⟩

theorem isBoundary_firstByte (placed : Placed buffer span) (here : line? buffer number = some text) :
    text.isBoundary (firstByte number span) := by
  obtain ⟨before,after,cut⟩ := placed.start
  rw [firstByte]
  split
  next sameLine => exact isBoundary_of_cuts cut here sameLine
  next => exact isBoundary_zero (.ofText text)

theorem isBoundary_stopByte (placed : Placed buffer span) (here : line? buffer number = some text) :
    text.isBoundary (stopByte number text.width span) := by
  obtain ⟨before,after,cut⟩ := placed.stop
  rw [stopByte]
  split
  next sameLine => exact isBoundary_of_cuts cut here sameLine
  next =>
    have ends := isBoundary_width (.ofText text)
    rw [Ruler.width_eq] at ends
    exact ends

theorem segment?_eq {decoration : Decoration} (placed : Placed buffer decoration.span)
    (here : line? buffer number = some text) :
    segment? number (.ofText text) decoration =
      if firstByte number decoration.span < stopByte number text.width decoration.span then
        some ⟨firstByte number decoration.span,stopByte number text.width decoration.span,
          decoration.style⟩
      else none := by
  have first := isBoundary_firstByte placed here
  have stop := isBoundary_stopByte placed here
  have width : (Ruler.ofText text).width = text.width := Ruler.width_eq _
  have starts : firstByte number decoration.span ≤ (Ruler.ofText text).width := le_width_of_isBoundary first
  have stops : stopByte number text.width decoration.span ≤ (Ruler.ofText text).width :=
    le_width_of_isBoundary stop
  rw [width] at starts stops
  replace starts := Nat.min_eq_left starts
  replace stops := Nat.min_eq_left stops
  rw [firstByte] at first starts ⊢
  rw [stopByte] at stop stops ⊢
  simp only [segment?,width,starts,stops,Ruler.isBoundary_eq,Ruler.text_ofText,first,stop,and_self,and_true]

theorem eq_of_segment? {decoration : Decoration} (placed : Placed buffer decoration.span)
    (here : line? buffer number = some text) {segment : Segment}
    (cut : segment? number (.ofText text) decoration = some segment) :
    segment = ⟨firstByte number decoration.span,stopByte number text.width decoration.span,
      decoration.style⟩ := by
  rw [segment?_eq placed here] at cut
  exact (Option.some_inj.mp (Option.ite_none_right_eq_some.mp cut).2).symm

theorem meetsLine_iff : span.meetsLine number ↔ span.start.line ≤ number ∧ number ≤ span.stop.line := by
  rw [Span.meetsLine,decide_eq_true_eq]

/-- The byte is between the ends of the part on its line if its position is between the ends of the span. -/
theorem contains_byte_iff (placed : Placed buffer span) (meets : span.meetsLine number)
    (inside : byte < text.width) : span.contains ⟨number,byte + 1⟩ ↔
      firstByte number span ≤ byte ∧ byte < stopByte number text.width span := by
  obtain ⟨_,_,starts⟩ := placed.start
  obtain ⟨_,_,stops⟩ := placed.stop
  have first := starts.column
  have last := stops.column
  rw [meetsLine_iff] at meets
  rw [Span.contains_iff,Position.le_def,Position.lt_def,firstByte,stopByte]
  simp only
  split <;> split <;> omega

theorem any_covers_segment? {decoration : Decoration} (placed : Placed buffer decoration.span)
    (meets : decoration.span.meetsLine number) (here : line? buffer number = some text)
    (inside : byte < text.width) :
    (segment? number (.ofText text) decoration).any (covers byte) =
      decoration.span.contains ⟨number,byte + 1⟩ := by
  apply Bool.eq_iff_iff.mpr
  rw [contains_byte_iff placed meets inside,segment?_eq placed here]
  split
  next => exact covers_iff
  next empty => exact iff_of_false Bool.false_ne_true fun covered => by omega

/-- On one line too, spans that do not cross begin and stop in order and are apart or stop together. -/
theorem uncrossed_bytes {first second : Span} (uncrossed : first.Uncrossed second)
    (meets : first.meetsLine number) (alsoMeets : second.meetsLine number) {width : Nat}
    (within : stopByte number width first ≤ width) :
    firstByte number first ≤ firstByte number second ∧
      stopByte number width first ≤ stopByte number width second ∧
      (stopByte number width first ≤ firstByte number second ∨
        stopByte number width first = stopByte number width second) := by
  obtain ⟨start,stop,apart⟩ := uncrossed
  rw [meetsLine_iff] at meets alsoMeets
  rw [Position.lt_def] at start
  rw [Position.le_def] at stop
  unfold stopByte at within ⊢
  unfold firstByte
  refine ⟨by split <;> split <;> omega,?_,?_⟩
  · by_cases ends : first.stop.line = number
    · rw [if_pos ends] at within ⊢
      split <;> omega
    · exact Nat.le_of_eq ((if_neg ends).trans (if_neg (by omega)).symm)
  · rcases apart with before | same
    · left
      rw [Position.le_def] at before
      rw [if_pos (by omega),if_pos (by omega)]
      omega
    · right
      rw [same]

/-- The segments come in the order in which they are drawn, each after an earlier one or inside it. -/
theorem pairwise_segments (here : line? buffer number = some text)
    (placed : ∀ decoration ∈ decorations, Placed buffer decoration.span)
    (meets : ∀ decoration ∈ decorations, decoration.span.meetsLine number)
    (uncrossed : decorations.Pairwise fun first second => first.span.Uncrossed second.span) :
    (decorations.filterMap (segment? number (.ofText text))).Pairwise fun left right =>
      (left.start < right.start ∨ left.start = right.start ∧ left.stop ≤ right.stop) ∧
        Nests left right := by
  have known := uncrossed.imp_of_mem fun {first second} isFirst isSecond pair =>
    (⟨pair,placed first isFirst,placed second isSecond,meets first isFirst,meets second isSecond⟩ :
      first.span.Uncrossed second.span ∧ Placed buffer first.span ∧ Placed buffer second.span ∧
        first.span.meetsLine number ∧ second.span.meetsLine number)
  apply known.filterMap
  intro first second pair left leftCut right rightCut
  obtain ⟨uncrossed,firstPlaced,secondPlaced,firstMeets,secondMeets⟩ := pair
  obtain rfl := eq_of_segment? firstPlaced here leftCut
  obtain rfl := eq_of_segment? secondPlaced here rightCut
  have within := le_width_of_isBoundary (fits_of_segment? leftCut).stop
  rw [Ruler.width_eq] at within
  obtain ⟨starts,stops,apart⟩ := uncrossed_bytes uncrossed firstMeets secondMeets within
  refine ⟨?_,apart.imp_right fun same => ⟨starts,Nat.le_of_eq same.symm⟩⟩
  rcases Nat.lt_or_eq_of_le starts with less | same
  · exact .inl less
  · exact .inr ⟨same,stops⟩

theorem segmentsOn_eq (here : line? buffer number = some text)
    (placed : ∀ decoration ∈ decorations, Placed buffer decoration.span)
    (meets : ∀ decoration ∈ decorations, decoration.span.meetsLine number)
    (uncrossed : decorations.Pairwise fun first second => first.span.Uncrossed second.span) :
    segmentsOn number (.ofText text) decorations =
      decorations.filterMap (segment? number (.ofText text)) := by
  apply List.mergeSort_of_pairwise
  apply (pairwise_segments here placed meets uncrossed).imp
  intro left right pair
  exact decide_eq_true pair.1

/-- The first segment over a byte is that of the first decoration over its position. -/
theorem find?_segments (here : line? buffer number = some text) (inside : byte < text.width)
    (placed : ∀ decoration ∈ decorations, Placed buffer decoration.span)
    (meets : ∀ decoration ∈ decorations, decoration.span.meetsLine number) :
    ((decorations.filterMap (segment? number (.ofText text))).find? (covers byte)).map
        (fun segment => colorOf segment.style) =
      (decorations.find? fun decoration => decoration.span.contains ⟨number,byte + 1⟩).map
        fun decoration => colorOf decoration.style := by
  induction decorations with
  | nil => rfl
  | cons decoration decorations ih =>
    obtain ⟨herePlaced,placed⟩ := List.forall_mem_cons.mp placed
    obtain ⟨hereMeets,meets⟩ := List.forall_mem_cons.mp meets
    have any := any_covers_segment? herePlaced hereMeets here inside
    rw [List.filterMap_cons,List.find?_cons,← any]
    cases cut : segment? number (.ofText text) decoration with
    | none => exact ih placed meets
    | some segment =>
      obtain rfl := eq_of_segment? herePlaced here cut
      dsimp only [Option.any_some]
      rw [List.find?_cons]
      cases covers byte _ with
      | true => rfl
      | false => exact ih placed meets

theorem find?_onLine (decorations : List Decoration) :
    (Decoration.onLine number decorations).find?
        (fun decoration => decoration.span.contains ⟨number,byte + 1⟩) =
      decorations.find? fun decoration => decoration.span.contains ⟨number,byte + 1⟩ := by
  rw [Decoration.onLine,List.find?_filter]
  congr 1
  funext decoration
  apply Bool.eq_iff_iff.mpr
  rw [decide_eq_true_eq,and_iff_right_iff_imp,Span.contains_iff,meetsLine_iff,Position.le_def,Position.lt_def]
  simp only
  omega

theorem backgroundAt?_line (here : line? buffer number = some text) (inside : byte < text.width)
    (placed : ∀ decoration ∈ decorations, Placed buffer decoration.span)
    (uncrossed : decorations.Pairwise fun first second => first.span.Uncrossed second.span) :
    backgroundAt? (Highlight.line number text (Decoration.onLine number decorations)) byte =
      (decorations.find? fun decoration => decoration.span.contains ⟨number,byte + 1⟩).map
        fun decoration => colorOf decoration.style := by
  have kept : ∀ decoration ∈ Decoration.onLine number decorations, Placed buffer decoration.span :=
    fun decoration member => placed decoration (List.mem_filter.mp member).1
  have meets : ∀ decoration ∈ Decoration.onLine number decorations, decoration.span.meetsLine number :=
    fun decoration member => (List.mem_filter.mp member).2
  have apart : (Decoration.onLine number decorations).Pairwise
      fun first second => first.span.Uncrossed second.span := uncrossed.filter _
  have sorted := segmentsOn_eq here kept meets apart
  have nested := (pairwise_segments here kept meets apart).imp And.right
  have fits := fits_of_mem_segmentsOn number (.ofText text) (Decoration.onLine number decorations)
  have width : (Ruler.ofText text).width = text.width := Ruler.width_eq _
  have swept := backgroundAt?_draw fits (isBoundary_zero (.ofText text)) (Nat.zero_le byte)
    (Nat.lt_of_lt_of_eq inside width.symm)
  rw [sorted] at fits swept
  rw [find?_drawn fits nested (fun _ _ => .inl (Nat.zero_le _)) (Nat.zero_le byte),
    find?_segments here inside kept meets,find?_onLine] at swept
  rw [Highlight.line,sorted]
  exact swept

end Highlight

end TagOverlay
