import Mathlib.Tactic.MkIffOfInductiveProp
import TagOverlay.Buffer.LineList
import TagOverlay.Proofs.Buffer.Reading

/-! Caret positions, and which spans have a text. A span that does not begin on a later line than it ends has
one exactly if its ends are caret positions in reading order. The lines of a reversed span are none, so its
text is empty and its ends are never looked at. -/
namespace TagOverlay

theorem Position.offset?_eq_some_iff {position : Position} {bytes : Nat} :
    position.offset? = some bytes ↔ position.column = bytes + 1 := by
  rw [offset?]
  split
  · simp only [reduceCtorEq,false_iff]
    omega
  · rw [Option.some_inj]
    omega

namespace TextBuffer

variable {β : Type} [TextBuffer β] {buffer : β} {place : Position} {span : Span} {text : Text}

/-- The position is on a line of the buffer, where a character begins or the line ends. -/
@[mk_iff]
structure IsCaret (buffer : β) (place : Position) : Prop where
  line : 1 ≤ place.line ∧ place.line ≤ lineCount buffer
  column : 1 ≤ place.column
  boundary : ∀ line ∈ line? buffer place.line,
    place.column - 1 ≤ line.width ∧ line.isBoundary (place.column - 1)

instance : Decidable (IsCaret buffer place) :=
  decidable_of_iff _ (isCaret_iff buffer place).symm

theorem isCaret_iff_cuts : IsCaret buffer place ↔ ∃ before after, Cuts buffer place before after := by
  constructor
  · intro caret
    obtain ⟨line,here⟩ := exists_line caret.line.1 caret.line.2
    obtain ⟨before,after,rfl,width⟩ := Text.isBoundary_iff.mp (caret.boundary line here).2
    have column := caret.column
    exact ⟨before,after,here,by omega⟩
  · intro ⟨before,after,cut⟩
    have column := cut.column
    refine ⟨le_lineCount cut.line,by omega,?_⟩
    intro line here
    obtain rfl := Option.some_inj.mp (cut.line.symm.trans here)
    rw [column,Nat.add_sub_cancel]
    exact ⟨by simp,Text.isBoundary_iff.mpr ⟨before,after,rfl,rfl⟩⟩

/-- A piece that can be read lies within its line and keeps to the ends of the span. -/
theorem exists_of_piece? {number : Nat} {part : Text} (read : piece? buffer span number = some part) :
    ∃ before after, line? buffer number = some (before ++ part ++ after) ∧
      (number = span.start.line → span.start.column = before.width + 1) ∧
      (number = span.stop.line → span.stop.column = (before ++ part).width + 1) := by
  cases here : line? buffer number with
  | none =>
    rw [piece?,here] at read
    contradiction
  | some line =>
    simp only [piece?_of_line here,Option.bind_eq_some_iff] at read
    obtain ⟨first,starts,last,stops,sliced⟩ := read
    obtain ⟨before,after,rfl,rfl,rfl⟩ := Text.slice?_eq_some_iff.mp sliced
    refine ⟨before,after,rfl,?_,?_⟩
    · intro opens
      rw [if_pos opens] at starts
      exact Position.offset?_eq_some_iff.mp starts
    · intro closes
      rw [if_pos closes] at stops
      exact Position.offset?_eq_some_iff.mp stops

theorem exists_of_mem_mapM {α γ : Type} {read : α → Option γ} {items : List α} {values : List γ} {item : α}
    (mapped : items.mapM read = some values) (member : item ∈ items) : ∃ value, read item = some value := by
  induction items generalizing values with
  | nil => contradiction
  | cons first rest ih =>
    simp only [List.mapM_cons,Option.bind_eq_bind,Option.bind_eq_some_iff] at mapped
    obtain ⟨value,head,others,tail,_⟩ := mapped
    rcases List.mem_cons.mp member with rfl | inside
    · exact ⟨value,head⟩
    · exact ih tail inside

theorem exists_piece {number : Nat} (read : textIn? buffer span = some text)
    (first : span.start.line ≤ number) (last : number ≤ span.stop.line) :
    ∃ part, piece? buffer span number = some part := by
  rw [textIn?,if_neg (by omega)] at read
  split at read
  next => contradiction
  next =>
    obtain ⟨parts,mapped,_⟩ := Option.map_eq_some_iff.mp read
    exact exists_of_mem_mapM mapped (List.mem_range'_1.mpr (by omega))

theorem isCaret_of_textIn? (forward : span.start.line ≤ span.stop.line)
    (read : textIn? buffer span = some text) :
    IsCaret buffer span.start ∧ IsCaret buffer span.stop ∧ span.start ≤ span.stop := by
  obtain ⟨first,opening⟩ := exists_piece read (Nat.le_refl _) forward
  obtain ⟨last,closing⟩ := exists_piece read forward (Nat.le_refl _)
  obtain ⟨before,after,here,starts,sameLine⟩ := exists_of_piece? opening
  obtain ⟨before',after',there,_,stops⟩ := exists_of_piece? closing
  have start : Cuts buffer span.start before (first ++ after) := ⟨by simpa using here,starts rfl⟩
  have stop : Cuts buffer span.stop (before' ++ last) after' := ⟨there,stops rfl⟩
  refine ⟨isCaret_iff_cuts.mpr ⟨_,_,start⟩,isCaret_iff_cuts.mpr ⟨_,_,stop⟩,?_⟩
  rcases Nat.lt_or_eq_of_le forward with below | same
  · exact .inl below
  · have column := sameLine same
    rw [Text.width_append] at column
    exact .inr ⟨same,by rw [starts rfl,column]; omega⟩

theorem exists_reads {start stop : Position} (first : IsCaret buffer start) (last : IsCaret buffer stop)
    (ordered : start ≤ stop) : ∃ text, Reads buffer start text stop := by
  obtain ⟨before',after',there⟩ := isCaret_iff_cuts.mp last
  induction lines : stop.line - start.line generalizing start with
  | zero =>
    obtain ⟨before,after,cut⟩ := isCaret_iff_cuts.mp first
    rcases Position.le_def.mp ordered with below | ⟨sameLine,further⟩
    · omega
    · obtain ⟨part,rfl,rfl⟩ := cut.later there sameLine.symm further
      have ends : stop = ⟨start.line,start.column + part.width⟩ := by
        have column := cut.column
        have column' := there.column
        rw [Text.width_append] at column'
        obtain ⟨line,column⟩ := stop
        simp only [Position.mk.injEq] at *
        omega
      rw [ends]
      exact ⟨part,.within cut⟩
  | succ count ih =>
    obtain ⟨before,rest,cut⟩ := isCaret_iff_cuts.mp first
    have inside := last.line.2
    obtain ⟨line,next⟩ : ∃ line, line? buffer (start.line + 1) = some line :=
      exists_line (by omega) (by omega)
    have below : IsCaret buffer ⟨start.line + 1,1⟩ := isCaret_iff_cuts.mpr ⟨_,_,cuts_lineStart next⟩
    have onward : ⟨start.line + 1,1⟩ ≤ stop := by
      have column := last.column
      rw [Position.le_def]
      simp only
      omega
    obtain ⟨text,reads⟩ := ih below onward (by simp only; omega)
    exact ⟨_,.across cut reads⟩

theorem isSome_textIn?_iff : (textIn? buffer span).isSome ↔
    span.stop.line < span.start.line ∨
      IsCaret buffer span.start ∧ IsCaret buffer span.stop ∧ span.start ≤ span.stop := by
  constructor
  · intro found
    obtain ⟨text,read⟩ := Option.isSome_iff_exists.mp found
    rcases Nat.lt_or_ge span.stop.line span.start.line with reversed | forward
    · exact .inl reversed
    · exact .inr (isCaret_of_textIn? forward read)
  · rintro (reversed | ⟨first,last,ordered⟩)
    · rw [textIn?,if_pos reversed]
      rfl
    · obtain ⟨text,reads⟩ := exists_reads first last ordered
      exact Option.isSome_of_eq_some reads.textIn?_eq

/-- A span with an end outside the buffer has no text, unless it is reversed: then its text is empty. -/
theorem text_of_span_reaching_outside (buffer : β) (span : Span)
    (outside : ¬ IsCaret buffer span.start ∨ ¬ IsCaret buffer span.stop) :
    textIn? buffer span = if span.stop.line < span.start.line then some [] else none := by
  split
  next reversed => rw [textIn?,if_pos reversed]
  next forward =>
    rw [← Option.not_isSome_iff_eq_none,isSome_textIn?_iff]
    rintro (reversed | ⟨first,last,_⟩)
    · exact forward reversed
    · exact outside.elim (· first) (· last)

/-- One end splits a character, the other is on no line. -/
theorem no_text_from_inside_a_character :
    let buffer := LineList.ofList [['é','>'],[]]
    let span : Span := ⟨⟨1,2⟩,⟨3,1⟩⟩
    ¬ IsCaret buffer span.start ∧ ¬ IsCaret buffer span.stop ∧ textIn? buffer span = none := by
  intro buffer span
  have inside : ¬ IsCaret buffer span.start := by decide
  exact ⟨inside,by decide,text_of_span_reaching_outside buffer span (.inl inside)⟩

/-- Both ends are outside the buffer, on lines that do not exist. -/
theorem reversed_span_outside_has_text :
    let buffer := LineList.ofList [['<','a','>']]
    let span : Span := ⟨⟨3,1⟩,⟨2,9⟩⟩
    ¬ IsCaret buffer span.start ∧ ¬ IsCaret buffer span.stop ∧ textIn? buffer span = some [] := by
  decide

end TextBuffer

end TagOverlay
