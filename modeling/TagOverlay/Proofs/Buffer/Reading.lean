import Mathlib.Tactic.SplitIfs
import TagOverlay.Proofs.Buffer.NextEnd

/-! Reading a buffer from one place to another. The text that is read is the text of the span between
the two places, and what is read up to the next end of a literal ends in the first place of it. -/
namespace TagOverlay.TextBuffer
open Text (FirstPlace)

variable {β : Type} [TextBuffer β]

/-- The place cuts its line into what is before it and what is after it. -/
structure Cuts (buffer : β) (place : Position) (before after : Text) : Prop where
  line : line? buffer place.line = some (before ++ after)
  column : place.column = before.width + 1

inductive Reads (buffer : β) : Position → Text → Position → Prop where
  | within {start : Position} {before part after : Text} (cut : Cuts buffer start before (part ++ after)) :
      Reads buffer start part ⟨start.line,start.column + part.width⟩
  | across {start stop : Position} {before rest text : Text} (cut : Cuts buffer start before rest)
      (below : Reads buffer ⟨start.line + 1,1⟩ text stop) : Reads buffer start (rest ++ '\n' :: text) stop

/-- A literal stands within some line, at the caret or after it in reading order. -/
def StandsFrom (buffer : β) (literal : Text) (caret : Position) : Prop :=
  ∃ place before after, Cuts buffer place before (literal ++ after) ∧ caret ≤ place

/-- The next end of a literal is on the caret's line, or below a rest of the line without the literal. -/
inductive NextEnd (buffer : β) (needle : Needle) : Position → Option Position → Prop where
  | here {caret : Position} {before between after : Text}
      (cut : Cuts buffer caret before (between ++ needle.text ++ after))
      (first : FirstPlace needle.text (between ++ needle.text ++ after) between after) :
      NextEnd buffer needle caret
        (some ⟨caret.line,caret.column + between.width + needle.text.width⟩)
  | later {caret : Position} {before rest : Text} {stop? : Option Position}
      (cut : Cuts buffer caret before rest) (absent : ¬ needle.text <:+: rest)
      (below : NextEnd buffer needle ⟨caret.line + 1,1⟩ stop?) : NextEnd buffer needle caret stop?
  | last {caret : Position} {before rest : Text} (cut : Cuts buffer caret before rest)
      (absent : ¬ needle.text <:+: rest) (finished : line? buffer (caret.line + 1) = none) :
      NextEnd buffer needle caret none

section Cuts

variable {buffer : β} {place : Position} {before after : Text}

theorem cuts_lineStart {number : Nat} {line : Text} (here : line? buffer number = some line) :
    Cuts buffer ⟨number,1⟩ [] line :=
  ⟨here,rfl⟩

theorem Cuts.move {part : Text} (cut : Cuts buffer place before (part ++ after)) :
    Cuts buffer ⟨place.line,place.column + part.width⟩ (before ++ part) after := by
  constructor
  · simpa using cut.line
  · simp only [Text.width_append]
    have := cut.column
    omega

/-- Of two places in a line the later one is in the rest after the earlier one. -/
theorem Cuts.later {other : Position} {before' after' : Text} (cut : Cuts buffer place before after)
    (further : Cuts buffer other before' after') (sameLine : other.line = place.line)
    (le : place.column ≤ other.column) : ∃ part, before' = before ++ part ∧ after = part ++ after' := by
  have line := cut.line
  rw [← sameLine,further.line,Option.some_inj] at line
  have widths : before.width ≤ before'.width := by
    have first := cut.column
    have second := further.column
    omega
  exact Text.prefix_of_width_le rfl line.symm widths

theorem Cuts.unique {before' after' : Text} (cut : Cuts buffer place before after)
    (again : Cuts buffer place before' after') : before' = before ∧ after' = after := by
  obtain ⟨part,rfl,rfl⟩ := cut.later again rfl (Nat.le_refl _)
  have nothing : part = [] := by
    have first := cut.column
    have second := again.column
    rw [Text.width_append] at second
    exact Text.width_eq_zero.mp (by omega)
  simp [nothing]

end Cuts

theorem piece?_of_line {buffer : β} {span : Span} {number : Nat} {line : Text}
    (here : line? buffer number = some line) :
    piece? buffer span number =
      (if number = span.start.line then span.start.offset? else some 0).bind fun first =>
        (if number = span.stop.line then span.stop.offset? else some line.width).bind (line.slice? first) := by
  rw [piece?,here]
  split_ifs <;> rfl

namespace Reads

variable {buffer : β} {start middle stop : Position} {text left right : Text}

theorem cuts_start (reads : Reads buffer start text stop) : ∃ before after, Cuts buffer start before after := by
  cases reads with
  | within cut => exact ⟨_,_,cut⟩
  | across cut below => exact ⟨_,_,cut⟩

theorem cuts_stop (reads : Reads buffer start text stop) : ∃ before after, Cuts buffer stop before after := by
  induction reads with
  | within cut => exact ⟨_,_,cut.move⟩
  | across cut below ih => exact ih

theorem line_le (reads : Reads buffer start text stop) : start.line ≤ stop.line := by
  induction reads with
  | within cut => exact Nat.le_refl _
  | across cut below ih => exact Nat.le_of_succ_le ih

theorem append (first : Reads buffer start left middle) (second : Reads buffer middle right stop) :
    Reads buffer start (left ++ right) stop := by
  induction first with
  | @within start before part after cut =>
    cases second with
    | @within _ before' further after' again =>
      obtain ⟨rfl,rfl⟩ := cut.move.unique again
      have whole : Cuts buffer start before (part ++ right ++ after') := by simpa using cut
      simpa [Nat.add_assoc] using Reads.within whole
    | @across _ _ before' rest text again below =>
      obtain ⟨rfl,rfl⟩ := cut.move.unique again
      simpa using Reads.across cut below
  | across cut below ih => simpa using Reads.across cut (ih second)

theorem firstOffset {first : Position} {before after : Text} (cut : Cuts buffer start before after)
    (fits : first = start ∨ first.line < start.line ∧ start.column = 1) :
    (if start.line = first.line then first.offset? else some 0) = some before.width := by
  have column := cut.column
  rcases fits with rfl | ⟨below,lineStart⟩
  · rw [if_pos rfl,Position.offset?,if_neg (by omega),column,Nat.add_sub_cancel]
  · have nothing : before.width = 0 := by omega
    rw [if_neg (by omega),nothing]

/-- The text is put together from one piece of each line; `first` is where the whole span begins. -/
theorem pieces (reads : Reads buffer start text stop) {first : Position}
    (fits : first = start ∨ first.line < start.line ∧ start.column = 1) :
    ∃ part parts, (List.range' start.line (stop.line + 1 - start.line)).mapM
        (piece? buffer ⟨first,stop⟩) = some (part :: parts) ∧
      Text.joinLines (part :: parts) = text := by
  induction reads with
  | @within start before part after cut =>
    have column := cut.column
    have stops : Position.offset? ⟨start.line,start.column + part.width⟩ =
        some (before.width + part.width) := by
      rw [Position.offset?,if_neg (by simp only; omega)]
      exact congrArg some (by simp only; omega)
    have sliced : (before ++ (part ++ after)).slice? before.width (before.width + part.width) = some part :=
      Text.slice?_eq_some_iff.mpr ⟨before,after,by simp,rfl,by simp⟩
    have piece : piece? buffer ⟨first,⟨start.line,start.column + part.width⟩⟩ start.line = some part := by
      rw [piece?_of_line cut.line,firstOffset cut fits,Option.bind_some,if_pos rfl,stops,Option.bind_some,sliced]
    refine ⟨part,[],?_,by simp [Text.joinLines]⟩
    simp [piece]
  | @across start stop before rest text cut below ih =>
    have le := below.line_le
    simp only at le
    have sliced : (before ++ rest).slice? before.width (before ++ rest).width = some rest :=
      Text.slice?_eq_some_iff.mpr ⟨before,[],by simp,rfl,rfl⟩
    have piece : piece? buffer ⟨first,stop⟩ start.line = some rest := by
      rw [piece?_of_line cut.line,firstOffset cut fits,Option.bind_some,if_neg (by simp only; omega),
        Option.bind_some,sliced]
    have beneath : first.line < start.line + 1 := by
      rcases fits with rfl | ⟨above,_⟩ <;> omega
    obtain ⟨part,parts,found,joined⟩ := ih (.inr ⟨beneath,rfl⟩)
    have lines : stop.line + 1 - start.line = stop.line + 1 - (start.line + 1) + 1 := by omega
    refine ⟨rest,part :: parts,?_,?_⟩
    · rw [lines,List.range'_succ,List.mapM_cons,piece,found]
      rfl
    · rw [← joined,Text.joinLines,List.intercalate_cons_cons]
      simp [Text.joinLines]

/-- What is read between two places is the text of the span between them. -/
theorem textIn?_eq (reads : Reads buffer start text stop) : textIn? buffer ⟨start,stop⟩ = some text := by
  obtain ⟨part,parts,found,joined⟩ := reads.pieces (.inl rfl)
  obtain ⟨before,after,cut⟩ := reads.cuts_stop
  have inside := (le_lineCount cut.line).2
  have ordered := reads.line_le
  rw [textIn?,if_neg (by simp only; omega),if_neg (by simp only; omega),found,← joined]
  rfl

end Reads

section NextEnd

variable {buffer : β} {needle : Needle} {caret : Position} {stop? : Option Position}

theorem endFrom?_of_firstPlace {before between after : Text}
    (cut : Cuts buffer caret before (between ++ needle.text ++ after))
    (first : FirstPlace needle.text (between ++ needle.text ++ after) between after) :
    endFrom? buffer needle caret =
      some ⟨caret.line,caret.column + between.width + needle.text.width⟩ := by
  have column := cut.column
  have dropped : (before ++ (between ++ needle.text ++ after)).dropBytes? (caret.column - 1) =
      some (between ++ needle.text ++ after) :=
    Text.dropBytes?_eq_some_iff.mpr ⟨before,rfl,by omega⟩
  have hit : needle.find? (between ++ needle.text ++ after) = some between.width :=
    Needle.find?_eq_some_iff.mpr ⟨between,after,rfl,first⟩
  rw [endFrom?_of_line cut.line,dropped,Option.bind_some,hit]
  refine congrArg some (congrArg (Position.mk caret.line) ?_)
  rw [needle.width_eq]
  omega

theorem endFrom?_of_absent {before rest : Text} (cut : Cuts buffer caret before rest)
    (absent : ¬ needle.text <:+: rest) :
    endFrom? buffer needle caret = endFrom? buffer needle ⟨caret.line + 1,1⟩ := by
  have dropped : (before ++ rest).dropBytes? (caret.column - 1) = some rest :=
    Text.dropBytes?_eq_some_iff.mpr ⟨before,rfl,by rw [cut.column,Nat.add_sub_cancel]⟩
  rw [endFrom?_of_line cut.line,dropped,Option.bind_some,Needle.find?_eq_none_iff.mpr absent]

theorem nextEnd_endFrom? {before rest : Text} (cut : Cuts buffer caret before rest) :
    NextEnd buffer needle caret (endFrom? buffer needle caret) := by
  induction below : lineCount buffer - caret.line using Nat.strongRecOn generalizing caret before rest with
  | _ size fewer =>
    subst below
    rcases needle.exists_firstPlace rest with absent | ⟨between,after,first⟩
    · rw [endFrom?_of_absent cut absent]
      cases next : line? buffer (caret.line + 1) with
      | none =>
        rw [endFrom?_of_no_line next]
        exact .last cut absent next
      | some line =>
        have inside := (le_lineCount next).2
        exact .later cut absent (fewer _ (by simp only; omega) (cuts_lineStart next) rfl)
    · obtain rfl := first.whole
      rw [endFrom?_of_firstPlace cut first]
      exact .here cut first

theorem StandsFrom.of_le {literal : Text} {earlier : Position} (stands : StandsFrom buffer literal caret)
    (le : earlier ≤ caret) : StandsFrom buffer literal earlier := by
  obtain ⟨place,before,after,cut,further⟩ := stands
  exact ⟨place,before,after,cut,Position.le_trans le further⟩

/-- A literal that is not in the rest of the line can only stand below it. -/
theorem Cuts.below {literal before rest before' after : Text} {place : Position}
    (cut : Cuts buffer caret before rest) (absent : ¬ literal <:+: rest)
    (there : Cuts buffer place before' (literal ++ after)) (le : caret ≤ place) :
    ⟨caret.line + 1,1⟩ ≤ place := by
  have column := there.column
  rcases Position.le_def.mp le with below | ⟨sameLine,further⟩
  · exact Position.le_def.mpr (by simp only; omega)
  · obtain ⟨part,_,rfl⟩ := cut.later there sameLine.symm further
    exact absurd ⟨part,after,by simp⟩ absent

theorem StandsFrom.below {literal before rest : Text} (cut : Cuts buffer caret before rest)
    (absent : ¬ literal <:+: rest) (stands : StandsFrom buffer literal caret) :
    StandsFrom buffer literal ⟨caret.line + 1,1⟩ := by
  obtain ⟨place,before',after,there,le⟩ := stands
  exact ⟨place,before',after,there,cut.below absent there le⟩

theorem not_standsFrom_of_no_line {literal : Text} (positive : 0 < caret.line)
    (finished : line? buffer caret.line = none) : ¬ StandsFrom buffer literal caret := by
  intro ⟨place,before,after,there,le⟩
  have inside := (le_lineCount there.line).2
  have beyond := lineCount_lt_of_no_line positive finished
  rcases Position.le_def.mp le with below | ⟨sameLine,_⟩ <;> omega

theorem NextEnd.isSome_iff (next : NextEnd buffer needle caret stop?) :
    stop?.isSome ↔ StandsFrom buffer needle.text caret := by
  induction next with
  | @here caret before between after cut first =>
    have moved : Cuts buffer ⟨caret.line,caret.column + between.width⟩ (before ++ between)
        (needle.text ++ after) := Cuts.move (by simpa using cut)
    exact iff_of_true rfl ⟨_,_,_,moved,Position.le_def.mpr (by simp)⟩
  | later cut absent below ih =>
    rw [ih]
    constructor
    · intro stands
      exact stands.of_le (Position.le_def.mpr (by simp))
    · exact StandsFrom.below cut absent
  | @last caret before rest cut absent finished =>
    have notBelow : ¬ StandsFrom buffer needle.text ⟨caret.line + 1,1⟩ :=
      not_standsFrom_of_no_line (Nat.succ_pos _) finished
    exact iff_of_false (by simp) fun stands => notBelow (stands.below cut absent)

theorem firstPlace_of_find? {body : Text} (hit : needle.find? (body ++ needle.text) = some body.width) :
    FirstPlace needle.text (body ++ needle.text) body [] := by
  obtain ⟨before,after,same,place⟩ := Needle.find?_eq_some_iff.mp hit
  refine ⟨by simp,?_⟩
  intro earlier later again
  rw [← same]
  exact place.first earlier later again

/-- Up to the next end of a literal a body and the literal are read, and the literal only there. -/
theorem NextEnd.reads {stop : Position} (next : NextEnd buffer needle caret stop?)
    (found : stop? = some stop) :
    ∃ body, Reads buffer caret (body ++ needle.text) stop ∧
      ('\n' ∉ needle.text → FirstPlace needle.text (body ++ needle.text) body []) := by
  induction next with
  | @here caret before between after cut first =>
    obtain rfl := Option.some.inj found
    refine ⟨between,by simpa [Nat.add_assoc] using Reads.within cut,fun _ => ⟨by simp,?_⟩⟩
    intro earlier later again
    exact first.first earlier (later ++ after) (by rw [again]; simp)
  | @later caret before rest stop? cut absent below ih =>
    obtain ⟨body,reads,only⟩ := ih found
    refine ⟨rest ++ '\n' :: body,by simpa using Reads.across cut reads,fun noBreak => ?_⟩
    have nonempty : needle.text ≠ [] := by
      intro empty
      simp [empty] at absent
    have inBody : needle.find? (body ++ needle.text) = some body.width :=
      Needle.find?_eq_some_iff.mpr ⟨body,[],rfl,only noBreak⟩
    have hit : needle.find? (rest ++ '\n' :: (body ++ needle.text)) =
        some (rest ++ '\n' :: body).width := by
      rw [Needle.find?_append_cons nonempty noBreak,Needle.find?_eq_none_iff.mpr absent,inBody]
      simp [Nat.add_assoc]
    exact firstPlace_of_find? (by simpa using hit)
  | last cut absent finished => contradiction

theorem endOfNext?_isSome_iff {literal before rest : Text} (cut : Cuts buffer caret before rest) :
    (endOfNext? buffer literal caret).isSome ↔ StandsFrom buffer literal caret := by
  have next : NextEnd buffer (.ofText literal) caret (endOfNext? buffer literal caret) := nextEnd_endFrom? cut
  exact next.isSome_iff

theorem reads_of_endOfNext? {literal before rest : Text} (cut : Cuts buffer caret before rest)
    {stop : Position} (found : endOfNext? buffer literal caret = some stop) :
    ∃ body, Reads buffer caret (body ++ literal) stop ∧
      ('\n' ∉ literal → FirstPlace literal (body ++ literal) body []) := by
  have next : NextEnd buffer (.ofText literal) caret (endOfNext? buffer literal caret) := nextEnd_endFrom? cut
  exact next.reads found

end NextEnd

end TagOverlay.TextBuffer
