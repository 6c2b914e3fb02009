import TagOverlay.Buffer.Basic

/-! Looking for a literal from many places of a buffer. What was found from one place is used for
the next one, so places in reading order are all served while the buffer is read once. Main
statement: each place gets what it would get alone (`endsOfNext?_eq`). -/
namespace TagOverlay.TextBuffer

variable {β : Type} [TextBuffer β]

/-- The rest of the line from a place on. -/
def restAt? (buffer : β) (place : Position) : Option Text :=
  (line? buffer place.line).bind fun line => line.dropBytes? (place.column - 1)

/-- What can be seen from a place: the rest of its line, and the end of the next literal. -/
structure Outlook where
  place : Position
  rest : Text
  stop? : Option Position

namespace Outlook

/-- Whether the next literal from this place on is also the next one from `caret` on. -/
def covers (outlook : Outlook) (width : Nat) (caret : Position) : Bool :=
  decide (outlook.place ≤ caret) &&
    match outlook.stop? with
    | none => true
    | some stop =>
        caret.line < stop.line || (caret.line = stop.line && caret.column + width ≤ stop.column)

/-- The rest of the line from `caret` on, read off the outlook if it is on the same line. -/
def restAt? (buffer : β) (outlook : Outlook) (caret : Position) : Option Text :=
  if outlook.place.line = caret.line ∧ outlook.place.column ≤ caret.column then
    outlook.rest.dropBytes? ((caret.column - 1) - (outlook.place.column - 1))
  else TextBuffer.restAt? buffer caret

end Outlook

/-- The end of the next literal from `caret` on, where `rest` is the rest of its line. -/
def endInRest? (buffer : β) (needle : Needle) (caret : Position) (rest : Text) : Option Position :=
  match needle.find? rest with
  | some found => some ⟨caret.line,caret.column - 1 + found + needle.width + 1⟩
  | none => seek? buffer needle (lineCount buffer - caret.line) (caret.line + 1) 0

/-- The outlook from `caret`, taken from the one before as far as that goes. There is none from a
place that is no place of the buffer. -/
def outlook? (buffer : β) (needle : Needle) (known? : Option Outlook) (caret : Position) :
    Option Outlook :=
  match known? with
  | none =>
      (restAt? buffer caret).map fun rest => ⟨caret,rest,endInRest? buffer needle caret rest⟩
  | some known =>
      (known.restAt? buffer caret).map fun rest =>
        ⟨caret,rest,
          if known.covers needle.width caret then known.stop?
          else endInRest? buffer needle caret rest⟩

/-- Collects into `found` what is found from each of the places. -/
def endsOfNext?.go (buffer : β) (needle : Needle) :
    (known? : Option Outlook) → (found : Array (Option Position)) → List Position →
      Array (Option Position)
  | _,found,[] => found
  | known?,found,caret :: carets =>
      match outlook? buffer needle known? caret with
      | some known => go buffer needle (some known) (found.push known.stop?) carets
      | none =>
          go buffer needle known? (found.push (endFrom? buffer needle caret)) carets

/-- For each place the position just after the next place of a literal, within one line. -/
def endsOfNext? (buffer : β) (literal : Text) (carets : List Position) : List (Option Position) :=
  (endsOfNext?.go buffer (.ofText literal) none #[] carets).toList

theorem le_lineCount {buffer : β} {number : Nat} {line : Text}
    (found : line? buffer number = some line) : 0 < number ∧ number ≤ lineCount buffer := by
  cases number with
  | zero => rw [line?_zero] at found; exact absurd found nofun
  | succ index =>
    rw [line?_succ] at found
    have := (List.getElem?_eq_some_iff.1 found).1
    rw [length_lines] at this
    omega

theorem exists_line {buffer : β} {number : Nat} (positive : 0 < number)
    (le : number ≤ lineCount buffer) : ∃ line, line? buffer number = some line := by
  obtain ⟨index,rfl⟩ : ∃ index, number = index + 1 := ⟨number - 1,by omega⟩
  rw [← length_lines] at le
  exact ⟨_,by rw [line?_succ,List.getElem?_eq_getElem le]⟩

theorem endFrom?_eq_endInRest? {buffer : β} {needle : Needle} {caret : Position} {rest : Text}
    (here : restAt? buffer caret = some rest) :
    endFrom? buffer needle caret = endInRest? buffer needle caret rest := by
  obtain ⟨line,found,dropped⟩ := Option.bind_eq_some_iff.1 here
  have bounds := le_lineCount found
  have count : lineCount buffer + 1 - caret.line = (lineCount buffer - caret.line) + 1 := by omega
  cases hit : needle.find? rest <;>
    simp only [endFrom?,endInRest?,count,seek?,found,dropped,Option.bind_some,hit]

/-- Where the next literal is not on an earlier line, a line further down sees the same. -/
theorem seek?_eq_of_le {buffer : β} {needle : Needle} {number further : Nat}
    (positive : 0 < number) (le : number ≤ further) (bound : further ≤ lineCount buffer)
    {stop? : Option Position}
    (found : seek? buffer needle (lineCount buffer + 1 - number) number 0 = stop?)
    (later : ∀ stop ∈ stop?, further ≤ stop.line) :
    seek? buffer needle (lineCount buffer + 1 - further) further 0 = stop? := by
  induction gap : further - number generalizing number with
  | zero =>
    obtain rfl : number = further := by omega
    exact found
  | succ gap ih =>
    obtain ⟨line,here⟩ := exists_line positive (show number ≤ lineCount buffer by omega)
    obtain ⟨remaining,count⟩ : ∃ less, lineCount buffer + 1 - number = less + 1 :=
      ⟨lineCount buffer - number,by omega⟩
    rw [count,seek?,here] at found
    simp only [Text.dropBytes?_zero,Option.bind_some] at found
    refine ih (show 0 < number + 1 by omega) (by omega) ?_ (by omega)
    rw [show lineCount buffer + 1 - (number + 1) = remaining by omega]
    split at found
    next =>
      have := later _ found.symm
      simp at this
      omega
    next => exact found

namespace Outlook

/-- An outlook tells the truth about its place. -/
structure Valid (buffer : β) (needle : Needle) (outlook : Outlook) : Prop where
  rest_eq : TextBuffer.restAt? buffer outlook.place = some outlook.rest
  stop_eq : endFrom? buffer needle outlook.place = outlook.stop?

theorem Valid.restAt?_eq {buffer : β} {needle : Needle} {known : Outlook}
    (valid : known.Valid buffer needle) (caret : Position) :
    known.restAt? buffer caret = TextBuffer.restAt? buffer caret := by
  rw [restAt?]
  split
  next sameLine =>
    obtain ⟨line,found,dropped⟩ := Option.bind_eq_some_iff.1 valid.rest_eq
    rw [TextBuffer.restAt?,← sameLine.1,found,Option.bind_some,
      ← Text.dropBytes?_add dropped]
    congr 1
    omega
  next => rfl

/-- From a place further on in the line, up to the next literal, the next literal is the same. -/
private theorem Valid.covers_line {buffer : β} {needle : Needle} {known : Outlook}
    (valid : known.Valid buffer needle) {caret : Position} {rest : Text}
    (here : TextBuffer.restAt? buffer caret = some rest) (sameLine : known.place.line = caret.line)
    (further : known.place.column - 1 ≤ caret.column - 1)
    (before : ∀ stop ∈ known.stop?, stop.line = caret.line →
      caret.column + needle.width ≤ stop.column) :
    endFrom? buffer needle caret = known.stop? := by
  obtain ⟨line,found,dropped⟩ := Option.bind_eq_some_iff.1 valid.rest_eq
  obtain ⟨_,foundHere,droppedHere⟩ := Option.bind_eq_some_iff.1 here
  rw [sameLine] at found
  obtain rfl := Option.some.inj (found.symm.trans foundHere)
  have droppedMore : known.rest.dropBytes? ((caret.column - 1) - (known.place.column - 1))
      = some rest := by
    rw [← Text.dropBytes?_add dropped,← droppedHere]
    congr 1
    omega
  have fromKnown := (endFrom?_eq_endInRest? valid.rest_eq).symm.trans valid.stop_eq
  rw [endFrom?_eq_endInRest? here]
  rw [endInRest?] at fromKnown ⊢
  match hit : needle.find? known.rest with
  | some place =>
    rw [hit] at fromKnown
    have bound := before _ fromKnown.symm sameLine
    simp only at bound
    rw [Needle.find?_of_dropBytes? droppedMore hit (by omega),← fromKnown]
    simp only [Option.some.injEq,Position.mk.injEq]
    exact ⟨sameLine.symm,by omega⟩
  | none =>
    rw [hit] at fromKnown
    rw [Needle.find?_eq_none_of_dropBytes? droppedMore hit,← fromKnown,sameLine]

/-- From a place that is covered, the next literal is the same. -/
theorem Valid.covers_eq {buffer : β} {needle : Needle} {known : Outlook}
    (valid : known.Valid buffer needle) {caret : Position} {rest : Text}
    (here : TextBuffer.restAt? buffer caret = some rest)
    (covers : known.covers needle.width caret) : endFrom? buffer needle caret = known.stop? := by
  obtain ⟨le,upTo⟩ := (Bool.and_eq_true _ _).mp covers
  have le : known.place ≤ caret := of_decide_eq_true le
  have ahead (stop : Position) (found : stop ∈ known.stop?) :
      caret.line < stop.line ∨
        (caret.line = stop.line ∧ caret.column + needle.width ≤ stop.column) := by
    rw [Option.mem_def.1 found] at upTo
    simpa using upTo
  have onLine (stop : Position) (found : stop ∈ known.stop?) (sameLine : stop.line = caret.line) :
      caret.column + needle.width ≤ stop.column := by
    have := ahead stop found
    omega
  rcases Position.le_def.1 le with earlier | ⟨sameLine,further⟩
  · obtain ⟨line,found,_⟩ := Option.bind_eq_some_iff.1 here
    have bounds := le_lineCount found
    have below : seek? buffer needle (lineCount buffer + 1 - (known.place.line + 1))
        (known.place.line + 1) 0 = known.stop? := by
      have fromKnown := (endFrom?_eq_endInRest? valid.rest_eq).symm.trans valid.stop_eq
      rw [endInRest?] at fromKnown
      rw [show lineCount buffer + 1 - (known.place.line + 1)
        = lineCount buffer - known.place.line by omega]
      split at fromKnown
      next =>
        have := ahead _ fromKnown.symm
        simp only at this
        omega
      next => exact fromKnown
    have fromLine := seek?_eq_of_le (Nat.succ_pos _) earlier bounds.2 below fun stop found => by
      have := ahead stop found
      omega
    have start : Valid buffer needle ⟨⟨caret.line,1⟩,line,known.stop?⟩ := by
      refine ⟨?_,fromLine⟩
      rw [TextBuffer.restAt?,found]
      exact Text.dropBytes?_zero line
    exact start.covers_line here rfl (Nat.zero_le _) onLine
  · exact valid.covers_line here sameLine (Nat.sub_le_sub_right further 1) onLine

end Outlook

theorem valid_of_outlook? {buffer : β} {needle : Needle} {known? : Option Outlook}
    {caret : Position} {seen : Outlook} (valid : ∀ known ∈ known?, known.Valid buffer needle)
    (looked : outlook? buffer needle known? caret = some seen) :
    seen.place = caret ∧ seen.Valid buffer needle := by
  match known? with
  | none =>
    obtain ⟨rest,here,rfl⟩ := Option.map_eq_some_iff.1 looked
    exact ⟨rfl,here,endFrom?_eq_endInRest? here⟩
  | some known =>
    have valid := valid known rfl
    obtain ⟨rest,here,rfl⟩ := Option.map_eq_some_iff.1 looked
    rw [valid.restAt?_eq] at here
    refine ⟨rfl,here,?_⟩
    split
    next covers => exact valid.covers_eq here covers
    next => exact endFrom?_eq_endInRest? here

private theorem endsOfNext?_go {buffer : β} {needle : Needle} (carets : List Position)
    {known? : Option Outlook} (valid : ∀ known ∈ known?, known.Valid buffer needle)
    (found : Array (Option Position)) :
    (endsOfNext?.go buffer needle known? found carets).toList
      = found.toList ++ carets.map (endFrom? buffer needle) := by
  induction carets generalizing known? found with
  | nil => simp [endsOfNext?.go]
  | cons caret carets ih =>
    rw [endsOfNext?.go]
    split
    next seen looked =>
      obtain ⟨rfl,truth⟩ := valid_of_outlook? valid looked
      rw [ih (by rintro _ ⟨rfl⟩; exact truth)]
      simp [truth.stop_eq]
    next => rw [ih valid]; simp

theorem endsOfNext?_eq (buffer : β) (literal : Text) (carets : List Position) :
    endsOfNext? buffer literal carets = carets.map (endOfNext? buffer literal) := by
  rw [endsOfNext?,endsOfNext?_go carets (by simp)]
  rfl

end TagOverlay.TextBuffer
