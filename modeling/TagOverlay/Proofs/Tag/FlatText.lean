import Mathlib.Data.List.Basic
import TagOverlay.Proofs.Buffer.NextEnd
import TagOverlay.Tag.Extent

/-! Start tags, their ends and their closing tags in a document are those of its flat text. Positions
are compared by the bytes that they name; a name without line breaks is never cut by one. -/
namespace TagOverlay.Tag
open Text (WholeLines Reached occurrences endAfter?)
open Document (Names)

theorem occurrences_dropReturn {needle : Text} (nonempty : needle ≠ []) (noReturn : '\r' ∉ needle)
    (line : Text) : occurrences needle (Text.dropReturn line) = occurrences needle line := by
  rcases Text.dropReturn_cases line with dropped | kept
  · have equal := Text.occurrences_append_cons nonempty noReturn (Text.dropReturn line) []
    rw [← dropped] at equal
    simpa [occurrences,Text.scanAll] using equal.symm
  · rw [kept]

theorem flatMap_lines_occurrences {needle : Text} (nonempty : needle ≠ []) (noBreak : '\n' ∉ needle)
    (noReturn : '\r' ∉ needle) (text : Text) (number : Nat) :
    ((text.lines.zipIdx number).flatMap fun counted =>
      (occurrences needle counted.1).map (text.lineOffset (counted.2 + 1 - number) + ·)) =
      occurrences needle text := by
  induction size : text.length using Nat.strongRecOn generalizing text number with
  | _ size shorter =>
    subst size
    rcases Text.break_cases text with inside | ⟨line,rest,inside,rfl⟩
    · rw [Text.lines_of_not_mem inside]
      split
      next empty =>
        obtain rfl := List.isEmpty_iff.mp empty
        rfl
      next => simp [Text.lineOffset_one]
    · have first : number + 1 - number = 1 := Nat.add_sub_cancel_left ..
      have below := shorter rest.length (by simp; omega) rest (number + 1) rfl
      rw [Text.lines_append_break inside,List.zipIdx_cons,List.flatMap_cons,first,
        Text.occurrences_append_cons nonempty noBreak,Text.lineOffset_one,
        occurrences_dropReturn nonempty noReturn,← below,List.map_flatMap]
      congr 1
      · simp
      · apply List.flatMap_congr
        intro counted member
        have bound := List.le_snd_of_mem_zipIdx member
        obtain ⟨further,equal⟩ : ∃ further, counted.2 = number + 1 + further :=
          ⟨counted.2 - (number + 1),by omega⟩
        have longer : counted.2 + 1 - number = further + 2 := by omega
        have shorter : counted.2 + 1 - (number + 1) = further + 1 := by omega
        rw [longer,shorter,Text.lineOffset_append_break inside,List.map_map]
        apply List.map_congr_left
        intro offset _
        exact Nat.add_assoc _ _ _

theorem map_offsetAt_search {text name : Text} (unbroken : '\n' ∉ name) (unreturned : '\r' ∉ name)
    (limit : Nat) :
    (search (Document.ofText text) name limit).map
        (fun found => (text.offsetAt found.span.start,text.offsetAt found.span.stop)) =
      ((occurrences (opening name) text).map
        fun offset => (offset,offset + (opening name).width)).take limit := by
  have noBreak : '\n' ∉ opening name := by simp [opening,unbroken]
  have noReturn : '\r' ∉ opening name := by simp [opening,unreturned]
  have nonempty : opening name ≠ [] := by simp [opening]
  rw [search,List.map_take,List.map_flatMap,
    ← flatMap_lines_occurrences nonempty noBreak noReturn text 1,List.map_flatMap]
  congr 1
  apply List.flatMap_congr
  intro counted _
  change (matchesOn (.ofText (opening name)) counted.2 counted.1).map _ = _
  rw [matchesOn,Needle.places_eq_occurrences nonempty,List.map_map,List.map_map]
  apply List.map_congr_left
  intro offset _
  simp [Text.offsetAt,(Needle.ofText (opening name)).width_eq,Nat.add_assoc]

theorem names_stop_of_mem_search {text name : Text} {limit : Nat} {found : TagMatch}
    (member : found ∈ search (Document.ofText text) name limit) : Names text found.span.stop := by
  have nonempty : (Needle.ofText (opening name)).text ≠ [] := by simp [opening]
  obtain ⟨⟨line,number⟩,counted,onLine⟩ := List.mem_flatMap.mp (List.mem_of_mem_take member)
  obtain ⟨offset,place,rfl⟩ := List.mem_map.mp onLine
  obtain ⟨bound,here⟩ := List.mk_mem_zipIdx_iff_le_and_getElem?_sub.mp counted
  obtain ⟨index,rfl⟩ : ∃ index, number = index + 1 := ⟨number - 1,by omega⟩
  obtain ⟨front,rest,rfl,whole,inside⟩ := Text.exists_wholeLines here
  obtain ⟨before,after,rfl,rfl⟩ := Needle.exists_of_mem_places nonempty place
  have clean : '\n' ∉ before ++ opening name := by
    simp only [List.mem_append,not_or,Needle.text_ofText] at inside ⊢
    exact inside.1
  refine ⟨front ++ (before ++ opening name),after ++ rest,by simp,?_⟩
  have reached := Reached.within whole clean
  rw [Text.width_append,← Needle.text_ofText (opening name),← Needle.width_eq] at reached
  exact reached

theorem toOption_ended (beginning : Span) (stop? : Option Position) :
    (ended beginning stop?).toOption = stop?.map beginning.withStop := by
  cases stop? with
  | none => rfl
  | some stop => rfl

theorem toOption_closingEnd {β : Type} [TextBuffer β] (buffer : β) (name : Text) (startTag : Span) :
    (closingEnd buffer name startTag).toOption =
      TextBuffer.endOfNext? buffer (closing name) startTag.stop := by
  rw [closingEnd]
  cases TextBuffer.endOfNext? buffer (closing name) startTag.stop with
  | none => rfl
  | some stop => rfl

/-- Search, expansion and closing tags in a document agree with plain scans of its text. The matches
are those of the scan up to the limit, each start tag ends just after the next `>`, and each element
just after the next closing tag; if there is none, the answer is an error. -/
theorem document_agrees_with_flat_text (text name : Text) (limit : Nat) (unbroken : '\n' ∉ name)
    (unreturned : '\r' ∉ name) :
    (search (Document.ofText text) name limit).map
        (fun found => (text.offsetAt found.span.start,text.offsetAt found.span.stop)) =
      ((occurrences (opening name) text).map
        fun offset => (offset,offset + (opening name).width)).take limit ∧
    ∀ found ∈ search (Document.ofText text) name limit,
      (expand (Document.ofText text) found.span).toOption.map
          (fun startTag => (startTag.start,text.offsetAt startTag.stop)) =
        (endAfter? ['>'] (text.offsetAt found.span.stop) text).map (found.span.start,·) ∧
      ∀ startTag, expand (Document.ofText text) found.span = .ok startTag →
        (closingEnd (Document.ofText text) name startTag).toOption.map text.offsetAt =
          endAfter? (closing name) (text.offsetAt startTag.stop) text := by
  refine ⟨map_offsetAt_search unbroken unreturned limit,?_⟩
  intro found member
  have named := names_stop_of_mem_search member
  have ends := Document.map_offsetAt_endFrom? (.ofText ['>']) (by simp) (by simp) (by simp) named
  constructor
  · rw [Needle.text_ofText] at ends
    rw [expand,toOption_ended,Option.map_map,← ends,Option.map_map]
    rfl
  · intro startTag expanded
    have stops : TextBuffer.endOfNext? (Document.ofText text) ['>'] found.span.stop = some startTag.stop := by
      have expanded := congrArg Except.toOption expanded
      rw [expand,toOption_ended] at expanded
      obtain ⟨stop,here,rfl⟩ := Option.map_eq_some_iff.mp expanded
      exact here
    have named := Document.names_of_endFrom? (.ofText ['>']) (by simp) (by simp) (by simp) named stops
    have closes := Document.map_offsetAt_endFrom? (.ofText (closing name)) (by simp [closing])
      (by simp [closing,unbroken]) (by simp [closing,unreturned]) named
    rw [toOption_closingEnd]
    exact closes

/-- A start tag over two lines with returns at their ends, after a character of two bytes. -/
theorem wrapped_tag_agrees_with_flat_text :
    let text : Text := ['é','<','n','\r','\n','a','>','x','<','/','n','>','\r','\n']
    '\n' ∉ ['n'] ∧ '\r' ∉ ['n'] ∧
      (search (Document.ofText text) ['n'] 9).map
          (fun found => (text.offsetAt found.span.start,text.offsetAt found.span.stop)) = [(2,4)] ∧
      (expand (Document.ofText text) ⟨⟨1,3⟩,⟨1,5⟩⟩).toOption.map
          (fun startTag => (startTag.start,text.offsetAt startTag.stop)) = some (⟨1,3⟩,8) ∧
      (closingEnd (Document.ofText text) ['n'] ⟨⟨1,3⟩,⟨2,3⟩⟩).toOption.map text.offsetAt = some 13 := by
  intro text
  have agrees := document_agrees_with_flat_text text ['n'] 9 (by decide) (by decide)
  have member : ⟨⟨⟨1,3⟩,⟨1,5⟩⟩,['<','n']⟩ ∈ search (Document.ofText text) ['n'] 9 := by decide
  obtain ⟨expanded,closed⟩ := agrees.2 _ member
  exact ⟨by decide,by decide,agrees.1.trans (by decide),expanded.trans (by decide),
    (closed _ (by decide)).trans (by decide)⟩

end TagOverlay.Tag
