import TagOverlay.Buffer.LineList
import TagOverlay.Proofs.Tag.Layout

/-! A search gives the greedy matches. No match is over another one, and an occurrence of the literal that is
passed over is under a match that begins before it. A limit cuts the row of matches off and changes nothing
in what is kept, so up to the last match that is kept no occurrence is lost. -/
namespace TagOverlay

/-- An occurrence of the needle that is no place of the scan begins inside one. -/
theorem Needle.exists_place_over {needle : Needle} (nonempty : needle.text ≠ []) {text before after : Text}
    (occurs : text = before ++ needle.text ++ after) :
    ∃ offset ∈ needle.places text, offset ≤ before.width ∧ before.width < offset + needle.width := by
  induction size : text.length using Nat.strongRecOn generalizing text before with
  | _ size shorter =>
    subst size
    rcases needle.exists_firstPlace text with nowhere | ⟨head,rest,place⟩
    · exact absurd ⟨before,after,occurs.symm⟩ nowhere
    · have first := place.first before after occurs
      rw [places_of_firstPlace nonempty place]
      rcases Nat.lt_or_ge before.width (head.width + needle.width) with inside | behind
      · exact ⟨head.width,List.mem_cons_self,first,inside⟩
      · -- what follows the first place has the occurrence too
        rw [List.append_assoc] at occurs
        obtain ⟨part,rfl,rest_eq⟩ := Text.prefix_of_width_le place.whole occurs (by
          rw [Text.width_append,← needle.width_eq]
          exact behind)
        rw [← List.append_assoc] at rest_eq
        obtain ⟨offset,member,le,lt⟩ := shorter _ (place.length_rest_lt nonempty) rest_eq rfl
        refine ⟨_,List.mem_cons_of_mem _ (List.mem_map_of_mem member),?_,?_⟩
        · rw [Text.width_append _ part]
          omega
        · rw [Text.width_append _ part]
          omega

namespace Tag
open TextBuffer (StandsAt line? mem_zipIdx_lines_iff)

variable {β : Type} [TextBuffer β] {buffer : β} {name : Text} {limit more : Nat} {found : TagMatch}
    {place : Position}

/-- The match is on one line and covers the bytes of the literal there. -/
structure IsPlace (buffer : β) (literal : Text) (found : TagMatch) : Prop where
  text : found.text = literal
  oneLine : found.span.stop.line = found.span.start.line
  column : 1 ≤ found.span.start.column
  covers : ∃ line, line? buffer found.span.start.line = some line ∧
    line.slice? (found.span.start.column - 1) (found.span.stop.column - 1) = some literal

theorem text_of_mem_search (member : found ∈ search buffer name limit) : found.text = opening name := by
  obtain ⟨_,_,onLine⟩ := List.mem_flatMap.mp (List.mem_of_mem_take member)
  obtain ⟨_,_,rfl⟩ := List.mem_map.mp onLine
  exact Needle.text_ofText _

theorem isPlace_of_mem_search (member : found ∈ search buffer name limit) :
    IsPlace buffer (opening name) found := by
  obtain ⟨stop,before,after,cut⟩ := cuts_of_mem_search member
  have column := cut.column
  have bytes : found.span.stop.column - 1 = (before ++ opening name).width := by
    rw [stop,Text.width_append]
    simp only
    omega
  refine ⟨text_of_mem_search member,by rw [stop],by omega,_,cut.line,?_⟩
  rw [bytes,column,Nat.add_sub_cancel]
  exact Text.slice?_eq_some_iff.mpr ⟨before,after,by simp,rfl,rfl⟩

theorem search_eq_take (buffer : β) (name : Text) (le : limit ≤ more) :
    search buffer name limit = (search buffer name more).take limit := by
  rw [search,search,List.take_take,Nat.min_eq_left le]

theorem exists_search_eq (buffer : β) (name : Text) :
    ∃ enough, ∀ limit, enough ≤ limit → search buffer name limit =
      ((TextBuffer.lines buffer).zipIdx 1).flatMap fun counted =>
        matchesOn (.ofText (opening name)) counted.2 counted.1 :=
  ⟨_,fun _ enough => List.take_of_length_le enough⟩

theorem exists_match_over (stands : StandsAt buffer (opening name) place) :
    ∃ enough, ∀ limit, enough ≤ limit → ∃ found ∈ search buffer name limit, found.span.contains place := by
  obtain ⟨before,after,cut⟩ := stands
  obtain ⟨offset,member,le,lt⟩ := Needle.exists_place_over (opening_ne_nil name)
    (List.append_assoc before (opening name) after).symm
  obtain ⟨enough,all⟩ := exists_search_eq buffer name
  refine ⟨enough,fun limit large => ?_⟩
  rw [all limit large]
  refine ⟨_,List.mem_flatMap.mpr ⟨_,mem_zipIdx_lines_iff.mpr cut.line,List.mem_map_of_mem member⟩,?_⟩
  have column := cut.column
  rw [Span.contains_iff]
  exact ⟨.inr ⟨rfl,by simp only; omega⟩,.inr ⟨rfl,by simp only; omega⟩⟩

/-- A limit loses no occurrence before the end of the last match that it keeps. -/
theorem exists_kept_match_over (stands : StandsAt buffer (opening name) place)
    (reached : (search buffer name limit).length < limit ∨
      ∃ last ∈ (search buffer name limit).getLast?, place < last.span.stop) :
    ∃ found ∈ search buffer name limit, found.span.contains place := by
  obtain ⟨enough,all⟩ := exists_match_over stands
  obtain ⟨found,member,isOver⟩ := all (max enough limit) (Nat.le_max_left _ _)
  have ordered := pairwise_search buffer name (max enough limit)
  rw [search_eq_take buffer name (Nat.le_max_right enough limit)] at reached ⊢
  rw [← List.take_append_drop limit (search buffer name (max enough limit))] at member ordered
  rcases List.mem_append.mp member with kept | cutOff
  · exact ⟨found,kept,isOver⟩
  · exfalso
    rcases reached with short | ⟨last,isLast,before⟩
    · have longer := List.length_pos_of_mem cutOff
      rw [List.length_take] at short
      rw [List.length_drop] at longer
      omega
    · have behind := (List.pairwise_append.mp ordered).2.2 last (List.mem_of_getLast? isLast) found cutOff
      have begins := (Span.contains_iff.mp isOver).1
      rw [Position.le_def] at behind begins
      rw [Position.lt_def] at before
      omega

theorem search_is_greedy (buffer : β) (name : Text) (limit : Nat) :
    let found := search buffer name limit
    (∀ one ∈ found, IsPlace buffer (opening name) one) ∧
    (found.Pairwise fun first second =>
      first.span.start < second.span.start ∧ first.span.stop ≤ second.span.start) ∧
    (∀ place, StandsAt buffer (opening name) place →
      (found.length < limit ∨ ∃ last ∈ found.getLast?, place < last.span.stop) →
      ∃ one ∈ found, one.span.contains place) ∧
    found.length ≤ limit ∧
    ∀ more, limit ≤ more → found = (search buffer name more).take limit := by
  refine ⟨fun one => isPlace_of_mem_search,?_,fun place => exists_kept_match_over,List.length_take_le _ _,
    fun more => search_eq_take buffer name⟩
  apply (pairwise_search buffer name limit).imp_of_mem
  intro first second member _ apart
  have opened := start_lt_stop_of_mem_search member
  refine ⟨?_,apart⟩
  rw [Position.lt_def] at opened ⊢
  rw [Position.le_def] at apart
  omega

/-- The literal overlaps itself; the limit keeps one match of two on its line. -/
theorem overlapping_occurrence_is_under_match :
    let buffer := LineList.ofList [['é','<','<','<','<','<'],['<','<']]
    let found := search buffer ['<'] 1
    found.map (·.span) = [⟨⟨1,3⟩,⟨1,5⟩⟩] ∧ StandsAt buffer (opening ['<']) ⟨1,4⟩ ∧
      (∃ one ∈ found, one.span.contains ⟨1,4⟩) ∧
      (search buffer ['<'] 9).map (·.span.start) = [⟨1,3⟩,⟨1,5⟩,⟨2,1⟩] ∧
      found = (search buffer ['<'] 9).take 1 := by
  intro buffer found
  have stands : StandsAt buffer (opening ['<']) ⟨1,4⟩ := ⟨['é','<'],['<','<'],by decide,by decide⟩
  obtain ⟨_,_,covered,_,first⟩ := search_is_greedy buffer ['<'] 1
  have reached : ∃ last ∈ found.getLast?, (⟨1,4⟩ : Position) < last.span.stop := by decide
  exact ⟨by decide,stands,covered _ stands (.inr reached),by decide,first 9 (by decide)⟩

end Tag

end TagOverlay
