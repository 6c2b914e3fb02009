import TagOverlay.Proofs.Buffer.Reading
import TagOverlay.Tag.Extent

/-! The matches of a search stand in the buffer in reading order, none of them over another. A match
can be expanded if a `>` stands after it, so those that cannot be are the last ones. -/
namespace TagOverlay

theorem Needle.pairwise_places {needle : Needle} (nonempty : needle.text ≠ []) (text : Text) :
    (needle.places text).Pairwise fun first second => first + needle.width ≤ second := by
  induction size : text.length using Nat.strongRecOn generalizing text with
  | _ size shorter =>
    subst size
    rcases needle.exists_firstPlace text with nowhere | ⟨before,after,place⟩
    · rw [places_eq_nil nowhere]
      exact .nil
    · rw [places_of_firstPlace nonempty place]
      have later := shorter _ (place.length_rest_lt nonempty) after rfl
      refine List.pairwise_cons.mpr ⟨?_,List.pairwise_map.mpr (later.imp ?_)⟩
      · intro offset member
        obtain ⟨further,_,rfl⟩ := List.mem_map.mp member
        simp [needle.width_eq]
      · intro first second apart
        omega

theorem Text.FirstPlace.not_mem {c : Char} {before after text : Text} (place : FirstPlace [c] text before after) :
    c ∉ before := by
  intro member
  obtain ⟨earlier,between,rfl⟩ := List.append_of_mem member
  have noLater := place.first earlier (between ++ [c] ++ after) (by simp [place.whole])
  have positive := c.utf8Size_pos
  rw [Text.width_append,Text.width_cons] at noLater
  omega

namespace Tag
open TextBuffer (Cuts Reads StandsFrom mem_zipIdx_lines_iff endOfNext?_isSome_iff reads_of_endOfNext?)

variable {β : Type} [TextBuffer β] {buffer : β} {name : Text} {limit : Nat} {found : TagMatch}

theorem opening_ne_nil (name : Text) : (Needle.ofText (opening name)).text ≠ [] := by
  simp [opening]

theorem cuts_of_mem_search (member : found ∈ search buffer name limit) :
    found.span.stop = ⟨found.span.start.line,found.span.start.column + (opening name).width⟩ ∧
      ∃ before after, Cuts buffer found.span.start before (opening name ++ after) := by
  obtain ⟨⟨line,number⟩,counted,onLine⟩ := List.mem_flatMap.mp (List.mem_of_mem_take member)
  obtain ⟨offset,place,rfl⟩ := List.mem_map.mp onLine
  obtain ⟨before,after,rfl,rfl⟩ := Needle.exists_of_mem_places (opening_ne_nil name) place
  have here := mem_zipIdx_lines_iff.mp counted
  constructor
  · simp [Needle.width_eq]
    omega
  · exact ⟨before,after,by simpa using here,rfl⟩

theorem pairwise_search (buffer : β) (name : Text) (limit : Nat) :
    (search buffer name limit).Pairwise fun first second => first.span.stop ≤ second.span.start := by
  apply List.Pairwise.take
  rw [List.pairwise_flatMap]
  constructor
  · intro counted _
    apply List.pairwise_map.mpr
    apply (Needle.pairwise_places (opening_ne_nil name) counted.1).imp
    intro first second apart
    exact .inr ⟨rfl,Nat.succ_le_succ apart⟩
  · have numbers : ((TextBuffer.lines buffer).zipIdx 1).Pairwise fun first second => first.2 < second.2 := by
      apply List.pairwise_map.mp
      rw [List.zipIdx_map_snd]
      exact List.pairwise_lt_range'
    apply numbers.imp
    intro first second below found here other there
    obtain ⟨_,_,rfl⟩ := List.mem_map.mp here
    obtain ⟨_,_,rfl⟩ := List.mem_map.mp there
    exact .inl below

theorem cuts_stop_of_mem_search (member : found ∈ search buffer name limit) :
    ∃ before after, Cuts buffer found.span.stop before after := by
  obtain ⟨stop,before,after,cut⟩ := cuts_of_mem_search member
  rw [stop]
  exact ⟨_,_,cut.move⟩

theorem expand_cases (member : found ∈ search buffer name limit) :
    StandsFrom buffer ['>'] found.span.stop ∧
        (∃ stop, expand buffer found.span = .ok (found.span.withStop stop)) ∨
      ¬ StandsFrom buffer ['>'] found.span.stop ∧
        expand buffer found.span = .error (.malformed found.span.start) := by
  obtain ⟨before,after,cut⟩ := cuts_stop_of_mem_search member
  rw [← endOfNext?_isSome_iff cut,expand]
  cases TextBuffer.endOfNext? buffer ['>'] found.span.stop with
  | some stop => exact .inl ⟨rfl,stop,rfl⟩
  | none => exact .inr ⟨Bool.false_ne_true,rfl⟩

theorem standsFrom_of_expand (member : found ∈ search buffer name limit) {span : Span}
    (expanded : expand buffer found.span = .ok span) : StandsFrom buffer ['>'] found.span.stop := by
  rcases expand_cases member with ⟨stands,_⟩ | ⟨_,fails⟩
  · exact stands
  · rw [fails] at expanded
    contradiction

theorem endOfNext?_of_expand {beginning span : Span} (expanded : expand buffer beginning = .ok span) :
    ∃ stop, TextBuffer.endOfNext? buffer ['>'] beginning.stop = some stop ∧
      span = beginning.withStop stop := by
  rw [expand] at expanded
  cases next : TextBuffer.endOfNext? buffer ['>'] beginning.stop with
  | none =>
    rw [next] at expanded
    contradiction
  | some stop =>
    rw [next] at expanded
    exact ⟨stop,rfl,(Except.ok.inj expanded).symm⟩

/-- A start tag reads as its opening, and ends in the first `>` that follows. -/
theorem reads_of_expand (member : found ∈ search buffer name limit) {span : Span}
    (expanded : expand buffer found.span = .ok span) :
    ∃ body, '>' ∉ body ∧ Reads buffer span.start (opening name ++ (body ++ ['>'])) span.stop := by
  obtain ⟨stop,before,after,cut⟩ := cuts_of_mem_search member
  have opened : Reads buffer found.span.start (opening name) found.span.stop := by
    rw [stop]
    exact .within cut
  obtain ⟨_,_,ends⟩ := cuts_stop_of_mem_search member
  obtain ⟨last,next,rfl⟩ := endOfNext?_of_expand expanded
  obtain ⟨body,reads,first⟩ := reads_of_endOfNext? ends next
  exact ⟨body,(first (by decide)).not_mem,opened.append reads⟩

/-- If the last match can be expanded, all can: what stands after it stands after each. -/
theorem standsFrom_of_last {literal : Text} (ended : ∀ last ∈ (search buffer name limit).getLast?,
      StandsFrom buffer literal last.span.stop)
    (member : found ∈ search buffer name limit) : StandsFrom buffer literal found.span.stop := by
  have ordered := pairwise_search buffer name limit
  have stops : ∀ other ∈ search buffer name limit, other.span.start ≤ other.span.stop := by
    intro other isMatch
    obtain ⟨stop,_⟩ := cuts_of_mem_search isMatch
    rw [stop]
    exact .inr ⟨rfl,Nat.le_add_right _ _⟩
  rcases List.eq_nil_or_concat (search buffer name limit) with empty | ⟨front,last,whole⟩
  · rw [empty] at member
    contradiction
  · rw [List.concat_eq_append] at whole
    rw [whole] at ended ordered stops member
    have stands := ended last (by simp)
    rcases List.mem_append.mp member with earlier | same
    · have before := (List.pairwise_append.mp ordered).2.2 found earlier last List.mem_cons_self
      exact stands.of_le (Position.le_trans before (stops last (by simp)))
    · obtain rfl := List.mem_singleton.mp same
      exact stands

end Tag

end TagOverlay
