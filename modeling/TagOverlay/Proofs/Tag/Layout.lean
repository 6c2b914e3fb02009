import TagOverlay.Proofs.Buffer.Nearest
import TagOverlay.Proofs.Tag.Matches

/-! How the start tags of one name lie in their buffer. They begin one after the other and end in the same
order. A tag that is not ended before the next one begins runs on to the `>` that ends the next one. -/
namespace TagOverlay.Tag
open TextBuffer (Cuts Nearest StandsAt nearest_of_endOfNext?)

variable {β : Type} [TextBuffer β] {buffer : β} {name : Text} {limit : Nat} {found next : TagMatch}
    {place : Position} {first second : Span}

structure InOrder (name : Text) (first second : Span) : Prop where
  start : first.start < second.start
  stop : first.stop ≤ second.stop
  apart : '>' ∉ name → first.stop ≤ second.start ∨ first.stop = second.stop

theorem start_lt_stop_of_mem_search (member : found ∈ search buffer name limit) :
    found.span.start < found.span.stop := by
  obtain ⟨stop,_⟩ := cuts_of_mem_search member
  have positive : 0 < (opening name).width := Text.width_pos (List.cons_ne_nil _ _)
  rw [stop]
  exact .inr ⟨rfl,Nat.lt_add_of_pos_right positive⟩

theorem nearest_of_expand (member : found ∈ search buffer name limit) {span : Span}
    (expanded : expand buffer found.span = .ok span) :
    span.start = found.span.start ∧
      ∃ place, Nearest buffer ['>'] found.span.stop place ∧ span.stop = ⟨place.line,place.column + 1⟩ := by
  obtain ⟨_,_,cut⟩ := cuts_stop_of_mem_search member
  obtain ⟨stop,ends,rfl⟩ := endOfNext?_of_expand expanded
  exact ⟨rfl,nearest_of_endOfNext? cut ends⟩

theorem start_lt_stop_of_expand (member : found ∈ search buffer name limit) {span : Span}
    (expanded : expand buffer found.span = .ok span) : span.start < span.stop := by
  obtain ⟨start,place,near,stop⟩ := nearest_of_expand member expanded
  have opened := start_lt_stop_of_mem_search member
  have le := near.le
  rw [Position.lt_def] at opened ⊢
  rw [Position.le_def] at le
  rw [start,stop]
  simp only
  omega

/-- Without a `>` in the name, one at or after the start of a match comes after the match. -/
theorem stop_le_of_standsAt (plain : '>' ∉ name) (member : found ∈ search buffer name limit)
    (stands : StandsAt buffer ['>'] place) (after : found.span.start ≤ place) :
    found.span.stop ≤ place := by
  obtain ⟨stop,before,rest,cut⟩ := cuts_of_mem_search member
  obtain ⟨before',rest',there⟩ := stands
  rw [stop]
  rcases Position.le_def.mp after with below | ⟨sameLine,further⟩
  · exact .inl below
  · refine .inr ⟨sameLine,Nat.le_of_not_lt fun inside => plain ?_⟩
    obtain ⟨part,rfl,split⟩ := cut.later there sameLine.symm further
    have start := cut.column
    have column := there.column
    rw [Text.width_append] at column
    simp only at inside
    rcases List.append_eq_append_iff.mp split with ⟨tail,rfl,_⟩ | ⟨tail,whole,same⟩
    · rw [Text.width_append] at column
      omega
    · cases tail with
      | nil =>
        rw [List.append_nil] at whole
        rw [← whole] at column
        omega
      | cons c tail =>
        obtain ⟨rfl,_⟩ := List.cons.inj same
        have inOpening : '>' ∈ opening name := by
          rw [whole]
          exact List.mem_append_right _ List.mem_cons_self
        exact (List.mem_cons.mp inOpening).resolve_left (by decide)

theorem inOrder_of_expand (member : found ∈ search buffer name limit)
    (alsoMember : next ∈ search buffer name limit) (apart : found.span.stop ≤ next.span.start)
    (expanded : expand buffer found.span = .ok first) (alsoExpanded : expand buffer next.span = .ok second) :
    InOrder name first second := by
  obtain ⟨start,place,near,stop⟩ := nearest_of_expand member expanded
  obtain ⟨nextStart,further,nextNear,nextStop⟩ := nearest_of_expand alsoMember alsoExpanded
  have opened := start_lt_stop_of_mem_search member
  have nextOpened := start_lt_stop_of_mem_search alsoMember
  have ordered : found.span.stop ≤ next.span.stop := by
    rw [Position.le_def] at apart ⊢
    rw [Position.lt_def] at nextOpened
    omega
  have mono := near.mono nextNear ordered
  constructor
  · rw [start,nextStart,Position.lt_def]
    rw [Position.lt_def] at opened
    rw [Position.le_def] at apart
    omega
  · rw [stop,nextStop,Position.le_def]
    rw [Position.le_def] at mono
    simp only
    omega
  · intro plain
    by_cases before : next.span.start ≤ place
    · have same := near.eq_of_le nextNear ordered (stop_le_of_standsAt plain alsoMember near.stands before)
      rw [stop,nextStop,same]
      exact .inr rfl
    · left
      rw [stop,nextStart,Position.le_def]
      rw [Position.le_def] at before
      simp only
      omega

end TagOverlay.Tag
