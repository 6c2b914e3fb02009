import TagOverlay.Buffer.LineList
import TagOverlay.Proofs.Session.Refinement
import TagOverlay.Proofs.Session.StartTags

/-! When marking succeeds in memory: if a `>` follows the last match, for then one follows each match.
Otherwise the first match without one is reported, and nothing is left marked, drawn or registered. -/
namespace TagOverlay.Session
open TextBuffer (StandsFrom)

variable {β : Type} [TextBuffer β] {buffer : β} {session : Session β MemorySurface} {sheet : Sheet}
    {name : Text}

omit [TextBuffer β] in
theorem Shows.spans_eq (shows : session.Shows sheet) :
    session.marked.map (·.span) = sheet.map (·.1) := by
  rw [← shows.rows,List.map_map]
  rfl

theorem Reachable.exists_shows (reachable : session.Reachable buffer .empty) :
    ∃ sheet, session.Shows sheet := by
  induction reachable with
  | new => exact ⟨[],shows_new buffer Tag.defaultLimit⟩
  | withLimit limit _ ih =>
    obtain ⟨sheet,shows⟩ := ih
    exact ⟨sheet,shows.marks,shows.covers,shows.rows⟩
  | perform command _ ih =>
    obtain ⟨sheet,shows⟩ := ih
    exact ⟨_,(perform_follows shows command).shows⟩

theorem mark_of_error (shows : session.Shows sheet) {error : TagError}
    (fails : Sheet.startTags session.buffer session.limit name = .error error) :
    ∃ after, session.mark name = (.error (.tag error),after) ∧ after.Shows [] ∧
      after.tagName = none := by
  obtain ⟨after,cleared,nothing⟩ := clear_shows shows
  refine ⟨_,?_,nothing,rfl⟩
  simp only [mark_eq,cleared,markCleared,fails]

theorem mark_of_ok (shows : session.Shows sheet) {spans : List Span}
    (found : Sheet.startTags session.buffer session.limit name = .ok spans) :
    ∃ after, session.mark name = (.ok spans.length,after) ∧
      after.Shows (spans.map fun span => (span,some .fresh)) := by
  obtain ⟨after,cleared,nothing⟩ := clear_shows shows
  obtain ⟨last,marked,new,filled,exchange,marks,rows⟩ := markCleared_memory nothing.marks found
  refine ⟨{ session with overlay := last,tagName := some name,marked },?_,marks,
    exchange.covers nothing.covers,rows⟩
  rw [mark_eq,cleared]
  exact filled

omit [TextBuffer β] in
theorem Shows.nothing_left (shows : session.Shows []) :
    session.marked = [] ∧ session.registry.entries = [] ∧ session.surface.attached = [] := by
  have registered := shows.entries_perm
  have drawn := shows.attached_perm
  have unmarked := List.map_eq_nil_iff.mp shows.rows
  rw [unmarked] at registered drawn
  exact ⟨unmarked,registered.eq_nil,drawn.eq_nil⟩

/-- A smaller limit marks the first of the same tags. -/
theorem mark_withLimit (shows : session.Shows sheet) {count smaller : Nat} (le : smaller ≤ session.limit)
    (succeeds : (session.mark name).1 = .ok count) :
    ((session.withLimit smaller).mark name).1 = .ok (min smaller count) ∧
      ((session.withLimit smaller).mark name).2.marked.map (·.span) =
        ((session.mark name).2.marked.map (·.span)).take smaller := by
  cases found : Sheet.startTags session.buffer session.limit name with
  | error error =>
    obtain ⟨after,refused,_⟩ := mark_of_error shows found
    rw [refused] at succeeds
    contradiction
  | ok spans =>
    obtain ⟨all,marked,allShown⟩ := mark_of_ok shows found
    have limited : (session.withLimit smaller).Shows sheet := ⟨shows.marks,shows.covers,shows.rows⟩
    have fewer := Sheet.startTags_take found le
    obtain ⟨first,alsoMarked,firstShown⟩ := mark_of_ok limited fewer
    rw [marked] at succeeds ⊢
    obtain rfl := Except.ok.inj succeeds
    rw [alsoMarked,firstShown.spans_eq,allShown.spans_eq]
    simp [Function.comp_def]

theorem mark_succeeds_iff_last_ends (reachable : session.Reachable buffer .empty) (name : Text) :
    let found := Tag.search buffer name session.limit
    let result := session.mark name
    (result.1 = .ok found.length ↔ ∀ last ∈ found.getLast?, StandsFrom buffer ['>'] last.span.stop) ∧
    ((¬ ∀ last ∈ found.getLast?, StandsFrom buffer ['>'] last.span.stop) →
      ∃ earlier culprit later, found = earlier ++ culprit :: later ∧
        (∀ other ∈ earlier, StandsFrom buffer ['>'] other.span.stop) ∧
        ¬ StandsFrom buffer ['>'] culprit.span.stop ∧
        result.1 = .error (.tag (.malformed culprit.span.start)) ∧
        result.2.marked = [] ∧ result.2.tagName = none ∧
        result.2.registry.entries = [] ∧ result.2.surface.attached = []) ∧
    ∀ smaller ≤ session.limit, ∀ count, result.1 = .ok count →
      ((session.withLimit smaller).mark name).1 = .ok (min smaller count) ∧
        ((session.withLimit smaller).mark name).2.marked.map (·.span) =
          (result.2.marked.map (·.span)).take smaller := by
  intro found result
  obtain rfl := reachable.marksStartTags.buffer_eq
  obtain ⟨sheet,shows⟩ := reachable.exists_shows
  rcases Sheet.startTags_cases session.buffer session.limit name with
    ⟨spans,allEnd,count,stands⟩ | ⟨earlier,culprit,later,whole,fine,missing,fails⟩
  · obtain ⟨after,marked,_⟩ := mark_of_ok shows allEnd
    have ends : ∀ last ∈ found.getLast?, StandsFrom session.buffer ['>'] last.span.stop :=
      fun last isLast => stands last (List.mem_of_getLast? isLast)
    refine ⟨iff_of_true ?_ ends,fun unended => absurd ends unended,fun smaller le count => mark_withLimit shows le⟩
    rw [← count]
    exact congrArg Prod.fst marked
  · obtain ⟨after,refused,nothing,unnamed⟩ := mark_of_error shows fails
    have isMatch : culprit ∈ Tag.search session.buffer name session.limit := by simp [whole]
    have unended : ¬ ∀ last ∈ found.getLast?, StandsFrom session.buffer ['>'] last.span.stop :=
      fun ends => missing (Tag.standsFrom_of_last ends isMatch)
    have error : result = (.error (.tag (.malformed culprit.span.start)),after) := refused
    obtain ⟨unmarked,unregistered,undrawn⟩ := nothing.nothing_left
    refine ⟨iff_of_false ?_ unended,fun _ => ?_,fun smaller le count => mark_withLimit shows le⟩
    · rw [error]
      simp
    · rw [error]
      exact ⟨earlier,culprit,later,whole,fine,missing,rfl,unmarked,unnamed,unregistered,undrawn⟩

/-- The second of three matches is not ended. It is reported, and a limit of one leaves it out. -/
theorem unended_tag_is_reported :
    let buffer := LineList.ofList [['<','n'],['é','>','<','n'],['<','n']]
    let session := (Session.new buffer MemorySurface.empty).withLimit 9
    session.Reachable buffer .empty ∧
      (Tag.search buffer ['n'] 9).map (·.span.start) = [⟨1,1⟩,⟨2,4⟩,⟨3,1⟩] ∧
      (session.mark ['n']).1 = .error (.tag (.malformed ⟨2,4⟩)) ∧
      (session.mark ['n']).2.surface.attached = [] ∧ ((session.withLimit 1).mark ['n']).1 = .ok 1 ∧
      ¬ ∀ last ∈ (Tag.search buffer ['n'] 9).getLast?, StandsFrom buffer ['>'] last.span.stop := by
  intro buffer session
  have reachable : session.Reachable buffer .empty := Reachable.new.withLimit 9
  have reported : (session.mark ['n']).1 = .error (.tag (.malformed ⟨2,4⟩)) := by decide
  obtain ⟨decides,leaves,_⟩ := mark_succeeds_iff_last_ends reachable ['n']
  have unended : ¬ ∀ last ∈ (Tag.search buffer ['n'] 9).getLast?,
      StandsFrom buffer ['>'] last.span.stop := by
    intro ends
    have succeeds := decides.mpr ends
    rw [reported] at succeeds
    contradiction
  obtain ⟨_,_,_,_,_,_,_,_,_,_,undrawn⟩ := leaves unended
  exact ⟨reachable,by decide,reported,undrawn,by decide,unended⟩

end TagOverlay.Session
