import TagOverlay.Buffer.LineList
import TagOverlay.Proofs.Decoration.DrawsOrRefuses
import TagOverlay.Proofs.Session.StartTags
import TagOverlay.Proofs.Tag.Layout

/-! How the marked tags of a session lie in its buffer: in the order in which they begin and end, and, for
a name without a `>`, apart or up to the same end, so that no two of them cross. -/
namespace TagOverlay

namespace Sheet

variable {β : Type} [TextBuffer β] {buffer : β} {name : Text} {limit : Nat} {spans : List Span}

theorem pairwise_startTags (found : startTags buffer limit name = .ok spans) :
    spans.Pairwise (Tag.InOrder name) := by
  have each := mapM_eq_ok_iff.mp found
  have ordered := List.pairwise_iff_getElem.mp (Tag.pairwise_search buffer name limit)
  apply List.pairwise_iff_getElem.mpr
  intro i j first second lt
  have here : i < (Tag.search buffer name limit).length := Nat.lt_of_lt_of_eq first each.length_eq.symm
  have there : j < (Tag.search buffer name limit).length := Nat.lt_of_lt_of_eq second each.length_eq.symm
  exact Tag.inOrder_of_expand (List.getElem_mem here) (List.getElem_mem there) (ordered i j here there lt)
    (each.get here first) (each.get there second)

theorem start_lt_stop_of_startTags (found : startTags buffer limit name = .ok spans) {span : Span}
    (member : span ∈ spans) : span.start < span.stop := by
  obtain ⟨beginning,isMatch,expanded⟩ := exists_match_of_startTags found member
  exact Tag.start_lt_stop_of_expand isMatch expanded

end Sheet

namespace Session

variable {β σ : Type} [TextBuffer β] [RenderSurface σ] {session : Session β σ} {name : Text} {count : Nat}

theorem startTags_of_markCleared (succeeds : (session.markCleared name).1 = .ok count) :
    (session.markCleared name).2.marked.length = count ∧
      Sheet.startTags session.buffer session.limit name =
        .ok ((session.markCleared name).2.marked.map (·.span)) := by
  unfold markCleared at succeeds ⊢
  cases found : Sheet.startTags session.buffer session.limit name with
  | error error =>
    rw [found] at succeeds
    contradiction
  | ok spans =>
    rw [found] at succeeds
    dsimp only at succeeds ⊢
    rcases added : session.overlay.addBatch spans .fresh with ⟨error | ids,after⟩
    · rw [added] at succeeds
      contradiction
    · rw [added] at succeeds
      exact ⟨Except.ok.inj succeeds,
        congrArg Except.ok (map_span_zipWith (Overlay.length_of_addBatch added)).symm⟩

/-- Whatever the surface does, a successful marking marks the start tags of the name. -/
theorem startTags_of_mark (succeeds : (session.mark name).1 = .ok count) :
    (session.mark name).2.marked.length = count ∧
      Sheet.startTags session.buffer session.limit name =
        .ok ((session.mark name).2.marked.map (·.span)) := by
  rw [mark_eq] at succeeds ⊢
  rcases cleared : session.clear with ⟨error | _,after⟩
  · rw [cleared] at succeeds
    contradiction
  · have buffer : after.buffer = session.buffer := (congrArg (·.2.buffer) cleared).symm
    have limit : after.limit = session.limit := (congrArg (·.2.limit) cleared).symm
    rw [cleared] at succeeds
    rw [← buffer,← limit]
    exact startTags_of_markCleared succeeds

theorem Reachable.inOrder {buffer : β} {surface : σ} (reachable : session.Reachable buffer surface) :
    session.marked = [] ∨ ∃ name, session.tagName = some name ∧
      session.marked.Pairwise fun first second => Tag.InOrder name first.span second.span := by
  apply reachable.marksStartTags.spans.imp_right
  intro ⟨name,limit,named,found⟩
  exact ⟨name,named,List.pairwise_map.mp (Sheet.pairwise_startTags found)⟩

theorem marked_tags_never_cross (succeeds : (session.mark name).1 = .ok count) :
    let spans := (session.mark name).2.marked.map (·.span)
    spans.length = count ∧
    spans.Pairwise (fun first second => first.start < second.start ∧ first.stop ≤ second.stop) ∧
    (∀ span ∈ spans, span.start < span.stop) ∧
    ('>' ∉ name → spans.Pairwise fun first second =>
      first.stop ≤ second.start ∨ first.stop = second.stop) := by
  intro spans
  obtain ⟨total,found⟩ := startTags_of_mark succeeds
  have ordered := Sheet.pairwise_startTags found
  refine ⟨?_,ordered.imp fun pair => ⟨pair.start,pair.stop⟩,?_,?_⟩
  · rw [← total,List.length_map]
  · exact fun span member => Sheet.start_lt_stop_of_startTags found member
  · exact fun plain => ordered.imp fun pair => pair.apart plain

/-- The second of three tags begins inside the first one, which is wrapped, and both end together. The
surface refuses a later update. -/
theorem second_tag_inside_first :
    let buffer := LineList.ofList [['<','n'],['é','<','n','>','<','n','>']]
    let marking := (Session.new buffer (MoodySurface.mk .empty [none,some "busy"])).mark ['n']
    marking.1 = .ok 3 ∧
      marking.2.marked.map (·.span) = [⟨⟨1,1⟩,⟨2,6⟩⟩,⟨⟨2,3⟩,⟨2,6⟩⟩,⟨⟨2,6⟩,⟨2,9⟩⟩] ∧
      (marking.2.marked.map (·.span)).Pairwise fun first second =>
        first.stop ≤ second.start ∨ first.stop = second.stop := by
  intro buffer marking
  have succeeds : marking.1 = .ok 3 := by decide
  exact ⟨succeeds,by decide,(marked_tags_never_cross succeeds).2.2.2 (by decide)⟩

end Session

end TagOverlay
