import TagOverlay.Proofs.Session.Marks

/-! What the commands of a session do on a surface in memory: they fail for an index of no marked tag
and for a tag that is never ended, and otherwise keep the marked tags and their decorations together. -/
namespace TagOverlay
open Overlay (Exchange)

namespace Session

section Equations

variable {β σ : Type} [RenderSurface σ]

/-- Marking, once everything has been cleared. -/
def markCleared [TextBuffer β] (session : Session β σ) (name : Text) :
    Except SessionError Nat × Session β σ :=
  match Sheet.startTags session.buffer session.limit name with
  | .error error => (.error (.tag error),session)
  | .ok spans =>
      match session.overlay.addBatch spans .fresh with
      | (.error error,overlay) => (.error (.surface error),{ session with overlay })
      | (.ok ids,overlay) =>
          let marked := ids.zipWith MarkedTag.mk spans
          (.ok marked.length,{ session with overlay,tagName := some name,marked })

theorem startTags_eq [TextBuffer β] (buffer : β) (limit : Nat) (name : Text) :
    (Tag.expandEach buffer ((Tag.search buffer name limit).map (·.span))).mapM id =
      Sheet.startTags buffer limit name := by
  rw [Tag.expandEach_eq,List.map_map,List.mapM_map]
  rfl

theorem mark_eq [TextBuffer β] (session : Session β σ) (name : Text) :
    session.mark name = match session.clear with
      | (.error error,session) => (.error error,session)
      | (.ok (),session) => session.markCleared name := by
  unfold mark
  simp only [startTags_eq]
  rcases session.clear with ⟨_ | _,_⟩
  · rfl
  · rfl

theorem setStatus_of_none {session : Session β σ} {index : Nat}
    (missing : session.marked[index]? = none) (status : ReviewStatus) :
    session.setStatus index status = (.error (.noSuchTag index),session) := by
  simp only [setStatus,markedTag,missing]

theorem unmark_of_none {session : Session β σ} {index : Nat}
    (missing : session.marked[index]? = none) :
    session.unmark index = (.error (.noSuchTag index),session) := by
  simp only [unmark,markedTag,missing]

end Equations

variable {β : Type} {session : Session β MemorySurface}

theorem clear_memory (marks : Marks session.overlay session.marked) :
    ∃ after gone, session.clear =
        (.ok (),{ session with overlay := after,tagName := none,marked := [] }) ∧
      Exchange session.overlay after gone [] ∧ Marks after [] := by
  obtain ⟨after,answer,exchange⟩ := Overlay.reset_memory marks.sound
  have empty : after.registry = .empty := by
    rw [← Overlay.registry_reset session.overlay,answer]
  refine ⟨after,_,?_,exchange,Marks.nothing exchange.sound empty⟩
  rw [clear,answer]
  rfl

theorem setStatus_memory (marks : Marks session.overlay session.marked) {index : Nat} {tag : MarkedTag}
    (here : session.marked[index]? = some tag) (status : ReviewStatus) :
    ∃ id after gone new, session.setStatus index status =
        (.ok id,{ session with overlay := after,marked := session.marked.set index { tag with id } }) ∧
      Exchange session.overlay after gone new ∧
      Marks after (session.marked.set index { tag with id }) ∧
      (session.marked.set index { tag with id }).map after.row =
        (session.marked.map session.overlay.row).set index (tag.span,some status.style) := by
  obtain ⟨id,after,answer,exchange⟩ :=
    Overlay.recolor_memory marks.sound (some tag.id) tag.span status
  have shows : after.Shows { tag with id } (some status.style) :=
    Overlay.shows_of_new exchange List.mem_cons_self
  have redraws := Marks.redraws_recolor exchange here
  refine ⟨id,after,_,_,?_,exchange,marks.set redraws shows,marks.rows_set redraws shows⟩
  simp only [setStatus,markedTag,here,answer]

theorem unmark_memory (marks : Marks session.overlay session.marked) {index : Nat} {tag : MarkedTag}
    (here : session.marked[index]? = some tag) :
    ∃ after gone, session.unmark index =
        (.ok (session.overlay.registry.contains tag.id),{ session with overlay := after }) ∧
      Exchange session.overlay after gone [] ∧ Marks after session.marked ∧
      session.marked.map after.row =
        (session.marked.map session.overlay.row).set index (tag.span,none) := by
  obtain ⟨after,answer,exchange⟩ := Overlay.remove_memory marks.sound tag.id
  have shows := marks.shows_none_of_remove exchange (List.mem_of_getElem? here)
  have redraws := Marks.redraws_remove exchange here
  have unchanged : session.marked.set index tag = session.marked := by
    obtain ⟨bound,value⟩ := List.getElem?_eq_some_iff.mp here
    rw [← value,List.set_getElem_self]
  have kept := marks.set redraws shows
  have rows := marks.rows_set redraws shows
  rw [unchanged] at kept rows
  refine ⟨after,_,?_,exchange,kept,rows⟩
  simp only [unmark,markedTag,here,answer]
  rfl

theorem markCleared_memory [TextBuffer β] (marks : Marks session.overlay []) {name : Text}
    {spans : List Span} (found : Sheet.startTags session.buffer session.limit name = .ok spans) :
    ∃ after marked new, session.markCleared name =
        (.ok spans.length,{ session with overlay := after,tagName := some name,marked }) ∧
      Exchange session.overlay after [] new ∧ Marks after marked ∧
      marked.map after.row = spans.map fun span => (span,some Style.fresh) := by
  obtain ⟨ids,after,answer,complete,exchange⟩ := Overlay.addBatch_memory marks.sound spans .fresh
  rw [List.zip_map_right] at exchange
  have all : (ids.zip spans).map (·.2) = spans := List.map_snd_zip (Nat.le_of_eq complete.symm)
  have filled := marks.fill exchange
  rw [all] at filled
  refine ⟨after,_,_,?_,exchange,filled⟩
  have marked : ids.zipWith MarkedTag.mk spans =
      (ids.zip spans).map fun pair => ⟨pair.1,pair.2⟩ :=
    (List.map_zip_eq_zipWith (f := fun pair => MarkedTag.mk pair.1 pair.2)).symm
  have count : (ids.zip spans).length = spans.length := by
    rw [List.length_zip,complete,Nat.min_self]
  simp only [markCleared,found,answer,marked,List.length_map,count]

end Session

end TagOverlay
