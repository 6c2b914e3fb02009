import Mathlib.Data.List.Forall2
import TagOverlay.Proofs.Session.InMemory
import TagOverlay.Proofs.Tag.Matches

/-! Which start tags a session marks. Those of a name are found all at once or not at all, and in any
session that can be reached, on whatever surface, the marked tags are those of one search of its buffer. -/
namespace TagOverlay
open TextBuffer (StandsFrom)

section Traversal

variable {ε α γ : Type} {f : α → Except ε γ}

theorem mapM_eq_ok_iff {items : List α} {values : List γ} :
    items.mapM f = .ok values ↔ List.Forall₂ (fun item value => f item = .ok value) items values := by
  induction items generalizing values with
  | nil => cases values <;> simp [pure,Except.pure]
  | cons item items ih =>
    rw [List.mapM_cons]
    constructor
    · intro succeeds
      cases here : f item with
      | error error =>
        rw [here] at succeeds
        contradiction
      | ok value =>
        cases rest : items.mapM f with
        | error error =>
          rw [here,rest] at succeeds
          contradiction
        | ok others =>
          rw [here,rest] at succeeds
          obtain rfl := Except.ok.inj succeeds
          exact .cons here (ih.mp rest)
    · intro each
      cases each with
      | cons here rest =>
        rw [here,ih.mpr rest]
        rfl

theorem exists_first_of_mapM_eq_error {items : List α} {error : ε} (fails : items.mapM f = .error error) :
    ∃ earlier item later, items = earlier ++ item :: later ∧
      (∀ other ∈ earlier, ∃ value, f other = .ok value) ∧ f item = .error error := by
  induction items with
  | nil => contradiction
  | cons item items ih =>
    rw [List.mapM_cons] at fails
    cases here : f item with
    | error reason =>
      rw [here] at fails
      obtain rfl := Except.error.inj fails
      exact ⟨[],item,items,rfl,fun _ member => absurd member List.not_mem_nil,here⟩
    | ok value =>
      cases rest : items.mapM f with
      | ok others =>
        rw [here,rest] at fails
        contradiction
      | error reason =>
        rw [here,rest] at fails
        obtain rfl := Except.error.inj fails
        obtain ⟨earlier,culprit,later,rfl,fine,breaks⟩ := ih rest
        refine ⟨item :: earlier,culprit,later,rfl,?_,breaks⟩
        intro other member
        rcases List.mem_cons.mp member with rfl | further
        · exact ⟨value,here⟩
        · exact fine other further

end Traversal

namespace Sheet

variable {β : Type} [TextBuffer β] {buffer : β} {name : Text} {limit : Nat} {spans : List Span}

theorem exists_match_of_startTags (found : startTags buffer limit name = .ok spans) {span : Span}
    (member : span ∈ spans) :
    ∃ beginning ∈ Tag.search buffer name limit, Tag.expand buffer beginning.span = .ok span := by
  obtain ⟨i,bound,rfl⟩ := List.mem_iff_getElem.mp member
  have each := mapM_eq_ok_iff.mp found
  have alsoBound : i < (Tag.search buffer name limit).length := by
    rw [each.length_eq]
    exact bound
  exact ⟨_,List.getElem_mem alsoBound,each.get alsoBound bound⟩

theorem exists_span_of_startTags (found : startTags buffer limit name = .ok spans) {beginning : TagMatch}
    (member : beginning ∈ Tag.search buffer name limit) :
    ∃ span ∈ spans, Tag.expand buffer beginning.span = .ok span := by
  obtain ⟨i,bound,rfl⟩ := List.mem_iff_getElem.mp member
  have each := mapM_eq_ok_iff.mp found
  have alsoBound : i < spans.length := by
    rw [← each.length_eq]
    exact bound
  exact ⟨_,List.getElem_mem alsoBound,each.get bound alsoBound⟩

/-- A match that can be expanded is followed by a `>`; the first that cannot decides the error. -/
theorem startTags_cases (buffer : β) (limit : Nat) (name : Text) :
    (∃ spans, startTags buffer limit name = .ok spans ∧
        spans.length = (Tag.search buffer name limit).length ∧
        ∀ found ∈ Tag.search buffer name limit, StandsFrom buffer ['>'] found.span.stop) ∨
      ∃ earlier culprit later, Tag.search buffer name limit = earlier ++ culprit :: later ∧
        (∀ found ∈ earlier, StandsFrom buffer ['>'] found.span.stop) ∧
        ¬ StandsFrom buffer ['>'] culprit.span.stop ∧
        startTags buffer limit name = .error (.malformed culprit.span.start) := by
  cases outcome : startTags buffer limit name with
  | ok spans =>
    have each := mapM_eq_ok_iff.mp outcome
    refine .inl ⟨spans,rfl,each.length_eq.symm,?_⟩
    intro found member
    obtain ⟨span,_,expanded⟩ := exists_span_of_startTags outcome member
    exact Tag.standsFrom_of_expand member expanded
  | error error =>
    obtain ⟨earlier,culprit,later,whole,fine,breaks⟩ := exists_first_of_mapM_eq_error outcome
    have isMatch : culprit ∈ Tag.search buffer name limit := by simp [whole]
    rcases Tag.expand_cases isMatch with ⟨_,stop,expanded⟩ | ⟨missing,fails⟩
    · rw [expanded] at breaks
      contradiction
    · rw [fails] at breaks
      obtain rfl := Except.error.inj breaks
      refine .inr ⟨earlier,culprit,later,whole,?_,missing,rfl⟩
      intro found member
      obtain ⟨span,expanded⟩ := fine found member
      have alsoMatch : found ∈ Tag.search buffer name limit := by simp [whole,member]
      exact Tag.standsFrom_of_expand alsoMatch expanded

theorem startTags_take (found : startTags buffer limit name = .ok spans) {smaller : Nat}
    (le : smaller ≤ limit) : startTags buffer smaller name = .ok (spans.take smaller) := by
  have shorter : Tag.search buffer name smaller = (Tag.search buffer name limit).take smaller := by
    rw [Tag.search,Tag.search,List.take_take,Nat.min_eq_left le]
  have each := mapM_eq_ok_iff.mp found
  rw [startTags,shorter]
  exact mapM_eq_ok_iff.mpr (List.forall₂_take smaller each)

end Sheet

theorem Overlay.length_of_addBatch {σ : Type} [RenderSurface σ] {overlay after : Overlay σ}
    {spans : List Span} {style : Style} {ids : List DecorationId}
    (added : overlay.addBatch spans style = (.ok ids,after)) : ids.length = spans.length := by
  unfold addBatch at added
  cases spans with
  | nil =>
    obtain rfl := Except.ok.inj (Prod.mk.inj added).1
    rfl
  | cons first rest =>
    dsimp only at added
    split at added
    next => simp at added
    next ids' surface answered =>
      split at added
      next tooMany => split at added <;> simp at added
      next notMore =>
        split at added
        next tooFew => simp at added
        next notFewer =>
          obtain rfl := Except.ok.inj (Prod.mk.inj added).1
          omega

namespace Session

variable {β σ : Type} [TextBuffer β] [RenderSurface σ] {buffer : β} {surface : σ} {session : Session β σ}

/-- The sessions over a buffer that any history of commands and limits leads to. -/
inductive Reachable (buffer : β) (surface : σ) : Session β σ → Prop where
  | new : Reachable buffer surface (Session.new buffer surface)
  | withLimit {session : Session β σ} (limit : Nat) (earlier : Reachable buffer surface session) :
      Reachable buffer surface (session.withLimit limit)
  | perform {session : Session β σ} (command : SessionCommand)
      (earlier : Reachable buffer surface session) :
      Reachable buffer surface (session.perform command).2

theorem map_span_zipWith {ids : List DecorationId} {spans : List Span} (complete : ids.length = spans.length) :
    (ids.zipWith MarkedTag.mk spans).map (·.span) = spans := by
  rw [List.map_zipWith]
  exact (List.map_zip_eq_zipWith (f := Prod.snd)).symm.trans
    (List.map_snd_zip (Nat.le_of_eq complete.symm))

theorem map_span_set {marked : List MarkedTag} {index : Nat} {tag : MarkedTag}
    (here : marked[index]? = some tag) (id : DecorationId) :
    (marked.set index { tag with id }).map (·.span) = marked.map (·.span) := by
  obtain ⟨bound,rfl⟩ := List.getElem?_eq_some_iff.mp here
  apply List.ext_getElem?
  intro i
  rw [List.getElem?_map,List.getElem?_map,List.getElem?_set]
  split
  next same => simp [← same,bound]
  next => rfl

/-- The marked tags are the start tags of the session's name, up to a limit that it once had. -/
structure MarksStartTags (buffer : β) (session : Session β σ) : Prop where
  buffer_eq : session.buffer = buffer
  spans : session.marked = [] ∨ ∃ name limit, session.tagName = some name ∧
    Sheet.startTags buffer limit name = .ok (session.marked.map (·.span))

namespace MarksStartTags

omit [RenderSurface σ] in
/-- Colors and decorations do not matter. -/
theorem congr {after : Session β σ} (holds : session.MarksStartTags buffer)
    (sameBuffer : after.buffer = session.buffer) (sameName : after.tagName = session.tagName)
    (sameSpans : after.marked.map (·.span) = session.marked.map (·.span)) :
    after.MarksStartTags buffer where
  buffer_eq := sameBuffer.trans holds.buffer_eq
  spans := by
    rw [sameName,sameSpans]
    refine holds.spans.imp_left fun nothing => ?_
    rw [nothing] at sameSpans
    exact List.map_eq_nil_iff.mp sameSpans

theorem clear (holds : session.MarksStartTags buffer) : session.clear.2.MarksStartTags buffer :=
  ⟨holds.buffer_eq,.inl rfl⟩

theorem markCleared (holds : session.MarksStartTags buffer) (name : Text) :
    (session.markCleared name).2.MarksStartTags buffer := by
  obtain rfl := holds.buffer_eq
  unfold Session.markCleared
  cases found : Sheet.startTags session.buffer session.limit name with
  | error error => exact holds
  | ok spans =>
    dsimp only
    rcases added : session.overlay.addBatch spans .fresh with ⟨error | ids,after⟩
    · exact ⟨rfl,holds.spans⟩
    · refine ⟨rfl,.inr ⟨name,session.limit,rfl,?_⟩⟩
      rw [found,map_span_zipWith (Overlay.length_of_addBatch added)]

theorem mark (holds : session.MarksStartTags buffer) (name : Text) :
    (session.mark name).2.MarksStartTags buffer := by
  have cleared := holds.clear
  rw [mark_eq]
  generalize session.clear = result at cleared
  obtain ⟨answer,after⟩ := result
  rcases answer with error | _
  · exact cleared
  · exact cleared.markCleared name

theorem setStatus (holds : session.MarksStartTags buffer) (index : Nat) (status : ReviewStatus) :
    (session.setStatus index status).2.MarksStartTags buffer := by
  cases here : session.marked[index]? with
  | none =>
    rw [setStatus_of_none here]
    exact holds
  | some tag =>
    simp only [Session.setStatus,markedTag,here]
    rcases session.overlay.recolor (some tag.id) tag.span status with ⟨error | id,after⟩
    · exact ⟨holds.buffer_eq,holds.spans⟩
    · exact holds.congr rfl rfl (map_span_set here id)

theorem unmark (holds : session.MarksStartTags buffer) (index : Nat) :
    (session.unmark index).2.MarksStartTags buffer := by
  cases here : session.marked[index]? with
  | none =>
    rw [unmark_of_none here]
    exact holds
  | some tag =>
    simp only [Session.unmark,markedTag,here]
    exact ⟨holds.buffer_eq,holds.spans⟩

theorem perform (holds : session.MarksStartTags buffer) (command : SessionCommand) :
    (session.perform command).2.MarksStartTags buffer := by
  cases command with
  | mark name => exact holds.mark name
  | clear => exact holds.clear
  | setStatus index status => exact holds.setStatus index status
  | unmark index => exact holds.unmark index

end MarksStartTags

theorem Reachable.run (reachable : Reachable buffer surface session) (commands : List SessionCommand) :
    Reachable buffer surface (session.run commands).2 := by
  induction commands generalizing session with
  | nil => exact reachable
  | cons command commands ih => exact ih (reachable.perform command)

theorem Reachable.marksStartTags (reachable : Reachable buffer surface session) :
    session.MarksStartTags buffer := by
  induction reachable with
  | new => exact ⟨rfl,.inl rfl⟩
  | withLimit limit _ ih => exact ⟨ih.buffer_eq,ih.spans⟩
  | perform command _ ih => exact ih.perform command

end Session

end TagOverlay
