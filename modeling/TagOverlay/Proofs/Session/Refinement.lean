import TagOverlay.Proofs.Session.InMemory

/-! On a surface in memory a session does what its sheet does: the answers are those of the sheet, and
what is drawn and registered, id by id, are the rows of the sheet that have a look. -/
namespace TagOverlay

/-- The decorations of the rows that have a look, each under the id of its row. -/
def Sheet.decorations (sheet : Sheet) (ids : List DecorationId) : List (DecorationId × Decoration) :=
  (ids.zip sheet).filterMap fun entry =>
    entry.2.2.map fun style => (entry.1,⟨entry.2.1,style⟩)

namespace Session

variable {β : Type} {session : Session β MemorySurface} {sheet : Sheet}

structure Shows (session : Session β MemorySurface) (sheet : Sheet) : Prop where
  marks : Marks session.overlay session.marked
  covers : session.overlay.Covers
  rows : session.marked.map session.overlay.row = sheet

theorem shows_new (buffer : β) (limit : Nat) :
    ((Session.new buffer MemorySurface.empty).withLimit limit).Shows [] where
  marks := Marks.nothing (MemorySurface.sound_of_attached_nil rfl) rfl
  covers _ _ := rfl
  rows := rfl

theorem Shows.row_of_index (shows : session.Shows sheet) (index : Nat) :
    sheet[index]? = session.marked[index]?.map session.overlay.row := by
  rw [← shows.rows,List.getElem?_map]

theorem clear_shows (shows : session.Shows sheet) :
    ∃ after : Overlay MemorySurface, session.clear =
        (.ok (),{ session with overlay := after,tagName := none,marked := [] }) ∧
      Shows { session with overlay := after,tagName := none,marked := [] } [] := by
  obtain ⟨after,gone,cleared,exchange,marks⟩ := clear_memory shows.marks
  exact ⟨after,cleared,marks,exchange.covers shows.covers,rfl⟩

variable [TextBuffer β]

structure Follows (session : Session β MemorySurface)
    (result : Except SessionError SessionReply × Session β MemorySurface)
    (expected : Except SessionError SessionReply × Sheet) : Prop where
  answer : result.1 = expected.1
  shows : result.2.Shows expected.2
  buffer : result.2.buffer = session.buffer
  limit : result.2.limit = session.limit

theorem mark_follows (shows : session.Shows sheet) (name : Text) :
    Follows session (session.perform (.mark name))
      (sheet.perform session.buffer session.limit (.mark name)) := by
  obtain ⟨after,cleared,nothing⟩ := clear_shows shows
  simp only [perform,mark_eq,cleared,Sheet.perform]
  cases found : Sheet.startTags session.buffer session.limit name with
  | error error =>
    simp only [markCleared,found]
    exact ⟨rfl,nothing,rfl,rfl⟩
  | ok spans =>
    obtain ⟨last,marked,new,filled,exchange,marks,rows⟩ := markCleared_memory nothing.marks found
    rw [filled]
    exact ⟨rfl,⟨marks,exchange.covers nothing.covers,rows⟩,rfl,rfl⟩

theorem setStatus_follows (shows : session.Shows sheet) (index : Nat) (status : ReviewStatus) :
    Follows session (session.perform (.setStatus index status))
      (sheet.perform session.buffer session.limit (.setStatus index status)) := by
  simp only [perform,Sheet.perform,shows.row_of_index]
  cases here : session.marked[index]? with
  | none =>
    rw [setStatus_of_none here]
    exact ⟨rfl,shows,rfl,rfl⟩
  | some tag =>
    obtain ⟨id,after,gone,new,recolored,exchange,marks,rows⟩ := setStatus_memory shows.marks here status
    rw [recolored]
    rw [shows.rows] at rows
    exact ⟨rfl,⟨marks,exchange.covers shows.covers,rows⟩,rfl,rfl⟩

theorem unmark_follows (shows : session.Shows sheet) (index : Nat) :
    Follows session (session.perform (.unmark index))
      (sheet.perform session.buffer session.limit (.unmark index)) := by
  simp only [perform,Sheet.perform,shows.row_of_index]
  cases here : session.marked[index]? with
  | none =>
    rw [unmark_of_none here]
    exact ⟨rfl,shows,rfl,rfl⟩
  | some tag =>
    obtain ⟨after,gone,unmarked,exchange,marks,rows⟩ := unmark_memory shows.marks here
    obtain ⟨style?,shown⟩ := shows.marks.shows tag (List.mem_of_getElem? here)
    rw [unmarked,shown.contains,Option.map_some,shown.row_eq]
    rw [shows.rows] at rows
    exact ⟨rfl,⟨marks,exchange.covers shows.covers,rows⟩,rfl,rfl⟩

theorem perform_follows (shows : session.Shows sheet) (command : SessionCommand) :
    Follows session (session.perform command)
      (sheet.perform session.buffer session.limit command) := by
  cases command with
  | mark name => exact mark_follows shows name
  | clear =>
    obtain ⟨after,cleared,nothing⟩ := clear_shows shows
    simp only [perform,cleared]
    exact ⟨rfl,nothing,rfl,rfl⟩
  | setStatus index status => exact setStatus_follows shows index status
  | unmark index => exact unmark_follows shows index

theorem run_follows (shows : session.Shows sheet) (commands : List SessionCommand) :
    (session.run commands).1 = (sheet.run session.buffer session.limit commands).1 ∧
      (session.run commands).2.Shows (sheet.run session.buffer session.limit commands).2 := by
  induction commands generalizing session sheet with
  | nil => exact ⟨rfl,shows⟩
  | cons command commands ih =>
    have step := perform_follows shows command
    obtain ⟨answers,last⟩ := ih step.shows
    rw [step.buffer,step.limit] at answers last
    exact ⟨List.cons_eq_cons.mpr ⟨step.answer,answers⟩,last⟩

omit [TextBuffer β] in
theorem Shows.decorations_eq (shows : session.Shows sheet) :
    sheet.decorations (session.marked.map (·.id)) =
      session.marked.filterMap fun tag => (session.surface.get? tag.id).map (tag.id,·) := by
  rw [Sheet.decorations,← shows.rows,List.zip_map',List.filterMap_map]
  apply List.filterMap_congr
  intro tag member
  obtain ⟨style?,shown⟩ := shows.marks.shows tag member
  change (session.overlay.row tag).2.map _ = (session.overlay.surface.get? tag.id).map _
  rw [shown.row_eq,shown.2,Option.map_map]
  rfl

omit [TextBuffer β] in
theorem Shows.attached_perm (shows : session.Shows sheet) :
    session.surface.attached.Perm (sheet.decorations (session.marked.map (·.id))) := by
  rw [shows.decorations_eq]
  apply Entries.perm_filterMap shows.marks.sound.distinct shows.marks.nodup
  intro entry member
  apply shows.marks.registered
  have drawn := Entries.valueOf?_of_mem shows.marks.sound.distinct member
  refine Classical.not_not.mp fun missing => ?_
  have hidden := shows.covers entry.1 (Registry.spanOf?_eq_none_iff.mpr missing)
  exact Option.some_ne_none _ (drawn.symm.trans hidden)

omit [TextBuffer β] in
theorem Shows.entries_perm (shows : session.Shows sheet) :
    session.registry.entries.Perm ((sheet.decorations (session.marked.map (·.id))).map
      fun entry => (entry.1,entry.2.span)) := by
  have listed : (sheet.decorations (session.marked.map (·.id))).map
      (fun entry => (entry.1,entry.2.span)) =
      session.marked.filterMap fun tag => (session.registry.spanOf? tag.id).map (tag.id,·) := by
    rw [shows.decorations_eq,List.map_filterMap]
    apply List.filterMap_congr
    intro tag member
    obtain ⟨style?,shown⟩ := shows.marks.shows tag member
    change Option.map _ ((session.overlay.surface.get? tag.id).map _) =
      (session.overlay.registry.spanOf? tag.id).map _
    rw [shown.1,shown.2,Option.map_map,Option.map_map,Option.map_map]
    rfl
  rw [listed]
  apply Entries.perm_filterMap session.registry.nodup shows.marks.nodup
  intro entry member
  apply shows.marks.registered
  exact Registry.contains_iff.mpr (List.mem_map_of_mem member)

theorem session_refines_sheet (buffer : β) (limit : Nat) (commands : List SessionCommand) :
    let session := (Session.new buffer MemorySurface.empty).withLimit limit
    let last := (session.run commands).2
    let sheet := (Sheet.run buffer limit [] commands).2
    (session.run commands).1 = (Sheet.run buffer limit [] commands).1 ∧
    last.marked.map (·.span) = sheet.map (·.1) ∧
    (last.marked.map (·.id)).Nodup ∧
    last.surface.attached.Perm (sheet.decorations (last.marked.map (·.id))) ∧
    last.registry.entries.Perm
      ((sheet.decorations (last.marked.map (·.id))).map fun entry => (entry.1,entry.2.span)) ∧
    ∀ index, sheet.length ≤ index →
      (∀ status, last.setStatus index status = (.error (.noSuchTag index),last)) ∧
        last.unmark index = (.error (.noSuchTag index),last) := by
  intro session last sheet
  obtain ⟨answers,followed⟩ := run_follows (shows_new buffer limit) commands
  have shows : last.Shows sheet := followed
  refine ⟨answers,?_,shows.marks.nodup,shows.attached_perm,shows.entries_perm,?_⟩
  · rw [← shows.rows,List.map_map]
    rfl
  · intro index outside
    have missing : last.marked[index]? = none := by
      have row := shows.row_of_index index
      rw [List.getElem?_eq_none outside] at row
      exact Option.map_eq_none_iff.mp row.symm
    exact ⟨fun status => setStatus_of_none missing status,unmark_of_none missing⟩

end Session

end TagOverlay
