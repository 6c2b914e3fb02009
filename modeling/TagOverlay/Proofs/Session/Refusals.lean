import TagOverlay.Proofs.Session.InMemory

/-! Sessions on a surface that may refuse any update. A command either is refused, and then the marked
tags are unchanged or forgotten, or does what it does in memory. -/
namespace TagOverlay.Session

variable {β σ : Type} [RenderSurface σ] [DrawsOrRefuses σ]

/-- The session as it is drawn. -/
def inMemory (session : Session β σ) : Session β MemorySurface where
  buffer := session.buffer
  overlay := session.overlay.inMemory
  tagName := session.tagName
  marked := session.marked
  limit := session.limit

def Agrees {α : Type} (result : Except SessionError α × Session β σ)
    (refused : Session β MemorySurface)
    (expected : Except SessionError α × Session β MemorySurface) : Prop :=
  (∃ reason after, result = (.error (.surface (.rejected reason)),after) ∧ after.inMemory = refused) ∨
    ∃ answer after, result = (answer,after) ∧ expected = (answer,after.inMemory)

theorem Agrees.holds {α : Type} {result : Except SessionError α × Session β σ}
    {refused : Session β MemorySurface} {expected : Except SessionError α × Session β MemorySurface}
    (agrees : Agrees result refused expected) {property : Session β MemorySurface → Prop}
    (whenRefused : property refused) (otherwise : property expected.2) :
    property result.2.inMemory := by
  rcases agrees with ⟨reason,after,refusal,same⟩ | ⟨answer,after,equal,expectation⟩
  · rw [refusal,same]
    exact whenRefused
  · rw [expectation] at otherwise
    rw [equal]
    exact otherwise

theorem clear_agrees (session : Session β σ) :
    Agrees session.clear
      { session.inMemory with
        overlay := ⟨.empty,drawn session.surface⟩,tagName := none,marked := [] }
      session.inMemory.clear := by
  rcases Overlay.reset_agrees session.overlay with
    ⟨reason,after,reset,same⟩ | ⟨answer,after,reset,expected⟩
  · refine .inl ⟨reason,_,by rw [clear,reset]; rfl,?_⟩
    rw [inMemory,same]
    rfl
  · have alsoReset : session.inMemory.overlay.reset = _ := expected
    exact .inr ⟨_,_,by rw [clear,reset],by rw [clear,alsoReset]; rfl⟩

theorem setStatus_agrees (session : Session β σ) (index : Nat) (status : ReviewStatus) :
    Agrees (session.setStatus index status) session.inMemory
      (session.inMemory.setStatus index status) := by
  cases here : session.marked[index]? with
  | none =>
    have alsoHere : session.inMemory.marked[index]? = none := here
    rw [setStatus_of_none here,setStatus_of_none alsoHere]
    exact .inr ⟨_,_,rfl,rfl⟩
  | some tag =>
    have alsoHere : session.inMemory.marked[index]? = some tag := here
    rcases Overlay.recolor_agrees session.overlay (some tag.id) tag.span status with
      ⟨reason,after,recolored,same⟩ | ⟨answer,after,recolored,expected⟩
    · simp only [setStatus,markedTag,here,recolored]
      exact .inl ⟨reason,_,rfl,by rw [inMemory,same]; rfl⟩
    · have alsoRecolored : session.inMemory.overlay.recolor (some tag.id) tag.span status = _ := expected
      simp only [setStatus,markedTag,here,alsoHere,recolored,alsoRecolored]
      rcases answer with error | id
      · exact .inr ⟨_,_,rfl,rfl⟩
      · exact .inr ⟨_,_,rfl,rfl⟩

theorem unmark_agrees (session : Session β σ) (index : Nat) :
    Agrees (session.unmark index) session.inMemory (session.inMemory.unmark index) := by
  cases here : session.marked[index]? with
  | none =>
    have alsoHere : session.inMemory.marked[index]? = none := here
    rw [unmark_of_none here,unmark_of_none alsoHere]
    exact .inr ⟨_,_,rfl,rfl⟩
  | some tag =>
    have alsoHere : session.inMemory.marked[index]? = some tag := here
    rcases Overlay.remove_agrees session.overlay tag.id with
      ⟨reason,after,removed,same⟩ | ⟨answer,after,removed,expected⟩
    · simp only [unmark,markedTag,here,removed]
      exact .inl ⟨reason,_,rfl,by rw [inMemory,same]; rfl⟩
    · have alsoRemoved : session.inMemory.overlay.remove tag.id = _ := expected
      simp only [unmark,markedTag,here,alsoHere,removed,alsoRemoved]
      exact .inr ⟨_,_,rfl,rfl⟩

theorem markCleared_agrees [TextBuffer β] (session : Session β σ) (name : Text) :
    Agrees (session.markCleared name) session.inMemory (session.inMemory.markCleared name) := by
  cases found : Sheet.startTags session.buffer session.limit name with
  | error error =>
    have alsoFound : Sheet.startTags session.inMemory.buffer session.inMemory.limit name = _ := found
    simp only [markCleared,found,alsoFound]
    exact .inr ⟨_,_,rfl,rfl⟩
  | ok spans =>
    have alsoFound : Sheet.startTags session.inMemory.buffer session.inMemory.limit name = _ := found
    rcases Overlay.addBatch_agrees session.overlay spans .fresh with
      ⟨reason,after,added,same⟩ | ⟨answer,after,added,expected⟩
    · simp only [markCleared,found,added]
      exact .inl ⟨reason,_,rfl,by rw [inMemory,same]; rfl⟩
    · have alsoAdded : session.inMemory.overlay.addBatch spans .fresh = _ := expected
      simp only [markCleared,found,alsoFound,added,alsoAdded]
      rcases answer with error | ids
      · exact .inr ⟨_,_,rfl,rfl⟩
      · exact .inr ⟨_,_,rfl,rfl⟩

section Marks

def WellMarked (session : Session β MemorySurface) : Prop :=
  Marks session.overlay session.marked

theorem wellMarked_setStatus {session : Session β MemorySurface} (marked : session.WellMarked)
    (index : Nat) (status : ReviewStatus) : (session.setStatus index status).2.WellMarked := by
  cases here : session.marked[index]? with
  | none =>
    rw [setStatus_of_none here]
    exact marked
  | some tag =>
    obtain ⟨_,_,_,_,recolored,_,marks,_⟩ := setStatus_memory marked here status
    rw [recolored]
    exact marks

theorem wellMarked_unmark {session : Session β MemorySurface} (marked : session.WellMarked)
    (index : Nat) : (session.unmark index).2.WellMarked := by
  cases here : session.marked[index]? with
  | none =>
    rw [unmark_of_none here]
    exact marked
  | some tag =>
    obtain ⟨_,_,unmarked,_,marks,_⟩ := unmark_memory marked here
    rw [unmarked]
    exact marks

theorem wellMarked_markCleared [TextBuffer β] {session : Session β MemorySurface}
    (marked : session.WellMarked) (nothing : session.marked = []) (name : Text) :
    (session.markCleared name).2.WellMarked := by
  cases found : Sheet.startTags session.buffer session.limit name with
  | error error =>
    simp only [markCleared,found]
    exact marked
  | ok spans =>
    have empty : Marks session.overlay [] := nothing ▸ marked
    obtain ⟨_,_,_,filled,_,marks,_⟩ := markCleared_memory empty found
    rw [filled]
    exact marks

variable {session : Session β σ}

/-- Whether or not the surface refuses, nothing is marked or registered after clearing. -/
theorem wellMarked_clear (marked : session.inMemory.WellMarked) :
    session.clear.2.inMemory.WellMarked ∧ session.clear.2.marked = [] := by
  obtain ⟨_,_,cleared,_,nothing⟩ := clear_memory marked
  refine ⟨(clear_agrees session).holds (Marks.nothing marked.sound rfl) ?_,rfl⟩
  rw [cleared]
  exact nothing

theorem wellMarked_mark [TextBuffer β] (marked : session.inMemory.WellMarked) (name : Text) :
    (session.mark name).2.inMemory.WellMarked := by
  have cleared := wellMarked_clear marked
  rw [mark_eq]
  generalize session.clear = result at cleared
  obtain ⟨answer,after⟩ := result
  rcases answer with error | _
  · exact cleared.1
  · exact (markCleared_agrees after name).holds cleared.1
      (wellMarked_markCleared cleared.1 cleared.2 name)

theorem wellMarked_run [TextBuffer β] (marked : session.inMemory.WellMarked)
    (commands : List SessionCommand) : (session.run commands).2.inMemory.WellMarked := by
  induction commands generalizing session with
  | nil => exact marked
  | cons command commands ih =>
    apply ih
    cases command with
    | mark name => exact wellMarked_mark marked name
    | clear => exact (wellMarked_clear marked).1
    | setStatus index status =>
      exact (setStatus_agrees session index status).holds marked (wellMarked_setStatus marked index status)
    | unmark index =>
      exact (unmark_agrees session index).holds marked (wellMarked_unmark marked index)

theorem rows_markCleared [TextBuffer β] (marked : session.inMemory.WellMarked)
    (nothing : session.marked = []) {name : Text} {count : Nat}
    (succeeds : (session.markCleared name).1 = .ok count) :
    ∃ spans : List Span, (session.markCleared name).2.inMemory.marked.map
      (session.markCleared name).2.inMemory.overlay.row = spans.map fun span => (span,some .fresh) := by
  rcases markCleared_agrees session name with ⟨reason,last,refused,_⟩ | ⟨answer,last,equal,expected⟩
  · rw [refused] at succeeds
    contradiction
  · rw [equal] at succeeds ⊢
    cases found : Sheet.startTags session.inMemory.buffer session.inMemory.limit name with
    | error error =>
      simp only [markCleared,found] at expected
      rw [← (Prod.mk.inj expected).1] at succeeds
      contradiction
    | ok spans =>
      have empty : Marks session.inMemory.overlay [] := nothing ▸ marked
      obtain ⟨after,tags,_,filled,_,_,rows⟩ := markCleared_memory empty found
      rw [filled] at expected
      refine ⟨spans,?_⟩
      rw [← (Prod.mk.inj expected).2]
      exact rows

theorem rows_mark [TextBuffer β] (marked : session.inMemory.WellMarked) {name : Text} {count : Nat}
    (succeeds : (session.mark name).1 = .ok count) :
    ∃ spans : List Span, (session.mark name).2.inMemory.marked.map
      (session.mark name).2.inMemory.overlay.row = spans.map fun span => (span,some .fresh) := by
  have cleared := wellMarked_clear marked
  rw [mark_eq] at succeeds ⊢
  generalize session.clear = result at cleared succeeds ⊢
  obtain ⟨answer,after⟩ := result
  rcases answer with error | _
  · contradiction
  · exact rows_markCleared cleared.1 cleared.2 succeeds

end Marks

end TagOverlay.Session
