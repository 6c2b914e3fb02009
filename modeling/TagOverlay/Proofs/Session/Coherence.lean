import TagOverlay.Buffer.LineList
import TagOverlay.Proofs.Session.Refusals

/-! Sessions after any run of commands, whatever the surface refuses. The tags have ids of their own, all that
is registered belongs to them, and a command that fails leaves all as it was or nothing at all. -/
namespace TagOverlay

/-- Whether the command first drops what was marked before. -/
def SessionCommand.restarts : SessionCommand → Bool
  | mark _ | clear => true
  | setStatus _ _ | unmark _ => false

namespace Session

section Name

variable {β σ : Type} [TextBuffer β] [RenderSurface σ]

/-- Of the commands that drop what was marked, the last one has marked this name. -/
def MarkedLast (name : Text) (record : List (SessionCommand × Except SessionError SessionReply)) : Prop :=
  ∃ earlier reply later, record = earlier ++ (.mark name,.ok reply) :: later ∧
    ∀ entry ∈ later, entry.1.restarts = false

theorem markedLast_cons_iff {name : Text} {entry : SessionCommand × Except SessionError SessionReply}
    {record : List (SessionCommand × Except SessionError SessionReply)} :
    MarkedLast name (entry :: record) ↔ MarkedLast name record ∨
      (∃ reply, entry = (.mark name,.ok reply)) ∧ ∀ other ∈ record, other.1.restarts = false := by
  constructor
  · intro ⟨earlier,reply,later,whole,kept⟩
    cases earlier with
    | nil =>
      obtain ⟨rfl,rfl⟩ := List.cons.inj whole
      exact .inr ⟨⟨reply,rfl⟩,kept⟩
    | cons first earlier =>
      obtain ⟨_,rfl⟩ := List.cons.inj whole
      exact .inl ⟨earlier,reply,later,rfl,kept⟩
  · intro named
    rcases named with ⟨earlier,reply,later,rfl,kept⟩ | ⟨⟨reply,rfl⟩,kept⟩
    · exact ⟨entry :: earlier,reply,later,rfl,kept⟩
    · exact ⟨[],reply,record,rfl,kept⟩

theorem markCleared_cases (session : Session β σ) (name : Text) :
    (∃ error overlay, session.markCleared name = (.error error,{ session with overlay })) ∨
      ∃ overlay marked, session.markCleared name =
        (.ok marked.length,{ session with overlay,tagName := some name,marked }) := by
  unfold markCleared
  cases Sheet.startTags session.buffer session.limit name with
  | error error => exact .inl ⟨_,session.overlay,rfl⟩
  | ok spans =>
    dsimp only
    rcases session.overlay.addBatch spans .fresh with ⟨error | ids,overlay⟩
    · exact .inl ⟨_,overlay,rfl⟩
    · exact .inr ⟨overlay,_,rfl⟩

/-- A marking that fails, at whatever point, leaves no marked tag and no name. -/
theorem mark_cases (session : Session β σ) (name : Text) :
    (∃ error after, session.mark name = (.error error,after) ∧ after.tagName = none ∧ after.marked = []) ∨
      ∃ count after, session.mark name = (.ok count,after) ∧ after.tagName = some name := by
  have unnamed : session.clear.2.tagName = none := rfl
  have unmarked : session.clear.2.marked = [] := rfl
  rw [mark_eq]
  generalize session.clear = result at unnamed unmarked
  obtain ⟨error | _,cleared⟩ := result
  · exact .inl ⟨error,cleared,rfl,unnamed,unmarked⟩
  · dsimp only at unnamed unmarked ⊢
    rcases markCleared_cases cleared name with ⟨error,overlay,refused⟩ | ⟨overlay,marked,filled⟩
    · exact .inl ⟨error,_,refused,unnamed,unmarked⟩
    · exact .inr ⟨_,_,filled,rfl⟩

omit [TextBuffer β] in
theorem tagName_setStatus (session : Session β σ) (index : Nat) (status : ReviewStatus) :
    (session.setStatus index status).2.tagName = session.tagName := by
  unfold setStatus
  cases session.markedTag index with
  | error error => rfl
  | ok tag =>
    dsimp only
    rcases session.overlay.recolor (some tag.id) tag.span status with ⟨error | id,overlay⟩
    · rfl
    · rfl

omit [TextBuffer β] in
theorem tagName_unmark (session : Session β σ) (index : Nat) :
    (session.unmark index).2.tagName = session.tagName := by
  unfold unmark
  cases session.markedTag index with
  | error error => rfl
  | ok tag => rfl

theorem tagName_perform_iff (session : Session β σ) (command : SessionCommand) (name : Text) :
    (session.perform command).2.tagName = some name ↔
      (∃ reply, (command,(session.perform command).1) = (.mark name,.ok reply)) ∨
        session.tagName = some name ∧ command.restarts = false := by
  cases command with
  | mark given =>
    rcases mark_cases session given with ⟨error,after,failed,unnamed,_⟩ | ⟨count,after,marked,named⟩
    · simp [perform,failed,unnamed,Except.map,SessionCommand.restarts]
    · simp [perform,marked,named,Except.map,SessionCommand.restarts]
  | clear =>
    have unnamed : session.clear.2.tagName = none := rfl
    simp [perform,unnamed,SessionCommand.restarts]
  | setStatus index status => simp [perform,tagName_setStatus,SessionCommand.restarts]
  | unmark index => simp [perform,tagName_unmark,SessionCommand.restarts]

theorem tagName_run_iff (session : Session β σ) (commands : List SessionCommand) (name : Text) :
    (session.run commands).2.tagName = some name ↔
      MarkedLast name (commands.zip (session.run commands).1) ∨ session.tagName = some name ∧
        ∀ entry ∈ commands.zip (session.run commands).1, entry.1.restarts = false := by
  induction commands generalizing session with
  | nil => simp [run,MarkedLast]
  | cons command commands ih =>
    rw [run,List.zip_cons_cons,markedLast_cons_iff,List.forall_mem_cons]
    dsimp only
    rw [ih,tagName_perform_iff,or_and_right,or_assoc,and_assoc]

end Name

section Failure

variable {β σ : Type} [RenderSurface σ] [DrawsOrRefuses σ] {session : Session β σ} {error : SessionError}

theorem setStatus_of_error (marked : session.inMemory.WellMarked) {index : Nat} {status : ReviewStatus}
    (fails : (session.setStatus index status).1 = .error error) :
    (session.setStatus index status).2.inMemory = session.inMemory := by
  cases here : session.marked[index]? with
  | none => rw [setStatus_of_none here]
  | some tag =>
    rcases setStatus_agrees session index status with
      ⟨reason,after,refused,same⟩ | ⟨answer,after,equal,expected⟩
    · rw [refused,same]
    · obtain ⟨id,_,_,_,recolored,_⟩ := setStatus_memory marked here status
      rw [recolored] at expected
      rw [equal,← (Prod.mk.inj expected).1] at fails
      contradiction

theorem unmark_of_error (marked : session.inMemory.WellMarked) {index : Nat}
    (fails : (session.unmark index).1 = .error error) :
    (session.unmark index).2.inMemory = session.inMemory := by
  cases here : session.marked[index]? with
  | none => rw [unmark_of_none here]
  | some tag =>
    rcases unmark_agrees session index with ⟨reason,after,refused,same⟩ | ⟨answer,after,equal,expected⟩
    · rw [refused,same]
    · obtain ⟨_,_,unmarked,_⟩ := unmark_memory marked here
      rw [unmarked] at expected
      rw [equal,← (Prod.mk.inj expected).1] at fails
      contradiction

theorem registry_eq_empty {session : Session β MemorySurface} (marked : session.WellMarked)
    (nothing : session.marked = []) : session.registry = .empty := by
  apply Overlay.eq_empty_of_isEmpty
  refine List.isEmpty_iff.mpr (List.eq_nil_iff_forall_not_mem.mpr fun entry member => ?_)
  have known := marked.registered entry.1 (Registry.contains_iff.mpr (List.mem_map_of_mem member))
  rw [nothing] at known
  contradiction

theorem error_of_map {α γ : Type} {f : α → γ} {answer : Except SessionError α}
    (fails : answer.map f = .error error) : answer = .error error := by
  cases answer with
  | error reason => exact congrArg Except.error (Except.error.inj fails)
  | ok value => contradiction

variable [TextBuffer β]

/-- A command that does not drop what was marked changes nothing if it fails. -/
theorem perform_of_error (marked : session.inMemory.WellMarked) {command : SessionCommand}
    (goesOn : command.restarts = false) (fails : (session.perform command).1 = .error error) :
    (session.perform command).2.inMemory = session.inMemory := by
  cases command with
  | mark name => contradiction
  | clear => contradiction
  | setStatus index status => exact setStatus_of_error marked (error_of_map fails)
  | unmark index => exact unmark_of_error marked (error_of_map fails)

theorem restart_of_error (marked : session.inMemory.WellMarked) {command : SessionCommand}
    (restarts : command.restarts = true) (fails : (session.perform command).1 = .error error) :
    (session.perform command).2.marked = [] ∧ (session.perform command).2.registry = .empty := by
  have unmarked : (session.perform command).2.marked = [] := by
    cases command with
    | mark name =>
      rcases mark_cases session name with ⟨_,after,failed,_,unmarked⟩ | ⟨count,after,succeeded,_⟩
      · rw [perform,failed]
        exact unmarked
      · have failed : (session.mark name).1 = .error error := error_of_map fails
        rw [succeeded] at failed
        contradiction
    | clear => rfl
    | setStatus index status => contradiction
    | unmark index => contradiction
  have kept := wellMarked_run marked [command]
  exact ⟨unmarked,registry_eq_empty kept unmarked⟩

end Failure

variable {β σ : Type} [TextBuffer β] [RenderSurface σ] [DrawsOrRefuses σ]

theorem session_stays_coherent (surface : σ) (sound : (drawn surface).Sound) (buffer : β) (limit : Nat)
    (commands : List SessionCommand) :
    let session := (Session.new buffer surface).withLimit limit
    let last := (session.run commands).2
    (last.marked.map (·.id)).Nodup ∧
    (∀ tag ∈ last.marked, ∀ span, last.registry.spanOf? tag.id = some span → span = tag.span) ∧
    (∀ id, last.registry.contains id → ∃ tag ∈ last.marked, tag.id = id) ∧
    (∀ name, last.tagName = some name ↔ MarkedLast name (commands.zip (session.run commands).1)) ∧
    ∀ command error, (last.perform command).1 = .error error →
      (command.restarts = false → (last.perform command).2.inMemory = last.inMemory) ∧
      (command.restarts = true →
        (last.perform command).2.marked = [] ∧ (last.perform command).2.registry = .empty) := by
  intro session last
  have fresh : session.inMemory.WellMarked := Marks.nothing sound rfl
  have marked : last.inMemory.WellMarked := wellMarked_run fresh commands
  refine ⟨marked.nodup,?_,?_,?_,?_⟩
  · intro tag member span registered
    obtain ⟨style?,shown⟩ := marked.shows tag member
    have known : last.registry.spanOf? tag.id = style?.map fun _ => tag.span := shown.1
    rw [registered] at known
    obtain ⟨_,_,same⟩ := Option.map_eq_some_iff.mp known.symm
    exact same.symm
  · intro id registered
    exact List.mem_map.mp (marked.registered id registered)
  · intro name
    rw [tagName_run_iff]
    exact or_iff_left fun unnamed => Option.some_ne_none name unnamed.1.symm
  · intro command error fails
    exact ⟨fun goesOn => perform_of_error marked goesOn fails,
      fun restarts => restart_of_error marked restarts fails⟩

/-- The recoloring and the second marking are refused, the latter when it clears. -/
theorem refused_marking_leaves_nothing :
    let surface : MoodySurface := ⟨.empty,[none,some "busy",none,some "busy"]⟩
    let session := (Session.new (LineList.ofList [['<','a','>','<','b','>']]) surface).withLimit 9
    let last := (session.run [.mark ['a'],.setStatus 0 .current,.setStatus 0 .done]).2
    (drawn surface).Sound ∧ last.tagName = some ['a'] ∧ last.marked.map (·.id) = [MemorySurface.idOf 2] ∧
      (last.perform (.mark ['b'])).1 = .error (.surface (.rejected "busy")) ∧
      (last.perform (.mark ['b'])).2.marked = [] ∧ (last.perform (.mark ['b'])).2.registry = .empty := by
  refine ⟨MemorySurface.sound_of_attached_nil rfl,by decide,by decide,by decide,?_⟩
  have coherent := session_stays_coherent (MoodySurface.mk .empty [none,some "busy",none,some "busy"])
    (MemorySurface.sound_of_attached_nil rfl) (LineList.ofList [['<','a','>','<','b','>']]) 9
    [.mark ['a'],.setStatus 0 .current,.setStatus 0 .done]
  have failure := coherent.2.2.2.2 (.mark ['b']) (.surface (.rejected "busy")) (by decide)
  exact failure.2 rfl

end Session

end TagOverlay
