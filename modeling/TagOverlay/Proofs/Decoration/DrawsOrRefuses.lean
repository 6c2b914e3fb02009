import TagOverlay.Decoration.Overlay
import TagOverlay.Proofs.Decoration.Lookup

/-! Surfaces that may refuse any update, and otherwise draw in memory. An operation of an overlay on
such a surface either is refused or does what it does in memory, where nothing is refused. -/
namespace TagOverlay

class DrawsOrRefuses (σ : Type) [RenderSurface σ] where
  drawn : σ → MemorySurface
  update_cases (surface : σ) (remove : List DecorationId) (add : List Decoration) :
    (∃ reason next, RenderSurface.update surface remove add = (.error (.rejected reason),next) ∧
      drawn next = drawn surface) ∨
    ∃ next, RenderSurface.update surface remove add =
      (.ok (((drawn surface).detach remove).attach add).1,next) ∧
      drawn next = (((drawn surface).detach remove).attach add).2
  drawn_reveal (surface : σ) (line : Nat) :
    drawn (RenderSurface.reveal surface line) = RenderSurface.reveal (drawn surface) line

export DrawsOrRefuses (drawn)

instance : DrawsOrRefuses MemorySurface where
  drawn surface := surface
  update_cases _ _ _ := .inr ⟨_,rfl,rfl⟩
  drawn_reveal _ _ := rfl

/-- Draws in memory, but refuses the calls that it has a reason to refuse. -/
structure MoodySurface where
  memory : MemorySurface
  /-- The reasons for the calls to come, the next one first. -/
  moods : List (Option String)

namespace MoodySurface

instance : RenderSurface MoodySurface where
  update surface remove add :=
    match surface.moods.head?.join with
    | some reason => (.error (.rejected reason),{ surface with moods := surface.moods.tail })
    | none =>
        (.ok ((surface.memory.detach remove).attach add).1,
          ⟨((surface.memory.detach remove).attach add).2,surface.moods.tail⟩)
  reveal surface line := { surface with memory := RenderSurface.reveal surface.memory line }

instance : DrawsOrRefuses MoodySurface where
  drawn := memory
  update_cases surface remove add := by
    unfold RenderSurface.update
    simp only [instRenderSurface]
    split
    next reason _ => exact .inl ⟨reason,_,rfl,rfl⟩
    next => exact .inr ⟨_,rfl,rfl⟩
  drawn_reveal _ _ := rfl

end MoodySurface

namespace Overlay

variable {σ : Type} [RenderSurface σ] [DrawsOrRefuses σ]

def inMemory (overlay : Overlay σ) : Overlay MemorySurface :=
  ⟨overlay.registry,drawn overlay.surface⟩

/-- An answer and the overlay after it are those in memory, unless the surface has refused. -/
def Agrees {α : Type} (result : Except SurfaceError α × Overlay σ)
    (refused : Overlay MemorySurface)
    (expected : Except SurfaceError α × Overlay MemorySurface) : Prop :=
  (∃ reason after, result = (.error (.rejected reason),after) ∧ after.inMemory = refused) ∨
    ∃ answer after, result = (answer,after) ∧ expected = (answer,after.inMemory)

theorem inMemory_of_drawn (registry : Registry) {surface : σ} {memory : MemorySurface}
    (same : drawn surface = memory) : (Overlay.mk registry surface).inMemory = ⟨registry,memory⟩ := by
  rw [inMemory,same]

theorem update_memory (surface : MemorySurface) (remove : List DecorationId) (add : List Decoration) :
    RenderSurface.update surface remove add =
      (.ok ((surface.detach remove).attach add).1,((surface.detach remove).attach add).2) := rfl

theorem reset_agrees (overlay : Overlay σ) :
    Agrees overlay.reset ⟨.empty,drawn overlay.surface⟩ overlay.inMemory.reset := by
  unfold reset
  change Agrees (if overlay.registry.isEmpty then _ else _) _ (if overlay.registry.isEmpty then _ else _)
  split
  next => exact .inr ⟨_,_,rfl,rfl⟩
  next =>
    rcases DrawsOrRefuses.update_cases overlay.surface overlay.registry.ids [] with
      ⟨reason,next,answer,same⟩ | ⟨next,answer,same⟩
    · rw [answer]
      exact .inl ⟨reason,_,rfl,inMemory_of_drawn _ same⟩
    · rw [answer,update_memory]
      exact .inr ⟨_,_,rfl,by rw [inMemory_of_drawn _ same]; rfl⟩

theorem remove_agrees (overlay : Overlay σ) (id : DecorationId) :
    Agrees (overlay.remove id) overlay.inMemory (overlay.inMemory.remove id) := by
  unfold remove
  change Agrees (if overlay.registry.contains id then _ else _) _
    (if overlay.registry.contains id then _ else _)
  split
  next =>
    rcases DrawsOrRefuses.update_cases overlay.surface [id] [] with
      ⟨reason,next,answer,same⟩ | ⟨next,answer,same⟩
    · rw [answer]
      exact .inl ⟨reason,_,rfl,inMemory_of_drawn _ same⟩
    · rw [answer,update_memory]
      exact .inr ⟨_,_,rfl,by rw [inMemory_of_drawn _ same]; rfl⟩
  next => exact .inr ⟨_,_,rfl,rfl⟩

omit [DrawsOrRefuses σ] in
theorem addBatch_of_answer (overlay : Overlay σ) (first : Span) (rest : List Span) (style : Style)
    {ids : List DecorationId} {next : σ}
    (answer : RenderSurface.update overlay.surface []
      ((first :: rest).map fun span => ⟨span,style⟩) = (.ok ids,next))
    (complete : ids.length = (first :: rest).length) :
    overlay.addBatch (first :: rest) style =
      (.ok ids,⟨overlay.registry.insertAll (ids.zip (first :: rest)),
        RenderSurface.reveal next first.start.line⟩) := by
  have noSurplus : ¬ (first :: rest).length < ids.length := by omega
  have noGap : ¬ ids.length < (first :: rest).length := by omega
  simp only [addBatch,answer,if_neg noSurplus,if_neg noGap]

theorem addBatch_agrees (overlay : Overlay σ) (spans : List Span) (style : Style) :
    Agrees (overlay.addBatch spans style) overlay.inMemory (overlay.inMemory.addBatch spans style) := by
  cases spans with
  | nil => exact .inr ⟨_,_,rfl,rfl⟩
  | cons first rest =>
    let decorations : List Decoration := (first :: rest).map fun span => ⟨span,style⟩
    rcases DrawsOrRefuses.update_cases overlay.surface [] decorations with
      ⟨reason,next,answer,same⟩ | ⟨next,answer,same⟩
    · have refused : overlay.addBatch (first :: rest) style =
          (.error (.rejected reason),{ overlay with surface := next }) := by
        simp only [addBatch]
        rw [answer]
      exact .inl ⟨reason,_,refused,inMemory_of_drawn _ same⟩
    · have complete : (((drawn overlay.surface).detach []).attach decorations).1.length =
          (first :: rest).length := by
        rw [MemorySurface.length_attach_ids,List.length_map]
      have memory := update_memory overlay.inMemory.surface [] decorations
      rw [addBatch_of_answer overlay first rest style answer complete,
        addBatch_of_answer overlay.inMemory first rest style memory complete]
      refine .inr ⟨_,_,rfl,?_⟩
      rw [inMemory_of_drawn _ (DrawsOrRefuses.drawn_reveal ..),same]
      rfl

theorem recolor_agrees (overlay : Overlay σ) (id? : Option DecorationId) (span : Span)
    (status : ReviewStatus) :
    Agrees (overlay.recolor id? span status) overlay.inMemory
      (overlay.inMemory.recolor id? span status) := by
  cases chosen : id?.filter overlay.registry.contains with
  | none =>
    have alsoChosen : id?.filter overlay.inMemory.registry.contains = none := chosen
    simp only [recolor,chosen,alsoChosen]
    rcases addBatch_agrees overlay [span] status.style with
      ⟨reason,after,added,same⟩ | ⟨answer,after,added,expected⟩
    · rw [added]
      exact .inl ⟨reason,after,rfl,same⟩
    · rw [added,expected]
      rcases answer with error | ids
      · exact .inr ⟨_,after,rfl,rfl⟩
      · dsimp only
        cases ids.getLast? with
        | none => exact .inr ⟨_,after,rfl,rfl⟩
        | some id => exact .inr ⟨_,after,rfl,rfl⟩
  | some old =>
    have alsoChosen : id?.filter overlay.inMemory.registry.contains = some old := chosen
    simp only [recolor,chosen,alsoChosen]
    rcases DrawsOrRefuses.update_cases overlay.surface [old] [⟨span,status.style⟩] with
      ⟨reason,next,answer,same⟩ | ⟨next,answer,same⟩
    · rw [answer]
      exact .inl ⟨reason,_,rfl,inMemory_of_drawn _ same⟩
    · rw [answer,update_memory]
      have onlyId := MemorySurface.attach_ids ((drawn overlay.surface).detach [old])
        [⟨span,status.style⟩]
      rw [List.length_singleton,List.range'_one,List.map_singleton] at onlyId
      rw [onlyId]
      exact .inr ⟨_,_,rfl,by rw [inMemory_of_drawn _ same]; rfl⟩

end Overlay

end TagOverlay
