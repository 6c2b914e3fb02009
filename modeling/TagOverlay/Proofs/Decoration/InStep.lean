import TagOverlay.Proofs.Decoration.Exchange

/-! The registry and the surface stay in step, whatever the surface refuses: what is registered is
drawn, and what is drawn is registered as long as no reset has been refused. -/
namespace TagOverlay

inductive OverlayCommand where
  | addBatch (spans : List Span) (style : Style)
  | recolor (id? : Option DecorationId) (span : Span) (status : ReviewStatus)
  | remove (id : DecorationId)
  | reset
deriving DecidableEq

namespace Overlay

section Run

variable {σ : Type} [RenderSurface σ]

def perform (overlay : Overlay σ) : OverlayCommand → Except SurfaceError Unit × Overlay σ
  | .addBatch spans style => (overlay.addBatch spans style).map (Except.map fun _ => ()) id
  | .recolor id? span status => (overlay.recolor id? span status).map (Except.map fun _ => ()) id
  | .remove target => (overlay.remove target).map (Except.map fun _ => ()) id
  | .reset => overlay.reset

def run (overlay : Overlay σ) :
    List OverlayCommand → List (OverlayCommand × Except SurfaceError Unit) × Overlay σ
  | [] => ([],overlay)
  | command :: commands =>
      let result := overlay.perform command
      ((command,result.1) :: (result.2.run commands).1,(result.2.run commands).2)

end Run

/-- What a refused command leaves in memory: only a reset still forgets what was registered. -/
def afterRefusal (overlay : Overlay MemorySurface) : OverlayCommand → Overlay MemorySurface
  | .reset => ⟨.empty,overlay.surface⟩
  | _ => overlay

structure InStep (overlay : Overlay MemorySurface) : Prop where
  sound : overlay.surface.Sound
  /-- What is registered is drawn over the same span. -/
  tracks : ∀ id span, overlay.registry.spanOf? id = some span →
    ∃ style, overlay.surface.get? id = some ⟨span,style⟩

theorem InStep.issued {overlay : Overlay MemorySurface} (inStep : overlay.InStep) {id : DecorationId}
    (registered : overlay.registry.contains id) : overlay.surface.Issued id := by
  obtain ⟨span,found⟩ := Registry.contains_iff_exists.mp registered
  obtain ⟨style,drawn⟩ := inStep.tracks id span found
  refine Classical.not_not.mp fun new => ?_
  exact Option.some_ne_none _ (drawn.symm.trans (inStep.sound.get?_eq_none new))

section Exchange

variable {before after : Overlay MemorySurface} {gone : List DecorationId}
    {new : List (DecorationId × Decoration)}

theorem Exchange.inStep (exchange : Exchange before after gone new) (inStep : before.InStep) :
    after.InStep := by
  refine ⟨exchange.sound,?_⟩
  intro id span registered
  rw [exchange.span] at registered
  rw [exchange.drawn]
  cases found : Entries.valueOf? new id with
  | some decoration =>
    rw [found] at registered
    obtain rfl : decoration.span = span := Option.some_inj.mp registered
    exact ⟨decoration.style,rfl⟩
  | none =>
    rw [found,Option.map_none,Option.none_or] at registered
    rw [Option.none_or]
    split at registered
    next => contradiction
    next kept =>
      rw [if_neg kept]
      exact inStep.tracks id span registered

end Exchange

theorem inStep_afterRefusal {overlay : Overlay MemorySurface} (inStep : overlay.InStep)
    (command : OverlayCommand) : (overlay.afterRefusal command).InStep := by
  cases command with
  | reset => exact ⟨inStep.sound,fun _ _ registered => nomatch registered⟩
  | _ => exact inStep

/-- In memory a command exchanges decorations, and those that leave had been registered. -/
theorem perform_memory {overlay : Overlay MemorySurface} (sound : overlay.surface.Sound)
    (command : OverlayCommand) :
    ∃ after gone new, overlay.perform command = (.ok (),after) ∧ Exchange overlay after gone new ∧
      ∀ id ∈ gone, overlay.registry.contains id := by
  cases command with
  | addBatch spans style =>
    obtain ⟨ids,after,answer,_,exchange⟩ := addBatch_memory sound spans style
    exact ⟨after,_,_,by rw [perform,answer]; rfl,exchange,fun _ member => absurd member List.not_mem_nil⟩
  | recolor id? span status =>
    obtain ⟨id,after,answer,exchange⟩ := recolor_memory sound id? span status
    refine ⟨after,_,_,by rw [perform,answer]; rfl,exchange,?_⟩
    intro old chosen
    exact (Option.filter_eq_some_iff.mp (Option.mem_toList.mp chosen)).2
  | remove id =>
    obtain ⟨after,answer,exchange⟩ := remove_memory sound id
    refine ⟨after,_,_,by rw [perform,answer]; rfl,exchange,?_⟩
    intro target member
    split at member
    next known => exact List.mem_singleton.mp member ▸ known
    next => contradiction
  | reset =>
    obtain ⟨after,answer,exchange⟩ := reset_memory sound
    exact ⟨after,_,_,answer,exchange,fun _ => Registry.mem_ids_iff.mp⟩

variable {σ : Type} [RenderSurface σ] [DrawsOrRefuses σ]

theorem Agrees.map {α β : Type} {result : Except SurfaceError α × Overlay σ}
    {refused : Overlay MemorySurface} {expected : Except SurfaceError α × Overlay MemorySurface}
    (agrees : Agrees result refused expected) (f : α → β) :
    Agrees (result.map (Except.map f) id) refused (expected.map (Except.map f) id) := by
  rcases agrees with ⟨reason,after,refusal,same⟩ | ⟨answer,after,equal,expectation⟩
  · exact .inl ⟨reason,after,by rw [refusal]; rfl,same⟩
  · exact .inr ⟨answer.map f,after,by rw [equal]; rfl,by rw [expectation]; rfl⟩

theorem perform_agrees (overlay : Overlay σ) (command : OverlayCommand) :
    Agrees (overlay.perform command) (overlay.inMemory.afterRefusal command)
      (overlay.inMemory.perform command) := by
  cases command with
  | addBatch spans style => exact (addBatch_agrees overlay spans style).map _
  | recolor id? span status => exact (recolor_agrees overlay id? span status).map _
  | remove id => exact (remove_agrees overlay id).map _
  | reset => exact reset_agrees overlay

/-- A command is refused, and then only a reset has an effect, or exchanges decorations. -/
theorem perform_cases {overlay : Overlay σ} (sound : overlay.inMemory.surface.Sound)
    (command : OverlayCommand) :
    (∃ reason, (overlay.perform command).1 = .error (.rejected reason) ∧
      (overlay.perform command).2.inMemory = overlay.inMemory.afterRefusal command) ∨
    (overlay.perform command).1 = .ok () ∧
      ∃ gone new, Exchange overlay.inMemory (overlay.perform command).2.inMemory gone new := by
  rcases perform_agrees overlay command with ⟨reason,after,refused,same⟩ | ⟨answer,after,equal,expected⟩
  · rw [refused]
    exact .inl ⟨reason,rfl,same⟩
  · obtain ⟨memory,gone,new,performed,exchange,_⟩ := perform_memory sound command
    rw [performed] at expected
    obtain ⟨rfl,rfl⟩ := Prod.mk.inj expected
    rw [equal]
    exact .inr ⟨rfl,gone,new,exchange⟩

theorem inStep_perform {overlay : Overlay σ} (inStep : overlay.inMemory.InStep)
    (command : OverlayCommand) : (overlay.perform command).2.inMemory.InStep := by
  rcases perform_cases inStep.sound command with ⟨_,_,same⟩ | ⟨_,_,_,exchange⟩
  · rw [same]
    exact inStep_afterRefusal inStep command
  · exact exchange.inStep inStep

theorem covers_perform {overlay : Overlay σ} (inStep : overlay.inMemory.InStep)
    (covers : overlay.inMemory.Covers) (command : OverlayCommand)
    (held : command = .reset → (overlay.perform command).1 = .ok ()) :
    (overlay.perform command).2.inMemory.Covers := by
  rcases perform_cases inStep.sound command with ⟨_,refused,same⟩ | ⟨_,_,_,exchange⟩
  · rw [same]
    cases command with
    | reset => exact absurd (refused.symm.trans (held rfl)) nofun
    | _ => exact covers
  · exact exchange.covers covers

theorem inStep_run {overlay : Overlay σ} (inStep : overlay.inMemory.InStep)
    (commands : List OverlayCommand) : (overlay.run commands).2.inMemory.InStep := by
  induction commands generalizing overlay with
  | nil => exact inStep
  | cons command commands ih => exact ih (inStep_perform inStep command)

theorem covers_run {overlay : Overlay σ} (inStep : overlay.inMemory.InStep)
    (covers : overlay.inMemory.Covers) (commands : List OverlayCommand)
    (held : ∀ entry ∈ (overlay.run commands).1, entry.1 = .reset → entry.2 = .ok ()) :
    (overlay.run commands).2.inMemory.Covers := by
  induction commands generalizing overlay with
  | nil => exact covers
  | cons command commands ih =>
    obtain ⟨first,later⟩ := List.forall_mem_cons.mp held
    exact ih (inStep_perform inStep command) (covers_perform inStep covers command first) later

theorem inStep_empty {surface : σ} (empty : (drawn surface).attached = []) :
    (Overlay.mk Registry.empty surface).inMemory.InStep :=
  ⟨MemorySurface.sound_of_attached_nil empty,fun _ _ registered => nomatch registered⟩

theorem contains_iff_isSome {overlay : Overlay MemorySurface} (inStep : overlay.InStep)
    (covers : overlay.Covers) (id : DecorationId) :
    overlay.registry.contains id ↔ (overlay.surface.get? id).isSome := by
  constructor
  · intro registered
    obtain ⟨span,found⟩ := Registry.contains_iff_exists.mp registered
    obtain ⟨style,there⟩ := inStep.tracks id span found
    exact Option.isSome_of_eq_some there
  · intro there
    refine Classical.not_not.mp fun missing => ?_
    rw [covers id (Registry.spanOf?_eq_none_iff.mpr missing)] at there
    exact Bool.noConfusion there

theorem registry_in_step_with_surface (surface : σ) (empty : (drawn surface).attached = [])
    (commands : List OverlayCommand) :
    let record := ((Overlay.mk Registry.empty surface).run commands).1
    let overlay := ((Overlay.mk Registry.empty surface).run commands).2
    (∀ id span, overlay.registry.spanOf? id = some span →
      ∃ style, (drawn overlay.surface).get? id = some ⟨span,style⟩) ∧
    (∀ command ≠ OverlayCommand.reset, ∀ error, (overlay.perform command).1 = .error error →
      (overlay.perform command).2.registry = overlay.registry ∧
        drawn (overlay.perform command).2.surface = drawn overlay.surface) ∧
    (overlay.perform .reset).2.registry = .empty ∧
    ((∀ entry ∈ record, entry.1 = .reset → entry.2 = .ok ()) → ∀ id,
      overlay.registry.contains id ↔ ((drawn overlay.surface).get? id).isSome) := by
  intro record overlay
  have inStep : overlay.inMemory.InStep := inStep_run (inStep_empty empty) commands
  refine ⟨inStep.tracks,?_,?_,?_⟩
  · intro command notReset error failed
    rcases perform_cases inStep.sound command with ⟨_,_,same⟩ | ⟨answer,_⟩
    · cases command with
      | reset => contradiction
      | _ => exact ⟨congrArg (·.registry) same,congrArg (·.surface) same⟩
    · exact absurd (failed.symm.trans answer) nofun
  · exact registry_reset overlay
  · intro held id
    have nothing : (Overlay.mk Registry.empty surface).inMemory.Covers := by
      intro id _
      change Entries.valueOf? (drawn surface).attached id = none
      rw [empty]
      rfl
    have covers : overlay.inMemory.Covers := covers_run (inStep_empty empty) nothing commands held
    exact contains_iff_isSome inStep covers id

theorem in_step_after_refused_recolor :
    (drawn (MoodySurface.mk .empty [none,some "busy"])).attached = [] ∧
      let overlay := ((Overlay.mk Registry.empty (MoodySurface.mk .empty [none,some "busy"])).run
        [.addBatch [⟨⟨1,1⟩,⟨1,4⟩⟩,⟨⟨2,1⟩,⟨2,4⟩⟩] .fresh,
          .recolor (some (MemorySurface.idOf 1)) ⟨⟨1,1⟩,⟨1,4⟩⟩ .done,
          .remove (MemorySurface.idOf 2)]).2
      ∀ id, overlay.registry.contains id ↔ ((drawn overlay.surface).get? id).isSome :=
  ⟨rfl,(registry_in_step_with_surface _ rfl _).2.2.2 (by decide)⟩

end Overlay

end TagOverlay
