import TagOverlay.Proofs.Decoration.DrawsOrRefuses

/-! What the operations of an overlay do in memory: some decorations are taken off the surface and out
of the registry, and new ones come in under ids that were never given out. -/
namespace TagOverlay.Overlay
open Entries (Distinct valueOf? valueOf?_cons valueOf?_eq_none_iff)

/-- The decorations under the ids in `gone` have left both sides, and those in `new` have come. -/
structure Exchange (before after : Overlay MemorySurface) (gone : List DecorationId)
    (new : List (DecorationId × Decoration)) : Prop where
  sound : after.surface.Sound
  distinct : Distinct new
  unissued : ∀ id ∈ new.map (·.1), ¬ before.surface.Issued id
  issued : ∀ id, after.surface.Issued id ↔ before.surface.Issued id ∨ id ∈ new.map (·.1)
  span : ∀ id, after.registry.spanOf? id =
    ((valueOf? new id).map (·.span)).or (if id ∈ gone then none else before.registry.spanOf? id)
  drawn : ∀ id, after.surface.get? id =
    (valueOf? new id).or (if id ∈ gone then none else before.surface.get? id)

/-- Nothing is drawn that is not registered. -/
def Covers (overlay : Overlay MemorySurface) : Prop :=
  ∀ id, overlay.registry.spanOf? id = none → overlay.surface.get? id = none

theorem exchange_of_update {before : Overlay MemorySurface} (sound : before.surface.Sound)
    (gone : List DecorationId) (decorations : List Decoration) (registry : Registry)
    (span : ∀ id, registry.spanOf? id =
      ((valueOf? (((before.surface.detach gone).attach decorations).1.zip decorations) id).map
        (·.span)).or (if id ∈ gone then none else before.registry.spanOf? id)) :
    Exchange before ⟨registry,((before.surface.detach gone).attach decorations).2⟩ gone
      (((before.surface.detach gone).attach decorations).1.zip decorations) := by
  have keys : (((before.surface.detach gone).attach decorations).1.zip decorations).map (·.1) =
      ((before.surface.detach gone).attach decorations).1 :=
    List.map_fst_zip (Nat.le_of_eq (MemorySurface.length_attach_ids ..))
  have kept := sound.detach gone
  have unissued : ∀ id ∈ (((before.surface.detach gone).attach decorations).1.zip
      decorations).map (·.1), ¬ (before.surface.detach gone).Issued id := by
    rw [keys]
    intro id member
    exact MemorySurface.not_issued_of_mem_attach member
  constructor
  · exact kept.attach decorations
  · exact MemorySurface.distinct_zip_attach ..
  · exact unissued
  · rw [keys]
    exact MemorySurface.issued_attach_iff _ _
  · exact span
  · intro id
    rw [MemorySurface.get?_attach,← MemorySurface.get?_detach sound]
    cases found : valueOf? (((before.surface.detach gone).attach decorations).1.zip decorations) id with
    | none => rw [Option.or_none,Option.none_or]
    | some decoration =>
      have member := List.mem_map_of_mem (f := (·.1)) (Entries.mem_of_valueOf? found)
      rw [kept.get?_eq_none (unissued id member),Option.none_or,Option.some_or]

theorem Exchange.reveal {before after : Overlay MemorySurface} {gone : List DecorationId}
    {new : List (DecorationId × Decoration)} (exchange : Exchange before after gone new) (line : Nat) :
    Exchange before ⟨after.registry,RenderSurface.reveal after.surface line⟩ gone new where
  sound := ⟨exchange.sound.distinct,exchange.sound.issued⟩
  distinct := exchange.distinct
  unissued := exchange.unissued
  issued := exchange.issued
  span := exchange.span
  drawn := exchange.drawn

section Lookup

variable {before after : Overlay MemorySurface} {gone : List DecorationId}
    {new : List (DecorationId × Decoration)}

theorem Exchange.of_new (exchange : Exchange before after gone new) {id : DecorationId}
    {decoration : Decoration} (member : (id,decoration) ∈ new) :
    after.registry.spanOf? id = some decoration.span ∧ after.surface.get? id = some decoration := by
  have found := Entries.valueOf?_of_mem exchange.distinct member
  rw [exchange.span,exchange.drawn,found]
  exact ⟨rfl,rfl⟩

theorem Exchange.of_issued (exchange : Exchange before after gone new) {id : DecorationId}
    (issued : before.surface.Issued id) :
    after.registry.spanOf? id = (if id ∈ gone then none else before.registry.spanOf? id) ∧
      after.surface.get? id = if id ∈ gone then none else before.surface.get? id := by
  have notNew : valueOf? new id = none :=
    valueOf?_eq_none_iff.mpr fun member => exchange.unissued id member issued
  rw [exchange.span,exchange.drawn,notNew]
  exact ⟨rfl,rfl⟩

theorem Exchange.contains (exchange : Exchange before after gone new) {id : DecorationId}
    (registered : after.registry.contains id) :
    id ∈ new.map (·.1) ∨ id ∉ gone ∧ before.registry.contains id := by
  obtain ⟨span,found⟩ := Registry.contains_iff_exists.mp registered
  rw [exchange.span] at found
  rcases Option.or_eq_some_iff.mp found with fresh | ⟨_,old⟩
  · obtain ⟨decoration,isNew,_⟩ := Option.map_eq_some_iff.mp fresh
    exact .inl (List.mem_map_of_mem (f := (·.1)) (Entries.mem_of_valueOf? isNew))
  · by_cases left : id ∈ gone
    · rw [if_pos left] at old
      contradiction
    · rw [if_neg left] at old
      exact .inr ⟨left,Registry.contains_iff_exists.mpr ⟨span,old⟩⟩

theorem Exchange.covers (exchange : Exchange before after gone new) (covers : before.Covers) :
    after.Covers := by
  intro id missing
  rw [exchange.span,Option.or_eq_none_iff,Option.map_eq_none_iff] at missing
  obtain ⟨notNew,notKept⟩ := missing
  rw [exchange.drawn,notNew,Option.none_or]
  split
  next => rfl
  next kept =>
    rw [if_neg kept] at notKept
    exact covers id notKept

end Lookup

theorem exchange_same {overlay : Overlay MemorySurface} (sound : overlay.surface.Sound) :
    Exchange overlay overlay [] [] where
  sound := sound
  distinct := .nil
  unissued _ member := absurd member List.not_mem_nil
  issued _ := (or_iff_left List.not_mem_nil).symm
  span _ := rfl
  drawn _ := rfl

theorem eq_empty_of_isEmpty {registry : Registry} (nothing : registry.isEmpty) : registry = .empty := by
  obtain ⟨entries,nodup⟩ := registry
  obtain rfl : entries = [] := List.isEmpty_iff.mp nothing
  rfl

theorem registry_reset {σ : Type} [RenderSurface σ] (overlay : Overlay σ) :
    overlay.reset.2.registry = .empty := by
  unfold reset
  split
  next nothing => exact eq_empty_of_isEmpty nothing
  next => split <;> rfl

theorem reset_memory {overlay : Overlay MemorySurface} (sound : overlay.surface.Sound) :
    ∃ after, overlay.reset = (.ok (),after) ∧
      Exchange overlay after overlay.registry.ids [] := by
  unfold reset
  split
  next nothing =>
    rw [eq_empty_of_isEmpty nothing]
    exact ⟨overlay,rfl,exchange_same sound⟩
  next =>
    rw [update_memory]
    refine ⟨_,rfl,exchange_of_update sound _ [] _ ?_⟩
    intro id
    change none = if id ∈ overlay.registry.ids then none else overlay.registry.spanOf? id
    split
    next => rfl
    next missing =>
      symm
      rw [Registry.spanOf?_eq_none_iff,← Registry.mem_ids_iff]
      exact missing

theorem addBatch_memory {overlay : Overlay MemorySurface} (sound : overlay.surface.Sound)
    (spans : List Span) (style : Style) :
    ∃ ids after, overlay.addBatch spans style = (.ok ids,after) ∧ ids.length = spans.length ∧
      Exchange overlay after [] (ids.zip (spans.map fun span => ⟨span,style⟩)) := by
  cases spans with
  | nil => exact ⟨[],overlay,rfl,rfl,exchange_same sound⟩
  | cons first rest =>
    let decorations : List Decoration := (first :: rest).map fun span => ⟨span,style⟩
    let ids : List DecorationId := ((overlay.surface.detach []).attach decorations).1
    have complete : ids.length = (first :: rest).length := by
      rw [MemorySurface.length_attach_ids,List.length_map]
    refine ⟨ids,_,addBatch_of_answer overlay first rest style (update_memory ..) complete,complete,?_⟩
    refine Exchange.reveal (exchange_of_update sound [] decorations
      (overlay.registry.insertAll (ids.zip (first :: rest))) ?_) _
    intro id
    have pairs : Distinct (ids.zip (first :: rest)) := by
      rw [Distinct,List.map_fst_zip (Nat.le_of_eq complete)]
      exact MemorySurface.nodup_attach_ids ..
    have registered : (valueOf? (ids.zip decorations) id).map (·.span) =
        valueOf? (ids.zip (first :: rest)) id := by
      rw [List.zip_map_right,Entries.valueOf?_map,Option.map_map]
      exact congrFun Option.map_id_fun' _
    rw [registered,Registry.spanOf?_insertAll _ pairs]
    rfl

theorem remove_memory {overlay : Overlay MemorySurface} (sound : overlay.surface.Sound)
    (id : DecorationId) :
    ∃ after, overlay.remove id = (.ok (overlay.registry.contains id),after) ∧
      Exchange overlay after (if overlay.registry.contains id then [id] else []) [] := by
  unfold remove
  split
  next known =>
    rw [update_memory,known]
    refine ⟨_,rfl,exchange_of_update sound [id] [] _ ?_⟩
    intro other
    rw [Registry.spanOf?_erase]
    simp [Entries.valueOf?_nil]
  next unknown =>
    rw [Bool.eq_false_iff.mpr unknown]
    exact ⟨overlay,rfl,exchange_same sound⟩

theorem recolor_memory {overlay : Overlay MemorySurface} (sound : overlay.surface.Sound)
    (id? : Option DecorationId) (span : Span) (status : ReviewStatus) :
    ∃ id after, overlay.recolor id? span status = (.ok id,after) ∧
      Exchange overlay after (id?.filter overlay.registry.contains).toList
        [(id,⟨span,status.style⟩)] := by
  unfold recolor
  cases id?.filter overlay.registry.contains with
  | none =>
    obtain ⟨ids,after,answer,complete,exchange⟩ := addBatch_memory sound [span] status.style
    obtain ⟨id,rfl⟩ := List.length_eq_one_iff.mp complete
    dsimp only
    rw [answer]
    exact ⟨id,after,rfl,exchange⟩
  | some old =>
    dsimp only
    rw [update_memory]
    let id := MemorySurface.idOf (overlay.surface.issued + 1)
    refine ⟨id,_,rfl,exchange_of_update sound [old] [⟨span,status.style⟩]
      ((overlay.registry.erase old).insert id span) ?_⟩
    intro other
    change _ = ((valueOf? [(id,Decoration.mk span status.style)] other).map (·.span)).or _
    simp only [Registry.spanOf?_insert,Registry.spanOf?_erase,List.mem_singleton,valueOf?_cons]
    split
    next same => rw [if_pos same.symm]; rfl
    next different => rw [if_neg (Ne.symm different)]; rfl

end TagOverlay.Overlay
