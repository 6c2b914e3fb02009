import TagOverlay.Proofs.Decoration.InStep

/-! Decorations removed one by one, by a list of ids in any order. A registry and a surface that are in step lose
the same entries, those of the listed ids; an id that is unknown or was listed before changes nothing. So a batch
is undone by removing its ids. -/
namespace TagOverlay.Overlay

section Run

variable {σ : Type} [RenderSurface σ]

/-- Removes the ids one after the other, and gives the answers in this order. -/
def removeEach (overlay : Overlay σ) :
    List DecorationId → List (Except SurfaceError Bool) × Overlay σ
  | [] => ([],overlay)
  | id :: ids =>
      let result := overlay.remove id
      (result.1 :: (result.2.removeEach ids).1,(result.2.removeEach ids).2)

end Run

/-- What is left when the listed ids have gone from both sides, and all other entries have stayed. -/
structure Without (before : Overlay MemorySurface) (ids : List DecorationId) (after : Overlay MemorySurface) :
    Prop where
  inStep : after.InStep
  covers : after.Covers
  gone : ∀ id ∈ ids, after.registry.spanOf? id = none
  kept : ∀ id, id ∉ ids → after.registry.spanOf? id = before.registry.spanOf? id ∧
    after.surface.get? id = before.surface.get? id

namespace Without

variable {before middle after : Overlay MemorySurface} {first second ids : List DecorationId} {id : DecorationId}

theorem same {overlay : Overlay MemorySurface} (inStep : overlay.InStep) (covers : overlay.Covers) :
    Without overlay [] overlay :=
  ⟨inStep,covers,fun _ listed => absurd listed List.not_mem_nil,fun _ _ => ⟨rfl,rfl⟩⟩

theorem trans (left : Without before first middle) (right : Without middle second after) :
    Without before (first ++ second) after := by
  refine ⟨right.inStep,right.covers,?_,?_⟩
  · intro id listed
    by_cases later : id ∈ second
    · exact right.gone id later
    · rw [(right.kept id later).1]
      exact left.gone id ((List.mem_append.mp listed).resolve_right later)
  · intro id unlisted
    obtain ⟨notFirst,notSecond⟩ := not_or.mp (mt List.mem_append.mpr unlisted)
    obtain ⟨span,drawn⟩ := right.kept id notSecond
    obtain ⟨span',drawn'⟩ := left.kept id notFirst
    exact ⟨span.trans span',drawn.trans drawn'⟩

theorem span (without : Without before ids after) (id : DecorationId) :
    after.registry.spanOf? id = if id ∈ ids then none else before.registry.spanOf? id := by
  split
  next listed => exact without.gone id listed
  next unlisted => exact (without.kept id unlisted).1

theorem drawn (without : Without before ids after) (id : DecorationId) :
    after.surface.get? id = if id ∈ ids then none else before.surface.get? id := by
  split
  next listed => exact without.covers id (without.gone id listed)
  next unlisted => exact (without.kept id unlisted).2

theorem contains_iff (without : Without before ids after) (id : DecorationId) :
    after.registry.contains id ↔ id ∉ ids ∧ before.registry.contains id := by
  rw [Registry.contains_iff_exists,without.span,Registry.contains_iff_exists]
  split
  next listed => exact iff_of_false (fun ⟨_,found⟩ => nomatch found) fun ⟨unlisted,_⟩ => unlisted listed
  next unlisted => exact (and_iff_right unlisted).symm

end Without

variable {overlay : Overlay MemorySurface}

theorem remove_without (inStep : overlay.InStep) (covers : overlay.Covers) (id : DecorationId) :
    ∃ after, overlay.remove id = (.ok (overlay.registry.contains id),after) ∧ Without overlay [id] after := by
  obtain ⟨after,answer,exchange⟩ := remove_memory inStep.sound id
  suffices lookups : (∀ other ∈ [id], after.registry.spanOf? other = none) ∧ ∀ other, other ∉ [id] →
      after.registry.spanOf? other = overlay.registry.spanOf? other ∧
        after.surface.get? other = overlay.surface.get? other from
    ⟨after,answer,exchange.inStep inStep,exchange.covers covers,lookups.1,lookups.2⟩
  by_cases known : overlay.registry.contains id
  · rw [if_pos known] at exchange
    refine ⟨?_,?_⟩
    · intro other listed
      rw [exchange.span,if_pos listed]
      rfl
    · intro other unlisted
      rw [exchange.span,exchange.drawn,if_neg unlisted,if_neg unlisted]
      exact ⟨rfl,rfl⟩
  · rw [if_neg known] at exchange
    refine ⟨?_,?_⟩
    · intro other listed
      rw [exchange.span,List.mem_singleton.mp listed]
      exact Registry.spanOf?_eq_none_iff.mpr known
    · intro other _
      rw [exchange.span,exchange.drawn]
      exact ⟨rfl,rfl⟩

theorem removeEach_without (inStep : overlay.InStep) (covers : overlay.Covers) (ids : List DecorationId) :
    Without overlay ids (overlay.removeEach ids).2 := by
  induction ids generalizing overlay with
  | nil => exact .same inStep covers
  | cons id ids ih =>
    obtain ⟨after,answer,without⟩ := remove_without inStep covers id
    rw [removeEach,answer]
    exact without.trans (ih without.inStep without.covers)

/-- An id is found when it comes up for the first time, if it was registered. -/
theorem removeEach_answer (inStep : overlay.InStep) (covers : overlay.Covers) {ids : List DecorationId}
    {index : Nat} {id : DecorationId} (here : ids[index]? = some id) :
    ∃ found : Bool, (overlay.removeEach ids).1[index]? = some (.ok found) ∧
      (found ↔ overlay.registry.contains id ∧ id ∉ ids.take index) := by
  induction ids generalizing overlay index with
  | nil => contradiction
  | cons first ids ih =>
    obtain ⟨after,answer,without⟩ := remove_without inStep covers first
    rw [removeEach,answer]
    cases index with
    | zero =>
      obtain rfl : first = id := Option.some_inj.mp here
      exact ⟨_,rfl,(and_iff_left List.not_mem_nil).symm⟩
    | succ index =>
      obtain ⟨found,there,told⟩ := ih without.inStep without.covers here
      refine ⟨found,there,?_⟩
      rw [told,without.contains_iff,List.mem_singleton,List.take_succ_cons,List.mem_cons,not_or]
      rw [and_comm (a := id ≠ first),and_assoc]

theorem length_removeEach {σ : Type} [RenderSurface σ] (overlay : Overlay σ) (ids : List DecorationId) :
    (overlay.removeEach ids).1.length = ids.length := by
  induction ids generalizing overlay with
  | nil => rfl
  | cons id ids ih => rw [removeEach,List.length_cons,ih,List.length_cons]

/-- Decorations that have come on top of others are undone by removing their ids. -/
theorem Exchange.undone {batch after : Overlay MemorySurface} {new : List (DecorationId × Decoration)}
    {ids : List DecorationId} (added : Exchange overlay batch [] new) (inStep : overlay.InStep)
    (removed : Without batch ids after) (listed : ∀ id, id ∈ ids ↔ id ∈ new.map (·.1)) :
    after.registry.entries.Perm overlay.registry.entries ∧
      after.surface.attached.Perm overlay.surface.attached := by
  have lookups (id : DecorationId) : after.registry.spanOf? id = overlay.registry.spanOf? id ∧
      after.surface.get? id = overlay.surface.get? id := by
    by_cases member : id ∈ ids
    · have unissued := added.unissued id ((listed id).mp member)
      have unknown : overlay.registry.spanOf? id = none :=
        Registry.spanOf?_eq_none_iff.mpr fun known => unissued (inStep.issued known)
      rw [removed.span,removed.drawn,if_pos member,if_pos member,unknown,inStep.sound.get?_eq_none unissued]
      exact ⟨rfl,rfl⟩
    · have notNew := Entries.valueOf?_eq_none_iff.mpr (mt (listed id).mpr member)
      rw [removed.span,removed.drawn,if_neg member,if_neg member,added.span,added.drawn,notNew]
      exact ⟨rfl,rfl⟩
  exact ⟨Entries.perm_of_valueOf?_eq after.registry.nodup overlay.registry.nodup fun id => (lookups id).1,
    Entries.perm_of_valueOf?_eq removed.inStep.sound.distinct inStep.sound.distinct fun id => (lookups id).2⟩

theorem removal_undoes_batch (inStep : overlay.InStep) (covers : overlay.Covers) (spans : List Span)
    (style : Style) :
    let batch := (overlay.addBatch spans style).2
    ∃ ids, (overlay.addBatch spans style).1 = .ok ids ∧ ids.length = spans.length ∧
      (∀ listed, let removed := batch.removeEach listed
        removed.1.length = listed.length ∧
        (∀ (index : Nat) id, listed[index]? = some id → ∃ found : Bool, removed.1[index]? = some (.ok found) ∧
          (found ↔ batch.registry.contains id ∧ id ∉ listed.take index)) ∧
        (∀ id, removed.2.registry.spanOf? id = if id ∈ listed then none else batch.registry.spanOf? id) ∧
        ∀ id, removed.2.surface.get? id = if id ∈ listed then none else batch.surface.get? id) ∧
      ∀ listed, (∀ id, id ∈ listed ↔ id ∈ ids) →
        (batch.removeEach listed).2.registry.entries.Perm overlay.registry.entries ∧
        (batch.removeEach listed).2.surface.attached.Perm overlay.surface.attached := by
  intro batch
  obtain ⟨ids,after,answer,complete,added⟩ := addBatch_memory inStep.sound spans style
  obtain rfl : batch = after := congrArg (·.2) answer
  have inStepToo := added.inStep inStep
  have coversToo := added.covers covers
  refine ⟨ids,congrArg (·.1) answer,complete,?_,?_⟩
  · intro listed
    have without := removeEach_without inStepToo coversToo listed
    exact ⟨length_removeEach _ listed,fun _ _ => removeEach_answer inStepToo coversToo,without.span,without.drawn⟩
  · intro listed same
    refine added.undone inStep (removeEach_without inStepToo coversToo listed) ?_
    rw [List.map_fst_zip (Nat.le_of_eq (by rw [complete,List.length_map]))]
    exact same

/-- The same span is added twice over a recolored decoration. A second removal and an unknown id are answered
with false, and what was there before stays. -/
theorem doubled_span_added_and_removed :
    let span : Span := ⟨⟨1,1⟩,⟨1,4⟩⟩
    let overlay := ((Overlay.mk Registry.empty MemorySurface.empty).run
      [.addBatch [span] .fresh,.recolor (some (MemorySurface.idOf 1)) span .done]).2
    let batch := (overlay.addBatch [span,span] .fresh).2
    let listed := [MemorySurface.idOf 4,MemorySurface.idOf 1,MemorySurface.idOf 3,MemorySurface.idOf 4]
    let removed := batch.removeEach listed
    overlay.InStep ∧ overlay.Covers ∧ batch.registry.contains (MemorySurface.idOf 4) ∧
      removed.1[0]? = some (.ok true) ∧ removed.1[1]? = some (.ok false) ∧ removed.1[3]? = some (.ok false) ∧
      removed.2.registry.spanOf? (MemorySurface.idOf 2) = some span ∧
      (batch.removeEach [MemorySurface.idOf 4,MemorySurface.idOf 3]).2.registry.entries.Perm
        overlay.registry.entries ∧
      (batch.removeEach [MemorySurface.idOf 4,MemorySurface.idOf 3]).2.surface.attached.Perm
        overlay.surface.attached := by
  intro span overlay batch listed removed
  have empty : (drawn MemorySurface.empty).attached = [] := rfl
  have inStep : overlay.InStep := inStep_run (inStep_empty empty)
    [.addBatch [span] .fresh,.recolor (some (MemorySurface.idOf 1)) span .done]
  have covers : overlay.Covers := covers_run (inStep_empty empty) (fun _ _ => rfl)
    [.addBatch [span] .fresh,.recolor (some (MemorySurface.idOf 1)) span .done] (by decide)
  obtain ⟨ids,added,_,removes,undone⟩ := removal_undoes_batch inStep covers [span,span] .fresh
  have issued : (overlay.addBatch [span,span] .fresh).1 = .ok [MemorySurface.idOf 3,MemorySurface.idOf 4] := rfl
  obtain rfl := Except.ok.inj (issued.symm.trans added)
  obtain ⟨_,answers,spans,_⟩ := removes listed
  have answer (index : Nat) (id : DecorationId) (here : listed[index]? = some id) (expected : Bool)
      (known : expected ↔ batch.registry.contains id ∧ id ∉ listed.take index) :
      removed.1[index]? = some (.ok expected) := by
    obtain ⟨found,there,told⟩ := answers index id here
    rw [there,Bool.eq_iff_iff.mpr (told.trans known.symm)]
  have old : removed.2.registry.spanOf? (MemorySurface.idOf 2) = some span := by
    rw [spans,if_neg (by decide)]
    decide
  have restored := undone [MemorySurface.idOf 4,MemorySurface.idOf 3] (by simp [or_comm])
  refine ⟨inStep,covers,by decide,answer 0 _ rfl true (by decide),answer 1 _ rfl false (by decide),
    answer 3 _ rfl false (by decide),old,?_⟩
  dsimp only [batch]
  exact restored

end TagOverlay.Overlay
