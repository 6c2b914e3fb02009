import TagOverlay.Decoration.FaultySurface
import TagOverlay.Decoration.Overlay
import TagOverlay.Proofs.Decoration.Lookup

/-! Recoloring on a surface that answers with any number of ids. The registered decoration is gone in every
case, but only the answer of a single id is registered: of several, each stays attached for good. -/
namespace TagOverlay.Overlay

variable {σ : Type} {attached : σ → List DecorationId} {before after : σ} {old : DecorationId}
    {ids : List DecorationId}

/-- One decoration leaves the surface, and for each id of an answer a new one is attached. -/
structure Swaps (attached : σ → List DecorationId) (before : σ) (old : DecorationId) (ids : List DecorationId)
    (after : σ) : Prop where
  drawn : old ∈ attached before
  perm : (attached after).Perm ((attached before).erase old ++ ids)
  distinct : ids.Nodup
  new : ∀ id ∈ ids, id ∉ attached before

theorem Swaps.length_eq (swaps : Swaps attached before old ids after) :
    (attached after).length + 1 = (attached before).length + ids.length := by
  have kept := List.length_erase_of_mem swaps.drawn
  have positive := List.length_pos_of_mem swaps.drawn
  rw [swaps.perm.length_eq,List.length_append]
  omega

theorem Swaps.attached_of_mem (swaps : Swaps attached before old ids after) {id : DecorationId} (member : id ∈ ids) :
    id ∈ attached after :=
  swaps.perm.mem_iff.mpr (List.mem_append_right _ member)

variable [RenderSurface σ] {overlay : Overlay σ} {span : Span} {status : ReviewStatus}

theorem recolor_of_one {id : DecorationId} (known : overlay.registry.contains old)
    (answer : RenderSurface.update overlay.surface [old] [⟨span,status.style⟩] = (.ok [id],after)) :
    overlay.recolor (some old) span status =
      (.ok id,⟨(overlay.registry.erase old).insert id span,after⟩) := by
  have chosen : (some old).filter overlay.registry.contains = some old := Option.filter_some_pos known
  simp only [recolor,chosen,answer]

theorem recolor_of_count (known : overlay.registry.contains old)
    (answer : RenderSurface.update overlay.surface [old] [⟨span,status.style⟩] = (.ok ids,after))
    (wrong : ids.length ≠ 1) :
    overlay.recolor (some old) span status =
      (.error (.idCount 1 ids.length),⟨overlay.registry.erase old,after⟩) := by
  have chosen : (some old).filter overlay.registry.contains = some old := Option.filter_some_pos known
  simp only [recolor,chosen,answer]
  split
  next => contradiction
  next => rfl

theorem recolor_leaves_no_surplus_iff (known : overlay.registry.contains old)
    (answer : RenderSurface.update overlay.surface [old] [⟨span,status.style⟩] = (.ok ids,after))
    (swaps : Swaps attached overlay.surface old ids after) :
    let result := overlay.recolor (some old) span status
    ((∃ id, ids = [id] ∧ result.1 = .ok id) ∨
      ids.length ≠ 1 ∧ result.1 = .error (.idCount 1 ids.length)) ∧
    ((∀ id ∈ ids, result.2.registry.contains id ∨ id ∉ attached result.2.surface) ∧
      (attached result.2.surface).length ≤ (attached overlay.surface).length ↔ ids.length ≤ 1) ∧
    (1 < ids.length →
      (attached result.2.surface).length + 1 = (attached overlay.surface).length + ids.length ∧
      ∀ id ∈ ids, id ∈ attached result.2.surface ∧
        ((∀ other, overlay.registry.contains other → other ∈ attached overlay.surface) →
          ¬ result.2.registry.contains id)) := by
  intro result
  have count := swaps.length_eq
  by_cases single : ids.length = 1
  · obtain ⟨id,rfl⟩ := List.length_eq_one_iff.mp single
    have outcome : result = _ := recolor_of_one known answer
    rw [outcome]
    refine ⟨.inl ⟨id,rfl,rfl⟩,iff_of_true ⟨?_,?_⟩ (Nat.le_refl 1),fun more => absurd more (Nat.lt_irrefl 1)⟩
    · intro other member
      obtain rfl := List.mem_singleton.mp member
      exact .inl ((Registry.contains_insert ..).mpr (.inl rfl))
    · exact Nat.le_of_eq (Nat.succ_inj.mp count)
  · have outcome : result = _ := recolor_of_count known answer single
    rw [outcome]
    refine ⟨.inr ⟨single,rfl⟩,⟨?_,?_⟩,?_⟩
    · intro ⟨_,noMore⟩
      dsimp only at noMore
      omega
    · intro few
      obtain rfl : ids = [] := List.eq_nil_of_length_eq_zero (by omega)
      refine ⟨fun _ member => absurd member List.not_mem_nil,?_⟩
      rw [List.length_nil] at count
      exact Nat.le_of_lt (Nat.lt_of_succ_le (Nat.le_of_eq count))
    · refine fun _ => ⟨count,fun id member => ⟨swaps.attached_of_mem member,fun tracked stays => ?_⟩⟩
      exact swaps.new id member (tracked id ((Registry.contains_erase ..).mp stays).2)

/-- One decoration is drawn, on a surface that attaches further copies of the next one. -/
def drawnOnce (extra : Nat) : Overlay FaultySurface :=
  let drawn := ((Overlay.mk Registry.empty FaultySurface.empty).addBatch [⟨⟨1,1⟩,⟨1,4⟩⟩] .fresh).2
  ⟨drawn.registry,{ drawn.surface with misconduct := { Misconduct.none with extra } }⟩

/-- Three decorations are attached in place of one, and none of them is registered. -/
theorem three_decorations_for_one :
    let attached (surface : FaultySurface) := surface.drawn.attached.map (·.1)
    let old := MemorySurface.idOf 1
    let ids := [MemorySurface.idOf 2,MemorySurface.idOf 3,MemorySurface.idOf 4]
    let result := (drawnOnce 2).recolor (some old) ⟨⟨1,1⟩,⟨1,4⟩⟩ .done
    (drawnOnce 2).registry.contains old ∧ Swaps attached (drawnOnce 2).surface old ids result.2.surface ∧
      (attached result.2.surface).length = 3 ∧ ∀ id ∈ ids, ¬ result.2.registry.contains id := by
  intro attached old ids result
  have known : (drawnOnce 2).registry.contains old := by decide
  have swaps : Swaps attached (drawnOnce 2).surface old ids result.2.surface :=
    ⟨by decide,by decide,by decide,by decide⟩
  have tracked : ∀ other, (drawnOnce 2).registry.contains other → other ∈ attached (drawnOnce 2).surface :=
    fun other registered => Registry.contains_iff.mp registered
  obtain ⟨_,_,several⟩ := recolor_leaves_no_surplus_iff known rfl swaps
  obtain ⟨count,stays⟩ := several (by decide)
  exact ⟨known,swaps,Nat.succ_inj.mp count,fun id member => (stays id member).2 tracked⟩

/-- Both copies of the recolored decoration stay, and the surface holds one more than before. -/
theorem surplus_of_recolor_stays :
    let result := (drawnOnce 1).recolor (some (MemorySurface.idOf 1)) ⟨⟨1,1⟩,⟨1,4⟩⟩ .done
    (drawnOnce 1).registry.contains (MemorySurface.idOf 1) ∧
      (drawnOnce 1).surface.drawn.attached.map (·.1) = [MemorySurface.idOf 1] ∧
      result.1 = .error (.idCount 1 2) ∧ result.2.registry.entries = [] ∧
      result.2.surface.drawn.attached.map (·.1) = [MemorySurface.idOf 2,MemorySurface.idOf 3] := by
  decide

end TagOverlay.Overlay
