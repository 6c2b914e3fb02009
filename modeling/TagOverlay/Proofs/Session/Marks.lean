import TagOverlay.Proofs.Decoration.Exchange
import TagOverlay.Proofs.Session.Sheet

/-! The marked tags of a session and what the overlay holds for them: each tag has an id of its own,
under which its own span is drawn and registered, or nothing is. -/
namespace TagOverlay
open Overlay (Exchange)

namespace Overlay

/-- The tag is drawn over its span and registered, or neither. -/
def Shows (overlay : Overlay MemorySurface) (tag : MarkedTag) (style? : Option Style) : Prop :=
  overlay.registry.spanOf? tag.id = style?.map (fun _ => tag.span) ∧
    overlay.surface.get? tag.id = style?.map (Decoration.mk tag.span)

def row (overlay : Overlay MemorySurface) (tag : MarkedTag) : Span × Option Style :=
  (tag.span,(overlay.surface.get? tag.id).map (·.style))

theorem Shows.row_eq {overlay : Overlay MemorySurface} {tag : MarkedTag} {style? : Option Style}
    (shows : overlay.Shows tag style?) : overlay.row tag = (tag.span,style?) := by
  rw [row,shows.2,Option.map_map]
  exact congrArg _ (congrFun Option.map_id_fun' style?)

theorem Shows.contains {overlay : Overlay MemorySurface} {tag : MarkedTag} {style? : Option Style}
    (shows : overlay.Shows tag style?) : overlay.registry.contains tag.id = style?.isSome := by
  apply Bool.eq_iff_iff.mpr
  rw [Registry.contains_iff_exists,shows.1]
  cases style? <;> simp

section Exchange

variable {before after : Overlay MemorySurface} {gone : List DecorationId}
    {new : List (DecorationId × Decoration)} {tag : MarkedTag}

theorem Shows.kept {style? : Option Style} (shows : before.Shows tag style?)
    (exchange : Exchange before after gone new) (issued : before.surface.Issued tag.id)
    (stays : tag.id ∉ gone) : after.Shows tag style? := by
  obtain ⟨span,drawn⟩ := exchange.of_issued issued
  rw [if_neg stays] at span drawn
  exact ⟨span.trans shows.1,drawn.trans shows.2⟩

theorem shows_none_of_gone (exchange : Exchange before after gone new)
    (issued : before.surface.Issued tag.id) (left : tag.id ∈ gone) : after.Shows tag none := by
  obtain ⟨span,drawn⟩ := exchange.of_issued issued
  rw [if_pos left] at span drawn
  exact ⟨span,drawn⟩

theorem shows_of_new (exchange : Exchange before after gone new) {style : Style}
    (member : (tag.id,⟨tag.span,style⟩) ∈ new) : after.Shows tag (some style) :=
  exchange.of_new member

end Exchange

end Overlay

structure Marks (overlay : Overlay MemorySurface) (marked : List MarkedTag) : Prop where
  sound : overlay.surface.Sound
  nodup : (marked.map (·.id)).Nodup
  issued : ∀ tag ∈ marked, overlay.surface.Issued tag.id
  /-- Nothing else is registered. -/
  registered : ∀ id, overlay.registry.contains id → id ∈ marked.map (·.id)
  shows : ∀ tag ∈ marked, ∃ style?, overlay.Shows tag style?

namespace Marks

variable {before after : Overlay MemorySurface} {marked : List MarkedTag} {gone : List DecorationId}
    {new : List (DecorationId × Decoration)}

theorem nothing {overlay : Overlay MemorySurface} (sound : overlay.surface.Sound)
    (empty : overlay.registry = .empty) : Marks overlay [] where
  sound := sound
  nodup := .nil
  issued _ member := absurd member List.not_mem_nil
  registered id known := by
    rw [empty] at known
    exact Bool.noConfusion known
  shows _ member := absurd member List.not_mem_nil

theorem index_eq (marks : Marks before marked) {i j : Nat} {tag other : MarkedTag}
    (here : marked[i]? = some tag) (there : marked[j]? = some other) (same : tag.id = other.id) :
    i = j := by
  have bound : i < (marked.map (·.id)).length := by
    rw [List.length_map]
    exact (List.getElem?_eq_some_iff.mp here).1
  refine (List.getElem?_inj bound marks.nodup).mp ?_
  rw [List.getElem?_map,List.getElem?_map,here,there]
  exact congrArg some same

/-- One tag gets another decoration, or loses the one it has. -/
structure Redraws (before after : Overlay MemorySurface) (marked : List MarkedTag)
    (gone : List DecorationId) (new : List (DecorationId × Decoration)) (index : Nat)
    (tag tag' : MarkedTag) : Prop where
  exchange : Exchange before after gone new
  here : marked[index]? = some tag
  leaves : ∀ id, id ∈ gone ↔ id = tag.id ∧ before.registry.contains id
  comes : ∀ id ∈ new.map (·.1), id = tag'.id
  known : tag'.id = tag.id ∨ tag'.id ∈ new.map (·.1)

theorem redraws_recolor {index : Nat} {tag : MarkedTag} {id : DecorationId} {style : Style}
    (exchange : Exchange before after ((some tag.id).filter before.registry.contains).toList
      [(id,⟨tag.span,style⟩)])
    (here : marked[index]? = some tag) :
    Redraws before after marked ((some tag.id).filter before.registry.contains).toList
      [(id,⟨tag.span,style⟩)] index tag { tag with id } where
  exchange := exchange
  here := here
  leaves other := by
    rw [Option.mem_toList,Option.filter_eq_some_iff,Option.some_inj]
    exact and_congr_left fun _ => eq_comm
  comes _ member := List.mem_singleton.mp member
  known := .inr List.mem_cons_self

theorem mem_removed_iff {tag : MarkedTag} {registry : Registry} (other : DecorationId) :
    other ∈ (if registry.contains tag.id then [tag.id] else []) ↔
      other = tag.id ∧ registry.contains other := by
  split
  next known =>
    rw [List.mem_singleton]
    exact ⟨fun same => ⟨same,same ▸ known⟩,And.left⟩
  next unknown =>
    exact ⟨fun member => absurd member List.not_mem_nil,
      fun ⟨same,known⟩ => absurd (same ▸ known) unknown⟩

theorem redraws_remove {index : Nat} {tag : MarkedTag}
    (exchange : Exchange before after (if before.registry.contains tag.id then [tag.id] else []) [])
    (here : marked[index]? = some tag) :
    Redraws before after marked (if before.registry.contains tag.id then [tag.id] else []) []
      index tag tag where
  exchange := exchange
  here := here
  leaves := mem_removed_iff
  comes _ member := absurd member List.not_mem_nil
  known := .inl rfl

theorem shows_none_of_remove (marks : Marks before marked) {tag : MarkedTag}
    (exchange : Exchange before after (if before.registry.contains tag.id then [tag.id] else []) [])
    (member : tag ∈ marked) : after.Shows tag none := by
  obtain ⟨style?,shown⟩ := marks.shows tag member
  have issued := marks.issued tag member
  by_cases known : before.registry.contains tag.id
  · exact Overlay.shows_none_of_gone exchange issued ((mem_removed_iff tag.id).mpr ⟨rfl,known⟩)
  · have hidden : style? = none := by
      rw [shown.contains] at known
      exact Option.not_isSome_iff_eq_none.mp known
    rw [hidden] at shown
    exact shown.kept exchange issued fun left => known ((mem_removed_iff tag.id).mp left).2

section Redraws

variable {index : Nat} {tag tag' : MarkedTag} (marks : Marks before marked)
    (redraws : Redraws before after marked gone new index tag tag')
include marks redraws

theorem shows_other {j : Nat} {other : MarkedTag} (there : marked[j]? = some other)
    (different : index ≠ j) : ∃ style?, before.Shows other style? ∧ after.Shows other style? := by
  obtain ⟨style?,shown⟩ := marks.shows other (List.mem_of_getElem? there)
  have issued := marks.issued other (List.mem_of_getElem? there)
  have stays : other.id ∉ gone := fun left =>
    different (marks.index_eq redraws.here there ((redraws.leaves other.id).mp left).1.symm)
  exact ⟨style?,shown,shown.kept redraws.exchange issued stays⟩

theorem nodup_set : ((marked.set index tag').map (·.id)).Nodup := by
  rw [List.map_set]
  rcases redraws.known with same | isNew
  · have already : (marked.map (·.id))[index]? = some tag'.id := by
      rw [List.getElem?_map,redraws.here,same]
      rfl
    obtain ⟨bound,value⟩ := List.getElem?_eq_some_iff.mp already
    rw [← value,List.set_getElem_self]
    exact marks.nodup
  · apply marks.nodup.set
    intro member
    obtain ⟨other,isMarked,same⟩ := List.mem_map.mp member
    exact redraws.exchange.unissued tag'.id isNew (same ▸ marks.issued other isMarked)

theorem issued_set : ∀ other ∈ marked.set index tag', after.surface.Issued other.id := by
  intro other member
  rw [redraws.exchange.issued]
  rcases List.mem_or_eq_of_mem_set member with old | rfl
  · exact .inl (marks.issued other old)
  · apply redraws.known.imp_left
    intro same
    rw [same]
    exact marks.issued tag (List.mem_of_getElem? redraws.here)

theorem registered_set (id : DecorationId) (registered : after.registry.contains id) :
    id ∈ (marked.set index tag').map (·.id) := by
  have bound := (List.getElem?_eq_some_iff.mp redraws.here).1
  rcases redraws.exchange.contains registered with isNew | ⟨stays,old⟩
  · rw [redraws.comes id isNew]
    exact List.mem_map_of_mem (List.mem_set bound tag')
  · obtain ⟨other,member,rfl⟩ := List.mem_map.mp (marks.registered id old)
    obtain ⟨j,there⟩ := List.mem_iff_getElem?.mp member
    have different : index ≠ j := by
      intro same
      rw [← same,redraws.here] at there
      obtain rfl := Option.some_inj.mp there
      exact stays ((redraws.leaves tag.id).mpr ⟨rfl,old⟩)
    apply List.mem_map_of_mem
    apply List.mem_of_getElem? (i := j)
    rw [List.getElem?_set_ne different,there]

theorem shows_set {style? : Option Style} (shows : after.Shows tag' style?) :
    ∀ other ∈ marked.set index tag', ∃ style?, after.Shows other style? := by
  intro other member
  obtain ⟨j,there⟩ := List.mem_iff_getElem?.mp member
  by_cases same : index = j
  · rw [← same,List.getElem?_set_self (List.getElem?_eq_some_iff.mp redraws.here).1] at there
    obtain rfl := Option.some_inj.mp there
    exact ⟨style?,shows⟩
  · rw [List.getElem?_set_ne same] at there
    obtain ⟨style?,_,shown⟩ := shows_other marks redraws there same
    exact ⟨style?,shown⟩

theorem set {style? : Option Style} (shows : after.Shows tag' style?) :
    Marks after (marked.set index tag') where
  sound := redraws.exchange.sound
  nodup := nodup_set marks redraws
  issued := issued_set marks redraws
  registered := registered_set marks redraws
  shows := shows_set marks redraws shows

theorem rows_set {style? : Option Style} (shows : after.Shows tag' style?) :
    (marked.set index tag').map after.row = (marked.map before.row).set index (tag'.span,style?) := by
  have bound := (List.getElem?_eq_some_iff.mp redraws.here).1
  apply List.ext_getElem?
  intro j
  rw [List.getElem?_map,List.getElem?_set,List.getElem?_set,List.length_map,List.getElem?_map]
  split
  next => rw [Option.map_some,shows.row_eq]
  next different =>
    cases there : marked[j]? with
    | none => rfl
    | some other =>
      obtain ⟨style?,shownBefore,shownAfter⟩ := shows_other marks redraws there different
      rw [Option.map_some,Option.map_some,shownBefore.row_eq,shownAfter.row_eq]

end Redraws

/-- Every tag is marked anew, in one look. -/
theorem fill (marks : Marks before []) {pairs : List (DecorationId × Span)} {style : Style}
    (exchange : Exchange before after [] (pairs.map (Prod.map id fun span => ⟨span,style⟩))) :
    Marks after (pairs.map fun pair => ⟨pair.1,pair.2⟩) ∧
      (pairs.map fun pair => MarkedTag.mk pair.1 pair.2).map after.row =
        (pairs.map (·.2)).map fun span => (span,some style) := by
  have keys : (pairs.map fun pair => MarkedTag.mk pair.1 pair.2).map (·.id) =
      (pairs.map (Prod.map id fun span => Decoration.mk span style)).map (·.1) := by
    rw [List.map_map,List.map_map]
    rfl
  have shown : ∀ pair ∈ pairs, after.Shows ⟨pair.1,pair.2⟩ (some style) := fun pair member =>
    Overlay.shows_of_new exchange (List.mem_map_of_mem (f := Prod.map id _) member)
  constructor
  · constructor
    · exact exchange.sound
    · rw [keys]
      exact exchange.distinct
    · intro tag member
      rw [exchange.issued,← keys]
      exact .inr (List.mem_map_of_mem member)
    · intro id registered
      rw [keys]
      rcases exchange.contains registered with isNew | ⟨_,old⟩
      · exact isNew
      · exact absurd (marks.registered id old) List.not_mem_nil
    · intro tag member
      obtain ⟨pair,isPair,rfl⟩ := List.mem_map.mp member
      exact ⟨some style,shown pair isPair⟩
  · rw [List.map_map,List.map_map]
    apply List.map_congr_left
    intro pair member
    exact (shown pair member).row_eq

end Marks

end TagOverlay
