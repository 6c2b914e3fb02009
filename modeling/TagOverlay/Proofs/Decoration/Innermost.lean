import TagOverlay.Decoration.Overlay
import TagOverlay.Proofs.Decoration.Lookup

/-! The decoration under a caret. It is found if any span contains the caret, and then no span that does
starts after the one that is found, in whatever order the registry keeps its entries. Of several that start
last each is found in some order, so the innermost one is found for sure only if they end together. -/
namespace TagOverlay

/-- The span is a part of the other one, but not all of it. -/
def Span.StrictlyInside (inner outer : Span) : Prop :=
  outer.start ≤ inner.start ∧ inner.stop ≤ outer.stop ∧ inner ≠ outer

namespace Registry

variable {registry order : Registry} {position : Position} {id other : DecorationId} {span span' : Span}

/-- The span of the id is over the position, and starts last of all that are. -/
structure StartsLast (registry : Registry) (position : Position) (id : DecorationId) (span : Span) : Prop where
  registered : registry.spanOf? id = some span
  covers : span.contains position
  latest : ∀ other span', registry.spanOf? other = some span' → span'.contains position →
    span'.start ≤ span.start

/-- The span of the id is over the position, and no other one that is lies strictly inside it. -/
structure IsInnermost (registry : Registry) (position : Position) (id : DecorationId) (span : Span) : Prop where
  registered : registry.spanOf? id = some span
  covers : span.contains position
  minimal : ∀ other inner, registry.spanOf? other = some inner → inner.contains position →
    ¬ inner.StrictlyInside span

theorem spanOf?_eq_of_perm (perm : order.entries.Perm registry.entries) (id : DecorationId) :
    order.spanOf? id = registry.spanOf? id :=
  Entries.valueOf?_eq_of_perm registry.nodup perm id

theorem mem_covering_iff : (id,span) ∈ registry.covering position ↔
    registry.spanOf? id = some span ∧ span.contains position := by
  rw [covering,List.mem_filter,toList,List.mem_reverse]
  exact and_congr_left fun _ => ⟨Entries.valueOf?_of_mem registry.nodup,Entries.mem_of_valueOf?⟩

theorem mem_innermost_iff_startsLast :
    (id,span) ∈ registry.innermost position ↔ registry.StartsLast position id span := by
  rw [mem_innermost_iff]
  constructor
  · intro ⟨isCovering,latest⟩
    obtain ⟨registered,covers⟩ := mem_covering_iff.mp isCovering
    refine ⟨registered,covers,?_⟩
    intro other span' registered covers
    exact latest (other,span') (mem_covering_iff.mpr ⟨registered,covers⟩)
  · intro ⟨registered,covers,latest⟩
    refine ⟨mem_covering_iff.mpr ⟨registered,covers⟩,?_⟩
    intro (other,span') isCovering
    obtain ⟨registered,covers⟩ := mem_covering_iff.mp isCovering
    exact latest other span' registered covers

theorem exists_last_start {entries : List (DecorationId × Span)} (nonempty : entries ≠ []) :
    ∃ last ∈ entries, ∀ other ∈ entries, other.2.start ≤ last.2.start := by
  induction entries with
  | nil => contradiction
  | cons first rest ih =>
    by_cases alone : rest = []
    · subst alone
      refine ⟨first,List.mem_cons_self,List.forall_mem_singleton.mpr ?_⟩
      exact Position.le_refl _
    · obtain ⟨last,member,after⟩ := ih alone
      by_cases le : first.2.start ≤ last.2.start
      · exact ⟨last,List.mem_cons_of_mem _ member,List.forall_mem_cons.mpr ⟨le,after⟩⟩
      · refine ⟨first,List.mem_cons_self,List.forall_mem_cons.mpr ⟨Position.le_refl _,?_⟩⟩
        intro other isOther
        exact Position.le_trans (after other isOther) (Position.le_of_not_le le)

/-- Nothing is under the caret, or what is found starts last of all that is. -/
theorem idAt?_cases (registry : Registry) (position : Position) :
    registry.idAt? position = none ∧
        (∀ id span, registry.spanOf? id = some span → ¬ span.contains position) ∨
      ∃ id span, registry.idAt? position = some id ∧ registry.StartsLast position id span := by
  by_cases bare : registry.covering position = []
  · refine .inl ⟨?_,?_⟩
    · rw [idAt?,innermost,bare]
      rfl
    · intro id span found covers
      have member := mem_covering_iff.mpr ⟨found,covers⟩
      rw [bare] at member
      exact List.not_mem_nil member
  · obtain ⟨last,member,after⟩ := exists_last_start bare
    have isInnermost := mem_innermost_iff.mpr ⟨member,after⟩
    have any := List.getLast?_isSome.mpr (List.ne_nil_of_mem isInnermost)
    obtain ⟨⟨id,span⟩,chosen⟩ := Option.isSome_iff_exists.mp any
    refine .inr ⟨id,span,?_,mem_innermost_iff_startsLast.mp (List.mem_of_getLast? chosen)⟩
    rw [idAt?,chosen]
    rfl

namespace StartsLast

theorem start_eq (last : registry.StartsLast position id span)
    (again : registry.StartsLast position other span') : span.start = span'.start :=
  Position.le_antisymm (again.latest id span last.registered last.covers)
    (last.latest other span' again.registered again.covers)

theorem of_perm (perm : order.entries.Perm registry.entries) (last : order.StartsLast position id span) :
    registry.StartsLast position id span := by
  refine ⟨(spanOf?_eq_of_perm perm id).symm.trans last.registered,last.covers,?_⟩
  intro other span' registered
  exact last.latest other span' ((spanOf?_eq_of_perm perm other).trans registered)

/-- A span that is over the position and strictly inside one that starts last starts last too. -/
theorem of_inside (last : registry.StartsLast position id span) (registered : registry.spanOf? other = some span')
    (covers : span'.contains position) (inside : span'.StrictlyInside span) :
    registry.StartsLast position other span' := by
  refine ⟨registered,covers,?_⟩
  intro third span'' registered covers
  exact Position.le_trans (last.latest third span'' registered covers) inside.1

end StartsLast

/-- Of the spans that start last an innermost one is the first to end. -/
theorem IsInnermost.stop_le (innermost : registry.IsInnermost position id span)
    (last : registry.StartsLast position id span) (again : registry.StartsLast position other span') :
    span.stop ≤ span'.stop := by
  refine Classical.not_not.mp fun longer => ?_
  apply innermost.minimal other span' again.registered again.covers
  refine ⟨?_,Position.le_of_not_le longer,?_⟩
  · rw [last.start_eq again]
    exact Position.le_refl _
  · rintro rfl
    exact longer (Position.le_refl _)

theorem getLast?_filter_of_kept {α : Type} {items : List α} {keep : α → Bool} {last : α}
    (ends : items.getLast? = some last) (kept : keep last) : (items.filter keep).getLast? = some last := by
  obtain ⟨front,rfl⟩ := List.getLast?_eq_some_iff.mp ends
  rw [List.filter_append,List.filter_cons_of_pos kept,List.filter_nil,List.getLast?_concat]

/-- Of the entries that start last the newest one is found. -/
theorem idAt?_eq_of_newest {rest : List (DecorationId × Span)} (newest : registry.entries = (id,span) :: rest)
    (last : registry.StartsLast position id span) : registry.idAt? position = some id := by
  obtain ⟨isCovering,starts⟩ := List.mem_filter.mp (mem_innermost_iff_startsLast.mpr last)
  have listed : registry.toList.getLast? = some (id,span) := by
    rw [toList,newest,List.reverse_cons,List.getLast?_concat]
  have covering : (registry.covering position).getLast? = some (id,span) :=
    getLast?_filter_of_kept listed (List.mem_filter.mp isCovering).2
  have chosen : (registry.innermost position).getLast? = some (id,span) :=
    getLast?_filter_of_kept covering starts
  rw [idAt?,chosen]
  rfl

/-- Each of the spans that start last is found if its entry is kept as the newest one. -/
theorem StartsLast.exists_order (last : registry.StartsLast position id span) :
    ∃ order : Registry, order.entries.Perm registry.entries ∧ order.idAt? position = some id := by
  have member : (id,span) ∈ registry.entries := Entries.mem_of_valueOf? last.registered
  have perm := List.perm_cons_erase member
  let order : Registry :=
    ⟨(id,span) :: registry.entries.erase (id,span),(perm.map _).nodup_iff.mp registry.nodup⟩
  exact ⟨order,perm.symm,idAt?_eq_of_newest rfl (last.of_perm perm)⟩

theorem startsLast_of_idAt? (perm : order.entries.Perm registry.entries)
    (found : order.idAt? position = some id) : ∃ span, registry.StartsLast position id span := by
  rcases order.idAt?_cases position with ⟨nothing,_⟩ | ⟨chosen,span,same,last⟩
  · exact absurd (nothing.symm.trans found) nofun
  · obtain rfl := Option.some_inj.mp (same.symm.trans found)
    exact ⟨span,last.of_perm perm⟩

theorem idAt?_eq_none_iff (perm : order.entries.Perm registry.entries) : order.idAt? position = none ↔
    ∀ id span, registry.spanOf? id = some span → ¬ span.contains position := by
  rcases order.idAt?_cases position with ⟨nothing,bare⟩ | ⟨id,span,found,last⟩
  · refine iff_of_true nothing fun id span registered => bare id span ?_
    exact (spanOf?_eq_of_perm perm id).trans registered
  · have last := last.of_perm perm
    refine iff_of_false (fun nothing => absurd (nothing.symm.trans found) nofun) fun bare => ?_
    exact bare id span last.registered last.covers

theorem innermost_in_every_order_iff (registry : Registry) (position : Position) :
    (∀ order : Registry, order.entries.Perm registry.entries →
      (order.idAt? position = none ↔ ∀ id span, registry.spanOf? id = some span → ¬ span.contains position) ∧
      ∀ id, order.idAt? position = some id → ∃ span, registry.StartsLast position id span) ∧
    ((∀ order : Registry, order.entries.Perm registry.entries → ∀ id, order.idAt? position = some id →
        ∃ span, registry.IsInnermost position id span) ↔
      ∀ id span other span', registry.StartsLast position id span →
        registry.StartsLast position other span' → span.stop = span'.stop) := by
  refine ⟨fun order perm => ⟨idAt?_eq_none_iff perm,fun id => startsLast_of_idAt? perm⟩,?_,?_⟩
  · intro always id span other span' last again
    have innermost {id : DecorationId} {span : Span} (last : registry.StartsLast position id span) :
        registry.IsInnermost position id span := by
      obtain ⟨order,perm,found⟩ := last.exists_order
      obtain ⟨same,innermost⟩ := always order perm id found
      obtain rfl := Option.some_inj.mp (innermost.registered.symm.trans last.registered)
      exact innermost
    exact Position.le_antisymm ((innermost last).stop_le last again) ((innermost again).stop_le again last)
  · intro together order perm id found
    obtain ⟨span,last⟩ := startsLast_of_idAt? perm found
    refine ⟨span,last.registered,last.covers,?_⟩
    intro other inner registered covers inside
    have again := last.of_inside registered covers inside
    have start := again.start_eq last
    have stop := together other inner id span again last
    apply inside.2.2
    cases inner
    cases span
    cases start
    cases stop
    rfl

/-- Of the four spans over the caret two are alike and start last. They cross a third one. -/
theorem innermost_of_crossing_spans :
    let spans : List Span := [⟨⟨2,3⟩,⟨4,1⟩⟩,⟨⟨1,1⟩,⟨4,1⟩⟩,⟨⟨2,3⟩,⟨4,1⟩⟩,⟨⟨1,5⟩,⟨2,6⟩⟩]
    let registry := ((Overlay.mk .empty MemorySurface.empty).addBatch spans .fresh).2.registry
    ∀ order : Registry, order.entries.Perm registry.entries → order.idAt? ⟨2,4⟩ ≠ none ∧
      ∀ id, order.idAt? ⟨2,4⟩ = some id → ∃ span, registry.IsInnermost ⟨2,4⟩ id span := by
  intro spans registry
  obtain ⟨tells,always⟩ := innermost_in_every_order_iff registry ⟨2,4⟩
  have first : registry.spanOf? (MemorySurface.idOf 1) = some ⟨⟨2,3⟩,⟨4,1⟩⟩ := by decide
  have alike : ∀ entry ∈ registry.entries, ⟨2,3⟩ ≤ entry.2.start → entry.2.stop = ⟨4,1⟩ := by decide
  have stop {id : DecorationId} {span : Span} (last : registry.StartsLast ⟨2,4⟩ id span) : span.stop = ⟨4,1⟩ :=
    alike (id,span) (Entries.mem_of_valueOf? last.registered) (last.latest _ _ first (by decide))
  have together := always.mpr fun _ _ _ _ last again => (stop last).trans (stop again).symm
  intro order perm
  refine ⟨fun nothing => ?_,together order perm⟩
  exact (tells order perm).1.mp nothing _ _ first (by decide)

/-- Of two spans with one start the outer one is found if it was added last. -/
theorem outer_span_found_when_starts_are_shared :
    let spans : List Span := [⟨⟨1,1⟩,⟨1,5⟩⟩,⟨⟨1,1⟩,⟨1,9⟩⟩]
    let registry := ((Overlay.mk .empty MemorySurface.empty).addBatch spans .fresh).2.registry
    registry.idAt? ⟨1,2⟩ = some (MemorySurface.idOf 2) ∧
      ¬ ∃ span, registry.IsInnermost ⟨1,2⟩ (MemorySurface.idOf 2) span := by
  intro spans registry
  refine ⟨by decide,?_⟩
  intro ⟨span,innermost⟩
  have outer : registry.spanOf? (MemorySurface.idOf 2) = some ⟨⟨1,1⟩,⟨1,9⟩⟩ := by decide
  have inner : registry.spanOf? (MemorySurface.idOf 1) = some ⟨⟨1,1⟩,⟨1,5⟩⟩ := by decide
  obtain rfl := Option.some_inj.mp (outer.symm.trans innermost.registered)
  exact innermost.minimal _ _ inner (by decide) ⟨by decide,by decide,by decide⟩

end Registry

end TagOverlay
