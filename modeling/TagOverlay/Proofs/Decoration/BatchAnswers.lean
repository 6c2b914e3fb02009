import TagOverlay.Decoration.FaultySurface
import TagOverlay.Proofs.Decoration.Exchange
import TagOverlay.Proofs.Decoration.Surplus

/-! A batch on a surface that answers with any number of ids. Each id is registered with the span in its place,
and ids without a span are detached again. So all that a batch leaves attached is registered, and a reset gets
rid of it, also after a number of ids that was reported as wrong. -/
namespace TagOverlay

/-- A surface that shows under which ids decorations are attached, and which lines were brought into view. -/
class ObservedSurface (σ : Type) [RenderSurface σ] where
  attached : σ → List DecorationId
  /-- The latest line comes first. -/
  revealed : σ → List Nat
  attached_reveal (surface : σ) (line : Nat) : attached (RenderSurface.reveal surface line) = attached surface
  revealed_reveal (surface : σ) (line : Nat) :
    revealed (RenderSurface.reveal surface line) = line :: revealed surface

open ObservedSurface (attached revealed attached_reveal revealed_reveal)

/-- The surface accepts an update. The decorations under the ids in `remove` have gone, and under each id of the
answer a new one has come, however many were asked for. -/
structure Accepts {σ : Type} [RenderSurface σ] [ObservedSurface σ] (before : σ) (remove : List DecorationId)
    (add : List Decoration) (ids : List DecorationId) (after : σ) : Prop where
  answer : RenderSurface.update before remove add = (.ok ids,after)
  distinct : ids.Nodup
  new : ∀ id ∈ ids, id ∉ attached before
  perm : (attached after).Perm ((attached before).filter (· ∉ remove) ++ ids)
  revealed_eq : revealed after = revealed before

section Ids

variable {ids : List DecorationId}

theorem mem_take_iff_of_nodup (distinct : ids.Nodup) (count : Nat) (id : DecorationId) :
    id ∈ ids.take count ↔ id ∈ ids ∧ id ∉ ids.drop count := by
  constructor
  · intro kept
    exact ⟨List.mem_of_mem_take kept,List.disjoint_take_drop distinct (Nat.le_refl count) kept⟩
  · intro ⟨member,kept⟩
    rw [← List.take_append_drop count ids,List.mem_append] at member
    exact member.resolve_right kept

theorem map_fst_zip_eq_take (ids : List DecorationId) (spans : List Span) :
    (ids.zip spans).map (·.1) = ids.take spans.length := by
  induction ids generalizing spans with
  | nil => rw [List.zip_nil_left,List.take_nil,List.map_nil]
  | cons id ids ih =>
    cases spans with
    | nil => rfl
    | cons span spans => rw [List.zip_cons_cons,List.map_cons,ih,List.length_cons,List.take_succ_cons]

theorem Registry.spanOf?_insertAll_zip (registry : Registry) (distinct : ids.Nodup) (spans : List Span) :
    (∀ id span, (id,span) ∈ ids.zip spans →
      (registry.insertAll (ids.zip spans)).spanOf? id = some span) ∧
    ∀ id, id ∉ ids.take spans.length →
      (registry.insertAll (ids.zip spans)).spanOf? id = registry.spanOf? id := by
  have keys := map_fst_zip_eq_take ids spans
  have pairs : Entries.Distinct (ids.zip spans) := by
    rw [Entries.Distinct,keys]
    exact distinct.sublist (List.take_sublist ..)
  constructor
  · intro id span member
    rw [spanOf?_insertAll _ pairs,Entries.valueOf?_of_mem pairs member,Option.some_or]
  · intro id missing
    rw [spanOf?_insertAll _ pairs,Entries.valueOf?_eq_none_iff.mpr (keys ▸ missing),Option.none_or]

end Ids

variable {σ : Type} [RenderSurface σ] [ObservedSurface σ]

theorem Accepts.mem_attached_iff {before after : σ} {remove ids : List DecorationId} {add : List Decoration}
    (accepts : Accepts before remove add ids after) (id : DecorationId) :
    id ∈ attached after ↔ id ∈ attached before ∧ id ∉ remove ∨ id ∈ ids := by
  rw [accepts.perm.mem_iff,List.mem_append,List.mem_filter,decide_eq_true_eq]

namespace Overlay

variable {overlay : Overlay σ} {first : Span} {rest : List Span} {style : Style} {ids : List DecorationId}
    {next : σ}

/-- The ids are registered in their places, and only these stay attached. -/
theorem addBatch_of_accepts
    (added : Accepts overlay.surface [] ((first :: rest).map fun span => ⟨span,style⟩) ids next)
    (cleans : (first :: rest).length < ids.length →
      ∃ cleaned, Accepts next (ids.drop (first :: rest).length) [] [] cleaned) :
    ∃ last, overlay.addBatch (first :: rest) style =
        (if ids.length = (first :: rest).length then .ok ids
          else .error (.idCount (first :: rest).length ids.length),
          ⟨overlay.registry.insertAll (ids.zip (first :: rest)),last⟩) ∧
      revealed last = (if ids.length = (first :: rest).length then
        first.start.line :: revealed overlay.surface else revealed overlay.surface) ∧
      ∀ id, id ∈ attached last ↔ id ∈ attached overlay.surface ∨ id ∈ ids.take (first :: rest).length := by
  have answer := added.answer
  have came (id : DecorationId) : id ∈ attached next ↔ id ∈ attached overlay.surface ∨ id ∈ ids := by
    simpa using added.mem_attached_iff id
  rcases Nat.lt_trichotomy ids.length (first :: rest).length with short | exact | surplus
  · refine ⟨next,?_,?_,?_⟩
    · simp only [addBatch,answer,if_neg (Nat.lt_asymm short),if_pos short,if_neg (Nat.ne_of_lt short)]
    · rw [if_neg (Nat.ne_of_lt short),added.revealed_eq]
    · rw [List.take_of_length_le (Nat.le_of_lt short)]
      exact came
  · refine ⟨RenderSurface.reveal next first.start.line,?_,?_,?_⟩
    · rw [if_pos exact,addBatch_of_answer overlay first rest style answer exact]
    · rw [if_pos exact,revealed_reveal,added.revealed_eq]
    · rw [List.take_of_length_le (Nat.le_of_eq exact),attached_reveal]
      exact came
  · obtain ⟨cleaned,removed⟩ := cleans surplus
    refine ⟨cleaned,?_,?_,?_⟩
    · simp only [addBatch,answer,removed.answer,if_pos surplus,if_neg (Nat.ne_of_gt surplus)]
    · rw [if_neg (Nat.ne_of_gt surplus),removed.revealed_eq,added.revealed_eq]
    · intro id
      have old (there : id ∈ attached overlay.surface) : id ∉ ids.drop (first :: rest).length :=
        fun later => added.new id (List.mem_of_mem_drop later) there
      rw [removed.mem_attached_iff,came,mem_take_iff_of_nodup added.distinct,or_and_right]
      simp only [List.not_mem_nil,or_false,and_iff_left_of_imp old]

/-- After a reset nothing is attached that was registered. -/
theorem attached_reset {wiped : σ} (accepts : Accepts overlay.surface overlay.registry.ids [] [] wiped)
    {id : DecorationId} (stays : id ∈ attached overlay.reset.2.surface) :
    id ∈ attached overlay.surface ∧ ¬ overlay.registry.contains id := by
  rw [reset] at stays
  split at stays
  next nothing =>
    refine ⟨stays,?_⟩
    rw [eq_empty_of_isEmpty nothing]
    exact Bool.false_ne_true
  next =>
    rw [accepts.answer] at stays
    have kept := (accepts.mem_attached_iff id).mp stays
    rw [or_iff_left List.not_mem_nil,Registry.mem_ids_iff] at kept
    exact kept

theorem batch_pairs_ids_with_spans (overlay : Overlay σ) (first : Span) (rest : List Span) (style : Style)
    (added : Accepts overlay.surface [] ((first :: rest).map fun span => ⟨span,style⟩) ids next)
    (cleans : (first :: rest).length < ids.length →
      ∃ cleaned, Accepts next (ids.drop (first :: rest).length) [] [] cleaned) :
    let spans := first :: rest
    let result := overlay.addBatch spans style
    (∀ (index : Nat) id span, ids[index]? = some id → spans[index]? = some span →
      result.2.registry.spanOf? id = some span) ∧
    (∀ id, id ∉ ids.take spans.length → result.2.registry.spanOf? id = overlay.registry.spanOf? id) ∧
    (∀ id ∈ ids.drop spans.length, id ∉ attached result.2.surface) ∧
    result.1 = (if ids.length = spans.length then .ok ids else .error (.idCount spans.length ids.length)) ∧
    revealed result.2.surface = (if ids.length = spans.length then
      first.start.line :: revealed overlay.surface else revealed overlay.surface) ∧
    ∀ wiped, Accepts result.2.surface result.2.registry.ids [] [] wiped →
      ∀ id ∈ ids, id ∉ attached result.2.reset.2.surface := by
  intro spans result
  obtain ⟨last,outcome,lines,stay⟩ := addBatch_of_accepts added cleans
  obtain ⟨registers,keeps⟩ := overlay.registry.spanOf?_insertAll_zip added.distinct spans
  have whole : result = _ := outcome
  rw [whole]
  refine ⟨?_,keeps,?_,rfl,lines,?_⟩
  · intro index id span here there
    exact registers id span (List.mem_of_getElem? (List.getElem?_zip_eq_some.mpr ⟨here,there⟩))
  · intro id surplus there
    rw [stay,mem_take_iff_of_nodup added.distinct] at there
    rcases there with old | ⟨_,kept⟩
    · exact added.new id (List.mem_of_mem_drop surplus) old
    · exact kept surplus
  · intro wiped accepts id member there
    obtain ⟨before,unregistered⟩ := attached_reset accepts there
    rcases (stay id).mp before with old | kept
    · exact added.new id member old
    · rw [← map_fst_zip_eq_take] at kept
      obtain ⟨⟨_,span⟩,pair,rfl⟩ := List.mem_map.mp kept
      exact unregistered (Registry.contains_iff_exists.mpr ⟨span,registers _ span pair⟩)

end Overlay

/-- The line that a call brought into view. -/
def SurfaceCall.line? : SurfaceCall → Option Nat
  | .update .. => none
  | .reveal line => some line

instance : ObservedSurface FaultySurface where
  attached surface := surface.drawn.attached.map (·.1)
  revealed surface := surface.calls.filterMap SurfaceCall.line?
  attached_reveal _ _ := rfl
  revealed_reveal _ _ := rfl

namespace Overlay

/-- A batch of two is answered with four ids: two of them are detached again, the count is reported, no line is
revealed, and a reset leaves nothing. -/
theorem batch_of_two_answered_with_four :
    let overlay := drawnOnce 2
    let span : Span := ⟨⟨7,1⟩,⟨7,4⟩⟩
    let ids := [MemorySurface.idOf 2,MemorySurface.idOf 3,MemorySurface.idOf 4,MemorySurface.idOf 5]
    let result := overlay.addBatch [span,span] .fresh
    (∃ next, Accepts overlay.surface [] [⟨span,.fresh⟩,⟨span,.fresh⟩] ids next ∧
      ∃ cleaned, Accepts next [MemorySurface.idOf 4,MemorySurface.idOf 5] [] [] cleaned) ∧
    (∃ wiped, Accepts result.2.surface result.2.registry.ids [] [] wiped) ∧
    result.2.registry.spanOf? (MemorySurface.idOf 3) = some span ∧
    result.2.registry.spanOf? (MemorySurface.idOf 1) = some ⟨⟨1,1⟩,⟨1,4⟩⟩ ∧
    (∀ id ∈ ids.drop 2, id ∉ attached result.2.surface) ∧
    result.1 = .error (.idCount 2 4) ∧ revealed result.2.surface = [1] ∧
    ∀ id ∈ ids, id ∉ attached result.2.reset.2.surface := by
  intro overlay span ids result
  let next := (RenderSurface.update overlay.surface [] [⟨span,.fresh⟩,⟨span,.fresh⟩]).2
  let cleaned := (RenderSurface.update next [MemorySurface.idOf 4,MemorySurface.idOf 5] []).2
  have added : Accepts overlay.surface [] [⟨span,.fresh⟩,⟨span,.fresh⟩] ids next :=
    ⟨rfl,by decide,by decide,by decide,by decide⟩
  have cleans : Accepts next [MemorySurface.idOf 4,MemorySurface.idOf 5] [] [] cleaned :=
    ⟨rfl,.nil,by decide,by decide,by decide⟩
  let wiped := (RenderSurface.update result.2.surface result.2.registry.ids []).2
  have wipes : Accepts result.2.surface result.2.registry.ids [] [] wiped :=
    ⟨rfl,.nil,by decide,by decide,by decide⟩
  obtain ⟨registers,keeps,detached,answer,lines,left⟩ :=
    batch_pairs_ids_with_spans overlay span [span] .fresh added fun _ => ⟨cleaned,cleans⟩
  have old : result.2.registry.spanOf? (MemorySurface.idOf 1) = some ⟨⟨1,1⟩,⟨1,4⟩⟩ := by
    rw [keeps _ (by decide)]
    rfl
  exact ⟨⟨next,added,cleaned,cleans⟩,⟨wiped,wipes⟩,registers 1 _ _ rfl rfl,old,detached,
    answer.trans (if_neg (by decide)),lines.trans (if_neg (by decide)),left wiped wipes⟩

end Overlay

end TagOverlay
