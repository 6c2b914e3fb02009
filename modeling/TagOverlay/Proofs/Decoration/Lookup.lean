import TagOverlay.Proofs.Decoration.Entries

/-! What the registry and the surface in memory hold under an id after each of their operations. Ids
that the surface gives out are new, and stay known to it also when nothing is drawn under them. -/
namespace TagOverlay.Registry
open Entries (Distinct valueOf? valueOf?_cons valueOf?_eq_none_iff)

theorem spanOf?_eq (registry : Registry) (id : DecorationId) :
    registry.spanOf? id = valueOf? registry.entries id := rfl

theorem spanOf?_eq_none_iff {registry : Registry} {id : DecorationId} :
    registry.spanOf? id = none ↔ ¬ registry.contains id := by
  rw [contains_iff,spanOf?_eq,valueOf?_eq_none_iff]

theorem contains_iff_exists {registry : Registry} {id : DecorationId} :
    registry.contains id ↔ ∃ span, registry.spanOf? id = some span := by
  rw [← Option.ne_none_iff_exists',Ne,spanOf?_eq_none_iff,Classical.not_not]

theorem mem_ids_iff {registry : Registry} {id : DecorationId} : id ∈ registry.ids ↔ registry.contains id := by
  rw [contains_iff,ids,toList,List.map_reverse,List.mem_reverse]

theorem spanOf?_erase (registry : Registry) (id other : DecorationId) :
    (registry.erase id).spanOf? other = if other = id then none else registry.spanOf? other :=
  Entries.valueOf?_eraseP registry.nodup id other

theorem spanOf?_insertAll (registry : Registry) {pairs : List (DecorationId × Span)}
    (distinct : Distinct pairs) (id : DecorationId) :
    (registry.insertAll pairs).spanOf? id = (valueOf? pairs id).or (registry.spanOf? id) := by
  rw [insertAll_eq]
  induction pairs generalizing registry with
  | nil => rfl
  | cons pair pairs ih =>
    obtain ⟨new,distinct⟩ := List.nodup_cons.mp distinct
    rw [List.foldl_cons,ih _ distinct,spanOf?_insert,valueOf?_cons]
    by_cases same : id = pair.1
    · have missing : valueOf? pairs id = none := valueOf?_eq_none_iff.mpr (same ▸ new)
      rw [missing,if_pos same,if_pos same.symm,Option.none_or,Option.some_or]
    · rw [if_neg same,if_neg (Ne.symm same)]

end TagOverlay.Registry

namespace TagOverlay.MemorySurface
open Entries (Distinct valueOf?)

theorem idOf_injective {first second : Nat} (same : idOf first = idOf second) : first = second := by
  have names := congrArg (fun id => id.name.toList) same
  have digits : Nat.toDigits 10 first = Nat.toDigits 10 second := by
    simpa [idOf] using names
  have numbers := congrArg (Nat.ofDigitChars 10 · 0) digits
  simpa using numbers

/-- The id has been given out. -/
def Issued (surface : MemorySurface) (id : DecorationId) : Prop :=
  ∃ serial ≤ surface.issued, id = idOf serial

structure Sound (surface : MemorySurface) : Prop where
  distinct : Distinct surface.attached
  issued : ∀ id, id ∈ surface.attached.map (·.1) → surface.Issued id

theorem sound_of_attached_nil {surface : MemorySurface} (empty : surface.attached = []) :
    surface.Sound := by
  constructor
  · rw [empty]
    exact .nil
  · rw [empty]
    exact fun _ member => absurd member List.not_mem_nil

theorem get?_eq (surface : MemorySurface) (id : DecorationId) :
    surface.get? id = valueOf? surface.attached id := rfl

theorem Sound.get?_eq_none {surface : MemorySurface} (sound : surface.Sound) {id : DecorationId}
    (new : ¬ surface.Issued id) : surface.get? id = none :=
  Entries.valueOf?_eq_none_iff.mpr (mt (sound.issued id) new)

theorem attach_ids (surface : MemorySurface) (decorations : List Decoration) :
    (surface.attach decorations).1 =
      (List.range' (surface.issued + 1) decorations.length).map idOf := by
  rw [attach,List.map_map,← List.zipIdx_map_snd (surface.issued + 1) decorations,List.map_map]
  rfl

theorem length_attach_ids (surface : MemorySurface) (decorations : List Decoration) :
    (surface.attach decorations).1.length = decorations.length := by
  rw [attach_ids,List.length_map,List.length_range']

theorem attached_attach (surface : MemorySurface) (decorations : List Decoration) :
    (surface.attach decorations).2.attached =
      surface.attached ++ (surface.attach decorations).1.zip decorations := by
  have second : ((decorations.zipIdx (surface.issued + 1)).map
      fun numbered => (idOf numbered.2,numbered.1)).map Prod.snd = decorations := by
    rw [List.map_map]
    exact List.zipIdx_map_fst _ _
  exact congrArg (surface.attached ++ ·) (List.zip_of_prod rfl second)

theorem nodup_attach_ids (surface : MemorySurface) (decorations : List Decoration) :
    (surface.attach decorations).1.Nodup := by
  rw [attach_ids]
  exact (List.nodup_range' ..).map fun _ _ same => idOf_injective same

theorem issued_attach_iff (surface : MemorySurface) (decorations : List Decoration)
    (id : DecorationId) : (surface.attach decorations).2.Issued id ↔
      surface.Issued id ∨ id ∈ (surface.attach decorations).1 := by
  rw [attach_ids,List.mem_map]
  constructor
  · intro ⟨serial,bound,equal⟩
    change serial ≤ surface.issued + decorations.length at bound
    by_cases old : serial ≤ surface.issued
    · exact .inl ⟨serial,old,equal⟩
    · exact .inr ⟨serial,List.mem_range'_1.mpr (by omega),equal.symm⟩
  · intro known
    rcases known with ⟨serial,bound,equal⟩ | ⟨serial,inside,equal⟩
    · exact ⟨serial,Nat.le_trans bound (Nat.le_add_right _ _),equal⟩
    · have bound := (List.mem_range'_1.mp inside).2
      exact ⟨serial,by change serial ≤ surface.issued + decorations.length; omega,equal.symm⟩

theorem not_issued_of_mem_attach {surface : MemorySurface} {decorations : List Decoration}
    {id : DecorationId} (member : id ∈ (surface.attach decorations).1) : ¬ surface.Issued id := by
  intro ⟨serial,bound,equal⟩
  rw [attach_ids] at member
  obtain ⟨later,inside,same⟩ := List.mem_map.mp member
  obtain rfl := idOf_injective (same.trans equal)
  have := (List.mem_range'_1.mp inside).1
  omega

theorem distinct_zip_attach (surface : MemorySurface) (decorations : List Decoration) :
    Distinct ((surface.attach decorations).1.zip decorations) := by
  rw [Distinct,List.map_fst_zip (Nat.le_of_eq (length_attach_ids ..))]
  exact nodup_attach_ids ..

theorem get?_attach (surface : MemorySurface) (decorations : List Decoration) (id : DecorationId) :
    (surface.attach decorations).2.get? id =
      (surface.get? id).or (valueOf? ((surface.attach decorations).1.zip decorations) id) := by
  rw [get?_eq,attached_attach,Entries.valueOf?_append]
  rfl

theorem Sound.attach {surface : MemorySurface} (sound : surface.Sound)
    (decorations : List Decoration) : (surface.attach decorations).2.Sound := by
  have keys : ((surface.attach decorations).1.zip decorations).map (·.1) =
      (surface.attach decorations).1 := List.map_fst_zip (Nat.le_of_eq (length_attach_ids ..))
  constructor
  · rw [attached_attach]
    refine Entries.distinct_append sound.distinct (distinct_zip_attach ..) ?_
    intro id member
    rw [keys] at member
    exact sound.get?_eq_none (not_issued_of_mem_attach member)
  · intro id member
    rw [attached_attach,List.map_append,List.mem_append,keys] at member
    exact (issued_attach_iff ..).mpr (member.imp_left (sound.issued id))

theorem detach_cons (surface : MemorySurface) (id : DecorationId) (ids : List DecorationId) :
    surface.detach (id :: ids) = (surface.detach [id]).detach ids := rfl

theorem Sound.detach {surface : MemorySurface} (sound : surface.Sound) (ids : List DecorationId) :
    (surface.detach ids).Sound := by
  induction ids generalizing surface with
  | nil => exact sound
  | cons id ids ih =>
    rw [detach_cons]
    apply ih
    constructor
    · exact Entries.Distinct.eraseP sound.distinct id
    · intro other member
      exact sound.issued other ((List.eraseP_sublist.map _).subset member)

theorem get?_detach {surface : MemorySurface} (sound : surface.Sound) (ids : List DecorationId)
    (id : DecorationId) :
    (surface.detach ids).get? id = if id ∈ ids then none else surface.get? id := by
  induction ids generalizing surface with
  | nil => simp [detach]
  | cons first ids ih =>
    have erased : (surface.detach [first]).get? id = if id = first then none else surface.get? id :=
      Entries.valueOf?_eraseP sound.distinct first id
    rw [detach_cons,ih (sound.detach [first]),erased]
    by_cases same : id = first
    · simp [same]
    · simp [same]

end TagOverlay.MemorySurface
