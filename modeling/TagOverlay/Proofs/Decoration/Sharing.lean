import TagOverlay.Proofs.Decoration.InStep

/-! Registries of several owners over one surface. An owner detaches only what its own registry holds, and
the surface never gives out an id twice, so no id has two owners: what is drawn is what all of them have
registered together, and nobody touches what is drawn for another. -/
namespace TagOverlay

structure SharedSurface (ι : Type) where
  registry : ι → Registry
  surface : MemorySurface

namespace SharedSurface

variable {ι : Type} {shared : SharedSurface ι}

/-- Before anything is registered. -/
def unowned (ι : Type) (surface : MemorySurface) : SharedSurface ι :=
  ⟨fun _ => .empty,surface⟩

/-- What an owner works on. -/
def overlay (shared : SharedSurface ι) (owner : ι) : Overlay MemorySurface :=
  ⟨shared.registry owner,shared.surface⟩

section Run

variable [DecidableEq ι]

/-- An owner's overlay is replaced; the registries of the others stay. -/
def withOverlay (shared : SharedSurface ι) (owner : ι) (overlay : Overlay MemorySurface) : SharedSurface ι where
  registry other := if other = owner then overlay.registry else shared.registry other
  surface := overlay.surface

def perform (shared : SharedSurface ι) (owner : ι) (command : OverlayCommand) : SharedSurface ι :=
  shared.withOverlay owner ((shared.overlay owner).perform command).2

/-- Commands in their order, each with the owner that gives it. -/
def run (shared : SharedSurface ι) (commands : List (ι × OverlayCommand)) : SharedSurface ι :=
  commands.foldl (fun shared entry => shared.perform entry.1 entry.2) shared

theorem registry_withOverlay (shared : SharedSurface ι) (owner : ι) (overlay : Overlay MemorySurface) :
    (shared.withOverlay owner overlay).registry owner = overlay.registry := if_pos rfl

theorem registry_withOverlay_of_ne (shared : SharedSurface ι) {owner other : ι} (different : other ≠ owner)
    (overlay : Overlay MemorySurface) :
    (shared.withOverlay owner overlay).registry other = shared.registry other := if_neg different

end Run

structure Apart (shared : SharedSurface ι) : Prop where
  inStep : ∀ owner, (shared.overlay owner).InStep
  /-- An id has one owner. -/
  unique : ∀ one other id, (shared.registry one).contains id → (shared.registry other).contains id →
    one = other
  /-- Nothing is drawn that no owner has registered. -/
  covered : ∀ id, (∀ owner, (shared.registry owner).spanOf? id = none) → shared.surface.get? id = none

theorem apart_unowned {surface : MemorySurface} (empty : surface.attached = []) :
    (unowned ι surface).Apart where
  inStep _ := Overlay.inStep_empty (σ := MemorySurface) empty
  unique _ _ _ registered := nomatch registered
  covered id _ := by
    change Entries.valueOf? surface.attached id = none
    rw [empty]
    rfl

theorem Apart.issued (apart : shared.Apart) {owner : ι} {id : DecorationId}
    (registered : (shared.registry owner).contains id) : shared.surface.Issued id :=
  (apart.inStep owner).issued registered

theorem Apart.drawn_iff (apart : shared.Apart) (id : DecorationId) (span : Span) :
    (∃ style, shared.surface.get? id = some ⟨span,style⟩) ↔
      ∃ owner, (shared.registry owner).spanOf? id = some span := by
  constructor
  · intro ⟨style,drawn⟩
    -- some owner has registered the id, and what it has registered is drawn over the same span
    have known : ∃ owner, (shared.registry owner).spanOf? id ≠ none := by
      refine not_forall.mp fun missing => ?_
      exact Option.some_ne_none _ (drawn.symm.trans (apart.covered id missing))
    obtain ⟨owner,registered⟩ := known
    obtain ⟨other,found⟩ := Option.ne_none_iff_exists'.mp registered
    obtain ⟨_,same⟩ := (apart.inStep owner).tracks id other found
    obtain ⟨rfl,_⟩ := Decoration.mk.inj (Option.some_inj.mp (drawn.symm.trans same))
    exact ⟨owner,found⟩
  · intro ⟨owner,found⟩
    exact (apart.inStep owner).tracks id span found

section Exchange

variable {owner : ι} {after : Overlay MemorySurface} {gone : List DecorationId}
    {new : List (DecorationId × Decoration)}

/-- What another owner has registered stays as it was drawn. -/
theorem Apart.spared (apart : shared.Apart)
    (exchange : Overlay.Exchange (shared.overlay owner) after gone new)
    (own : ∀ id ∈ gone, (shared.registry owner).contains id) {other : ι} (different : other ≠ owner)
    {id : DecorationId} (registered : (shared.registry other).contains id) :
    after.surface.get? id = shared.surface.get? id := by
  have kept : id ∉ gone := fun member => different (apart.unique other owner id registered (own id member))
  have same := (exchange.of_issued (apart.issued registered)).2
  rw [if_neg kept] at same
  exact same

theorem Apart.not_contains (apart : shared.Apart)
    (exchange : Overlay.Exchange (shared.overlay owner) after gone new) {other : ι} (different : other ≠ owner)
    {id : DecorationId} (registered : (shared.registry other).contains id) : ¬ after.registry.contains id := by
  intro taken
  rcases exchange.contains taken with fresh | ⟨_,old⟩
  · exact exchange.unissued id fresh (apart.issued registered)
  · exact different (apart.unique other owner id registered old)

variable [DecidableEq ι]

theorem Apart.inStep_exchange (apart : shared.Apart)
    (exchange : Overlay.Exchange (shared.overlay owner) after gone new)
    (own : ∀ id ∈ gone, (shared.registry owner).contains id) (other : ι) :
    ((shared.withOverlay owner after).overlay other).InStep := by
  by_cases same : other = owner
  · rw [same,overlay,registry_withOverlay]
    exact exchange.inStep (apart.inStep owner)
  · refine ⟨exchange.sound,?_⟩
    intro id span found
    rw [overlay,registry_withOverlay_of_ne shared same] at found
    have kept := apart.spared exchange own same (Registry.contains_iff_exists.mpr ⟨span,found⟩)
    exact kept ▸ (apart.inStep other).tracks id span found

theorem Apart.unique_exchange (apart : shared.Apart)
    (exchange : Overlay.Exchange (shared.overlay owner) after gone new) (one other : ι) (id : DecorationId)
    (first : ((shared.withOverlay owner after).registry one).contains id)
    (second : ((shared.withOverlay owner after).registry other).contains id) : one = other := by
  by_cases oneActs : one = owner <;> by_cases otherActs : other = owner
  · exact oneActs.trans otherActs.symm
  · rw [oneActs,registry_withOverlay] at first
    rw [registry_withOverlay_of_ne shared otherActs] at second
    exact absurd first (apart.not_contains exchange otherActs second)
  · rw [registry_withOverlay_of_ne shared oneActs] at first
    rw [otherActs,registry_withOverlay] at second
    exact absurd second (apart.not_contains exchange oneActs first)
  · rw [registry_withOverlay_of_ne shared oneActs] at first
    rw [registry_withOverlay_of_ne shared otherActs] at second
    exact apart.unique one other id first second

theorem Apart.covered_exchange (apart : shared.Apart)
    (exchange : Overlay.Exchange (shared.overlay owner) after gone new) (id : DecorationId)
    (missing : ∀ other, ((shared.withOverlay owner after).registry other).spanOf? id = none) :
    after.surface.get? id = none := by
  have here := missing owner
  rw [registry_withOverlay,exchange.span,Option.or_eq_none_iff,Option.map_eq_none_iff] at here
  obtain ⟨notNew,notKept⟩ := here
  rw [exchange.drawn,notNew,Option.none_or]
  split
  next => rfl
  next kept =>
    rw [if_neg kept] at notKept
    apply apart.covered id
    intro other
    by_cases same : other = owner
    · exact same ▸ notKept
    · exact registry_withOverlay_of_ne shared same after ▸ missing other

theorem Apart.exchange (apart : shared.Apart)
    (exchange : Overlay.Exchange (shared.overlay owner) after gone new)
    (own : ∀ id ∈ gone, (shared.registry owner).contains id) : (shared.withOverlay owner after).Apart :=
  ⟨apart.inStep_exchange exchange own,apart.unique_exchange exchange,apart.covered_exchange exchange⟩

end Exchange

section Run

variable [DecidableEq ι]

theorem Apart.perform (apart : shared.Apart) (owner : ι) (command : OverlayCommand) :
    (shared.perform owner command).Apart := by
  obtain ⟨after,_,_,performed,exchange,own⟩ := Overlay.perform_memory (apart.inStep owner).sound command
  rw [SharedSurface.perform,performed]
  exact apart.exchange exchange own

theorem Apart.run (apart : shared.Apart) (commands : List (ι × OverlayCommand)) :
    (shared.run commands).Apart := by
  induction commands generalizing shared with
  | nil => exact apart
  | cons entry commands ih => exact ih (apart.perform entry.1 entry.2)

theorem Apart.get?_perform (apart : shared.Apart) {owner other : ι} (different : other ≠ owner)
    (command : OverlayCommand) {id : DecorationId} (registered : (shared.registry other).contains id) :
    (shared.perform owner command).surface.get? id = shared.surface.get? id := by
  obtain ⟨after,_,_,performed,exchange,own⟩ := Overlay.perform_memory (apart.inStep owner).sound command
  rw [SharedSurface.perform,performed]
  exact apart.spared exchange own different registered

end Run

/-- Two owners of one surface. -/
inductive Party where
  | left
  | right
deriving DecidableEq

theorem Apart.attached_perm {shared : SharedSurface Party} (apart : shared.Apart) :
    (shared.surface.attached.map fun entry => (entry.1,entry.2.span)).Perm
      ((shared.registry .left).entries ++ (shared.registry .right).entries) := by
  have sound := (apart.inStep .left).sound
  have keys : (shared.surface.attached.map fun entry => (entry.1,entry.2.span)).map (·.1) =
      shared.surface.attached.map (·.1) := by rw [List.map_map]; rfl
  have drawnOnce : (shared.surface.attached.map fun entry => (entry.1,entry.2.span)).Nodup :=
    List.Nodup.of_map (·.1) (keys ▸ sound.distinct)
  have together : Entries.Distinct ((shared.registry .left).entries ++ (shared.registry .right).entries) := by
    refine Entries.distinct_append (shared.registry .left).nodup (shared.registry .right).nodup ?_
    intro id inRight
    refine Registry.spanOf?_eq_none_iff.mpr fun inLeft => ?_
    exact Party.noConfusion (apart.unique .left .right id inLeft (Registry.contains_iff.mpr inRight))
  apply (List.perm_ext_iff_of_nodup drawnOnce (List.Nodup.of_map _ together)).mpr
  intro (id,span)
  rw [List.mem_append,List.mem_map]
  constructor
  · intro ⟨(id,decoration),member,same⟩
    obtain ⟨rfl,rfl⟩ := Prod.mk.inj same
    have drawn := Entries.valueOf?_of_mem sound.distinct member
    obtain ⟨owner,found⟩ := (apart.drawn_iff _ _).mp ⟨decoration.style,drawn⟩
    cases owner with
    | left => exact .inl (Entries.mem_of_valueOf? found)
    | right => exact .inr (Entries.mem_of_valueOf? found)
  · intro registered
    have found : ∃ owner, (shared.registry owner).spanOf? id = some span := by
      rcases registered with member | member
      · exact ⟨.left,Entries.valueOf?_of_mem (shared.registry .left).nodup member⟩
      · exact ⟨.right,Entries.valueOf?_of_mem (shared.registry .right).nodup member⟩
    obtain ⟨style,drawn⟩ := (apart.drawn_iff id span).mpr found
    exact ⟨_,Entries.mem_of_valueOf? drawn,rfl⟩

theorem owners_never_interfere (surface : MemorySurface) (empty : surface.attached = [])
    (commands : List (Party × OverlayCommand)) :
    let shared := (unowned Party surface).run commands
    (∀ id, ¬ ((shared.registry .left).contains id ∧ (shared.registry .right).contains id)) ∧
    (shared.surface.attached.map fun entry => (entry.1,entry.2.span)).Perm
      ((shared.registry .left).entries ++ (shared.registry .right).entries) ∧
    ∀ owner other, other ≠ owner → ∀ command,
      (shared.perform owner command).registry other = shared.registry other ∧
      ∀ id, (shared.registry other).contains id →
        (shared.perform owner command).surface.get? id = shared.surface.get? id := by
  intro shared
  have apart : shared.Apart := (apart_unowned empty).run commands
  refine ⟨?_,apart.attached_perm,?_⟩
  · intro id ⟨inLeft,inRight⟩
    exact Party.noConfusion (apart.unique .left .right id inLeft inRight)
  · intro owner other different command
    exact ⟨if_neg different,fun id registered => apart.get?_perform different command registered⟩

/-- The right owner recolors and removes ids of the left one, then wipes everything: the left one's span
is still drawn in its first look. -/
theorem left_span_outlives_right_owner :
    let span : Span := ⟨⟨1,1⟩,⟨1,4⟩⟩
    let shared := (unowned Party .empty).run [(.left,.addBatch [span,⟨⟨2,1⟩,⟨2,4⟩⟩] .fresh),
      (.right,.recolor (some (MemorySurface.idOf 1)) span .done),(.right,.remove (MemorySurface.idOf 2))]
    MemorySurface.empty.attached = [] ∧ Party.left ≠ .right ∧
      (shared.registry .left).contains (MemorySurface.idOf 1) ∧
      (shared.perform .right .reset).surface.get? (MemorySurface.idOf 1) = some ⟨span,.fresh⟩ := by
  intro span shared
  have registered : (shared.registry .left).contains (MemorySurface.idOf 1) := by decide
  have spared := ((owners_never_interfere .empty rfl _).2.2 .right .left (by decide) .reset).2 _ registered
  exact ⟨rfl,by decide,registered,spared.trans (by decide)⟩

end SharedSurface

end TagOverlay
