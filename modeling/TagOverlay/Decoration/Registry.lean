import TagOverlay.Decoration.Surface
import TagOverlay.Text.Digits

/-! The registry of decorations: which id covers which span. Entries are kept in the order in which
they came in; an id has at most one. -/
namespace TagOverlay

structure Registry where
  /-- The newest entry comes first. -/
  entries : List (DecorationId × Span)
  /-- Every id has one entry. -/
  nodup : (entries.map (·.1)).Nodup

namespace Registry

def empty : Registry := ⟨[],.nil⟩

/-- The entries, the oldest first. -/
def toList (registry : Registry) : List (DecorationId × Span) :=
  registry.entries.reverse

def size (registry : Registry) : Nat :=
  registry.entries.length

def isEmpty (registry : Registry) : Bool :=
  registry.entries.isEmpty

def contains (registry : Registry) (id : DecorationId) : Bool :=
  registry.entries.any fun entry => entry.1 = id

def spanOf? (registry : Registry) (id : DecorationId) : Option Span :=
  (registry.entries.find? fun entry => entry.1 = id).map (·.2)

def ids (registry : Registry) : List DecorationId :=
  registry.toList.map (·.1)

theorem contains_iff {registry : Registry} {id : DecorationId} :
    registry.contains id ↔ id ∈ registry.entries.map (·.1) := by
  simp [contains]

def exchange (id : DecorationId) (span : Span) (entries : List (DecorationId × Span)) :
    List (DecorationId × Span) :=
  entries.map fun entry => if entry.1 = id then (id,span) else entry

theorem map_fst_exchange (id : DecorationId) (span : Span)
    (entries : List (DecorationId × Span)) :
    (exchange id span entries).map (·.1) = entries.map (·.1) := by
  rw [exchange,List.map_map]
  apply List.map_congr_left
  intro entry _
  by_cases same : entry.1 = id <;> simp [same]

def insert (registry : Registry) (id : DecorationId) (span : Span) : Registry :=
  if known : registry.contains id then
    ⟨exchange id span registry.entries,by
      rw [map_fst_exchange]; exact registry.nodup⟩
  else
    ⟨(id,span) :: registry.entries,
      List.nodup_cons.2 ⟨mt contains_iff.2 known,registry.nodup⟩⟩

/-- The number that an id's name writes. Ids with different numbers are different. -/
def number (id : DecorationId) : Nat :=
  Text.numberOf 10 id.name.toList

def ascending : List Nat → Bool
  | first :: second :: rest => first < second && ascending (second :: rest)
  | _ => true

theorem pairwise_of_ascending {numbers : List Nat} (ascends : ascending numbers) :
    numbers.Pairwise (· < ·) := by
  fun_induction ascending numbers with
  | case1 first second rest ih =>
    obtain ⟨lt,ascends⟩ := (Bool.and_eq_true _ _).mp ascends
    have lt := of_decide_eq_true lt
    refine List.pairwise_cons.2 ⟨fun other isLater => ?_,ih ascends⟩
    rcases List.mem_cons.1 isLater with rfl | isLater
    · exact lt
    · exact Nat.lt_trans lt (List.rel_of_pairwise_cons (ih ascends) isLater)
  | case2 numbers short =>
    match numbers,short with
    | [],_ => exact .nil
    | [_],_ => exact List.pairwise_singleton _ _
    | first :: second :: rest,short => exact absurd rfl (short first second rest)

theorem nodup_of_ascending {pairs : List (DecorationId × Span)}
    (ascends : ascending (pairs.map (number ·.1))) : (pairs.map (·.1)).Nodup := by
  have apart := List.pairwise_map.1 (pairwise_of_ascending ascends)
  refine List.pairwise_map.2 (apart.imp fun {first second} lt same => ?_)
  rw [same] at lt
  exact Nat.lt_irrefl _ lt

/-- Records some spans, each under its id. Into an empty registry, ids with ascending numbers come
as they are. -/
def insertAll (registry : Registry) (pairs : List (DecorationId × Span)) : Registry :=
  if alone : registry.isEmpty ∧ ascending (pairs.map (number ·.1)) then
    ⟨pairs.reverse,by
      rw [List.map_reverse]
      exact List.pairwise_reverse.2 ((nodup_of_ascending alone.2).imp Ne.symm)⟩
  else pairs.foldl (fun registry pair => registry.insert pair.1 pair.2) registry

def erase (registry : Registry) (id : DecorationId) : Registry :=
  ⟨registry.entries.eraseP fun entry => entry.1 = id,
    List.Nodup.sublist (List.eraseP_sublist.map _) registry.nodup⟩

/-- The entries whose spans contain the position. -/
def covering (registry : Registry) (position : Position) : List (DecorationId × Span) :=
  registry.toList.filter fun entry => entry.2.contains position

/-- The latest start of the entries' spans. -/
def latest (entries : List (DecorationId × Span)) : Position :=
  entries.foldl (fun last entry => if last ≤ entry.2.start then entry.2.start else last) ⟨0,0⟩

/-- The entries that contain the position and start last among those that do. -/
def innermost (registry : Registry) (position : Position) : List (DecorationId × Span) :=
  let covering := registry.covering position
  let last := latest covering
  covering.filter fun entry => entry.2.start = last

/-- The id of the decoration under a caret, the innermost one if several are. -/
def idAt? (registry : Registry) (position : Position) : Option DecorationId :=
  ((registry.innermost position).getLast?).map (·.1)

private theorem find?_exchange_self {id : DecorationId} {entries : List (DecorationId × Span)}
    (span : Span) (known : id ∈ entries.map (·.1)) :
    (exchange id span entries).find? (fun entry => entry.1 = id) = some (id,span) := by
  induction entries with
  | nil => simp at known
  | cons entry entries step =>
    rw [exchange,List.map_cons,List.find?_cons]
    by_cases same : entry.1 = id
    · simp [same]
    · rw [if_neg same,decide_eq_false same]
      exact step ((List.mem_cons.1 known).resolve_left (Ne.symm same))

private theorem find?_exchange_of_ne {id other : DecorationId} (different : other ≠ id)
    (span : Span) (entries : List (DecorationId × Span)) :
    (exchange id span entries).find? (fun entry => entry.1 = other)
      = entries.find? fun entry => entry.1 = other := by
  induction entries with
  | nil => rfl
  | cons entry entries step =>
    rw [exchange,List.map_cons,List.find?_cons,List.find?_cons]
    by_cases same : entry.1 = id
    · rw [if_pos same,decide_eq_false (Ne.symm different),
        decide_eq_false (same ▸ Ne.symm different)]
      exact step
    · rw [if_neg same]
      split
      · rfl
      · exact step

theorem spanOf?_insert (registry : Registry) (id other : DecorationId) (span : Span) :
    (registry.insert id span).spanOf? other
      = if other = id then some span else registry.spanOf? other := by
  rw [insert]
  split
  next known =>
    simp only [spanOf?]
    split
    next same => rw [same,find?_exchange_self span (contains_iff.1 known)]; rfl
    next different => rw [find?_exchange_of_ne different]
  next =>
    simp only [spanOf?,List.find?_cons]
    by_cases same : other = id
    · simp [same]
    · rw [if_neg same,decide_eq_false (Ne.symm same)]

theorem contains_insert (registry : Registry) (id other : DecorationId) (span : Span) :
    (registry.insert id span).contains other ↔ other = id ∨ registry.contains other := by
  rw [contains_iff,contains_iff,insert]
  split
  next known =>
    rw [map_fst_exchange]
    exact ⟨.inr,fun kept => kept.elim (fun same => same ▸ contains_iff.1 known) fun kept => kept⟩
  next => rw [List.map_cons,List.mem_cons]

theorem contains_erase (registry : Registry) (id other : DecorationId) :
    (registry.erase id).contains other ↔ other ≠ id ∧ registry.contains other := by
  rw [contains_iff,contains_iff,erase]
  have erased : (registry.entries.eraseP fun entry => entry.1 = id).map (·.1)
      = (registry.entries.map (·.1)).erase id := by
    rw [List.erase_eq_eraseP',List.eraseP_map]
    rfl
  rw [erased,registry.nodup.mem_erase_iff]

private theorem entries_foldl_insert (pairs : List (DecorationId × Span)) (registry : Registry)
    (nodup : (pairs.map (·.1)).Nodup) (fresh : ∀ pair ∈ pairs, ¬ registry.contains pair.1) :
    (pairs.foldl (fun registry pair => registry.insert pair.1 pair.2) registry).entries
      = pairs.reverse ++ registry.entries := by
  induction pairs generalizing registry with
  | nil => rfl
  | cons pair pairs step =>
    obtain ⟨new,nodup⟩ := List.nodup_cons.1 nodup
    rw [List.foldl_cons,step _ nodup]
    · rw [insert,dif_neg (fresh pair List.mem_cons_self)]
      simp
    · intro other isLater known
      rcases (contains_insert ..).1 known with same | known
      · exact new (List.mem_map.2 ⟨other,isLater,same⟩)
      · exact fresh other (List.mem_cons_of_mem _ isLater) known

/-- Spans that are recorded together are recorded one after the other. -/
theorem insertAll_eq (registry : Registry) (pairs : List (DecorationId × Span)) :
    registry.insertAll pairs
      = pairs.foldl (fun registry pair => registry.insert pair.1 pair.2) registry := by
  rw [insertAll]
  split
  next alone =>
    have nothing : registry.entries = [] := List.isEmpty_iff.1 alone.1
    have entries := entries_foldl_insert pairs registry (nodup_of_ascending alone.2)
      (by simp [contains,nothing])
    rw [nothing,List.append_nil] at entries
    cases whole : pairs.foldl (fun registry pair => registry.insert pair.1 pair.2) registry
    rw [whole] at entries
    exact (Registry.mk.injEq ..).mpr entries.symm
  next => rfl

private theorem latest_spec (entries : List (DecorationId × Span)) (start : Position) :
    let last := entries.foldl
      (fun last entry => if last ≤ entry.2.start then entry.2.start else last) start
    start ≤ last ∧ (∀ entry ∈ entries, entry.2.start ≤ last) ∧
      (last = start ∨ ∃ entry ∈ entries, entry.2.start = last) := by
  induction entries generalizing start with
  | nil => exact ⟨Position.le_refl _,by simp,.inl rfl⟩
  | cons entry entries step =>
    rw [List.foldl_cons]
    obtain ⟨above,all,reached⟩ := step (if start ≤ entry.2.start then entry.2.start else start)
    have both : start ≤ (if start ≤ entry.2.start then entry.2.start else start) ∧
        entry.2.start ≤ (if start ≤ entry.2.start then entry.2.start else start) := by
      split
      next le => exact ⟨le,Position.le_refl _⟩
      next notLe => exact ⟨Position.le_refl _,Position.le_of_not_le notLe⟩
    refine ⟨Position.le_trans both.1 above,?_,?_⟩
    · intro other member
      rcases List.mem_cons.1 member with rfl | member
      · exact Position.le_trans both.2 above
      · exact all other member
    · rcases reached with same | ⟨other,member,same⟩
      · rw [same]
        split
        · exact .inr ⟨entry,List.mem_cons_self,rfl⟩
        · exact .inl rfl
      · exact .inr ⟨other,List.mem_cons_of_mem _ member,same⟩

/-- The innermost entries are those that no other one starts after. -/
theorem mem_innermost_iff {registry : Registry} {position : Position}
    {entry : DecorationId × Span} :
    entry ∈ registry.innermost position ↔
      entry ∈ registry.covering position ∧
        ∀ other ∈ registry.covering position, other.2.start ≤ entry.2.start := by
  rw [innermost,List.mem_filter,decide_eq_true_eq]
  refine and_congr_right fun member => ?_
  obtain ⟨_,all,reached⟩ := latest_spec (registry.covering position) ⟨0,0⟩
  constructor
  · intro same other isOther
    rw [same]
    exact all other isOther
  · intro below
    refine Position.le_antisymm (all entry member) ?_
    rcases reached with zero | ⟨other,isOther,same⟩
    · rw [latest,zero,Position.le_def]
      simp only
      omega
    · rw [latest,← same]
      exact below other isOther

end Registry

end TagOverlay
