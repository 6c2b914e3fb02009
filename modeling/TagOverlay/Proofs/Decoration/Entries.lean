import Mathlib.Data.List.Nodup
import TagOverlay.Decoration.Registry

/-! Entries under keys, as the registry and the surface in memory keep them. Where a key has one entry,
what it holds is all that matters: erasing and appending are told by it, and entries that hold the
same under each key are the same up to their order. -/
namespace TagOverlay.Entries

variable {α β : Type} [DecidableEq α] {entries : List (α × β)}

/-- What is held under a key. -/
def valueOf? (entries : List (α × β)) (key : α) : Option β :=
  (entries.find? fun entry => entry.1 = key).map (·.2)

def Distinct (entries : List (α × β)) : Prop :=
  (entries.map (·.1)).Nodup

theorem valueOf?_nil (key : α) : valueOf? ([] : List (α × β)) key = none := rfl

theorem valueOf?_cons (first : α × β) (rest : List (α × β)) (key : α) :
    valueOf? (first :: rest) key = if first.1 = key then some first.2 else valueOf? rest key := by
  rw [valueOf?,List.find?_cons]
  by_cases same : first.1 = key
  · simp [same]
  · simp [same,valueOf?]

theorem valueOf?_append (front back : List (α × β)) (key : α) :
    valueOf? (front ++ back) key = (valueOf? front key).or (valueOf? back key) := by
  rw [valueOf?,List.find?_append,Option.map_or]
  rfl

theorem valueOf?_eq_none_iff {key : α} : valueOf? entries key = none ↔ key ∉ entries.map (·.1) := by
  rw [valueOf?,Option.map_eq_none_iff,List.find?_eq_none,List.mem_map]
  constructor
  · intro absent ⟨entry,member,same⟩
    exact absent entry member (decide_eq_true same)
  · intro absent entry member same
    exact absent ⟨entry,member,of_decide_eq_true same⟩

theorem mem_of_valueOf? {key : α} {value : β} (found : valueOf? entries key = some value) :
    (key,value) ∈ entries := by
  obtain ⟨entry,here,rfl⟩ := Option.map_eq_some_iff.mp found
  have member := List.mem_of_find?_eq_some here
  have same := List.find?_some here
  obtain rfl : entry.1 = key := by simpa using same
  exact member

theorem valueOf?_of_mem (distinct : Distinct entries) {key : α} {value : β}
    (member : (key,value) ∈ entries) : valueOf? entries key = some value := by
  induction entries with
  | nil => simp at member
  | cons first rest ih =>
    obtain ⟨new,distinct⟩ := List.nodup_cons.mp distinct
    rw [valueOf?_cons]
    rcases List.mem_cons.mp member with rfl | later
    · rw [if_pos rfl]
    · have other : first.1 ≠ key := fun same =>
        new (List.mem_map.mpr ⟨_,later,same.symm⟩)
      rw [if_neg other,ih distinct later]

theorem eq_of_mem (distinct : Distinct entries) {key : α} {one other : β} (left : (key,one) ∈ entries)
    (right : (key,other) ∈ entries) : one = other :=
  Option.some_inj.mp ((valueOf?_of_mem distinct left).symm.trans (valueOf?_of_mem distinct right))

theorem valueOf?_eq_of_perm (distinct : Distinct entries) {order : List (α × β)} (perm : order.Perm entries)
    (key : α) : valueOf? order key = valueOf? entries key := by
  have alsoDistinct : Distinct order := (perm.map _).nodup_iff.mpr distinct
  apply Option.ext
  intro value
  constructor
  · exact fun found => valueOf?_of_mem distinct (perm.mem_iff.mp (mem_of_valueOf? found))
  · exact fun found => valueOf?_of_mem alsoDistinct (perm.mem_iff.mpr (mem_of_valueOf? found))

/-- Where each key has one entry, entries that hold the same under each key are the same up to their order. -/
theorem perm_of_valueOf?_eq (distinct : Distinct entries) {others : List (α × β)} (alsoDistinct : Distinct others)
    (same : ∀ key, valueOf? entries key = valueOf? others key) : entries.Perm others := by
  apply (List.perm_ext_iff_of_nodup (List.Nodup.of_map _ distinct) (List.Nodup.of_map _ alsoDistinct)).mpr
  intro (key,value)
  constructor
  · exact fun member => mem_of_valueOf? ((same key).symm.trans (valueOf?_of_mem distinct member))
  · exact fun member => mem_of_valueOf? ((same key).trans (valueOf?_of_mem alsoDistinct member))

theorem valueOf?_map {γ : Type} (f : β → γ) (entries : List (α × β)) (key : α) :
    valueOf? (entries.map (Prod.map id f)) key = (valueOf? entries key).map f := by
  induction entries with
  | nil => rfl
  | cons first rest ih =>
    rw [List.map_cons,valueOf?_cons,valueOf?_cons,ih,apply_ite (Option.map f)]
    rfl

theorem Distinct.eraseP (distinct : Distinct entries) (key : α) :
    Distinct (entries.eraseP fun entry => entry.1 = key) :=
  List.Nodup.sublist (List.eraseP_sublist.map _) distinct

theorem valueOf?_eraseP (distinct : Distinct entries) (key other : α) :
    valueOf? (entries.eraseP fun entry => entry.1 = key) other =
      if other = key then none else valueOf? entries other := by
  induction entries with
  | nil => simp [valueOf?_nil]
  | cons first rest ih =>
    obtain ⟨new,distinct⟩ := List.nodup_cons.mp distinct
    by_cases here : first.1 = key
    · rw [List.eraseP_cons_of_pos (by simpa using here),valueOf?_cons,here]
      split
      next same =>
        rw [valueOf?_eq_none_iff,same,← here]
        exact new
      next different => rw [if_neg (Ne.symm different)]
    · rw [List.eraseP_cons_of_neg (by simpa using here),valueOf?_cons,valueOf?_cons,ih distinct]
      by_cases same : first.1 = other
      · have different : other ≠ key := same ▸ here
        rw [if_pos same,if_neg different,if_pos same]
      · rw [if_neg same,if_neg same]

theorem distinct_append {front back : List (α × β)} (first : Distinct front) (second : Distinct back)
    (apart : ∀ key, key ∈ back.map (·.1) → valueOf? front key = none) : Distinct (front ++ back) := by
  rw [Distinct,List.map_append]
  refine List.nodup_append.mpr ⟨first,second,?_⟩
  intro key inFront other inBack same
  exact valueOf?_eq_none_iff.mp (apart other inBack) (same ▸ inFront)

section Items

variable {γ : Type} {items : List γ} {key : γ → α}

omit [DecidableEq α] in
theorem distinct_filterMap (nodup : (items.map key).Nodup) (f : γ → Option β) :
    Distinct (items.filterMap fun item => (f item).map (key item,·)) := by
  apply List.Nodup.sublist ?_ nodup
  clear nodup
  induction items with
  | nil => exact .slnil
  | cons first rest ih =>
    rw [List.filterMap_cons]
    cases f first with
    | none => exact ih.cons _
    | some value => exact ih.cons_cons _

/-- Entries whose keys are those of some items, each item with its own key, are what is held for
the items one after the other. -/
theorem perm_filterMap (distinct : Distinct entries) (nodup : (items.map key).Nodup)
    (known : ∀ entry ∈ entries, entry.1 ∈ items.map key) :
    entries.Perm (items.filterMap fun item => (valueOf? entries (key item)).map (key item,·)) := by
  have listed := List.Nodup.of_map _ (distinct_filterMap nodup fun item => valueOf? entries (key item))
  apply (List.perm_ext_iff_of_nodup (List.Nodup.of_map _ distinct) listed).mpr
  intro entry
  rw [List.mem_filterMap]
  constructor
  · intro member
    obtain ⟨item,isItem,same⟩ := List.mem_map.mp (known entry member)
    have found : valueOf? entries (key item) = some entry.2 := by
      rw [same]
      exact valueOf?_of_mem distinct member
    exact ⟨item,isItem,by rw [found,same]; rfl⟩
  · intro ⟨item,isItem,told⟩
    obtain ⟨value,found,rfl⟩ := Option.map_eq_some_iff.mp told
    exact mem_of_valueOf? found

end Items

end TagOverlay.Entries
