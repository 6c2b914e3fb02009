import TagOverlay.Files.Tree
import TagOverlay.Proofs.Decoration.Entries
import TagOverlay.Proofs.Files.Paths

/-! Trees in which every entry has a name that a path can lead through, and no folder has two entries of one
name. Putting something into such a tree and removing something from it leaves it such a tree, and listing the
entries of its folders in another order leaves everything at the same names. -/
namespace TagOverlay

namespace FileTree

/-- What an entry of a folder can be called. -/
structure EntryName (name : Text) : Prop extends Path.IsName name where
  noZero : '\x00' ∉ name
  short : name.width ≤ FileSystem.maxName

instance (name : Text) : Decidable (EntryName name) :=
  decidable_of_iff ((name ≠ [] ∧ '/' ∉ name ∧ name ≠ ['.'] ∧ name ≠ ['.','.']) ∧ '\x00' ∉ name ∧
      name.width ≤ FileSystem.maxName)
    ⟨fun ⟨⟨nonempty,noSlash,notHere,notAbove⟩,noZero,short⟩ =>
        ⟨⟨nonempty,noSlash,notHere,notAbove⟩,noZero,short⟩,
      fun ⟨⟨nonempty,noSlash,notHere,notAbove⟩,noZero,short⟩ =>
        ⟨⟨nonempty,noSlash,notHere,notAbove⟩,noZero,short⟩⟩

/-- In every folder the entries have names, each its own. -/
inductive Proper : FileTree → Prop where
  | file (content : ByteArray) : Proper (.file content)
  | folder {entries : List (Text × FileTree)} (named : ∀ entry ∈ entries, EntryName entry.1)
      (distinct : (entries.map (·.1)).Nodup) (below : ∀ entry ∈ entries, Proper entry.2) :
      Proper (.folder entries)

variable {tree last : FileTree} {entries : List (Text × FileTree)} {names : List Text} {name path : Text}

theorem child?_eq_some_iff (distinct : Entries.Distinct entries) {child : FileTree} :
    (folder entries).child? name = some child ↔ (name,child) ∈ entries :=
  ⟨Entries.mem_of_valueOf?,Entries.valueOf?_of_mem distinct⟩

theorem at?_cons_eq_some_iff :
    tree.at? (name :: names) = some last ↔
      ∃ child, tree.child? name = some child ∧ child.at? names = some last := by
  rw [at?,List.foldlM_cons]
  exact Option.bind_eq_some_iff

theorem at?_folder_cons_iff (distinct : Entries.Distinct entries) :
    (folder entries).at? (name :: names) = some last ↔
      ∃ child, (name,child) ∈ entries ∧ child.at? names = some last := by
  rw [at?_cons_eq_some_iff]
  exact exists_congr fun child => and_congr_left fun _ => child?_eq_some_iff distinct

theorem at?_file {content : ByteArray} (found : (file content).at? names = some last) :
    names = [] ∧ last = file content := by
  cases names with
  | nil => exact ⟨rfl,(Option.some_inj.mp found).symm⟩
  | cons name names =>
    obtain ⟨_,isChild,_⟩ := at?_cons_eq_some_iff.mp found
    contradiction

theorem at?_append (tree : FileTree) (front back : List Text) :
    tree.at? (front ++ back) = (tree.at? front).bind (·.at? back) := by
  rw [at?,List.foldlM_append]
  rfl

theorem Proper.child (proper : tree.Proper) (here : tree.child? name = some last) :
    EntryName name ∧ last.Proper := by
  cases proper with
  | file content => contradiction
  | folder named distinct below =>
    have member := (child?_eq_some_iff distinct).mp here
    exact ⟨named _ member,below _ member⟩

theorem Proper.of_at? (proper : tree.Proper) (found : tree.at? names = some last) :
    (∀ name ∈ names, EntryName name) ∧ last.Proper := by
  induction names generalizing tree with
  | nil =>
    obtain rfl := Option.some_inj.mp found
    exact ⟨fun _ member => absurd member List.not_mem_nil,proper⟩
  | cons name names ih =>
    obtain ⟨child,here,further⟩ := at?_cons_eq_some_iff.mp found
    obtain ⟨isName,childProper⟩ := proper.child here
    obtain ⟨named,lastProper⟩ := ih childProper further
    exact ⟨List.forall_mem_cons.mpr ⟨isName,named⟩,lastProper⟩

theorem proper_empty : (folder []).Proper :=
  .folder (fun _ member => absurd member List.not_mem_nil) .nil fun _ member => absurd member List.not_mem_nil

section Put

variable {entry : FileTree}

theorem forall_mem_putEntry {holds : Text × FileTree → Prop} (all : ∀ other ∈ entries, holds other)
    (new : holds (name,entry)) : ∀ other ∈ putEntry name entry entries, holds other := by
  induction entries with
  | nil => exact List.forall_mem_singleton.mpr new
  | cons first entries ih =>
    obtain ⟨here,later⟩ := List.forall_mem_cons.mp all
    rw [putEntry]
    split
    next => exact List.forall_mem_cons.mpr ⟨new,later⟩
    next => exact List.forall_mem_cons.mpr ⟨here,ih later⟩

theorem nodup_putEntry (distinct : (entries.map (·.1)).Nodup) :
    ((putEntry name entry entries).map (·.1)).Nodup := by
  induction entries with
  | nil => exact List.nodup_singleton name
  | cons first entries ih =>
    obtain ⟨new,distinct⟩ := List.nodup_cons.mp distinct
    rw [putEntry]
    split
    next same => exact List.nodup_cons.mpr ⟨same ▸ new,distinct⟩
    next different =>
      refine List.nodup_cons.mpr ⟨?_,ih distinct⟩
      intro member
      obtain ⟨other,isEntry,same⟩ := List.mem_map.mp member
      have : other.1 ≠ first.1 := forall_mem_putEntry
        (fun kept isKept same => new (List.mem_map.mpr ⟨kept,isKept,same⟩)) (Ne.symm different) other isEntry
      exact this same

theorem proper_put (proper : tree.Proper) (named : ∀ name ∈ names, EntryName name) (new : entry.Proper) :
    (put names entry tree).Proper := by
  induction names generalizing tree with
  | nil => exact new
  | cons name names ih =>
    obtain ⟨isName,named⟩ := List.forall_mem_cons.mp named
    have below : (put names entry ((tree.child? name).getD (folder []))).Proper := by
      cases here : tree.child? name with
      | none => exact ih proper_empty named
      | some child => exact ih (proper.child here).2 named
    have entered {kept : List (Text × FileTree)} (keptProper : (folder kept).Proper) :
        (folder (putEntry name (put names entry ((tree.child? name).getD (folder []))) kept)).Proper := by
      cases keptProper with
      | folder keptNamed distinct keptBelow =>
        exact .folder (forall_mem_putEntry keptNamed isName) (nodup_putEntry distinct)
          (forall_mem_putEntry keptBelow below)
    cases tree with
    | file content => exact entered proper_empty
    | folder kept => exact entered proper

theorem proper_remove (proper : tree.Proper) (names : List Text) : (remove names tree).Proper := by
  induction names generalizing tree with
  | nil => exact proper
  | cons name names ih =>
    cases proper with
    | file content => exact .file content
    | @folder entries named distinct below =>
      cases names with
      | nil =>
        rw [remove]
        exact .folder (fun entry member => named entry (List.mem_filter.mp member).1)
          (distinct.sublist (List.filter_sublist.map _))
          fun entry member => below entry (List.mem_filter.mp member).1
      | cons next names =>
        rw [remove]
        · have same : (entries.map fun entry =>
              if entry.1 = name then (name,remove (next :: names) entry.2) else entry).map (·.1) =
              entries.map (·.1) := by
            rw [List.map_map]
            apply List.map_congr_left
            intro entry _
            dsimp only [Function.comp]
            split
            next isName => exact isName.symm
            next => rfl
          refine .folder (List.forall_mem_map.mpr fun kept isKept => ?_) (same ▸ distinct)
            (List.forall_mem_map.mpr fun kept isKept => ?_)
          · split
            next isName => exact isName ▸ named kept isKept
            next => exact named kept isKept
          · split
            next => exact ih (below kept isKept)
            next => exact below kept isKept
        · exact List.cons_ne_nil next names

end Put

/-- One tree in two orders: the folders have the same names, and what a name stands for is one tree again. -/
inductive Rearranged : FileTree → FileTree → Prop where
  | file (content : ByteArray) : Rearranged (.file content) (.file content)
  | folder {entries others : List (Text × FileTree)} (names : (entries.map (·.1)).Perm (others.map (·.1)))
      (below : ∀ name one other, (name,one) ∈ entries → (name,other) ∈ others → Rearranged one other) :
      Rearranged (.folder entries) (.folder others)

section Rearranged

variable {other : FileTree} {others : List (Text × FileTree)}

theorem exists_mem_of_names {child : FileTree} (names : (entries.map (·.1)).Perm (others.map (·.1)))
    (member : (name,child) ∈ entries) : ∃ child, (name,child) ∈ others := by
  obtain ⟨⟨_,child⟩,isEntry,rfl⟩ := List.mem_map.mp (names.mem_iff.mp (List.mem_map.mpr ⟨_,member,rfl⟩))
  exact ⟨child,isEntry⟩

theorem Rearranged.symm (rearranged : Rearranged tree other) : Rearranged other tree := by
  induction rearranged with
  | file content => exact .file content
  | folder names below ih => exact .folder names.symm fun name one other left right => ih name other one right left

theorem Rearranged.proper (rearranged : Rearranged tree other) (proper : tree.Proper) : other.Proper := by
  induction rearranged with
  | file content => exact .file content
  | @folder entries others names below ih =>
    cases proper with
    | folder named distinct properBelow =>
      refine .folder (fun ⟨name,last⟩ member => ?_) (names.nodup_iff.mp distinct) fun ⟨name,last⟩ member => ?_
      · obtain ⟨child,isEntry⟩ := exists_mem_of_names names.symm member
        exact named (name,child) isEntry
      · obtain ⟨child,isEntry⟩ := exists_mem_of_names names.symm member
        exact ih name child last isEntry member (properBelow _ isEntry)

theorem Rearranged.child? (rearranged : Rearranged tree other) (proper : tree.Proper)
    (here : tree.child? name = some last) : ∃ last', other.child? name = some last' ∧ Rearranged last last' := by
  cases rearranged with
  | file content => contradiction
  | folder names below =>
    cases proper with
    | folder named distinct properBelow =>
      have member := (child?_eq_some_iff distinct).mp here
      obtain ⟨child,isEntry⟩ := exists_mem_of_names names member
      exact ⟨child,(child?_eq_some_iff (names.nodup_iff.mp distinct)).mpr isEntry,below _ _ _ member isEntry⟩

theorem Rearranged.at? (rearranged : Rearranged tree other) (proper : tree.Proper)
    (found : tree.at? names = some last) : ∃ last', other.at? names = some last' ∧ Rearranged last last' := by
  induction names generalizing tree other with
  | nil =>
    obtain rfl := Option.some_inj.mp found
    exact ⟨other,rfl,rearranged⟩
  | cons name names ih =>
    obtain ⟨child,here,further⟩ := at?_cons_eq_some_iff.mp found
    obtain ⟨child',there,same⟩ := rearranged.child? proper here
    obtain ⟨last',found,same⟩ := ih same (proper.child here).2 further
    exact ⟨last',at?_cons_eq_some_iff.mpr ⟨child',there,found⟩,same⟩

theorem Proper.rearranged (proper : tree.Proper) : Rearranged tree tree := by
  induction proper with
  | file content => exact .file content
  | folder named distinct below ih =>
    refine .folder (.refl _) fun name one other left right => ?_
    obtain rfl := Entries.eq_of_mem distinct left right
    exact ih _ left

/-- Listing the entries of one folder in another order rearranges the tree. -/
theorem rearranged_of_perm (proper : (folder entries).Proper) (perm : entries.Perm others) :
    Rearranged (folder entries) (folder others) := by
  cases proper with
  | folder named distinct below =>
    refine .folder (perm.map _) fun name one other left right => ?_
    obtain rfl := Entries.eq_of_mem distinct left (perm.mem_iff.mpr right)
    exact (below _ left).rearranged

end Rearranged

end FileTree

end TagOverlay
