import Mathlib.Data.Set.Card
import TagOverlay.Proofs.Files.Listing
import TagOverlay.Proofs.Files.PathOrder

/-! What scanning finds. Each document below the folder is listed once, in the order of paths and whatever the
order in which folders list their entries. A folder whose path is too long to be looked at is listed if its
name is one of a document, and what is in it is not found. -/
namespace TagOverlay

namespace Documents
open FileTree (Rearranged at?_append at?_cons_eq_some_iff at?_folder_cons_iff)
open FileSystem (maxPath sound_of_find short_of_find ne_nil_of_sound)

variable {fs : FileSystem} {tree entry : FileTree} {entries below : List (Text × FileTree)}
    {base folder path : Text} {names others : List Text} {files : List Text}

/-- The last name ends in `.xml`, with something before that. -/
def NamesDocument (names : List Text) : Prop :=
  ∃ stem, stem ≠ [] ∧ names.getLast? = some (stem ++ ['.','x','m','l'])

structure LeadsToDocument (tree : FileTree) (names : List Text) : Prop where
  file : ∃ content, tree.at? names = some (.file content)
  named : NamesDocument names

/-- A folder that scanning comes to, but cannot look at. -/
structure Closed (base : Text) (tree : FileTree) (names : List Text) (below : List (Text × FileTree)) : Prop where
  here : tree.at? names = some (.folder below)
  isOpen : IsOpen base names
  tooLong : maxPath < (names.foldl Path.join base).width

/-- All documents of the tree and nothing else, in the order of their paths. -/
structure ListsDocuments (folder : Text) (tree : FileTree) (files : List Text) : Prop where
  each : ∀ path, path ∈ files ↔ ∃ names, LeadsToDocument tree names ∧ path = names.foldl Path.join folder
  ascending : files.Pairwise Path.Before

section Places

variable (relative : base ≠ []) (proper : tree.Proper)
include relative proper

theorem below_of_at? (here : tree.at? names = some entry) : Path.Below base names (names.foldl Path.join base) :=
  Path.Below.base.join relative fun name member => ((proper.of_at? here).1 name member).toIsName

/-- Entries at different names have paths of different components. -/
theorem names_eq {other : FileTree} (here : tree.at? names = some entry) (there : tree.at? others = some other)
    (same : Path.components (names.foldl Path.join base) = Path.components (others.foldl Path.join base)) :
    names = others := by
  rw [(below_of_at? relative proper here).components_eq relative,
    (below_of_at? relative proper there).components_eq relative] at same
  exact List.map_injective_iff.mpr (fun _ _ => Path.Component.name.inj) (List.append_cancel_left same)

theorem isDocument_iff (here : tree.at? names = some entry) (deeper : names ≠ []) :
    isDocument (names.foldl Path.join base) ↔ NamesDocument names := by
  have noDot : '.' ∉ "xml".toList := by decide
  rw [isDocument,decide_eq_true_eq,Path.extension?,(below_of_at? relative proper here).fileName?_eq relative deeper,
    Option.bind_eq_some_iff,NamesDocument]
  constructor
  · intro ⟨name,last,extension⟩
    obtain ⟨stem,nonempty,rfl,_⟩ := Path.extensionOf?_eq_some_iff.mp extension
    exact ⟨stem,nonempty,last⟩
  · intro ⟨stem,nonempty,last⟩
    exact ⟨_,last,Path.extensionOf?_eq_some_iff.mpr ⟨stem,nonempty,rfl,noDot⟩⟩

end Places

theorem nodup_paths (relative : base ≠ []) (proper : tree.Proper) : (paths base tree).Nodup := by
  have itself (base : Text) : (if isDocument base then [base] else []).Nodup := by
    split
    next => exact List.nodup_singleton base
    next => exact .nil
  induction proper generalizing base with
  | file content =>
    rw [paths]
    exact itself base
  | @folder entries named distinct below ih =>
    by_cases short : base.width ≤ maxPath
    · have whole : (FileTree.folder entries).Proper := .folder named distinct below
      have enters {entry : Text × FileTree} (isEntry : entry ∈ entries) {names : List Text} {last : FileTree}
          (here : entry.2.at? names = some last) : (FileTree.folder entries).at? (entry.1 :: names) = some last :=
        (at?_folder_cons_iff distinct).mpr ⟨_,isEntry,here⟩
      rw [paths_of_short short,List.nodup_flatMap]
      constructor
      · intro entry isEntry
        have here : entry.2.at? [] = some entry.2 := rfl
        have isBelow := below_of_at? relative whole (enters isEntry here)
        exact ih entry isEntry (isBelow.nonempty relative)
      · -- What is listed for two entries begins with their names, which are different.
        refine (List.pairwise_map.mp distinct).imp_of_mem fun left right different path first second => ?_
        obtain ⟨_,_,listed⟩ := (mem_paths_iff (below _ left)).mp first
        obtain ⟨_,_,otherListed⟩ := (mem_paths_iff (below _ right)).mp second
        have same := congrArg Path.components (listed.path_eq.symm.trans otherListed.path_eq)
        have names := names_eq relative whole (enters left listed.here) (enters right otherListed.here) same
        exact different (List.cons.inj names).1
    · rw [paths,if_pos (Nat.lt_of_not_le short)]
      exact itself base

theorem ascending_of_scan (scanned : scan fs folder = .ok files) (found : fs.find folder = .ok tree)
    (proper : tree.Proper) : files.Pairwise Path.Before := by
  have relative := ne_nil_of_sound (sound_of_find found)
  obtain ⟨_,rfl⟩ := exists_of_scan scanned found
  apply Path.ascending_mergeSort
  refine (nodup_paths relative proper).imp_of_mem fun left right different same => different ?_
  obtain ⟨names,_,listed⟩ := (mem_paths_iff proper).mp left
  obtain ⟨others,_,otherListed⟩ := (mem_paths_iff proper).mp right
  rw [listed.path_eq,otherListed.path_eq] at same ⊢
  rw [names_eq relative proper listed.here otherListed.here same]

/-- Folders that list their entries in another order have the same documents. -/
theorem Listed.rearranged {other : FileTree} (listed : Listed base tree path names entry) (proper : tree.Proper)
    (rearranged : Rearranged tree other) : ∃ entry, Listed base other path names entry := by
  obtain ⟨last,there,same⟩ := rearranged.at? proper listed.here
  refine ⟨last,there,listed.path_eq,listed.document,listed.file.imp_left ?_,listed.isOpen⟩
  rintro ⟨content,rfl⟩
  cases same with
  | file => exact ⟨content,rfl⟩

theorem scan_of_rearranged {fs' : FileSystem} {other : FileTree} (scanned : scan fs folder = .ok files)
    (found : fs.find folder = .ok tree) (proper : tree.Proper) (found' : fs'.find folder = .ok other)
    (rearranged : Rearranged tree other) : scan fs' folder = .ok files := by
  obtain ⟨⟨entries,rfl⟩,_⟩ := exists_of_scan scanned found
  have proper' := rearranged.proper proper
  obtain ⟨others,rfl⟩ : ∃ others, other = .folder others := by
    cases rearranged with
    | folder => exact ⟨_,rfl⟩
  have scanned' := scan_of_find found'
  have same : (paths folder (.folder others)).mergeSort Path.precedes = files := by
    apply Path.eq_of_ascending (ascending_of_scan scanned' found' proper') (ascending_of_scan scanned found proper)
    intro path
    rw [mem_scan_iff scanned' found' proper',mem_scan_iff scanned found proper]
    constructor
    · exact fun ⟨names,_,listed⟩ => ⟨names,listed.rearranged proper' rearranged.symm⟩
    · exact fun ⟨names,_,listed⟩ => ⟨names,listed.rearranged proper rearranged⟩
  rw [scanned',same]

theorem exists_closed_or_isOpen (short : base.width ≤ maxPath) (here : tree.at? names = some entry) :
    IsOpen base names ∨ ∃ front further below, names = front ++ further ∧ further ≠ [] ∧
      Closed base tree front below := by
  induction names generalizing base tree with
  | nil => exact .inl trivial
  | cons name names ih =>
    obtain ⟨child,isChild,deeper⟩ := at?_cons_eq_some_iff.mp here
    by_cases next : (Path.join base name).width ≤ maxPath
    · rcases ih next deeper with isOpen | ⟨front,further,below,rfl,nonempty,closed⟩
      · exact .inl ⟨short,isOpen⟩
      · exact .inr ⟨name :: front,further,below,rfl,nonempty,
          at?_cons_eq_some_iff.mpr ⟨child,isChild,closed.here⟩,⟨short,closed.isOpen⟩,closed.tooLong⟩
    · cases names with
      | nil => exact .inl ⟨short,trivial⟩
      | cons later names =>
        cases child with
        | file content => contradiction
        | folder below =>
          exact .inr ⟨[name],later :: names,below,rfl,List.cons_ne_nil _ _,
            at?_cons_eq_some_iff.mpr ⟨_,isChild,rfl⟩,⟨short,trivial⟩,Nat.lt_of_not_le next⟩

theorem mem_scan_iff_document (scanned : scan fs folder = .ok files) (found : fs.find folder = .ok tree)
    (proper : tree.Proper) :
    path ∈ files ↔ ∃ names, path = names.foldl Path.join folder ∧ NamesDocument names ∧
      (IsOpen folder names ∧ (∃ content, tree.at? names = some (.file content)) ∨
        ∃ below, Closed folder tree names below) := by
  have relative := ne_nil_of_sound (sound_of_find found)
  rw [mem_scan_iff scanned found proper]
  constructor
  · intro ⟨names,entry,listed⟩
    have deeper := listed.deeper_of_scan scanned found
    obtain ⟨here,rfl,document,file,isOpen⟩ := listed
    refine ⟨names,rfl,(isDocument_iff relative proper here deeper).mp document,?_⟩
    cases entry with
    | file content => exact .inl ⟨isOpen,content,here⟩
    | folder below => exact .inr ⟨below,here,isOpen,file.resolve_left nofun⟩
  · rintro ⟨names,rfl,named,kind⟩
    have deeper : names ≠ [] := by
      obtain ⟨_,_,last⟩ := named
      rintro rfl
      contradiction
    rcases kind with ⟨isOpen,content,here⟩ | ⟨below,closed⟩
    · exact ⟨names,_,here,rfl,(isDocument_iff relative proper here deeper).mpr named,.inl ⟨content,rfl⟩,isOpen⟩
    · exact ⟨names,_,closed.here,rfl,(isDocument_iff relative proper closed.here deeper).mpr named,.inr closed.tooLong,
        closed.isOpen⟩

theorem IsOpen.short {front further : List Text} (isOpen : IsOpen base (front ++ further)) (deeper : further ≠ []) :
    (front.foldl Path.join base).width ≤ maxPath := by
  induction front generalizing base with
  | nil =>
    obtain ⟨name,further,rfl⟩ := List.exists_cons_of_ne_nil deeper
    exact isOpen.1
  | cons name front ih => exact ih isOpen.2

theorem LeadsToDocument.nonempty (leads : LeadsToDocument (.folder below) names) : names ≠ [] := by
  rintro rfl
  obtain ⟨content,here⟩ := leads.file
  exact absurd (Option.some_inj.mp here) nofun

theorem leadsToDocument_append_iff {front : List Text} (here : tree.at? front = some (.folder below))
    (deeper : names ≠ []) : LeadsToDocument tree (front ++ names) ↔ LeadsToDocument (.folder below) names := by
  have further : tree.at? (front ++ names) = (FileTree.folder below).at? names := by
    rw [at?_append,here]
    rfl
  have last : (front ++ names).getLast? = names.getLast? := List.getLast?_append_of_ne_nil _ deeper
  constructor
  · exact fun ⟨file,named⟩ => ⟨further ▸ file,by rwa [NamesDocument,last] at named⟩
  · exact fun ⟨file,named⟩ => ⟨further ▸ file,by rwa [NamesDocument,last]⟩

/-- The documents of a folder in which there are one and a folder with another. -/
theorem leadsToDocument_of_two {first inner second : Text} {content other : ByteArray} (apart : first ≠ inner)
    (firstNamed : NamesDocument [first]) (secondNamed : NamesDocument [inner,second]) :
    {names | LeadsToDocument (.folder [(first,.file content),(inner,.folder [(second,.file other)])]) names} =
      {[first],[inner,second]} := by
  have distinct : Entries.Distinct [(first,FileTree.file content),(inner,.folder [(second,.file other)])] :=
    List.nodup_cons.mpr ⟨fun member => apart (List.mem_singleton.mp member),List.nodup_singleton _⟩
  have secondDistinct : Entries.Distinct [(second,FileTree.file other)] := List.nodup_singleton _
  ext names
  constructor
  · intro leads
    obtain ⟨name,names,rfl⟩ := List.exists_cons_of_ne_nil (LeadsToDocument.nonempty leads)
    obtain ⟨⟨_,here⟩,_⟩ := leads
    obtain ⟨child,member,further⟩ := (at?_folder_cons_iff distinct).mp here
    rcases List.mem_cons.mp member with same | member
    · obtain ⟨rfl,rfl⟩ := Prod.mk.inj same
      exact .inl (congrArg _ (FileTree.at?_file further).1)
    · obtain ⟨rfl,rfl⟩ := Prod.mk.inj (List.mem_singleton.mp member)
      cases names with
      | nil => exact absurd (Option.some_inj.mp further) nofun
      | cons name names =>
        obtain ⟨child,member,last⟩ := (at?_folder_cons_iff secondDistinct).mp further
        obtain ⟨rfl,rfl⟩ := Prod.mk.inj (List.mem_singleton.mp member)
        exact .inr (congrArg _ (congrArg _ (FileTree.at?_file last).1))
  · rintro (rfl | rfl)
    · exact ⟨⟨content,(at?_folder_cons_iff distinct).mpr ⟨_,List.mem_cons_self,rfl⟩⟩,firstNamed⟩
    · have inside : (FileTree.folder [(second,.file other)]).at? [second] = some (.file other) :=
        (at?_folder_cons_iff secondDistinct).mpr ⟨_,List.mem_singleton_self _,rfl⟩
      exact ⟨⟨other,(at?_folder_cons_iff distinct).mpr ⟨_,List.mem_cons_of_mem _ (List.mem_singleton_self _),inside⟩⟩,
        secondNamed⟩

/-- The list is the right one as long as closed folders have nothing to do with documents. -/
theorem listsDocuments_iff (scanned : scan fs folder = .ok files) (found : fs.find folder = .ok tree)
    (proper : tree.Proper) :
    ListsDocuments folder tree files ↔ ∀ names below, Closed folder tree names below →
      ¬ NamesDocument names ∧ ∀ further, ¬ LeadsToDocument (.folder below) further := by
  have relative := ne_nil_of_sound (sound_of_find found)
  have apart {names others : List Text} {entry other : FileTree} (here : tree.at? names = some entry)
      (there : tree.at? others = some other) (same : names.foldl Path.join folder = others.foldl Path.join folder) :
      names = others := names_eq relative proper here there (congrArg Path.components same)
  constructor
  · intro right names below closed
    constructor
    · intro named
      have listed := (mem_scan_iff_document scanned found proper).mpr ⟨names,rfl,named,.inr ⟨below,closed⟩⟩
      obtain ⟨others,⟨⟨content,file⟩,_⟩,same⟩ := (right.each _).mp listed
      obtain rfl := apart closed.here file same
      exact absurd (Option.some_inj.mp (closed.here.symm.trans file)) nofun
    · intro further leads
      have whole := (leadsToDocument_append_iff closed.here leads.nonempty).mpr leads
      have listed := (right.each _).mpr ⟨_,whole,rfl⟩
      obtain ⟨others,entry,here,same,_,_,isOpen⟩ := (mem_scan_iff scanned found proper).mp listed
      obtain ⟨_,there⟩ := whole.file
      obtain rfl := apart there here same
      exact absurd (isOpen.short leads.nonempty) (Nat.not_le.mpr closed.tooLong)
  · intro harmless
    refine ⟨fun path => ?_,ascending_of_scan scanned found proper⟩
    rw [mem_scan_iff_document scanned found proper]
    constructor
    · rintro ⟨names,rfl,named,⟨_,file⟩ | ⟨below,closed⟩⟩
      · exact ⟨names,⟨file,named⟩,rfl⟩
      · exact absurd named (harmless names below closed).1
    · rintro ⟨names,leads,rfl⟩
      obtain ⟨content,file⟩ := leads.file
      rcases exists_closed_or_isOpen (short_of_find found) file with isOpen | ⟨front,further,below,rfl,deeper,closed⟩
      · exact ⟨names,rfl,leads.named,.inl ⟨isOpen,content,file⟩⟩
      · exact absurd ((leadsToDocument_append_iff closed.here deeper).mp leads) ((harmless front below closed).2 further)

/-- A list of all documents has as many members as there are documents. -/
theorem ListsDocuments.length_eq (right : ListsDocuments folder tree files) (relative : folder ≠ [])
    (proper : tree.Proper) : files.length = {names | LeadsToDocument tree names}.ncard := by
  have distinct : files.Nodup := by
    refine right.ascending.imp fun before same => ?_
    subst same
    exact Path.not_before before before
  have apart : Set.InjOn (·.foldl Path.join folder) {names | LeadsToDocument tree names} := by
    intro names leads others otherLeads same
    obtain ⟨_,here⟩ := LeadsToDocument.file leads
    obtain ⟨_,there⟩ := LeadsToDocument.file otherLeads
    exact names_eq relative proper here there (congrArg Path.components same)
  have listed : {path | path ∈ files} = (·.foldl Path.join folder) '' {names | LeadsToDocument tree names} := by
    ext path
    rw [Set.mem_ofPred_eq,right.each]
    constructor
    · exact fun ⟨names,leads,same⟩ => ⟨names,leads,same.symm⟩
    · exact fun ⟨names,leads,same⟩ => ⟨names,leads,same.symm⟩
  rw [← apart.ncard_image,← listed,← List.coe_toFinset,Set.ncard_coe_finset,
    List.toFinset_card_of_nodup distinct]

theorem documents_are_listed_once (found : fs.find folder = .ok (.folder entries))
    (proper : (FileTree.folder entries).Proper) :
    let tree := FileTree.folder entries
    ∃ files, scan fs folder = .ok files ∧
      (∀ path, path ∈ files ↔ ∃ names, path = names.foldl Path.join folder ∧ NamesDocument names ∧
        (IsOpen folder names ∧ (∃ content, tree.at? names = some (.file content)) ∨
          ∃ below, Closed folder tree names below)) ∧
      (∀ names others, (tree.at? names).isSome → (tree.at? others).isSome →
        names.foldl Path.join folder = others.foldl Path.join folder → names = others) ∧
      files.Pairwise Path.Before ∧
      (ListsDocuments folder tree files ↔ ∀ names below, Closed folder tree names below →
        ¬ NamesDocument names ∧ ∀ further, ¬ LeadsToDocument (.folder below) further) ∧
      ∀ (fs' : FileSystem) (other : FileTree), fs'.find folder = .ok other → Rearranged tree other →
        scan fs' folder = .ok files := by
  intro tree
  have relative := ne_nil_of_sound (sound_of_find found)
  have scanned := scan_of_find found
  refine ⟨_,scanned,fun path => mem_scan_iff_document scanned found proper,?_,ascending_of_scan scanned found proper,
    listsDocuments_iff scanned found proper,fun fs' other => scan_of_rearranged scanned found proper⟩
  intro names others isEntry isOther same
  obtain ⟨_,here⟩ := Option.isSome_iff_exists.mp isEntry
  obtain ⟨_,there⟩ := Option.isSome_iff_exists.mp isOther
  exact names_eq relative proper here there (congrArg Path.components same)

/-- A folder is named like a document and comes before a file, although its path comes behind by its characters; the
name of the third entry is the extension alone. The folder lists them backward. -/
theorem document_in_folder_named_like_one :
    let file : FileTree := .file ⟨#[]⟩
    let inner : List (Text × FileTree) := [(['b','.','x','m','l'],file)]
    let entries : List (Text × FileTree) := [(['.','x','m','l'],file),(['a','.','x','m','l'],.folder inner),
      (['a','.','x','m','l','-','b','.','x','m','l'],file)]
    let fs (entries : List (Text × FileTree)) : FileSystem := ⟨.folder [(['d'],.folder entries)],[]⟩
    let files := [['/','d','/','a','.','x','m','l','/','b','.','x','m','l'],
      ['/','d','/','a','.','x','m','l','-','b','.','x','m','l']]
    (fs entries).find ['/','d'] = .ok (.folder entries) ∧ (FileTree.folder entries).Proper ∧
      ListsDocuments ['/','d'] (.folder entries) files ∧ scan (fs entries.reverse) ['/','d'] = .ok files := by
  intro file inner entries fs files
  have found : (fs entries).find ['/','d'] = .ok (.folder entries) := rfl
  have innerProper : (FileTree.folder inner).Proper :=
    .folder (by decide) (by decide) (List.forall_mem_singleton.mpr (.file _))
  have proper : (FileTree.folder entries).Proper := .folder (by decide) (by decide)
    (List.forall_mem_cons.mpr ⟨.file _,List.forall_mem_cons.mpr ⟨innerProper,List.forall_mem_singleton.mpr (.file _)⟩⟩)
  have noneClosed (names : List Text) (below : List (Text × FileTree)) :
      ¬ Closed ['/','d'] (.folder entries) names below := by
    have noFolder (names : List Text) : file.at? names ≠ some (.folder below) :=
      fun here => absurd (FileTree.at?_file here).2 nofun
    have distinct : Entries.Distinct entries := show (entries.map (·.1)).Nodup by decide
    have innerDistinct : Entries.Distinct inner := List.nodup_singleton _
    rintro ⟨here,_,tooLong⟩
    cases names with
    | nil => exact absurd tooLong (by decide)
    | cons name names =>
      obtain ⟨child,member,further⟩ := (at?_folder_cons_iff distinct).mp here
      simp only [entries,List.mem_cons,List.not_mem_nil,or_false,Prod.mk.injEq] at member
      rcases member with ⟨rfl,rfl⟩ | ⟨rfl,rfl⟩ | ⟨rfl,rfl⟩
      · exact noFolder names further
      · cases names with
        | nil => exact absurd tooLong (by decide)
        | cons name names =>
          obtain ⟨child,member,further⟩ := (at?_folder_cons_iff innerDistinct).mp further
          obtain ⟨rfl,rfl⟩ := Prod.mk.inj (List.mem_singleton.mp member)
          exact noFolder names further
      · exact noFolder names further
  have listed : paths ['/','d'] (.folder entries) = files := by decide
  have sorted : files.mergeSort Path.precedes = files := List.mergeSort_of_pairwise (by decide)
  obtain ⟨_,scanned,_,_,_,right,anyOrder⟩ := documents_are_listed_once found proper
  rw [scan_of_find found,listed,sorted] at scanned
  obtain rfl := Except.ok.inj scanned
  have backward : Rearranged (.folder entries) (.folder entries.reverse) :=
    FileTree.rearranged_of_perm proper (List.reverse_perm entries).symm
  exact ⟨found,proper,right.mpr fun names below closed => absurd closed (noneClosed names below),
    anyOrder (fs entries.reverse) _ rfl backward⟩

/-- The longest path of slashes leads to the root, and a folder in it has a path that is too long. That folder is listed,
and the document in it is not. -/
theorem closed_folder_is_listed :
    let slashes : Text := List.replicate maxPath '/'
    let inner : List (Text × FileTree) := [(['b','.','x','m','l'],.file ⟨#[]⟩)]
    let entries : List (Text × FileTree) := [(['a','.','x','m','l'],.folder inner)]
    let fs : FileSystem := ⟨.folder entries,[]⟩
    let files := [slashes ++ ['a','.','x','m','l']]
    fs.find slashes = .ok (.folder entries) ∧ LeadsToDocument (.folder entries) [['a','.','x','m','l'],['b','.','x','m','l']] ∧
      scan fs slashes = .ok files ∧ ¬ ListsDocuments slashes (.folder entries) files := by
  intro slashes inner entries fs files
  have found : fs.find slashes = .ok (.folder entries) := FileSystem.find_slashes rfl (Nat.le_refl _)
  have proper : (FileTree.folder entries).Proper := .folder (by decide) (by decide) (List.forall_mem_singleton.mpr
    (.folder (by decide) (by decide) (List.forall_mem_singleton.mpr (.file _))))
  have relative := ne_nil_of_sound (sound_of_find found)
  have short := short_of_find found
  have ends : Path.endsInSlash slashes := FileSystem.endsInSlash_slashes _
  have width : slashes.width = maxPath := FileSystem.width_slashes _
  clear_value slashes
  have joined : Path.join slashes ['a','.','x','m','l'] = slashes ++ ['a','.','x','m','l'] := by
    rw [Path.join,ends,Bool.or_true]
    rfl
  have tooLong : maxPath < (Path.join slashes ['a','.','x','m','l']).width := by
    rw [joined,Text.width_append,width]
    exact Nat.lt_add_of_pos_right (by decide)
  have closed : Closed slashes (.folder entries) [['a','.','x','m','l']] inner := ⟨rfl,⟨short,trivial⟩,tooLong⟩
  have named : NamesDocument [['a','.','x','m','l']] := ⟨['a'],List.cons_ne_nil _ _,rfl⟩
  have document : isDocument (Path.join slashes ['a','.','x','m','l']) :=
    (isDocument_iff relative proper closed.here (List.cons_ne_nil _ _)).mpr named
  have listed : paths slashes (.folder entries) = files := by
    rw [paths_of_short short,List.flatMap_singleton,paths,if_pos tooLong,if_pos document,joined]
  have scanned : scan fs slashes = .ok files := by
    rw [scan_of_find found,listed,List.mergeSort_singleton]
  refine ⟨found,⟨⟨_,rfl⟩,['b'],List.cons_ne_nil _ _,rfl⟩,scanned,fun right => ?_⟩
  exact ((listsDocuments_iff scanned found proper).mp right _ _ closed).1 named

end Documents

end TagOverlay
