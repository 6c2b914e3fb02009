import TagOverlay.Files.Documents
import TagOverlay.Proofs.Files.Walking

/-! The documents below a folder. Each is listed under a path that leads to it, and the path by which it is
loaded leads to it again, unless a slash more makes that path too long. -/
namespace TagOverlay

namespace Documents
open FileTree (Proper at?_folder_cons_iff)
open FileSystem (maxPath pathFault? pathFault?_below sound_of_find short_of_find ne_nil_of_sound find_below
  find_of_fault read_eq_ok_iff)

variable {fs : FileSystem} {tree : FileTree} {base folder path relative : Text} {files : List Text}
    {content : ByteArray}

theorem pathsIn_eq_flatMap (base : Text) (entries : List (Text × FileTree)) :
    pathsIn base entries = entries.flatMap fun entry => paths (Path.join base entry.1) entry.2 := by
  induction entries with
  | nil => rfl
  | cons entry entries ih => rw [pathsIn,ih,List.flatMap_cons]

/-- Every folder on the way down has a path that is short enough to be looked at. -/
def IsOpen : (base : Text) → List Text → Prop
  | _,[] => True
  | base,name :: names => base.width ≤ maxPath ∧ IsOpen (Path.join base name) names

/-- What is listed has the extension of a document, and is a file unless its path is too long to be looked at. -/
structure Listed (base : Text) (tree : FileTree) (path : Text) (names : List Text) (entry : FileTree) : Prop where
  here : tree.at? names = some entry
  path_eq : path = names.foldl Path.join base
  document : isDocument path
  file : (∃ content, entry = .file content) ∨ maxPath < path.width
  isOpen : IsOpen base names

section Listed

variable {entries : List (Text × FileTree)} {name : Text} {child entry : FileTree} {names : List Text}

/-- What is listed below a folder is listed below one of its entries. -/
theorem listed_cons_iff (distinct : Entries.Distinct entries) :
    Listed base (.folder entries) path (name :: names) entry ↔
      base.width ≤ maxPath ∧ ∃ child, (name,child) ∈ entries ∧ Listed (Path.join base name) child path names entry := by
  constructor
  · intro ⟨here,path_eq,document,file,short,isOpen⟩
    obtain ⟨child,member,further⟩ := (at?_folder_cons_iff distinct).mp here
    exact ⟨short,child,member,further,path_eq,document,file,isOpen⟩
  · intro ⟨short,child,member,further,path_eq,document,file,isOpen⟩
    exact ⟨(at?_folder_cons_iff distinct).mpr ⟨child,member,further⟩,path_eq,document,file,short,isOpen⟩

/-- What stands at the path itself. -/
theorem listed_itself_iff (file : (∃ content, tree = .file content) ∨ maxPath < base.width) :
    (path ∈ if isDocument base then [base] else []) ↔ Listed base tree path [] tree := by
  constructor
  · intro member
    split at member
    next document =>
      obtain rfl := List.mem_singleton.mp member
      exact ⟨rfl,rfl,document,file,trivial⟩
    next => contradiction
  · rintro ⟨_,rfl,document,_,_⟩
    rw [if_pos document]
    exact List.mem_singleton_self _

/-- A folder that can be looked at is not listed itself. -/
theorem Listed.deeper (listed : Listed base (.folder entries) path names entry) (short : base.width ≤ maxPath) :
    names ≠ [] := by
  rintro rfl
  obtain rfl := Option.some_inj.mp listed.here
  have long := listed.file.resolve_left nofun
  rw [listed.path_eq] at long
  exact Nat.not_lt.mpr short long

theorem paths_of_short (short : base.width ≤ maxPath) (entries : List (Text × FileTree)) :
    paths base (.folder entries) = entries.flatMap fun entry => paths (Path.join base entry.1) entry.2 := by
  rw [paths,if_neg (Nat.not_lt.mpr short),pathsIn_eq_flatMap]

theorem mem_paths_iff (proper : tree.Proper) :
    path ∈ paths base tree ↔ ∃ names entry, Listed base tree path names entry := by
  -- Where a path stands for itself alone, no names lead on from it.
  have alone {tree : FileTree} {base : Text} (file : (∃ content, tree = .file content) ∨ maxPath < base.width) :
      (path ∈ if isDocument base then [base] else []) ↔ ∃ names entry, Listed base tree path names entry := by
    rw [listed_itself_iff file]
    constructor
    · exact fun listed => ⟨_,_,listed⟩
    · intro ⟨names,entry,listed⟩
      cases names with
      | nil =>
        obtain rfl := Option.some_inj.mp listed.here
        exact listed
      | cons name names =>
        obtain ⟨content,rfl⟩ := file.resolve_right (Nat.not_lt.mpr listed.isOpen.1)
        exact absurd (FileTree.at?_file listed.here).1 (List.cons_ne_nil _ _)
  induction proper generalizing base with
  | file content =>
    rw [paths]
    exact alone (.inl ⟨content,rfl⟩)
  | @folder entries named distinct below ih =>
    by_cases short : base.width ≤ maxPath
    · rw [paths_of_short short,List.mem_flatMap]
      constructor
      · intro ⟨⟨name,child⟩,isEntry,member⟩
        obtain ⟨names,last,listed⟩ := (ih _ isEntry).mp member
        exact ⟨name :: names,last,(listed_cons_iff distinct).mpr ⟨short,child,isEntry,listed⟩⟩
      · intro ⟨names,last,listed⟩
        obtain ⟨name,names,rfl⟩ := List.exists_cons_of_ne_nil (listed.deeper short)
        obtain ⟨_,child,isEntry,listed⟩ := (listed_cons_iff distinct).mp listed
        exact ⟨_,isEntry,(ih _ isEntry).mpr ⟨names,last,listed⟩⟩
    · have long := Nat.lt_of_not_le short
      rw [paths,if_pos long]
      exact alone (.inr long)

theorem scan_of_find (found : fs.find folder = .ok (.folder entries)) :
    scan fs folder = .ok ((paths folder (.folder entries)).mergeSort Path.precedes) := by
  rw [scan,FileSystem.exists?,FileSystem.list,found,paths_of_short (short_of_find found),← pathsIn_eq_flatMap]
  rfl

theorem exists_of_scan (scanned : scan fs folder = .ok files) (found : fs.find folder = .ok tree) :
    (∃ entries, tree = .folder entries) ∧ (paths folder tree).mergeSort Path.precedes = files := by
  cases tree with
  | file content =>
    rw [scan,FileSystem.exists?,FileSystem.list,found] at scanned
    contradiction
  | folder entries => exact ⟨⟨entries,rfl⟩,Except.ok.inj ((scan_of_find found).symm.trans scanned)⟩

theorem mem_scan_iff (scanned : scan fs folder = .ok files) (found : fs.find folder = .ok tree)
    (proper : tree.Proper) : path ∈ files ↔ ∃ names entry, Listed folder tree path names entry := by
  obtain ⟨_,rfl⟩ := exists_of_scan scanned found
  rw [(List.mergeSort_perm _ _).mem_iff,mem_paths_iff proper]

/-- The folder that is scanned is not listed itself. -/
theorem Listed.deeper_of_scan (listed : Listed folder tree path names entry) (scanned : scan fs folder = .ok files)
    (found : fs.find folder = .ok tree) : names ≠ [] := by
  obtain ⟨⟨entries,rfl⟩,_⟩ := exists_of_scan scanned found
  exact listed.deeper (short_of_find found)

end Listed

theorem load_of_file (found : fs.find (Path.append folder relative) = .ok (.file content)) :
    load fs folder relative = ((Text.ofUtf8 content).map fun text => ⟨.ofText text,text.splitLines⟩).mapError
      (.notUtf8 (Path.append folder relative)) := by
  have exists? : fs.exists? (Path.append folder relative) := by
    rw [FileSystem.exists?,found]
    rfl
  rw [load,if_pos exists?,read_eq_ok_iff.mpr found]
  dsimp only [Document.ofUtf8]
  cases Text.ofUtf8 content <;> rfl

theorem load_of_find (found : fs.find (Path.append folder relative) = .ok (.file content)) :
    (load fs folder relative).map (·.document) =
      (Document.ofUtf8 content).mapError (.notUtf8 (Path.append folder relative)) := by
  rw [load_of_file found,Document.ofUtf8]
  cases Text.ofUtf8 content <;> rfl

theorem load_of_fault {fault : FileFault} (unsound : pathFault? (Path.append folder relative) = some fault) :
    load fs folder relative = .error (.notFound (Path.append folder relative)) := by
  have missing : fs.exists? (Path.append folder relative) = false := by
    rw [FileSystem.exists?,find_of_fault unsound]
    rfl
  rw [load,missing]
  rfl

/-- The path is as long as a path may be, and the one that is put together for loading has a slash more. -/
structure NoRoom (folder path : Text) : Prop where
  slash : Path.endsInSlash folder
  longest : path.width = maxPath

/-- The path that is put together for loading is too long if the listed one is or has no room. -/
theorem maxPath_lt_width_iff {names : List Text} (relative : folder ≠ []) (deeper : names ≠ [])
    (areNames : ∀ name ∈ names, Path.IsName name) : maxPath < (folder ++ names.flatMap ('/' :: ·)).width ↔
      maxPath < (names.foldl Path.join folder).width ∨ NoRoom folder (names.foldl Path.join folder) := by
  rw [Path.width_foldl_join relative deeper areNames]
  constructor
  · intro long
    split at long
    next slash => exact (Nat.lt_or_eq_of_le (Nat.le_of_lt_succ long)).imp_right fun longest => ⟨slash,longest.symm⟩
    next => exact .inl long
  · rintro (long | ⟨slash,longest⟩)
    · exact Nat.lt_add_right _ long
    · rw [if_pos slash,longest]
      exact Nat.lt_succ_self _

/-- What is loaded by a relative path is what can be read at the listed one, but for a path that has no room for the
slash that is put behind the folder: it can be read and is not found. -/
structure LoadsListed (fs : FileSystem) (folder path relative : Text) : Prop where
  same : Path.components (Path.append folder relative) = Path.components path
  readable : (∃ content, fs.read path = .ok content) ↔ path.width ≤ maxPath
  loads : ∀ content, fs.read path = .ok content → ¬ NoRoom folder path →
    (load fs folder relative).map (·.document) =
      (Document.ofUtf8 content).mapError (.notUtf8 (Path.append folder relative))
  notFound : maxPath < path.width ∨ NoRoom folder path →
    load fs folder relative = .error (.notFound (Path.append folder relative))

/-- The path of a document is taken apart and put together again. -/
theorem loadsListed_of_mem_scan (scanned : scan fs folder = .ok files) (found : fs.find folder = .ok tree)
    (proper : tree.Proper) (listed : path ∈ files) : ∃ further, Path.under? folder path = some further ∧
      LoadsListed fs folder path (Path.ofComponents further) := by
  obtain ⟨names,entry,listed⟩ := (mem_scan_iff scanned found proper).mp listed
  have deeper := listed.deeper_of_scan scanned found
  obtain ⟨here,rfl,_,file,_⟩ := listed
  have named := (proper.of_at? here).1
  have areNames : ∀ name ∈ names, Path.IsName name := fun name member => (named name member).toIsName
  have sound := sound_of_find found
  have relative := ne_nil_of_sound sound
  have below : Path.Below folder names (names.foldl Path.join folder) :=
    Path.Below.base.join relative areNames
  have whole := Path.append_intercalate relative areNames
  have slashes : Path.Below folder names (Path.append folder (['/'].intercalate names)) :=
    whole ▸ Path.Below.slashes .base areNames
  have tooLong := maxPath_lt_width_iff relative deeper areNames
  rw [← whole] at tooLong
  have short {content : ByteArray} (read : fs.read (names.foldl Path.join folder) = .ok content) :=
    short_of_find (read_eq_ok_iff.mp read)
  refine ⟨names.map .name,below.under?_eq relative,?_⟩
  rw [Path.ofComponents_names]
  constructor
  · rw [slashes.components_eq relative,below.components_eq relative]
  · constructor
    · exact fun ⟨_,read⟩ => short read
    · intro short
      obtain ⟨content,rfl⟩ := file.resolve_right (Nat.not_lt.mpr short)
      exact ⟨content,read_eq_ok_iff.mpr (find_below found below deeper here named short)⟩
  · intro content read room
    have short := short read
    obtain ⟨other,rfl⟩ := file.resolve_right (Nat.not_lt.mpr short)
    obtain rfl : other = content := by
      have reached := find_below found below deeper here named short
      rw [read_eq_ok_iff.mp read] at reached
      exact (FileTree.file.inj (Except.ok.inj reached)).symm
    have stillShort : (Path.append folder (['/'].intercalate names)).width ≤ maxPath :=
      Nat.le_of_not_lt fun long => (tooLong.mp long).elim (Nat.not_lt.mpr short) room
    exact load_of_find (find_below found slashes deeper here named stillShort)
  · intro long
    apply load_of_fault
    rw [pathFault?_below sound slashes named,if_pos (tooLong.mpr long)]

end Documents

end TagOverlay
