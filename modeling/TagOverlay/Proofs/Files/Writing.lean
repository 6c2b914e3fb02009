import TagOverlay.Proofs.Files.Updates

/-! What stays where it was when something is put into a tree. Folders stay folders, so every path leads where
it led, to what was written there last; making folders changes no file. -/
namespace TagOverlay

namespace FileTree

variable {tree before after : FileTree} {entries : List (Text × FileTree)} {target place : List Text}
    {name : Text}

theorem child?_putEntry (name : Text) (entry : FileTree) (entries : List (Text × FileTree)) (other : Text) :
    (folder (putEntry name entry entries)).child? other =
      if other = name then some entry else (folder entries).child? other := by
  change Entries.valueOf? (putEntry name entry entries) other =
    if other = name then some entry else Entries.valueOf? entries other
  induction entries with
  | nil => simp [putEntry,Entries.valueOf?_cons,Entries.valueOf?_nil,eq_comm]
  | cons first rest ih =>
    rw [putEntry,Entries.valueOf?_cons]
    split
    next same =>
      rw [Entries.valueOf?_cons,same]
      by_cases here : other = name
      · rw [if_pos here.symm,if_pos here]
      · rw [if_neg (Ne.symm here),if_neg here,if_neg (Ne.symm here)]
    next different =>
      rw [Entries.valueOf?_cons,ih]
      by_cases here : first.1 = other
      · rw [if_pos here,if_pos here,if_neg (here ▸ different)]
      · rw [if_neg here,if_neg here]

/-- Whatever names led to, they lead to something of its kind, and to the same file but at the target. -/
def Keeps (target : List Text) (before after : FileTree) : Prop :=
  ∀ names tree, before.at? names = some tree → ∃ now, after.at? names = some now ∧
    now.isFolder = tree.isFolder ∧ (names ≠ target → tree.isFolder = false → now = tree)

theorem keeps_of_files (old : before.isFolder = false) (isFile : after.isFolder = false) : Keeps [] before after := by
  intro names tree found
  cases names with
  | nil =>
    obtain rfl := Option.some_inj.mp found
    exact ⟨after,rfl,isFile.trans old.symm,fun deeper => absurd rfl deeper⟩
  | cons name names =>
    obtain ⟨child,here,_⟩ := at?_cons_eq_some_iff.mp found
    cases before with
    | file content => contradiction
    | folder entries => contradiction

/-- An entry is exchanged, and below it the change is as it is told, or it is new. -/
theorem keeps_putEntry {entry : FileTree}
    (below : ∀ old, (folder entries).child? name = some old → Keeps target old entry) :
    Keeps (name :: target) (folder entries) (folder (putEntry name entry entries)) := by
  intro names tree found
  cases names with
  | nil =>
    obtain rfl := Option.some_inj.mp found
    exact ⟨_,rfl,rfl,fun _ noFolder => Bool.noConfusion noFolder⟩
  | cons other names =>
    obtain ⟨child,here,further⟩ := at?_cons_eq_some_iff.mp found
    by_cases same : other = name
    · subst same
      obtain ⟨now,there,kind,kept⟩ := below child here names tree further
      refine ⟨now,at?_cons_eq_some_iff.mpr ⟨entry,?_,there⟩,kind,fun elsewhere => kept ?_⟩
      · rw [child?_putEntry,if_pos rfl]
      · rintro rfl
        exact elsewhere rfl
    · refine ⟨tree,at?_cons_eq_some_iff.mpr ⟨child,?_,further⟩,rfl,fun _ _ => rfl⟩
      rw [child?_putEntry,if_neg same,here]

theorem at?_putEntry {entry : FileTree} (name : Text) (names : List Text) :
    (folder (putEntry name entry entries)).at? (name :: names) = entry.at? names := by
  apply Option.ext
  intro last
  rw [at?_cons_eq_some_iff,child?_putEntry,if_pos rfl]
  simp

/-- Something is put into a folder, where nothing was or a file that a file replaces. -/
theorem keeps_put (new : FileTree) (here : tree.at? place = some (folder entries))
    (free : ∀ old, tree.at? (place ++ [name]) = some old → old.isFolder = false ∧ new.isFolder = false) :
    Keeps (place ++ [name]) tree (put (place ++ [name]) new tree) ∧
      (put (place ++ [name]) new tree).at? (place ++ [name]) = some new := by
  induction place generalizing tree with
  | nil =>
    obtain rfl := Option.some_inj.mp here
    refine ⟨keeps_putEntry fun old occupied => ?_,at?_putEntry name []⟩
    obtain ⟨wasFile,isFile⟩ := free old (at?_cons_eq_some_iff.mpr ⟨old,occupied,rfl⟩)
    exact keeps_of_files wasFile isFile
  | cons first place ih =>
    obtain ⟨child,isChild,further⟩ := at?_cons_eq_some_iff.mp here
    cases tree with
    | file content => contradiction
    | folder others =>
      have inner := ih further fun old occupied =>
        free old (at?_cons_eq_some_iff.mpr ⟨child,isChild,occupied⟩)
      rw [List.cons_append,put,isChild,Option.getD_some]
      refine ⟨keeps_putEntry fun old occupied => ?_,(at?_putEntry first _).trans inner.2⟩
      obtain rfl := Option.some_inj.mp (isChild.symm.trans occupied)
      exact inner.1

end FileTree

namespace FileSystem
open FileTree (Keeps at?_cons_eq_some_iff keeps_put)

variable {before : FileTree} {fs later : FileSystem} {tree : FileTree} {trail trail' final : Trail}
    {target parts names : List Text} {name part path : Text} {content : ByteArray}

theorem Leads.at?_concat (leads : Leads before trail) (name : Text) :
    before.at? ((trail.map (·.1)).reverse ++ [name]) = (trail.endsAt before).child? name := by
  rw [FileTree.at?_append,leads.at?_eq]
  exact bind_pure _

section Keeps

variable {after : FileTree} (keeps : Keeps target before after)
include keeps

theorem isFolder_of_keeps (leads : Leads before trail) (leads' : Leads after trail')
    (same : trail'.map (·.1) = trail.map (·.1)) :
    (trail'.endsAt after).isFolder = (trail.endsAt before).isFolder := by
  obtain ⟨now,there,kind,_⟩ := keeps _ _ leads.at?_eq
  rw [← same,leads'.at?_eq] at there
  obtain rfl := Option.some_inj.mp there
  exact kind

theorem step_of_keeps (leads : Leads before trail) (leads' : Leads after trail')
    (same : trail'.map (·.1) = trail.map (·.1)) (walked : walk before trail [part] = .ok final) :
    ∃ final', walk after trail' [part] = .ok final' ∧ final'.map (·.1) = final.map (·.1) := by
  have kind := isFolder_of_keeps keeps leads leads' same
  rw [walk] at walked
  cases ends : trail.endsAt before with
  | file content =>
    rw [ends] at walked
    contradiction
  | folder entries =>
    rw [ends] at walked kind
    cases ends' : trail'.endsAt after with
    | file content =>
      rw [ends'] at kind
      contradiction
    | folder entries' =>
      rw [walk,ends']
      dsimp only at walked ⊢
      split at walked
      next here =>
        rw [if_pos here]
        obtain rfl := Except.ok.inj walked
        exact ⟨trail',rfl,same⟩
      next notHere =>
        rw [if_neg notHere]
        split at walked
        next above =>
          rw [if_pos above]
          obtain rfl := Except.ok.inj walked
          exact ⟨trail'.tail,rfl,by rw [List.map_tail,same,← List.map_tail]⟩
        next notAbove =>
          rw [if_neg notAbove]
          split at walked
          next => contradiction
          next short =>
            rw [if_neg short]
            split at walked
            next child here =>
              obtain rfl := Except.ok.inj walked
              rw [← ends,← leads.at?_concat] at here
              obtain ⟨now,there,_⟩ := keeps _ _ here
              rw [← same,leads'.at?_concat,ends'] at there
              rw [there]
              exact ⟨_,rfl,congrArg (part :: ·) same⟩
            next => contradiction

theorem walk_of_keeps (leads : Leads before trail) (leads' : Leads after trail')
    (same : trail'.map (·.1) = trail.map (·.1)) (walked : walk before trail parts = .ok final) :
    ∃ final', walk after trail' parts = .ok final' ∧ final'.map (·.1) = final.map (·.1) := by
  induction parts generalizing trail trail' with
  | nil =>
    obtain rfl := Except.ok.inj walked
    exact ⟨trail',rfl,same⟩
  | cons part parts ih =>
    rw [walk_cons,bind_eq_ok_iff] at walked
    obtain ⟨next,stepped,further⟩ := walked
    obtain ⟨next',stepped',same⟩ := step_of_keeps keeps leads leads' same stepped
    obtain ⟨final',further',same⟩ := ih (leads.step stepped) (leads'.step stepped') same further
    exact ⟨final',by rw [walk_cons,stepped']; exact further',same⟩

end Keeps

theorem follow_of_walk {start : Trail} (sound : pathFault? path = none) (begins : fs.beginning path = .ok start)
    (walked : walk fs.root start parts = .ok final) : fs.follow path parts = .ok (final.map (·.1)).reverse := by
  rw [follow_eq sound]
  exact bind_eq_ok_iff.mpr ⟨start,begins,bind_eq_ok_iff.mpr ⟨final,walked,rfl⟩⟩

theorem follow_of_keeps (keeps : Keeps target fs.root later.root) (sameFolder : later.workingFolder = fs.workingFolder)
    (followed : fs.follow path parts = .ok names) : later.follow path parts = .ok names := by
  obtain ⟨start,final,begins,walked,_,rfl⟩ := trail_of_follow followed
  obtain ⟨start',begins',sameStart⟩ : ∃ start', later.beginning path = .ok start' ∧
      start'.map (·.1) = start.map (·.1) := by
    rw [beginning] at begins ⊢
    split at begins
    next absolute =>
      obtain rfl := Except.ok.inj begins
      exact ⟨[],if_pos absolute,rfl⟩
    next relative =>
      rw [if_neg relative,sameFolder]
      exact walk_of_keeps keeps .nil .nil rfl begins
  obtain ⟨final',walked',same⟩ :=
    walk_of_keeps keeps (leads_of_beginning begins) (leads_of_beginning begins') sameStart walked
  rw [← same]
  exact follow_of_walk (sound_of_follow followed) begins' walked'

theorem find_eq_ok_iff :
    fs.find path = .ok tree ↔ ∃ names, fs.locate path = .ok names ∧ fs.root.at? names = some tree := by
  rw [find]
  cases fs.locate path with
  | error fault => simp
  | ok names => cases here : fs.root.at? names <;> simp [here]

section Slot

variable (slot : Slot fs path names name)
include slot

theorem Slot.of_keeps (keeps : Keeps target fs.root later.root) (sameFolder : later.workingFolder = fs.workingFolder) :
    Slot later path names name :=
  ⟨slot.last,slot.notHere,slot.notAbove,slot.short,follow_of_keeps keeps sameFolder slot.followed⟩

theorem Slot.exists_trail : ∃ start final entries, fs.beginning path = .ok start ∧
    walk fs.root start (Path.parts path).dropLast = .ok final ∧ Leads fs.root final ∧
    (final.map (·.1)).reverse = names ∧ final.endsAt fs.root = .folder entries := by
  obtain ⟨start,final,begins,walked,leads,same⟩ := trail_of_follow slot.followed
  rw [walk_append,bind_eq_ok_iff] at walked
  obtain ⟨middle,walked,stays⟩ := walked
  obtain rfl := walk_here stays
  cases ends : final.endsAt fs.root with
  | file content =>
    rw [walk,ends] at stays
    contradiction
  | folder entries => exact ⟨start,final,entries,begins,walked,leads,same,ends⟩

theorem Slot.folder : ∃ entries, fs.root.at? names = some (.folder entries) := by
  obtain ⟨_,final,entries,_,_,leads,rfl,ends⟩ := slot.exists_trail
  exact ⟨entries,leads.at?_eq.trans (congrArg some ends)⟩

theorem Slot.locate (noSlash : Path.endsInSlash path = false)
    (here : fs.root.at? (names ++ [name]) = some tree) : fs.locate path = .ok (names ++ [name]) := by
  obtain ⟨start,final,entries,begins,walked,leads,rfl,ends⟩ := slot.exists_trail
  have step : walk fs.root final [name] = .ok ((name,tree) :: final) := by
    rw [leads.at?_concat,ends] at here
    rw [walk,ends]
    dsimp only
    rw [if_neg slot.notHere,if_neg slot.notAbove,if_neg (Nat.not_lt.mpr slot.short),here]
    rfl
  have whole : walk fs.root start (Path.parts path) = .ok ((name,tree) :: final) := by
    rw [← List.dropLast_append_getLast? name slot.last,walk_append]
    exact bind_eq_ok_iff.mpr ⟨final,walked,step⟩
  rw [FileSystem.locate,noSlash,if_neg Bool.false_ne_true,List.append_nil,
    follow_of_walk (sound_of_follow slot.followed) begins whole,List.map_cons,List.reverse_cons]

end Slot

variable {after : FileSystem}

theorem read_of_write (written : fs.write path content = .ok after) : after.read path = .ok content := by
  obtain ⟨names,name,slot,noSlash,free,rfl⟩ := exists_slot_of_write written
  obtain ⟨entries,folder⟩ := slot.folder
  obtain ⟨keeps,there⟩ := keeps_put (.file content) folder fun old occupied => ⟨free old occupied,rfl⟩
  have stillSlot : Slot { fs with root := _ } path names name := slot.of_keeps keeps rfl
  exact read_eq_ok_iff.mpr (find_eq_ok_iff.mpr ⟨_,stillSlot.locate noSlash there,there⟩)

section Folders

variable {other : Text} (readable : fs.read path = .ok content)
include readable

/-- A new folder takes the place of no file. -/
theorem read_of_makeFolder (made : fs.makeFolder other = .ok after) : after.read path = .ok content := by
  obtain ⟨names,name,slot,free,rfl⟩ := exists_slot_of_makeFolder made
  obtain ⟨entries,folder⟩ := slot.folder
  obtain ⟨keeps,_⟩ := keeps_put (.folder []) folder
    fun old occupied => absurd (free.symm.trans occupied) nofun
  obtain ⟨place,located,here⟩ := find_eq_ok_iff.mp (read_eq_ok_iff.mp readable)
  obtain ⟨now,there,_,kept⟩ := keeps place _ here
  have elsewhere : place ≠ names ++ [name] := by
    rintro rfl
    exact absurd (free.symm.trans here) nofun
  rw [kept elsewhere rfl] at there
  exact read_eq_ok_iff.mpr (find_eq_ok_iff.mpr ⟨place,follow_of_keeps keeps rfl located,there⟩)

theorem read_of_makeFoldersTo (depth : Nat) : (fs.makeFoldersTo depth other).2.read path = .ok content := by
  fun_induction makeFoldersTo fs depth other with
  | case1 => exact readable
  | case2 _ _ _ _ made => exact read_of_makeFolder readable made
  | case3 _ _ _ _ _ _ _ _ parents ih =>
    rw [parents] at ih
    exact ih
  | case4 _ _ _ _ _ _ _ parents _ made ih =>
    rw [parents] at ih
    exact read_of_makeFolder ih made
  | case5 _ _ _ _ _ _ _ parents _ _ ih =>
    rw [parents] at ih
    exact ih
  | case6 => exact readable
  | case7 => exact readable

theorem read_of_makeParent : (fs.makeParent other).2.read path = .ok content := by
  rw [makeParent]
  split
  next => exact readable
  next folder _ => exact read_of_makeFoldersTo readable _

end Folders

end FileSystem

end TagOverlay
