import TagOverlay.Proofs.Files.Walking

/-! Writing and removing files and making folders. Whatever is done to an empty file system, every entry in it
keeps a name that a path can lead through, and no folder gets two entries of one name. -/
namespace TagOverlay.FileSystem

variable {fs after : FileSystem} {tree : FileTree} {path name : Text} {parts names : List Text}

theorem proper_of_find (proper : fs.root.Proper) (found : fs.find path = .ok tree) : tree.Proper := by
  rw [find] at found
  split at found
  next => contradiction
  next names _ =>
    split at found
    next here =>
      obtain rfl := Except.ok.inj found
      exact (proper.of_at? here).2
    next => contradiction

theorem sound_of_follow (followed : fs.follow path parts = .ok names) : pathFault? path = none := by
  rw [follow] at followed
  split at followed
  next => contradiction
  next sound => exact sound

theorem trail_of_follow (followed : fs.follow path parts = .ok names) :
    ∃ start final, fs.beginning path = .ok start ∧ walk fs.root start parts = .ok final ∧
      Leads fs.root final ∧ (final.map (·.1)).reverse = names := by
  rw [follow_eq (sound_of_follow followed),bind_eq_ok_iff] at followed
  obtain ⟨start,begins,followed⟩ := followed
  obtain ⟨final,walked,same⟩ := bind_eq_ok_iff.mp followed
  exact ⟨start,final,begins,walked,(leads_of_beginning begins).walk walked,Except.ok.inj same⟩

theorem entryNames_of_follow (proper : fs.root.Proper) (followed : fs.follow path parts = .ok names) :
    ∀ name ∈ names, FileTree.EntryName name := by
  obtain ⟨_,final,_,_,leads,rfl⟩ := trail_of_follow followed
  exact (proper.of_at? leads.at?_eq).1

/-- The folder that the path's last part is in, where that part can name an entry. -/
structure Slot (fs : FileSystem) (path : Text) (names : List Text) (name : Text) : Prop where
  last : (Path.parts path).getLast? = some name
  notHere : name ≠ ['.']
  notAbove : name ≠ ['.','.']
  short : name.width ≤ maxName
  followed : fs.follow path ((Path.parts path).dropLast ++ [['.']]) = .ok names

theorem slot_of_eq (slotted : fs.slot path = .ok (names,some name)) (short : ¬ maxName < name.width) :
    Slot fs path names name := by
  rw [slot] at slotted
  split at slotted
  next =>
    obtain ⟨_,_,same⟩ := map_eq_ok_iff.mp slotted
    exact absurd (Prod.mk.inj same).2.symm (Option.some_ne_none name)
  next last isLast =>
    obtain ⟨_,followed,same⟩ := map_eq_ok_iff.mp slotted
    obtain ⟨rfl,sameName⟩ := Prod.mk.inj same
    obtain rfl := Option.some_inj.mp sameName
    obtain ⟨isPart,noDots⟩ := Option.filter_eq_some_iff.mp isLast
    obtain ⟨notHere,notAbove⟩ := of_decide_eq_true noDots
    exact ⟨isPart,notHere,notAbove,Nat.le_of_not_lt short,followed⟩

theorem Slot.entryNames (slot : Slot fs path names name) (proper : fs.root.Proper) :
    ∀ entry ∈ names ++ [name], FileTree.EntryName entry := by
  obtain ⟨nonempty,inside⟩ := Path.of_mem_parts (List.mem_of_getLast? slot.last)
  have noZero := noZero_of_sound (sound_of_follow slot.followed)
  refine List.forall_mem_append.mpr ⟨entryNames_of_follow proper slot.followed,List.forall_mem_singleton.mpr ?_⟩
  exact ⟨⟨nonempty,fun slash => (inside _ slash).2 rfl,slot.notHere,slot.notAbove⟩,
    fun zero => noZero (inside _ zero).1,slot.short⟩

/-- Writing puts the file where nothing is or a file. -/
theorem exists_slot_of_write {content : ByteArray} (written : fs.write path content = .ok after) :
    ∃ names name, Slot fs path names name ∧ Path.endsInSlash path = false ∧
      (∀ old, fs.root.at? (names ++ [name]) = some old → old.isFolder = false) ∧
      after = { fs with root := FileTree.put (names ++ [name]) (.file content) fs.root } := by
  rw [write] at written
  split at written
  next => contradiction
  next => contradiction
  next names name slotted =>
    split at written
    next => contradiction
    next noSlash =>
      split at written
      next => contradiction
      next short =>
        split at written
        next => contradiction
        next noFolder =>
          refine ⟨names,name,slot_of_eq slotted short,Bool.eq_false_iff.mpr noSlash,?_,(Except.ok.inj written).symm⟩
          intro old here
          cases old with
          | file content => rfl
          | folder entries => exact absurd here (noFolder entries)

theorem exists_slot_of_makeFolder (made : fs.makeFolder path = .ok after) :
    ∃ names name, Slot fs path names name ∧ fs.root.at? (names ++ [name]) = none ∧
      after = { fs with root := FileTree.put (names ++ [name]) (.folder []) fs.root } := by
  rw [makeFolder] at made
  split at made
  next => contradiction
  next => contradiction
  next names name slotted =>
    split at made
    next => contradiction
    next short =>
      split at made
      next => contradiction
      next free => exact ⟨names,name,slot_of_eq slotted short,free,(Except.ok.inj made).symm⟩

theorem proper_write {content : ByteArray} (proper : fs.root.Proper)
    (written : fs.write path content = .ok after) : after.root.Proper := by
  obtain ⟨names,name,slot,_,_,rfl⟩ := exists_slot_of_write written
  exact FileTree.proper_put proper (slot.entryNames proper) (.file content)

theorem proper_makeFolder (proper : fs.root.Proper) (made : fs.makeFolder path = .ok after) :
    after.root.Proper := by
  obtain ⟨names,name,slot,_,rfl⟩ := exists_slot_of_makeFolder made
  exact FileTree.proper_put proper (slot.entryNames proper) FileTree.proper_empty

theorem proper_removeFile (proper : fs.root.Proper) (removed : fs.removeFile path = .ok after) :
    after.root.Proper := by
  rw [removeFile] at removed
  split at removed
  next => contradiction
  next names located =>
    split at removed
    next =>
      obtain rfl := Except.ok.inj removed
      exact FileTree.proper_remove proper names
    next => contradiction
    next => contradiction

/-- The file systems that an empty one becomes. -/
inductive Built : FileSystem → Prop where
  | empty : Built .empty
  | write {fs after : FileSystem} {path : Text} {content : ByteArray} (earlier : Built fs)
      (written : fs.write path content = .ok after) : Built after
  | makeFolder {fs after : FileSystem} {path : Text} (earlier : Built fs)
      (made : fs.makeFolder path = .ok after) : Built after
  | removeFile {fs after : FileSystem} {path : Text} (earlier : Built fs)
      (removed : fs.removeFile path = .ok after) : Built after

theorem Built.proper (built : Built fs) : fs.root.Proper := by
  induction built with
  | empty => exact FileTree.proper_empty
  | write _ written ih => exact proper_write ih written
  | makeFolder _ made ih => exact proper_makeFolder ih made
  | removeFile _ removed ih => exact proper_removeFile ih removed

/-- What is found in such a file system is a proper tree. -/
theorem Built.proper_of_find (built : Built fs) (found : fs.find path = .ok tree) : tree.Proper :=
  FileSystem.proper_of_find built.proper found

end TagOverlay.FileSystem
