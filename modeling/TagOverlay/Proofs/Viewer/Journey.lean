import TagOverlay.Proofs.Files.Scanning
import TagOverlay.Proofs.Viewer.Tour

/-! Journeys: any commands, in any order, while no file changes. How often the viewer went to the next file and
to the one before tells which file is selected, and what is shown when a file has just been opened depends
on that file alone. -/
namespace TagOverlay

/-- What is seen of a document, its tags and the status, whatever ids the decorations have. -/
structure Shown where
  text : Option Text
  marked : List Span
  decorations : List Decoration
  tagName : Option Text
  current : Option Nat
  focusLine : Nat
  status : String

/-- A document in which a name was marked in a new session, or the error with which it was not loaded. -/
def Shown.opened (tagName : Text) (limit : Nat) (relative : Text) : Except DocumentError Document → Shown
  | .error error =>
      { text := none,marked := [],decorations := [],tagName := none,current := none,focusLine := 1
        status := s!"Error reading file: {error.message}" }
  | .ok document =>
      let (answer,session) := ((Session.new document MemorySurface.empty).withLimit limit).mark tagName
      { text := some document.text
        marked := session.marked.map (·.span)
        decorations := session.surface.decorations.map (·.2)
        tagName := session.tagName
        current := none
        focusLine := session.surface.revealed.getD 1
        status :=
          match answer with
          | .ok count => s!"{count} <{String.ofList tagName}> tags in {String.ofList relative}"
          | .error error => s!"Error marking tags: {error.message}" }

namespace Viewer
open Documents (ListsDocuments Closed NamesDocument LeadsToDocument LoadsListed NoRoom)

def shown (viewer : Viewer) : Shown where
  text := viewer.review.map (·.session.buffer.text)
  marked := viewer.review.elim [] (·.session.marked.map (·.span))
  decorations := viewer.review.elim [] (·.session.surface.decorations.map (·.2))
  tagName := viewer.review.bind (·.session.tagName)
  current := viewer.currentTag
  focusLine := viewer.focusLine
  status := viewer.status

/-- The viewers that are reached while the file system stays the same, each with the commands that led to it. -/
inductive Journey (fs : FileSystem) (folder tagName : Text) (limit : Nat) :
    Viewer → List ViewerCommand → Prop where
  | start {viewer : Viewer} (opened : Viewer.new fs folder tagName limit = .ok viewer) :
      Journey fs folder tagName limit viewer []
  | go {viewer next : Viewer} {commands : List ViewerCommand} {command : ViewerCommand}
      (earlier : Journey fs folder tagName limit viewer commands) (runs : command.run fs viewer = some next) :
      Journey fs folder tagName limit next (commands ++ [command])
  | draw {viewer : Viewer} {commands : List ViewerCommand} (width height : Nat)
      (earlier : Journey fs folder tagName limit viewer commands) :
      Journey fs folder tagName limit (viewer.draw width height).2 commands

/-- The viewer was opened with these settings. -/
structure Browses (folder tagName : Text) (limit : Nat) (files : List Text) (viewer : Viewer) : Prop where
  folder : viewer.folder = folder
  tagName : viewer.tagName = tagName
  limit : viewer.limit = limit
  files : viewer.files = files

variable {fs : FileSystem} {folder tagName relative : Text} {limit index : Nat} {files : List Text}
    {viewer : Viewer}

theorem shown_openDocument (viewer : Viewer) (relative : Text) (document : Document) :
    (viewer.openDocument relative document).shown =
      .opened viewer.tagName viewer.limit relative (.ok document) := by
  have reachable : Session.Reachable document MemorySurface.empty
      ((((Session.new document MemorySurface.empty).withLimit viewer.limit).perform (.mark viewer.tagName)).2) :=
    (Session.Reachable.new.withLimit viewer.limit).perform (.mark viewer.tagName)
  have sameBuffer : (((Session.new document MemorySurface.empty).withLimit viewer.limit).mark
      viewer.tagName).2.buffer = document := reachable.marksStartTags.buffer_eq
  unfold openDocument Shown.opened
  dsimp only
  generalize ((Session.new document MemorySurface.empty).withLimit viewer.limit).mark viewer.tagName = result
    at sameBuffer ⊢
  rw [← sameBuffer]
  rfl

theorem shown_openSelected (fs : FileSystem) {path : Text}
    (selected : (viewer.selected.bind fun index => viewer.files[index]?) = some path)
    (isBelow : relativePath? viewer.folder path = some relative) :
    (viewer.openSelected fs).shown = .opened viewer.tagName viewer.limit relative
      ((Documents.load fs viewer.folder relative).map (·.document)) := by
  unfold openSelected
  dsimp only [close]
  rw [selected]
  dsimp only
  rw [isBelow]
  dsimp only
  cases Documents.load fs viewer.folder relative with
  | error error => rfl
  | ok loaded => exact shown_openDocument _ relative loaded.document

/-- Only the open document, the line in the middle and the status change. -/
def Stays (viewer next : Viewer) : Prop :=
  ∃ review focusLine status, next = { viewer with review,focusLine,status }

theorem Stays.refl (viewer : Viewer) : viewer.Stays viewer :=
  ⟨_,_,_,rfl⟩

theorem stays_openSelected (fs : FileSystem) (viewer : Viewer) : viewer.Stays (viewer.openSelected fs) := by
  unfold openSelected
  dsimp only [close]
  split
  next => exact ⟨_,_,_,rfl⟩
  next path _ =>
    split
    next => exact ⟨_,_,_,rfl⟩
    next relative _ =>
      cases Documents.load fs viewer.folder relative with
      | error error => exact ⟨_,_,_,rfl⟩
      | ok loaded => exact ⟨_,_,_,rfl⟩

theorem stays_goTo (viewer : Viewer) (review : Review Document MemorySurface) (next : Nat) :
    viewer.Stays (viewer.goTo review next) := by
  unfold goTo
  dsimp only
  cases (review.advance next).1 with
  | error error => exact ⟨_,_,_,rfl⟩
  | ok _ => exact ⟨_,_,_,rfl⟩

theorem stays_stepTag (viewer : Viewer) (forward : Bool) : viewer.Stays (viewer.stepTag forward) := by
  rcases stepTag_cases viewer forward with ⟨_,same⟩ | ⟨review,next,_,_,⟨_,same⟩ | moved⟩
  · rw [same]
    exact .refl viewer
  · rw [same]
    exact .refl viewer
  · rw [moved]
    exact stays_goTo viewer review next

theorem stays_showElement (viewer : Viewer) : viewer.Stays viewer.showElement := by
  unfold showElement
  split
  next => exact ⟨_,_,_,rfl⟩
  next => exact .refl viewer

theorem stays_showPayload (viewer : Viewer) (intent : TagIntent) : viewer.Stays (viewer.showPayload intent) := by
  unfold showPayload
  split
  next => exact ⟨_,_,_,rfl⟩
  next => exact .refl viewer

theorem stays_run {command : ViewerCommand} {next : Viewer} (runs : command.run fs viewer = some next)
    (goesOn : command.opensFile = false) : viewer.Stays next := by
  cases command with
  | quit => contradiction
  | nextFile => contradiction
  | previousFile => contradiction
  | nextTag =>
    obtain rfl := Option.some_inj.mp runs
    exact stays_stepTag viewer true
  | previousTag =>
    obtain rfl := Option.some_inj.mp runs
    exact stays_stepTag viewer false
  | showElement =>
    obtain rfl := Option.some_inj.mp runs
    exact stays_showElement viewer
  | showPayload intent =>
    obtain rfl := Option.some_inj.mp runs
    exact stays_showPayload viewer intent

theorem exists_draw_eq (nonempty : viewer.files ≠ []) (width height : Nat) :
    ∃ listOffset, (viewer.draw width height).2 = { viewer with listOffset } := by
  change ∃ listOffset, viewer.scrollList _ = _
  unfold scrollList
  split
  next => exact ⟨_,rfl⟩
  next =>
    rw [List.isEmpty_eq_false_iff.mpr nonempty,if_neg Bool.false_ne_true]
    exact ⟨_,rfl⟩

/-- How many files the commands lead forward, or backward if the number is negative. -/
def turns (commands : List ViewerCommand) : Int :=
  commands.count .nextFile - commands.count .previousFile

theorem turns_append (front back : List ViewerCommand) : turns (front ++ back) = turns front + turns back := by
  simp only [turns,List.count_append]
  omega

theorem turns_of_stays {command : ViewerCommand} (goesOn : command.opensFile = false) : turns [command] = 0 := by
  cases command with
  | nextFile => contradiction
  | previousFile => contradiction
  | _ => rfl

theorem Browses.stays {next : Viewer} (browses : Browses folder tagName limit files viewer)
    (stays : viewer.Stays next) :
    Browses folder tagName limit files next ∧ next.selected = viewer.selected := by
  obtain ⟨review,focusLine,status,rfl⟩ := stays
  exact ⟨⟨browses.folder,browses.tagName,browses.limit,browses.files⟩,rfl⟩

/-- Where the commands have led, and what is shown there if the last one has opened a file. -/
structure Arrives (fs : FileSystem) (folder tagName : Text) (limit : Nat) (files : List Text)
    (commands : List ViewerCommand) (viewer : Viewer) (index : Nat) : Prop where
  browses : Browses folder tagName limit files viewer
  selected : viewer.selected = some index
  inside : index < files.length
  turned : (index : Int) = turns commands % files.length
  shown : (∀ command ∈ commands.getLast?, command.opensFile) →
    ∀ relative ∈ relativePath? folder files[index], viewer.shown =
      .opened tagName limit relative ((Documents.load fs folder relative).map (·.document))

theorem Browses.select {commands : List ViewerCommand} (browses : Browses folder tagName limit files viewer)
    (inside : index < files.length) (turned : (index : Int) = turns commands % files.length) :
    Arrives fs folder tagName limit files commands (viewer.select fs index) index := by
  have moved : Browses folder tagName limit files { viewer with selected := some index } :=
    ⟨browses.folder,browses.tagName,browses.limit,browses.files⟩
  obtain ⟨stays,selected⟩ := moved.stays (stays_openSelected fs _)
  refine ⟨stays,selected,inside,turned,fun _ relative isBelow => ?_⟩
  obtain ⟨rfl,rfl,rfl,rfl⟩ := browses
  have here : viewer.files[index]? = some viewer.files[index] := List.getElem?_eq_getElem inside
  exact shown_openSelected fs here isBelow

namespace Arrives

variable {commands : List ViewerCommand}

theorem nonempty (arrives : Arrives fs folder tagName limit files commands viewer index) : files ≠ [] :=
  List.ne_nil_of_length_pos (Nat.zero_lt_of_lt arrives.inside)

theorem nextFile (arrives : Arrives fs folder tagName limit files commands viewer index) :
    ∃ index, Arrives fs folder tagName limit files (commands ++ [.nextFile]) (viewer.nextFile fs) index := by
  rw [Viewer.nextFile,arrives.browses.files,List.isEmpty_eq_false_iff.mpr arrives.nonempty,
    if_neg Bool.false_ne_true,arrives.selected]
  refine ⟨_,arrives.browses.select (Nat.mod_lt _ (Nat.zero_lt_of_lt arrives.inside)) ?_⟩
  rw [turns_append,← Int.emod_add_emod,← arrives.turned]
  rfl

theorem previousFile (arrives : Arrives fs folder tagName limit files commands viewer index) :
    ∃ index, Arrives fs folder tagName limit files (commands ++ [.previousFile]) (viewer.previousFile fs)
      index := by
  have back : turns (commands ++ [.previousFile]) % files.length = (index - 1 : Int) % files.length := by
    rw [turns_append,← Int.emod_add_emod,← arrives.turned]
    rfl
  have inside := arrives.inside
  rw [Viewer.previousFile,arrives.browses.files,List.isEmpty_eq_false_iff.mpr arrives.nonempty,
    if_neg Bool.false_ne_true,arrives.selected]
  -- One step back from the first file is the last one: as many steps forward as there are others.
  cases index with
  | zero =>
    refine ⟨_,arrives.browses.select (Nat.sub_one_lt_of_lt inside) ?_⟩
    rw [back,← Int.add_emod_right,Int.emod_eq_of_lt (by omega) (by omega)]
    omega
  | succ index =>
    refine ⟨_,arrives.browses.select (Nat.lt_of_succ_lt inside) ?_⟩
    rw [back,Int.emod_eq_of_lt (by omega) (by omega)]
    omega

theorem stays {command : ViewerCommand} {next : Viewer}
    (arrives : Arrives fs folder tagName limit files commands viewer index)
    (runs : command.run fs viewer = some next) (goesOn : command.opensFile = false) :
    Arrives fs folder tagName limit files (commands ++ [command]) next index := by
  obtain ⟨browses,selected⟩ := arrives.browses.stays (stays_run runs goesOn)
  refine ⟨browses,selected.trans arrives.selected,arrives.inside,?_,fun opens => ?_⟩
  · rw [turns_append,turns_of_stays goesOn,add_zero]
    exact arrives.turned
  · have := opens command (by simp)
    rw [goesOn] at this
    contradiction

theorem run {command : ViewerCommand} {next : Viewer}
    (arrives : Arrives fs folder tagName limit files commands viewer index)
    (runs : command.run fs viewer = some next) :
    ∃ index, Arrives fs folder tagName limit files (commands ++ [command]) next index := by
  cases opens : command.opensFile with
  | false => exact ⟨index,arrives.stays runs opens⟩
  | true =>
    cases command with
    | nextFile =>
      obtain rfl := Option.some_inj.mp runs
      exact arrives.nextFile
    | previousFile =>
      obtain rfl := Option.some_inj.mp runs
      exact arrives.previousFile
    | _ => contradiction

theorem draw (arrives : Arrives fs folder tagName limit files commands viewer index) (width height : Nat) :
    Arrives fs folder tagName limit files commands (viewer.draw width height).2 index := by
  have nonempty : viewer.files ≠ [] := by
    rw [arrives.browses.files]
    exact arrives.nonempty
  obtain ⟨listOffset,drawn⟩ := exists_draw_eq nonempty width height
  rw [drawn]
  obtain ⟨folder,tagName,limit,files⟩ := arrives.browses
  exact ⟨⟨folder,tagName,limit,files⟩,arrives.selected,arrives.inside,arrives.turned,arrives.shown⟩

end Arrives

theorem Journey.arrives {commands : List ViewerCommand} (journey : Journey fs folder tagName limit viewer commands)
    (scanned : Documents.scan fs folder = .ok files) (nonempty : files ≠ []) :
    ∃ index, Arrives fs folder tagName limit files commands viewer index := by
  induction journey with
  | start opened =>
    obtain ⟨_,same,rfl⟩ := exists_of_new opened
    obtain rfl := Except.ok.inj (scanned.symm.trans same)
    rw [List.isEmpty_eq_false_iff.mpr nonempty,if_neg Bool.false_ne_true]
    exact ⟨0,Browses.select ⟨rfl,rfl,rfl,rfl⟩ (List.length_pos_iff.mpr nonempty) rfl⟩
  | go _ runs ih =>
    obtain ⟨index,arrives⟩ := ih
    exact arrives.run runs
  | draw width height _ ih =>
    obtain ⟨index,arrives⟩ := ih
    exact ⟨index,arrives.draw width height⟩

theorem loadsListed_of_scanned {tree : FileTree} {path : Text} (scanned : Documents.scan fs folder = .ok files)
    (found : fs.find folder = .ok tree) (proper : tree.Proper) (listed : path ∈ files) :
    ∃ relative, relativePath? folder path = some relative ∧ LoadsListed fs folder path relative := by
  obtain ⟨further,isBelow,loads⟩ := Documents.loadsListed_of_mem_scan scanned found proper listed
  refine ⟨_,?_,loads⟩
  rw [relativePath?,isBelow]
  rfl

theorem shown_of_opened_file {commands : List ViewerCommand} {tree : FileTree}
    (journey : Journey fs folder tagName limit viewer commands) (found : fs.find folder = .ok tree)
    (proper : tree.Proper) (scanned : Documents.scan fs folder = .ok files) (nonempty : files ≠ []) :
    viewer.files = files ∧
    (ListsDocuments folder tree files ↔ ∀ names below, Closed folder tree names below →
      ¬ NamesDocument names ∧ ∀ further, ¬ LeadsToDocument (.folder below) further) ∧
    (ListsDocuments folder tree files → files.length = {names | LeadsToDocument tree names}.ncard) ∧
    ∃ index, ∃ inside : index < files.length, viewer.selected = some index ∧
      (index : Int) = turns commands % files.length ∧
      ∃ relative, relativePath? folder files[index] = some relative ∧
        LoadsListed fs folder files[index] relative ∧
        ((∀ command ∈ commands.getLast?, command.opensFile) →
          viewer.shown = .opened tagName limit relative
            ((Documents.load fs folder relative).map (·.document))) := by
  obtain ⟨index,arrives⟩ := journey.arrives scanned nonempty
  have inside := arrives.inside
  have folderNamed := FileSystem.ne_nil_of_sound (FileSystem.sound_of_find found)
  obtain ⟨relative,isBelow,loads⟩ := loadsListed_of_scanned scanned found proper (List.getElem_mem inside)
  exact ⟨arrives.browses.files,Documents.listsDocuments_iff scanned found proper,
    fun right => right.length_eq folderNamed proper,index,inside,arrives.selected,arrives.turned,relative,isBelow,loads,
    fun opens => arrives.shown opens relative isBelow⟩

/-- The second of two documents lies in a folder of its own. It is reached by going back from the first one, in
which the only tag is never ended. The folder of both is given with a slash. -/
theorem last_file_before_first :
    let second : ByteArray := ⟨#[60,110,62]⟩
    let below : FileTree := .folder [(['b','.','x','m','l'],.file second)]
    let tree : FileTree := .folder [(['a','.','x','m','l'],.file ⟨#[60,110]⟩),(['s'],below)]
    let fs : FileSystem := ⟨.folder [(['d'],tree)],[]⟩
    ∃ first, Viewer.new fs ['/','d','/'] ['n'] 9 = .ok first ∧
      let viewer := (first.stepTag true).previousFile fs
      viewer.selected = some 1 ∧ ∃ relative,
        LoadsListed fs ['/','d','/'] ['/','d','/','s','/','b','.','x','m','l'] relative ∧
        viewer.shown = .opened ['n'] 9 relative
          ((Document.ofUtf8 second).mapError (.notUtf8 (Path.append ['/','d','/'] relative))) := by
  intro second below tree fs
  have listed : Documents.pathsIn ['/','d','/'] [(['a','.','x','m','l'],.file ⟨#[60,110]⟩),(['s'],below)] =
      [['/','d','/','a','.','x','m','l'],['/','d','/','s','/','b','.','x','m','l']] := by decide
  have scanned : Documents.scan fs ['/','d','/'] =
      .ok [['/','d','/','a','.','x','m','l'],['/','d','/','s','/','b','.','x','m','l']] := by
    change Except.ok ((Documents.pathsIn ['/','d','/'] _).mergeSort Path.precedes) = _
    rw [listed,List.mergeSort_of_pairwise (by decide)]
  have found : fs.find ['/','d','/'] = .ok tree := by rfl
  have belowProper : below.Proper := .folder (by decide) (by decide) (List.forall_mem_singleton.mpr (.file _))
  have proper : tree.Proper := .folder (by decide) (by decide)
    (List.forall_mem_cons.mpr ⟨.file _,List.forall_mem_singleton.mpr belowProper⟩)
  have read : fs.read ['/','d','/','s','/','b','.','x','m','l'] = .ok second := by rfl
  have room : ¬ NoRoom ['/','d','/'] ['/','d','/','s','/','b','.','x','m','l'] :=
    fun noRoom => absurd noRoom.longest (by decide)
  cases opened : Viewer.new fs ['/','d','/'] ['n'] 9 with
  | error error =>
    rw [Viewer.new,scanned] at opened
    contradiction
  | ok first =>
    have once : Journey fs ['/','d','/'] ['n'] 9 (first.stepTag true) [.nextTag] :=
      .go (.start opened) (show ViewerCommand.nextTag.run fs first = some _ from rfl)
    have twice : Journey fs ['/','d','/'] ['n'] 9 ((first.stepTag true).previousFile fs) [.nextTag,.previousFile] :=
      .go once (show ViewerCommand.previousFile.run fs _ = some _ from rfl)
    obtain ⟨_,_,_,index,inside,selected,turned,relative,_,loads,shown⟩ :=
      shown_of_opened_file twice found proper scanned (List.cons_ne_nil _ _)
    obtain rfl : index = 1 := Int.ofNat_inj.mp turned
    have loaded := loads.loads second read room
    exact ⟨first,rfl,selected,relative,loads,loaded ▸ shown (by decide)⟩

/-- The root holds two documents. Behind so many slashes the path of the one is as long as a path may be, so it can be
read and is not found; the other is in a folder whose path is too long, so the next file is the first one again. -/
theorem long_paths_lose_documents :
    let slashes : Text := List.replicate 4090 '/'
    let below : List (Text × FileTree) := [(['b','.','x','m','l'],.file ⟨#[60,110,62]⟩)]
    let entries : List (Text × FileTree) :=
      [(['a','.','x','m','l'],.file ⟨#[60,110,62]⟩),(['f','o','l','d','e','r'],.folder below)]
    let fs : FileSystem := ⟨.folder entries,[]⟩
    let path := slashes ++ ['a','.','x','m','l']
    Documents.scan fs slashes = .ok [path] ∧ ∃ first, Viewer.new fs slashes ['n'] 9 = .ok first ∧
      let viewer := first.nextFile fs
      viewer.selected = some 0 ∧
      (0 : Int) ≠ turns [.nextFile] % {names | LeadsToDocument (.folder entries) names}.ncard ∧
      (∃ content, fs.read path = .ok content) ∧ ∃ relative, relativePath? slashes path = some relative ∧
        viewer.shown = .opened ['n'] 9 relative (.error (.notFound (Path.append slashes relative))) := by
  intro slashes below entries fs path
  have found : fs.find slashes = .ok (.folder entries) := FileSystem.find_slashes rfl (by decide)
  have proper : (FileTree.folder entries).Proper := .folder (by decide) (by decide) (List.forall_mem_cons.mpr
    ⟨.file _,List.forall_mem_singleton.mpr (.folder (by decide) (by decide) (List.forall_mem_singleton.mpr (.file _)))⟩)
  have documents : {names | LeadsToDocument (.folder entries) names} =
      {[['a','.','x','m','l']],[['f','o','l','d','e','r'],['b','.','x','m','l']]} :=
    Documents.leadsToDocument_of_two (by decide) ⟨['a'],List.cons_ne_nil _ _,rfl⟩ ⟨['b'],List.cons_ne_nil _ _,rfl⟩
  have folderNamed := FileSystem.ne_nil_of_sound (FileSystem.sound_of_find found)
  have short := FileSystem.short_of_find found
  have ends : Path.endsInSlash slashes := FileSystem.endsInSlash_slashes _
  have width : slashes.width = 4090 := FileSystem.width_slashes _
  clear_value slashes
  have joined {name : Text} (isName : Path.IsName name) : Path.join slashes name = slashes ++ name := by
    rw [Path.join_eq isName folderNamed,if_pos ends]
  have firstJoined : Path.join slashes ['a','.','x','m','l'] = path := joined ⟨by decide,by decide,by decide,by decide⟩
  have folderJoined : Path.join slashes ['f','o','l','d','e','r'] = slashes ++ ['f','o','l','d','e','r'] :=
    joined ⟨by decide,by decide,by decide,by decide⟩
  have isDocument : Documents.isDocument path := by
    have here : (FileTree.folder entries).at? [['a','.','x','m','l']] = some (.file ⟨#[60,110,62]⟩) := rfl
    rw [← firstJoined]
    exact (Documents.isDocument_iff folderNamed proper here (List.cons_ne_nil _ _)).mpr ⟨['a'],List.cons_ne_nil _ _,rfl⟩
  have noDocument : ¬ Documents.isDocument (slashes ++ ['f','o','l','d','e','r']) := by
    have here : (FileTree.folder entries).at? [['f','o','l','d','e','r']] = some (.folder below) := rfl
    rw [← folderJoined]
    intro isDocument
    obtain ⟨stem,_,last⟩ := (Documents.isDocument_iff folderNamed proper here (List.cons_ne_nil _ _)).mp isDocument
    have letters := congrArg List.getLast? (Option.some_inj.mp last)
    rw [List.getLast?_append_of_ne_nil _ (List.cons_ne_nil _ _)] at letters
    exact absurd letters (by decide)
  have tooLong : FileSystem.maxPath < (slashes ++ ['f','o','l','d','e','r']).width := by
    rw [Text.width_append,width]
    decide
  have scanned : Documents.scan fs slashes = .ok [path] := by
    have listed : Documents.paths slashes (.folder entries) = [path] := by
      rw [Documents.paths_of_short short,List.flatMap_cons,List.flatMap_singleton,firstJoined,folderJoined,
        Documents.paths,if_pos isDocument,Documents.paths,if_pos tooLong,if_neg noDocument]
      rfl
    rw [Documents.scan_of_find found,listed,List.mergeSort_singleton]
  refine ⟨scanned,?_⟩
  cases opened : Viewer.new fs slashes ['n'] 9 with
  | error error =>
    rw [Viewer.new,scanned] at opened
    contradiction
  | ok first =>
    have journey : Journey fs slashes ['n'] 9 (first.nextFile fs) [.nextFile] :=
      .go (.start opened) (show ViewerCommand.nextFile.run fs first = some _ from rfl)
    obtain ⟨index,arrives⟩ := journey.arrives scanned (List.cons_ne_nil _ _)
    obtain rfl : index = 0 := Nat.lt_one_iff.mp arrives.inside
    obtain ⟨relative,isBelow,loads⟩ := loadsListed_of_scanned scanned found proper (List.mem_singleton_self _)
    have longest : path.width = FileSystem.maxPath := by
      rw [Text.width_append,width]
      rfl
    have shown := arrives.shown (by decide) relative isBelow
    rw [loads.notFound (.inr ⟨ends,longest⟩)] at shown
    refine ⟨first,rfl,arrives.selected,?_,loads.readable.mpr (Nat.le_of_eq longest),relative,isBelow,shown⟩
    rw [documents,Set.ncard_pair (by decide)]
    decide

end Viewer

end TagOverlay
