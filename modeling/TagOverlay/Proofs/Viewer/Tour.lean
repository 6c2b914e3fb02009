import Mathlib.Data.Finset.Option
import TagOverlay.Proofs.Session.Marking
import TagOverlay.Proofs.Session.ReviewLooks
import TagOverlay.Viewer.Screen

/-! Tours: what the viewer shows after any commands, in any order, with any file system under each of
them. Going to a file starts over; everything else keeps the looks of the tags that were visited. -/
namespace TagOverlay

theorem Overlay.revealed_addBatch (overlay : Overlay MemorySurface) (spans : List Span) (style : Style) :
    (overlay.addBatch spans style).2.surface.revealed =
      (spans.head?.map (·.start.line)).or overlay.surface.revealed := by
  cases spans with
  | nil => rfl
  | cons first rest =>
    rw [addBatch_of_answer overlay first rest style (update_memory ..)]
    · rfl
    · rw [MemorySurface.length_attach_ids,List.length_map]

namespace Session

variable {β : Type} [TextBuffer β]

theorem revealed_markCleared {session : Session β MemorySurface} {name : Text} {spans : List Span}
    (found : Sheet.startTags session.buffer session.limit name = .ok spans) :
    (session.markCleared name).2.surface.revealed =
      (spans.head?.map (·.start.line)).or session.surface.revealed := by
  have revealed := Overlay.revealed_addBatch session.overlay spans .fresh
  rw [markCleared,found]
  dsimp only
  rcases added : session.overlay.addBatch spans .fresh with ⟨error | ids,after⟩
  · rw [added] at revealed
    exact revealed
  · rw [added] at revealed
    exact revealed

/-- In a new session the line of the first tag is revealed, and all tags are fresh. -/
theorem mark_new (buffer : β) (limit : Nat) (name : Text) :
    let after := (((Session.new buffer MemorySurface.empty).withLimit limit).mark name).2
    ∃ spans : List Span, after.Shows (spans.map fun span => (span,some .fresh)) ∧
      after.surface.revealed = spans.head?.map (·.start.line) := by
  let session := (Session.new buffer MemorySurface.empty).withLimit limit
  change ∃ spans : List Span, (session.mark name).2.Shows _ ∧
    (session.mark name).2.surface.revealed = _
  have shows : session.Shows [] := shows_new buffer limit
  have unchanged : session.mark name = session.markCleared name := mark_eq session name
  cases found : Sheet.startTags session.buffer session.limit name with
  | error error =>
    have refused : session.mark name = (.error (.tag error),session) := by
      rw [unchanged,markCleared,found]
    rw [refused]
    exact ⟨[],shows,rfl⟩
  | ok spans =>
    obtain ⟨last,marked,drawn⟩ := mark_of_ok shows found
    have revealed := revealed_markCleared found
    rw [← unchanged,marked] at revealed
    rw [marked]
    exact ⟨spans,drawn,revealed.trans (Option.or_none ..)⟩

end Session

/-- Whether the command goes to a file, the same one again included. -/
def ViewerCommand.opensFile : ViewerCommand → Bool
  | nextFile | previousFile => true
  | _ => false

namespace Viewer

/-- The viewers that are reached, each with the tags that have been current since its file was opened. -/
inductive Tour (folder tagName : Text) (limit : Nat) : Viewer → Finset Nat → Prop where
  | start {fs : FileSystem} {viewer : Viewer} (opened : Viewer.new fs folder tagName limit = .ok viewer) :
      Tour folder tagName limit viewer viewer.currentTag.toFinset
  | go {fs : FileSystem} {viewer next : Viewer} {seen : Finset Nat} {command : ViewerCommand}
      (earlier : Tour folder tagName limit viewer seen) (runs : command.run fs viewer = some next) :
      Tour folder tagName limit next
        ((if command.opensFile then ∅ else seen) ∪ next.currentTag.toFinset)
  | draw {viewer : Viewer} {seen : Finset Nat} (width height : Nat)
      (earlier : Tour folder tagName limit viewer seen) :
      Tour folder tagName limit (viewer.draw width height).2 seen

/-- The current tag, or the first one if none is current. -/
def subject? (viewer : Viewer) : Option MarkedTag :=
  viewer.review.bind fun review => review.session.marked[review.current.getD 0]?

structure Consistent (viewer : Viewer) (seen : Finset Nat) : Prop where
  selected : viewer.selected.isSome ↔ viewer.files ≠ []
  inside : ∀ index ∈ viewer.selected, index < viewer.files.length
  fromFile : ∀ review ∈ viewer.review, viewer.files ≠ []
  follows : ∀ review ∈ viewer.review, review.Follows seen
  focus : viewer.focusLine = viewer.subject?.elim 1 (·.span.start.line)

variable {viewer : Viewer} {seen : Finset Nat} {index : Nat}

theorem consistent_openDocument (selected : viewer.selected.isSome ↔ viewer.files ≠ [])
    (inside : ∀ index ∈ viewer.selected, index < viewer.files.length) (nonempty : viewer.files ≠ [])
    (relative : Text) (document : Document) :
    (viewer.openDocument relative document).Consistent ∅ ∧
      (viewer.openDocument relative document).currentTag = none := by
  obtain ⟨spans,shows,revealed⟩ := Session.mark_new document viewer.limit viewer.tagName
  unfold openDocument
  dsimp only at shows revealed ⊢
  generalize ((Session.new document MemorySurface.empty).withLimit viewer.limit).mark viewer.tagName =
    result at shows revealed ⊢
  obtain ⟨answer,session⟩ := result
  have marked : session.marked.map (·.span) = spans := by
    rw [shows.spans_eq]
    simp [Function.comp_def]
  refine ⟨⟨selected,inside,fun _ _ => nonempty,?_,?_⟩,rfl⟩
  · intro review here
    obtain rfl := Option.some_inj.mp here
    refine ⟨?_,nofun,nofun⟩
    change session.Shows (Review.rows (session.marked.map (·.span)) none ∅)
    rw [marked,Review.rows_none]
    exact shows
  · rw [revealed,← marked]
    change _ = (session.marked[0]?).elim 1 _
    cases session.marked <;> rfl

theorem consistent_openSelected (fs : FileSystem) (selected : viewer.selected.isSome ↔ viewer.files ≠ [])
    (inside : ∀ index ∈ viewer.selected, index < viewer.files.length) :
    (viewer.openSelected fs).Consistent ∅ ∧ (viewer.openSelected fs).currentTag = none := by
  unfold openSelected
  dsimp only [close]
  cases found : viewer.selected.bind fun index => viewer.files[index]? with
  | none => exact ⟨⟨selected,inside,nofun,nofun,rfl⟩,rfl⟩
  | some path =>
    dsimp only
    cases relativePath? viewer.folder path with
    | none => exact ⟨⟨selected,inside,nofun,nofun,rfl⟩,rfl⟩
    | some relative =>
      dsimp only
      cases Documents.load fs viewer.folder relative with
      | error error => exact ⟨⟨selected,inside,nofun,nofun,rfl⟩,rfl⟩
      | ok loaded =>
        have nonempty : viewer.files ≠ [] := by
          obtain ⟨index,isSelected,_⟩ := Option.bind_eq_some_iff.mp found
          exact selected.mp (Option.isSome_of_mem isSelected)
        exact consistent_openDocument selected inside nonempty relative loaded.document

theorem consistent_select (fs : FileSystem) (inside : index < viewer.files.length) :
    (viewer.select fs index).Consistent ∅ ∧ (viewer.select fs index).currentTag = none := by
  have nonempty : viewer.files ≠ [] := by
    intro nothing
    rw [nothing] at inside
    contradiction
  apply consistent_openSelected
  · exact iff_of_true rfl nonempty
  · intro selected same
    obtain rfl : index = selected := Option.some_inj.mp same
    exact inside

/-- The viewer before any of the files is opened. -/
def unopened (folder tagName : Text) (limit : Nat) (files : List Text) : Viewer where
  folder := folder
  tagName := tagName
  limit := limit
  files := files
  selected := none
  listOffset := 0
  review := none
  focusLine := 1
  status := ""

theorem exists_of_new {fs : FileSystem} {folder tagName : Text} {limit : Nat}
    (opened : Viewer.new fs folder tagName limit = .ok viewer) :
    ∃ files, Documents.scan fs folder = .ok files ∧
      viewer = if files.isEmpty then unopened folder tagName limit files
        else (unopened folder tagName limit files).select fs 0 := by
  rw [Viewer.new] at opened
  cases scanned : Documents.scan fs folder with
  | error error =>
    rw [scanned] at opened
    contradiction
  | ok files =>
    rw [scanned] at opened
    exact ⟨files,rfl,(Except.ok.inj opened).symm⟩

theorem consistent_new {fs : FileSystem} {folder tagName : Text} {limit : Nat}
    (opened : Viewer.new fs folder tagName limit = .ok viewer) :
    viewer.Consistent ∅ ∧ viewer.currentTag = none := by
  obtain ⟨files,_,rfl⟩ := exists_of_new opened
  split
  next nothing =>
    obtain rfl := List.isEmpty_iff.mp nothing
    exact ⟨⟨by simp [unopened],nofun,nofun,nofun,rfl⟩,rfl⟩
  next something =>
    apply consistent_select
    exact List.length_pos_iff.mpr (mt List.isEmpty_iff.mpr something)

theorem nextFile_cases (fs : FileSystem) (viewer : Viewer) :
    viewer.files = [] ∧ viewer.nextFile fs = viewer ∨
      ∃ index < viewer.files.length, viewer.nextFile fs = viewer.select fs index := by
  unfold nextFile
  split
  next nothing => exact .inl ⟨List.isEmpty_iff.mp nothing,rfl⟩
  next something =>
    have positive : 0 < viewer.files.length :=
      List.length_pos_iff.mpr (mt List.isEmpty_iff.mpr something)
    cases viewer.selected with
    | none => exact .inr ⟨0,positive,rfl⟩
    | some index => exact .inr ⟨_,Nat.mod_lt _ positive,rfl⟩

theorem previousFile_cases (fs : FileSystem) (inside : ∀ index ∈ viewer.selected, index < viewer.files.length) :
    viewer.files = [] ∧ viewer.previousFile fs = viewer ∨
      ∃ index < viewer.files.length, viewer.previousFile fs = viewer.select fs index := by
  unfold previousFile
  split
  next nothing => exact .inl ⟨List.isEmpty_iff.mp nothing,rfl⟩
  next something =>
    have positive : 0 < viewer.files.length :=
      List.length_pos_iff.mpr (mt List.isEmpty_iff.mpr something)
    cases selected : viewer.selected with
    | none => exact .inr ⟨_,Nat.sub_one_lt_of_lt positive,rfl⟩
    | some index =>
      cases index with
      | zero => exact .inr ⟨_,Nat.sub_one_lt_of_lt positive,rfl⟩
      | succ index => exact .inr ⟨index,Nat.lt_of_succ_lt (inside (index + 1) selected),rfl⟩

/-- Without tags a step changes nothing. Otherwise it leads to one of them, at either end to the same again. -/
theorem stepTag_cases (viewer : Viewer) (forward : Bool) :
    (∀ review ∈ viewer.review, review.session.marked = []) ∧ viewer.stepTag forward = viewer ∨
      ∃ review next, viewer.review = some review ∧
        ((∀ index ∈ review.current, index < review.session.marked.length) →
          next < review.session.marked.length) ∧
        (review.current = some next ∧ viewer.stepTag forward = viewer ∨
          viewer.stepTag forward = viewer.goTo review next) := by
  unfold stepTag
  split
  next noReview => exact .inl ⟨fun review here => absurd (noReview.symm.trans here) nofun,rfl⟩
  next review here =>
    have moves (next : Nat) : review.current = some next ∧
        (if review.current = some next then viewer else viewer.goTo review next) = viewer ∨
          (if review.current = some next then viewer else viewer.goTo review next) = viewer.goTo review next := by
      split
      next same => exact .inl ⟨same,rfl⟩
      next => exact .inr rfl
    dsimp only
    split
    next nothing =>
      refine .inl ⟨fun other same => ?_,rfl⟩
      obtain rfl := Option.some_inj.mp (here.symm.trans same)
      exact List.length_eq_zero_iff.mp nothing
    next something =>
      refine .inr ⟨review,_,here,fun inside => ?_,moves _⟩
      split
      next => exact Nat.pos_of_ne_zero something
      next index current =>
        have bound := inside index current
        split <;> omega

namespace Consistent

/-- Without files there is no review, so that nothing has to be forgotten. -/
theorem reopened (consistent : viewer.Consistent seen) {fs : FileSystem} {next : Viewer}
    (goes : viewer.files = [] ∧ next = viewer ∨
      ∃ index < viewer.files.length, next = viewer.select fs index) :
    next.Consistent (∅ ∪ next.currentTag.toFinset) := by
  rcases goes with ⟨nothing,rfl⟩ | ⟨index,inside,rfl⟩
  · have noReview : next.review = none :=
      Option.eq_none_iff_forall_not_mem.mpr fun review here => consistent.fromFile review here nothing
    refine ⟨consistent.selected,consistent.inside,consistent.fromFile,?_,consistent.focus⟩
    rw [noReview]
    exact nofun
  · obtain ⟨fresh,noneCurrent⟩ := consistent_select fs inside
    rw [noneCurrent]
    exact fresh

theorem union_currentTag (consistent : viewer.Consistent seen) :
    seen ∪ viewer.currentTag.toFinset = seen := by
  apply Finset.union_eq_left.mpr
  intro index isCurrent
  obtain ⟨review,here,current⟩ := Option.bind_eq_some_iff.mp (Option.mem_toFinset.mp isCurrent)
  exact (consistent.follows review here).known index current

theorem goTo (consistent : viewer.Consistent seen) {review : Review Document MemorySurface} {next : Nat}
    (here : viewer.review = some review) (inside : next < review.session.marked.length) :
    (viewer.goTo review next).Consistent (insert next seen) ∧
      (viewer.goTo review next).currentTag = some next := by
  obtain ⟨after,advanced,follows,spans⟩ := (consistent.follows review here).advance inside
  unfold Viewer.goTo
  rw [advanced]
  have bound := follows.inside next rfl
  refine ⟨⟨consistent.selected,consistent.inside,fun _ _ => consistent.fromFile review here,?_,?_⟩,rfl⟩
  · intro other same
    obtain rfl := Option.some_inj.mp same
    exact follows
  · change (after.marked[next]?).elim _ _ = (after.marked[next]?).elim _ _
    rw [List.getElem?_eq_getElem bound]
    rfl

theorem stepTag (consistent : viewer.Consistent seen) (forward : Bool) :
    (viewer.stepTag forward).Consistent (seen ∪ (viewer.stepTag forward).currentTag.toFinset) := by
  have stays : viewer.Consistent (seen ∪ viewer.currentTag.toFinset) := by
    rw [consistent.union_currentTag]
    exact consistent
  rcases stepTag_cases viewer forward with ⟨_,same⟩ | ⟨review,next,here,inside,⟨_,same⟩ | moved⟩
  · rw [same]
    exact stays
  · rw [same]
    exact stays
  · obtain ⟨after,current⟩ := consistent.goTo here (inside (consistent.follows review here).inside)
    rw [moved,current,Option.toFinset_some,Finset.union_singleton]
    exact after

theorem withStatus (consistent : viewer.Consistent seen) (status : String) :
    Consistent { viewer with status } seen :=
  ⟨consistent.selected,consistent.inside,consistent.fromFile,consistent.follows,consistent.focus⟩

theorem showElement (consistent : viewer.Consistent seen) :
    viewer.showElement.Consistent seen ∧ viewer.showElement.currentTag = viewer.currentTag := by
  unfold Viewer.showElement
  split
  next => exact ⟨consistent.withStatus _,rfl⟩
  next => exact ⟨consistent,rfl⟩

theorem showPayload (consistent : viewer.Consistent seen) (intent : TagIntent) :
    (viewer.showPayload intent).Consistent seen ∧
      (viewer.showPayload intent).currentTag = viewer.currentTag := by
  unfold Viewer.showPayload
  split
  next => exact ⟨consistent.withStatus _,rfl⟩
  next => exact ⟨consistent,rfl⟩

theorem run (consistent : viewer.Consistent seen) {fs : FileSystem} {command : ViewerCommand}
    {next : Viewer} (runs : command.run fs viewer = some next) :
    next.Consistent ((if command.opensFile then ∅ else seen) ∪ next.currentTag.toFinset) := by
  cases command with
  | quit => contradiction
  | nextFile =>
    obtain rfl := Option.some_inj.mp runs
    exact consistent.reopened (nextFile_cases fs viewer)
  | previousFile =>
    obtain rfl := Option.some_inj.mp runs
    exact consistent.reopened (previousFile_cases fs consistent.inside)
  | nextTag =>
    obtain rfl := Option.some_inj.mp runs
    exact consistent.stepTag true
  | previousTag =>
    obtain rfl := Option.some_inj.mp runs
    exact consistent.stepTag false
  | showElement =>
    obtain rfl := Option.some_inj.mp runs
    obtain ⟨shown,same⟩ := consistent.showElement
    rw [same]
    exact (congrArg _ consistent.union_currentTag).mpr shown
  | showPayload intent =>
    obtain rfl := Option.some_inj.mp runs
    obtain ⟨shown,same⟩ := consistent.showPayload intent
    rw [same]
    exact (congrArg _ consistent.union_currentTag).mpr shown

/-- Drawing may only scroll the list of files. -/
theorem draw (consistent : viewer.Consistent seen) (width height : Nat) :
    (viewer.draw width height).2.Consistent seen := by
  change (viewer.scrollList _).Consistent seen
  unfold scrollList
  split
  next => exact consistent
  next =>
    split
    next nothing =>
      have none : viewer.files = [] := List.isEmpty_iff.mp nothing
      exact ⟨iff_of_false Bool.false_ne_true (absurd none ·),nofun,consistent.fromFile,consistent.follows,
        consistent.focus⟩
    next => exact ⟨consistent.selected,consistent.inside,consistent.fromFile,consistent.follows,consistent.focus⟩

end Consistent

variable {folder tagName : Text} {limit : Nat}

theorem Tour.consistent (tour : Tour folder tagName limit viewer seen) : viewer.Consistent seen := by
  induction tour with
  | start opened =>
    obtain ⟨consistent,noneCurrent⟩ := consistent_new opened
    rw [noneCurrent]
    exact consistent
  | go _ runs ih => exact ih.run runs
  | draw width height _ ih => exact ih.draw width height

theorem looks_follow_tour (tour : Tour folder tagName limit viewer seen) :
    (viewer.selected.isSome ↔ viewer.files ≠ []) ∧
    (∀ index ∈ viewer.selected, index < viewer.files.length) ∧
    (viewer.review = none → viewer.currentTag = none) ∧
    (∀ review ∈ viewer.review,
      (∀ index ∈ viewer.currentTag, index < review.session.marked.length) ∧
      (review.session.marked.map (·.id)).Nodup ∧
      review.session.surface.attached.Perm (review.session.marked.mapIdx fun index tag =>
        (tag.id,⟨tag.span,if viewer.currentTag = some index then .current
          else if index ∈ seen then .done else .fresh⟩))) ∧
    viewer.focusLine = (viewer.review.bind fun review =>
      review.session.marked[viewer.currentTag.getD 0]?).elim 1 (·.span.start.line) := by
  have consistent := tour.consistent
  refine ⟨consistent.selected,consistent.inside,?_,?_,?_⟩
  · intro noReview
    rw [currentTag,noReview]
    rfl
  · intro review here
    have follows := consistent.follows review here
    have current : viewer.currentTag = review.current := by
      rw [currentTag,here]
      rfl
    rw [current]
    exact ⟨follows.inside,follows.shows.marks.nodup,follows.attached_perm⟩
  · rw [consistent.focus,subject?,currentTag]
    cases viewer.review <;> rfl

/-- A document with a tag on each of its two lines, after two steps to the next tag. -/
theorem second_tag_current_first_done :
    let fs : FileSystem := ⟨.folder [(['d'],.folder [(['x','.','x','m','l'],
      .file ⟨#[60,110,62,10,60,110,62]⟩)])],[]⟩
    ∃ first, Viewer.new fs ['/','d'] ['n'] 9 = .ok first ∧
      let viewer := (first.stepTag true).stepTag true
      ∃ seen, Tour ['/','d'] ['n'] 9 viewer seen ∧ 0 ∈ seen ∧ viewer.currentTag = some 1 ∧
        viewer.focusLine = 2 ∧ ∃ review ∈ viewer.review, review.session.marked.length = 2 ∧
          review.session.surface.attached.Perm (review.session.marked.mapIdx fun index tag =>
            (tag.id,⟨tag.span,if viewer.currentTag = some index then .current
              else if index ∈ seen then .done else .fresh⟩)) := by
  intro fs
  have shown : (Viewer.new fs ['/','d'] ['n'] 9).toOption.map (fun first =>
      ((first.stepTag true).currentTag,((first.stepTag true).stepTag true).currentTag,
        ((first.stepTag true).stepTag true).focusLine,
        ((first.stepTag true).stepTag true).review.map (·.session.marked.length))) =
      some (some 0,some 1,2,some 2) := by decide +kernel
  cases opened : Viewer.new fs ['/','d'] ['n'] 9 with
  | error error =>
    rw [opened] at shown
    contradiction
  | ok first =>
    rw [opened] at shown
    change some (_,_,_,_) = some (_,_,_,_) at shown
    simp only [Option.some_inj,Prod.mk.injEq,Option.map_eq_some_iff] at shown
    obtain ⟨firstTag,secondTag,line,review,here,count⟩ := shown
    have once : Tour ['/','d'] ['n'] 9 (first.stepTag true) _ :=
      .go (.start opened) (show ViewerCommand.nextTag.run fs first = some _ from rfl)
    have twice : Tour ['/','d'] ['n'] 9 ((first.stepTag true).stepTag true) _ :=
      .go once (show ViewerCommand.nextTag.run fs _ = some _ from rfl)
    obtain ⟨_,_,_,looks,_⟩ := looks_follow_tour twice
    refine ⟨first,rfl,_,twice,?_,secondTag,line,review,here,count,(looks review here).2.2⟩
    simp [firstTag,ViewerCommand.opensFile]

end Viewer

end TagOverlay
