import TagOverlay.Proofs.Buffer.Lines
import TagOverlay.Proofs.Highlight.Sweep
import TagOverlay.Proofs.Session.Element
import TagOverlay.Proofs.Viewer.Tour

/-! The panel of the viewer shows lines of the open document, as many as fit around the line in the middle. That
line is one of the document's in every viewer that is reached, since it is the first of a tag's lines or the
first of all, so that the panel never misses it. -/
namespace TagOverlay
open TextBuffer (line? lineCount)

namespace Session

variable {β σ : Type} [TextBuffer β] [RenderSurface σ] {buffer : β} {surface : σ}

theorem Reachable.start_inside {session : Session β σ} (reachable : Reachable buffer surface session)
    {index : Nat} {tag : MarkedTag} (here : session.marked[index]? = some tag) :
    0 < tag.span.start.line ∧ tag.span.start.line ≤ lineCount buffer := by
  obtain ⟨_,_,_,_,_,reads⟩ := reachable.reads_tag here
  obtain ⟨_,_,cut⟩ := reads.cuts_start
  exact TextBuffer.le_lineCount cut.line

end Session

namespace Review

variable {β σ : Type} [TextBuffer β] [RenderSurface σ] {buffer : β} {surface : σ} {review : Review β σ}

theorem reachable_finish (reachable : Session.Reachable buffer surface review.session) :
    Session.Reachable buffer surface review.finish.2 := by
  unfold finish
  cases review.current with
  | none => exact reachable
  | some index =>
    have after : Session.Reachable buffer surface (review.session.setStatus index .done).2 :=
      reachable.perform (.setStatus index .done)
    dsimp only
    generalize review.session.setStatus index .done = result at after ⊢
    obtain ⟨error | _,_⟩ := result <;> exact after

theorem reachable_advance (reachable : Session.Reachable buffer surface review.session) (next : Nat) :
    Session.Reachable buffer surface (review.advance next).2.session := by
  have finished := reachable_finish reachable
  unfold advance
  generalize review.finish = result at finished ⊢
  obtain ⟨error | _,session⟩ := result
  · exact finished
  · have after : Session.Reachable buffer surface (session.setStatus next .current).2 :=
      finished.perform (.setStatus next .current)
    dsimp only
    generalize session.setStatus next .current = result at after ⊢
    obtain ⟨error | _,_⟩ := result <;> exact after

end Review

namespace Viewer

variable {viewer : Viewer} {review : Review Document MemorySurface}

/-- The session of the open document is one that commands lead to. -/
def Grounded (viewer : Viewer) : Prop :=
  ∀ review ∈ viewer.review, ∃ document, Session.Reachable document MemorySurface.empty review.session

theorem grounded_of_closed (closed : viewer.review = none) : viewer.Grounded := by
  intro review here
  rw [closed] at here
  exact absurd here (Option.not_mem_none review)

theorem grounded_openSelected (fs : FileSystem) (viewer : Viewer) : (viewer.openSelected fs).Grounded := by
  unfold openSelected
  dsimp only [close]
  split
  next => exact grounded_of_closed rfl
  next =>
    split
    next => exact grounded_of_closed rfl
    next relative _ =>
      cases Documents.load fs viewer.folder relative with
      | error error => exact grounded_of_closed rfl
      | ok loaded =>
        intro review here
        obtain rfl := Option.some_inj.mp here
        exact ⟨loaded.document,(Session.Reachable.new.withLimit viewer.limit).perform (.mark viewer.tagName)⟩

theorem review_showElement (viewer : Viewer) : viewer.showElement.review = viewer.review := by
  unfold showElement
  split <;> rfl

theorem review_showPayload (viewer : Viewer) (intent : TagIntent) :
    (viewer.showPayload intent).review = viewer.review := by
  unfold showPayload
  split <;> rfl

theorem review_draw (viewer : Viewer) (width height : Nat) :
    (viewer.draw width height).2.review = viewer.review := by
  change (viewer.scrollList _).review = _
  unfold scrollList
  split
  next => rfl
  next => split <;> rfl

namespace Grounded

theorem congr (grounded : viewer.Grounded) {next : Viewer} (same : next.review = viewer.review) :
    next.Grounded := by
  intro review here
  rw [same] at here
  exact grounded review here

theorem goTo (grounded : viewer.Grounded) (here : viewer.review = some review) (next : Nat) :
    (viewer.goTo review next).Grounded := by
  obtain ⟨document,reachable⟩ := grounded review here
  have moved := review.reachable_advance reachable next
  unfold Viewer.goTo
  generalize review.advance next = result at moved ⊢
  obtain ⟨error | _,after⟩ := result
  · intro other same
    obtain rfl := Option.some_inj.mp same
    exact ⟨document,moved⟩
  · intro other same
    obtain rfl := Option.some_inj.mp same
    exact ⟨document,moved⟩

theorem stepTag (grounded : viewer.Grounded) (forward : Bool) : (viewer.stepTag forward).Grounded := by
  rcases stepTag_cases viewer forward with ⟨_,same⟩ | ⟨review,next,here,_,⟨_,same⟩ | moved⟩
  · rw [same]
    exact grounded
  · rw [same]
    exact grounded
  · rw [moved]
    exact grounded.goTo here next

theorem run (grounded : viewer.Grounded) (inside : ∀ index ∈ viewer.selected, index < viewer.files.length)
    {fs : FileSystem} {command : ViewerCommand} {next : Viewer} (runs : command.run fs viewer = some next) :
    next.Grounded := by
  have goes (other : Viewer) (cases : viewer.files = [] ∧ other = viewer ∨
      ∃ index < viewer.files.length, other = viewer.select fs index) : other.Grounded := by
    rcases cases with ⟨_,rfl⟩ | ⟨index,_,rfl⟩
    · exact grounded
    · exact grounded_openSelected fs _
  cases command with
  | quit => contradiction
  | nextFile =>
    obtain rfl := Option.some_inj.mp runs
    exact goes _ (nextFile_cases fs viewer)
  | previousFile =>
    obtain rfl := Option.some_inj.mp runs
    exact goes _ (previousFile_cases fs inside)
  | nextTag =>
    obtain rfl := Option.some_inj.mp runs
    exact grounded.stepTag true
  | previousTag =>
    obtain rfl := Option.some_inj.mp runs
    exact grounded.stepTag false
  | showElement =>
    obtain rfl := Option.some_inj.mp runs
    exact grounded.congr (review_showElement viewer)
  | showPayload intent =>
    obtain rfl := Option.some_inj.mp runs
    exact grounded.congr (review_showPayload viewer intent)

end Grounded

theorem grounded_new {fs : FileSystem} {folder tagName : Text} {limit : Nat}
    (opened : Viewer.new fs folder tagName limit = .ok viewer) : viewer.Grounded := by
  obtain ⟨files,_,rfl⟩ := exists_of_new opened
  split
  next => exact grounded_of_closed rfl
  next => exact grounded_openSelected fs _

variable {folder tagName : Text} {limit : Nat} {seen : Finset Nat}

theorem Tour.grounded (tour : Tour folder tagName limit viewer seen) : viewer.Grounded := by
  induction tour with
  | start opened => exact grounded_new opened
  | go earlier runs ih => exact ih.run earlier.consistent.inside runs
  | draw width height _ ih => exact ih.congr (review_draw _ width height)

/-- The line in the middle is a line of the document unless that has none. -/
theorem Tour.focus_inside (tour : Tour folder tagName limit viewer seen) (here : viewer.review = some review) :
    0 < viewer.focusLine ∧
      (0 < lineCount review.session.buffer → viewer.focusLine ≤ lineCount review.session.buffer) := by
  obtain ⟨document,reachable⟩ := tour.grounded review here
  have focus : viewer.focusLine =
      (review.session.marked[review.current.getD 0]?).elim 1 (·.span.start.line) := by
    rw [tour.consistent.focus,subject?,here]
    rfl
  cases found : review.session.marked[review.current.getD 0]? with
  | none =>
    rw [found] at focus
    exact ⟨by rw [focus]; decide,fun filled => by rw [focus]; exact filled⟩
  | some tag =>
    rw [found] at focus
    obtain ⟨positive,inside⟩ := reachable.start_inside found
    rw [← reachable.marksStartTags.buffer_eq] at inside
    rw [focus]
    exact ⟨positive,fun _ => inside⟩

/-- The rows are the lines of the document from number `first` on, one after the other with their own texts. -/
def Frames (document : Document) (first : Nat) (rows : List (List StyledText)) : Prop :=
  (rows.map lineText).map some = (List.range' first rows.length).map (line? document)

theorem frames_visibleLines (here : viewer.review = some review) (height : Nat) :
    let top := max (viewer.focusLine - height / 2) 1
    (viewer.visibleLines height).length = min (top + height) (lineCount review.session.buffer + 1) - top ∧
      Frames review.session.buffer top (viewer.visibleLines height) := by
  intro top
  let numbers := List.range' top (min (top + height) (lineCount review.session.buffer + 1) - top)
  have shown : ((viewer.visibleLines height).map lineText).map some =
      numbers.map (line? review.session.buffer) := by
    have there : ∀ number ∈ numbers, (line? review.session.buffer number).isSome := by
      intro number member
      have bounds := List.mem_range'_1.mp member
      exact TextBuffer.isSome_line?_iff.mpr (by omega)
    have texts : (viewer.visibleLines height).map lineText =
        numbers.filterMap (line? review.session.buffer) := by
      unfold visibleLines
      rw [here]
      dsimp only
      rw [List.map_filterMap]
      congr 1
      funext number
      rw [Option.map_map]
      cases line? review.session.buffer number with
      | none => rfl
      | some text => exact congrArg some (Highlight.text_line number text _)
    rw [texts,List.map_filterMap_some_eq_filter_map_isSome]
    exact List.filter_eq_self.mpr (by simpa using there)
  have length : (viewer.visibleLines height).length = numbers.length := by
    simpa using congrArg List.length shown
  rw [List.length_range'] at length
  rw [Frames,length]
  exact ⟨rfl,shown⟩

theorem Tour.shows_focus (tour : Tour folder tagName limit viewer seen) (here : viewer.review = some review)
    {height : Nat} (positive : 0 < height) :
    (viewer.visibleLines height).length ≤ height ∧
    ∃ first, Frames review.session.buffer first (viewer.visibleLines height) ∧
      (0 < lineCount review.session.buffer → first ≤ viewer.focusLine ∧
        viewer.focusLine < first + (viewer.visibleLines height).length) := by
  obtain ⟨length,frames⟩ := frames_visibleLines here height
  obtain ⟨counted,inside⟩ := tour.focus_inside here
  refine ⟨by omega,_,frames,fun filled => ?_⟩
  have last := inside filled
  omega

theorem Consistent.current_stepTag (consistent : viewer.Consistent seen) (here : viewer.review = some review)
    (tagged : review.session.marked ≠ []) (forward : Bool) :
    ∃ index, (viewer.stepTag forward).currentTag = some index := by
  rcases stepTag_cases viewer forward with ⟨nothing,_⟩ | ⟨other,next,same,inside,⟨current,stays⟩ | moved⟩
  · exact absurd (nothing review here) tagged
  · refine ⟨next,?_⟩
    rw [stays,currentTag,same]
    exact current
  · rw [moved]
    exact ⟨next,(consistent.goTo same (inside (consistent.follows other same).inside)).2⟩

theorem Tour.stepTag (tour : Tour folder tagName limit viewer seen) (forward : Bool) :
    ∃ further, Tour folder tagName limit (viewer.stepTag forward) further := by
  cases forward with
  | true => exact ⟨_,.go tour (show ViewerCommand.nextTag.run .empty viewer = some _ from rfl)⟩
  | false => exact ⟨_,.go tour (show ViewerCommand.previousTag.run .empty viewer = some _ from rfl)⟩

theorem Consistent.focus_of_current (consistent : viewer.Consistent seen) {index : Nat}
    (current : viewer.currentTag = some index) :
    ∃ review tag, viewer.review = some review ∧ review.current = some index ∧
      review.session.marked[index]? = some tag ∧ viewer.focusLine = tag.span.start.line := by
  obtain ⟨review,here,current⟩ := Option.bind_eq_some_iff.mp current
  have found := List.getElem?_eq_getElem ((consistent.follows review here).inside index current)
  refine ⟨review,_,here,current,found,?_⟩
  rw [consistent.focus,subject?,here,Option.bind_some,current,Option.getD_some,found]
  rfl

theorem focus_line_is_shown (tour : Tour folder tagName limit viewer seen) (here : viewer.review = some review)
    {height : Nat} (positive : 0 < height) :
    (viewer.visibleLines height).length ≤ height ∧
    (∃ first, Frames review.session.buffer first (viewer.visibleLines height) ∧
      (0 < lineCount review.session.buffer → first ≤ viewer.focusLine ∧
        viewer.focusLine < first + (viewer.visibleLines height).length)) ∧
    ∀ forward, review.session.marked ≠ [] →
      let stepped := viewer.stepTag forward
      ∃ after index tag first, stepped.review = some after ∧ after.current = some index ∧
        after.session.marked[index]? = some tag ∧
        Frames after.session.buffer first (stepped.visibleLines height) ∧
        first ≤ tag.span.start.line ∧ tag.span.start.line < first + (stepped.visibleLines height).length := by
  obtain ⟨fits,shown⟩ := tour.shows_focus here positive
  refine ⟨fits,shown,fun forward tagged => ?_⟩
  obtain ⟨index,current⟩ := tour.consistent.current_stepTag here tagged forward
  obtain ⟨further,onward⟩ := tour.stepTag forward
  obtain ⟨after,tag,opened,isCurrent,found,focus⟩ := onward.consistent.focus_of_current current
  obtain ⟨document,reachable⟩ := onward.grounded after opened
  have line := reachable.start_inside found
  rw [← reachable.marksStartTags.buffer_eq] at line
  obtain ⟨_,first,frames,inside⟩ := onward.shows_focus opened positive
  rw [focus] at inside
  exact ⟨after,index,tag,first,opened,isCurrent,found,frames,inside (by omega)⟩

/-- A panel of two rows over a document of three lines, an empty one in the middle. Going from the tag in the
first line to the one in the last moves the panel by a line. -/
theorem panel_follows_to_last_line :
    let fs : FileSystem := ⟨.folder [(['d'],.folder [(['x','.','x','m','l'],
      .file ⟨#[60,110,62,10,10,60,110,62]⟩)])],[]⟩
    ∃ opened, Viewer.new fs ['/','d'] ['n'] 9 = .ok opened ∧
      let viewer := opened.stepTag true
      (viewer.focusLine = 1 ∧ ∃ review ∈ viewer.review, review.session.marked ≠ [] ∧
        ∃ first, Frames review.session.buffer first (viewer.visibleLines 2) ∧ first ≤ 1 ∧
          1 < first + (viewer.visibleLines 2).length) ∧
      let stepped := viewer.stepTag true
      (stepped.visibleLines 2).length = 2 ∧ ∃ after ∈ stepped.review,
        after.session.marked.map (·.span.start.line) = [1,3] ∧
        ∃ first, Frames after.session.buffer first (stepped.visibleLines 2) ∧ first ≤ 3 ∧ 3 < first + 2 := by
  intro fs
  have shown : (Viewer.new fs ['/','d'] ['n'] 9).toOption.map (fun opened =>
      ((opened.stepTag true).focusLine,(opened.stepTag true).review.map (fun review =>
        (review.session.marked.length,lineCount review.session.buffer)))) =
      some (1,some (2,3)) := by decide +kernel
  have stepped : (Viewer.new fs ['/','d'] ['n'] 9).toOption.map (fun opened =>
      let stepped := (opened.stepTag true).stepTag true
      (stepped.currentTag,stepped.review.map (·.session.marked.map (·.span.start.line)),
        (stepped.visibleLines 2).length)) =
      some (some 1,some [1,3],2) := by decide +kernel
  cases new : Viewer.new fs ['/','d'] ['n'] 9 with
  | error error =>
    rw [new] at shown
    contradiction
  | ok opened =>
    rw [new] at shown stepped
    change some (_,_) = some (_,_) at shown
    change some (_,_,_) = some (_,_,_) at stepped
    simp only [Option.some_inj,Prod.mk.injEq,Option.map_eq_some_iff] at shown stepped
    obtain ⟨focus,review,here,count,lines⟩ := shown
    obtain ⟨current,⟨after,next,starts⟩,two⟩ := stepped
    have tagged : review.session.marked ≠ [] := List.ne_nil_of_length_pos (by omega)
    have tour : Tour ['/','d'] ['n'] 9 (opened.stepTag true) _ :=
      .go (.start new) (show ViewerCommand.nextTag.run fs opened = some _ from rfl)
    obtain ⟨_,⟨first,frames,inside⟩,steps⟩ := focus_line_is_shown tour here (show 0 < 2 by decide)
    obtain ⟨same,index,tag,top,opens,isCurrent,found,moved,onScreen⟩ := steps true tagged
    obtain rfl := Option.some_inj.mp (next.symm.trans opens)
    obtain rfl : 1 = index := by
      rw [currentTag,next] at current
      exact Option.some_inj.mp (current.symm.trans isCurrent)
    have line : tag.span.start.line = 3 := by
      have listed := congrArg (·[1]?) starts
      simpa [found] using listed
    rw [focus] at inside
    rw [line,two] at onScreen
    exact ⟨opened,rfl,⟨focus,review,here,tagged,first,frames,inside (by omega)⟩,two,after,next,starts,top,moved,
      onScreen⟩

end Viewer

end TagOverlay
