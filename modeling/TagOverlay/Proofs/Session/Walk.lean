import TagOverlay.Buffer.LineList
import TagOverlay.Proofs.Session.Refusals
import TagOverlay.Session.Review

/-! Walks through the marked tags on a surface that may refuse any update. The tags drawn as current are
the current one and those that were left behind: the surface refused to draw them as done. -/
namespace TagOverlay

namespace Session

variable {β σ : Type} [RenderSurface σ] [DrawsOrRefuses σ]

def styleAt? (session : Session β σ) (index : Nat) : Option Style :=
  session.marked[index]?.bind fun tag => ((drawn session.surface).get? tag.id).map (·.style)

theorem styleAt?_eq (session : Session β σ) (index : Nat) :
    session.styleAt? index =
      (session.inMemory.marked.map session.inMemory.overlay.row)[index]?.bind (·.2) := by
  rw [List.getElem?_map,Option.bind_map]
  rfl

variable {session : Session β σ}

theorem lt_of_styleAt? {index : Nat} {style : Style} (drawn : session.styleAt? index = some style) :
    index < session.marked.length := by
  obtain ⟨tag,here,_⟩ := Option.bind_eq_some_iff.mp drawn
  exact (List.getElem?_eq_some_iff.mp here).1

/-- A tag is drawn in the new look, unless the surface refuses or there is no tag; the others stay. -/
theorem setStatus_cases (marked : session.inMemory.WellMarked) (index : Nat) (status : ReviewStatus) :
    (∃ error after, session.setStatus index status = (.error error,after) ∧
      after.inMemory.WellMarked ∧ (∀ i, after.styleAt? i = session.styleAt? i) ∧
      (index < session.marked.length → ∃ reason, error = .surface (.rejected reason))) ∨
    ∃ id after, session.setStatus index status = (.ok id,after) ∧ after.inMemory.WellMarked ∧
      ∀ i, after.styleAt? i = if i = index then some status.style else session.styleAt? i := by
  have kept := (setStatus_agrees session index status).holds marked (wellMarked_setStatus marked ..)
  cases here : session.marked[index]? with
  | none =>
    refine .inl ⟨_,session,setStatus_of_none here status,marked,fun _ => rfl,?_⟩
    intro inside
    rw [List.getElem?_eq_getElem inside] at here
    contradiction
  | some tag =>
    have bound := (List.getElem?_eq_some_iff.mp here).1
    rcases setStatus_agrees session index status with
      ⟨reason,after,refused,same⟩ | ⟨answer,after,equal,expected⟩
    · rw [refused] at kept
      refine .inl ⟨_,after,refused,kept,?_,fun _ => ⟨reason,rfl⟩⟩
      intro i
      rw [styleAt?_eq,same,← styleAt?_eq]
    · rw [equal] at kept
      obtain ⟨id,drawnAfter,_,_,recolored,_,_,rows⟩ := setStatus_memory marked here status
      rw [recolored] at expected
      obtain ⟨answered,afterwards⟩ := Prod.mk.inj expected
      refine .inr ⟨id,after,by rw [equal,answered],kept,?_⟩
      intro i
      rw [styleAt?_eq,styleAt?_eq,← afterwards]
      dsimp only
      rw [rows]
      by_cases same : i = index
      · rw [if_pos same,same,List.getElem?_set_self (by rw [List.length_map]; exact bound)]
        rfl
      · rw [if_neg same,List.getElem?_set_ne (Ne.symm same)]

theorem styleAt?_mark [TextBuffer β] (marked : session.inMemory.WellMarked) {name : Text} {count : Nat}
    (succeeds : (session.mark name).1 = .ok count) (index : Nat) :
    (session.mark name).2.styleAt? index ≠ some .current := by
  obtain ⟨spans,rows⟩ := rows_mark marked succeeds
  rw [styleAt?_eq,rows,List.getElem?_map]
  cases spans[index]? with
  | none => simp
  | some span => simp [Style.fresh,Style.current]

end Session

/-- A review with the tags that it has left behind. -/
structure Walk (β σ : Type) where
  review : Review β σ
  left : List Nat

namespace Walk

variable {β σ : Type} [RenderSurface σ]

def start (session : Session β σ) : Walk β σ :=
  ⟨.start session,[]⟩

/-- The current tag is left behind if it cannot be drawn as done, and a tag that becomes the current
one again no longer is. -/
def advance (walk : Walk β σ) (next : Nat) : Walk β σ where
  review := (walk.review.advance next).2
  left :=
    match walk.review.finish.1,(walk.review.advance next).1 with
    | .error _,_ => walk.review.current.toList ++ walk.left
    | .ok (),.error _ => walk.left
    | .ok (),.ok () => walk.left.filter (· ≠ next)

def along (walk : Walk β σ) (targets : List Nat) : Walk β σ :=
  targets.foldl advance walk

variable [DrawsOrRefuses σ] {walk : Walk β σ}

structure Tells (walk : Walk β σ) : Prop where
  marked : walk.review.session.inMemory.WellMarked
  drawn : ∀ i, walk.review.session.styleAt? i = some .current ↔
    walk.review.current = some i ∨ i ∈ walk.left
  apart : ∀ i, walk.review.current = some i → i ∉ walk.left

theorem finish_cases (tells : walk.Tells) :
    (∃ reason after, walk.review.finish = (.error (.surface (.rejected reason)),after) ∧
      after.inMemory.WellMarked ∧
      ∀ i, after.styleAt? i = some .current ↔ walk.review.current = some i ∨ i ∈ walk.left) ∨
    ∃ after, walk.review.finish = (.ok (),after) ∧ after.inMemory.WellMarked ∧
      ∀ i, after.styleAt? i = some .current ↔ i ∈ walk.left := by
  unfold Review.finish
  cases here : walk.review.current with
  | none =>
    refine .inr ⟨walk.review.session,rfl,tells.marked,?_⟩
    intro i
    rw [tells.drawn,here]
    exact or_iff_right (Option.some_ne_none i).symm
  | some index =>
    have bound := Session.lt_of_styleAt? ((tells.drawn index).mpr (.inl here))
    rcases Session.setStatus_cases tells.marked index .done with
      ⟨error,after,refused,marked,same,rejected⟩ | ⟨id,after,recolored,marked,styles⟩
    · obtain ⟨reason,rfl⟩ := rejected bound
      dsimp only
      rw [refused]
      refine .inl ⟨reason,after,rfl,marked,?_⟩
      intro i
      rw [same,tells.drawn,here]
    · dsimp only
      rw [recolored]
      refine .inr ⟨after,rfl,marked,?_⟩
      intro i
      rw [styles]
      split
      next equal =>
        rw [equal]
        have notCurrent : some ReviewStatus.done.style ≠ some Style.current := by decide
        exact iff_of_false notCurrent (tells.apart index here)
      next different =>
        rw [tells.drawn,here]
        exact or_iff_right fun same => different (Option.some_inj.mp same).symm

theorem tells_stopped {session : Session β σ} {left : List Nat}
    (marked : session.inMemory.WellMarked)
    (drawn : ∀ i, session.styleAt? i = some .current ↔ i ∈ left) : (Walk.mk ⟨session,none⟩ left).Tells where
  marked := marked
  drawn i := (drawn i).trans (or_iff_right nofun).symm
  apart _ := nofun

theorem tells_moved {before after : Session β σ} {left : List Nat} {next : Nat}
    (marked : after.inMemory.WellMarked)
    (drawn : ∀ i, before.styleAt? i = some .current ↔ i ∈ left)
    (styles : ∀ i, after.styleAt? i = if i = next then some .current else before.styleAt? i) :
    (Walk.mk ⟨after,some next⟩ (left.filter (· ≠ next))).Tells := by
  refine ⟨marked,?_,?_⟩
  · intro i
    change after.styleAt? i = _ ↔ some next = some i ∨ _
    rw [styles,List.mem_filter,decide_eq_true_eq,Option.some_inj]
    split
    next same => exact iff_of_true rfl (.inl same.symm)
    next different => rw [drawn,or_iff_right (Ne.symm different),and_iff_left different]
  · intro i same member
    obtain rfl : next = i := Option.some_inj.mp same
    exact of_decide_eq_true (List.mem_filter.mp member).2 rfl

theorem tells_advance (tells : walk.Tells) (next : Nat) : (walk.advance next).Tells := by
  rcases finish_cases tells with ⟨reason,after,refused,marked,drawn⟩ | ⟨after,finished,marked,drawn⟩
  · have stopped : walk.review.advance next = (.error (.surface (.rejected reason)),⟨after,none⟩) := by
      rw [Review.advance,refused]
    have result : walk.advance next = ⟨⟨after,none⟩,walk.review.current.toList ++ walk.left⟩ := by
      rw [advance,refused,stopped]
    rw [result]
    apply tells_stopped marked
    intro i
    rw [drawn,List.mem_append,Option.mem_toList]
  · rcases Session.setStatus_cases marked next .current with
      ⟨error,last,missed,lastMarked,same,_⟩ | ⟨id,last,recolored,lastMarked,styles⟩
    · have stopped : walk.review.advance next = (.error error,⟨last,none⟩) := by
        simp only [Review.advance,finished,missed]
      have result : walk.advance next = ⟨⟨last,none⟩,walk.left⟩ := by
        rw [advance,finished,stopped]
      rw [result]
      apply tells_stopped lastMarked
      intro i
      rw [same,drawn]
    · have moved : walk.review.advance next = (.ok (),⟨last,some next⟩) := by
        simp only [Review.advance,finished,recolored]
      have result : walk.advance next = ⟨⟨last,some next⟩,walk.left.filter (· ≠ next)⟩ := by
        rw [advance,finished,moved]
      rw [result]
      exact tells_moved lastMarked drawn styles

theorem tells_along (tells : walk.Tells) (targets : List Nat) : (walk.along targets).Tells := by
  induction targets generalizing walk with
  | nil => exact tells
  | cons next targets ih => exact ih (tells_advance tells next)

omit [DrawsOrRefuses σ] in
theorem left_along (nothing : walk.left = []) (targets : List Nat)
    (finishes : ∀ front next back, targets = front ++ next :: back →
      (walk.along front).review.finish.1 = .ok ()) : (walk.along targets).left = [] := by
  induction targets generalizing walk with
  | nil => exact nothing
  | cons next targets ih =>
    apply ih
    · have finished : walk.review.finish.1 = .ok () := finishes [] next targets rfl
      rw [advance,finished,nothing]
      cases (walk.review.advance next).1 with
      | error error => rfl
      | ok _ => rfl
    · intro front later back split
      exact finishes (next :: front) later back (congrArg (next :: ·) split)

theorem tells_start {session : Session β σ} (marked : session.inMemory.WellMarked)
    (fresh : ∀ i, session.styleAt? i ≠ some .current) : (start session).Tells :=
  tells_stopped marked fun i => iff_of_false (fresh i) List.not_mem_nil

omit [DrawsOrRefuses σ] in
theorem current_of_error {review : Review β σ} {next : Nat} {error : SessionError}
    (failed : (review.advance next).1 = .error error) : (review.advance next).2.current = none := by
  revert failed
  unfold Review.advance
  split
  next => exact fun _ => rfl
  next =>
    split
    next => exact fun _ => rfl
    next => exact nofun

theorem drawn_current_iff_current_or_left [TextBuffer β] (surface : σ) (sound : (drawn surface).Sound)
    (buffer : β) (limit : Nat) (commands : List SessionCommand) (name : Text) (count : Nat)
    (succeeds : ((((Session.new buffer surface).withLimit limit).run commands).2.mark name).1 =
      .ok count) (targets : List Nat) :
    let first := start ((((Session.new buffer surface).withLimit limit).run commands).2.mark name).2
    let review := (first.along targets).review
    (∀ i, review.session.styleAt? i = some .current ↔
      review.current = some i ∨ i ∈ (first.along targets).left) ∧
    ((∀ front next back, targets = front ++ next :: back →
        (first.along front).review.finish.1 = .ok ()) →
      ∀ i, review.session.styleAt? i = some .current ↔ review.current = some i) ∧
    (∀ error, review.finish.1 = .error error → ∃ reason, error = .surface (.rejected reason)) ∧
    ∀ next error, (review.advance next).1 = .error error →
      (review.advance next).2.current = none := by
  intro first review
  have unmarked : ((Session.new buffer surface).withLimit limit).inMemory.WellMarked :=
    Marks.nothing sound rfl
  have marked := Session.wellMarked_run unmarked commands
  have tells : (first.along targets).Tells :=
    tells_along (tells_start (Session.wellMarked_mark marked name)
      (Session.styleAt?_mark marked succeeds)) targets
  refine ⟨tells.drawn,?_,?_,fun _ _ => current_of_error⟩
  · intro finishes i
    have nothing : (first.along targets).left = [] := left_along rfl targets finishes
    rw [tells.drawn,nothing]
    exact or_iff_left List.not_mem_nil
  · intro error failed
    rcases finish_cases tells with ⟨reason,after,refused,_⟩ | ⟨after,finished,_⟩
    · rw [refused] at failed
      exact ⟨reason,(Except.error.inj failed).symm⟩
    · rw [finished] at failed
      contradiction

/-- The second tag becomes the current one although the first one could not be drawn as done. -/
theorem first_tag_left_second_current :
    let surface : MoodySurface := ⟨.empty,[none,none,some "busy"]⟩
    let buffer := LineList.ofList [['<','a','>','<','a','>']]
    let marking := (((Session.new buffer surface).withLimit 9).run [.clear]).2.mark ['a']
    (drawn surface).Sound ∧ marking.1 = .ok 2 ∧
      ∀ i, ((start marking.2).along [0,1,1]).review.session.styleAt? i = some .current ↔
        some 1 = some i ∨ i ∈ [0] := by
  refine ⟨MemorySurface.sound_of_attached_nil rfl,by decide,?_⟩
  have tells := drawn_current_iff_current_or_left (MoodySurface.mk .empty [none,none,some "busy"])
    (MemorySurface.sound_of_attached_nil rfl) (LineList.ofList [['<','a','>','<','a','>']]) 9 [.clear]
    ['a'] 2 (by decide) [0,1,1]
  exact tells.1

/-- After a refusal no tag is current, but the one that was is still drawn so. -/
theorem drawn_current_without_being_current :
    let surface : MoodySurface := ⟨.empty,[none,none,some "busy"]⟩
    let marking := (Session.new (LineList.ofList [['<','a','>','<','a','>']]) surface).mark ['a']
    let failing := ((Review.start marking.2).advance 0).2.advance 1
    let moving := failing.2.advance 1
    marking.1 = .ok 2 ∧ failing.1 = .error (.surface (.rejected "busy")) ∧
      failing.2.current = none ∧ failing.2.session.styleAt? 0 = some .current ∧
      ¬ (failing.2.session.styleAt? 0 = some .current ↔ failing.2.current = some 0) ∧
      moving.1 = .ok () ∧ moving.2.current = some 1 ∧
      moving.2.session.styleAt? 0 = some .current ∧ moving.2.session.styleAt? 1 = some .current := by
  decide

end Walk

end TagOverlay
