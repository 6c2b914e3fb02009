import Mathlib.Data.List.Forall2
import TagOverlay.Proofs.Highlight.Sweep

/-! What a drawn line is made of. Whatever the decorations are, each cut is one of the line, so that drawing
cannot fail; the colored stretches are segments that are apart, and a segment is left out only for one that
was drawn before and reaches into it. -/
namespace TagOverlay.Highlight

/-- Draws the text from byte `cursor` on, but fails where a cut would go backward, reach outside the text or
split a character. -/
def draw? (text : Text) : (cursor : Nat) → List Segment → Option (List StyledText)
  | cursor,[] =>
      if cursor < text.width then (text.slice? cursor text.width).map fun part => [plain part] else some []
  | cursor,segment :: segments =>
      if segment.start < cursor then draw? text cursor segments
      else do
        let before ←
          if cursor < segment.start then (text.slice? cursor segment.start).map fun part => [plain part]
          else some []
        let part ← text.slice? segment.start segment.stop
        let after ← draw? text segment.stop segments
        some (before ++ colored part segment.style :: after)

/-- The segments that are not drawn, where the line has been drawn up to `cursor`. -/
def hidden : (cursor : Nat) → List Segment → List Segment
  | _,[] => []
  | cursor,segment :: segments =>
      if segment.start < cursor then segment :: hidden cursor segments
      else hidden segment.stop segments

/-- The stretches with a background, each with the byte that it begins at. -/
def coloredFrom : (offset : Nat) → List StyledText → List (Nat × StyledText)
  | _,[] => []
  | offset,stretch :: stretches =>
      if stretch.background.isSome then
        (offset,stretch) :: coloredFrom (offset + stretch.text.width) stretches
      else coloredFrom (offset + stretch.text.width) stretches

/-- The stretch that begins at this byte is the segment's part of the text, in the segment's style. -/
structure Draws (text : Text) (segment : Segment) (placed : Nat × StyledText) : Prop where
  start : placed.1 = segment.start
  part : text.slice? segment.start segment.stop = some placed.2.text
  style : placed.2 = colored placed.2.text segment.style

def Precedes (first second : Segment) : Prop :=
  first.start < second.start ∨ first.start = second.start ∧ first.stop ≤ second.stop

def Overlaps (first second : Segment) : Prop :=
  first.start < second.stop ∧ second.start < first.stop

section Sweep

variable {line : Ruler} {segments : List Segment} {cursor : Nat}

theorem draw?_eq (fits : ∀ segment ∈ segments, Fits line segment) (boundary : line.text.isBoundary cursor) :
    draw? line.text cursor segments = some (draw line cursor segments) := by
  induction segments generalizing cursor with
  | nil =>
    rw [draw?,draw,line.width_eq]
    split
    next before =>
      have ends := isBoundary_width line
      rw [line.width_eq] at ends
      rw [slice?_cut boundary ends (Nat.le_of_lt before)]
      rfl
    next => rfl
  | cons segment segments ih =>
    obtain ⟨here,later⟩ := List.forall_mem_cons.mp fits
    rw [draw?,draw]
    split
    next => exact ih later boundary
    next =>
      rw [slice?_cut here.start here.stop (Nat.le_of_lt here.nonempty),ih later here.stop]
      dsimp only
      split
      next gap =>
        rw [slice?_cut boundary here.start (Nat.le_of_lt gap)]
        rfl
      next => rfl

theorem coloredFrom_plain (offset : Nat) (part : Text) (stretches : List StyledText) :
    coloredFrom offset (plain part :: stretches) = coloredFrom (offset + part.width) stretches :=
  rfl

theorem coloredFrom_colored (offset : Nat) (part : Text) (style : Style) (stretches : List StyledText) :
    coloredFrom offset (colored part style :: stretches) =
      (offset,colored part style) :: coloredFrom (offset + part.width) stretches :=
  rfl

theorem coloredFrom_draw (fits : ∀ segment ∈ segments, Fits line segment)
    (boundary : line.text.isBoundary cursor) :
    List.Forall₂ (Draws line.text) (drawn cursor segments) (coloredFrom cursor (draw line cursor segments)) := by
  induction segments generalizing cursor with
  | nil =>
    rw [draw]
    split
    next => exact .nil
    next => exact .nil
  | cons segment segments ih =>
    obtain ⟨here,later⟩ := List.forall_mem_cons.mp fits
    rw [drawn,draw]
    split
    next => exact ih later boundary
    next further =>
      have ordered := Nat.le_of_lt here.nonempty
      have reached : segment.start + (cut line segment.start segment.stop).width = segment.stop := by
        rw [width_cut here.start here.stop ordered]
        omega
      have onward : List.Forall₂ (Draws line.text) (segment :: drawn segment.stop segments)
          (coloredFrom segment.start (colored (cut line segment.start segment.stop) segment.style ::
            draw line segment.stop segments)) := by
        rw [coloredFrom_colored,reached]
        exact .cons ⟨rfl,slice?_cut here.start here.stop ordered,rfl⟩ (ih later here.stop)
      dsimp only
      split
      next gap =>
        rw [List.singleton_append,coloredFrom_plain,width_cut boundary here.start (Nat.le_of_lt gap),
          Nat.add_sub_cancel' (Nat.le_of_lt gap)]
        exact onward
      next touching =>
        obtain rfl : cursor = segment.start := by omega
        exact onward

theorem drawn_sublist (cursor : Nat) (segments : List Segment) : (drawn cursor segments).Sublist segments := by
  induction segments generalizing cursor with
  | nil => exact .slnil
  | cons segment segments ih =>
    rw [drawn]
    split
    next => exact (ih cursor).cons segment
    next => exact (ih segment.stop).cons_cons segment

theorem drawn_append_hidden_perm (cursor : Nat) (segments : List Segment) :
    (drawn cursor segments ++ hidden cursor segments).Perm segments := by
  induction segments generalizing cursor with
  | nil => exact .nil
  | cons segment segments ih =>
    rw [drawn,hidden]
    split
    next => exact List.perm_middle.trans ((ih cursor).cons segment)
    next => exact (ih segment.stop).cons segment

theorem pairwise_drawn (fits : ∀ segment ∈ segments, Fits line segment) :
    (drawn cursor segments).Pairwise fun first second => first.stop ≤ second.start := by
  induction segments generalizing cursor with
  | nil => exact .nil
  | cons segment segments ih =>
    obtain ⟨_,later⟩ := List.forall_mem_cons.mp fits
    rw [drawn]
    split
    next => exact ih later
    next => exact .cons (fun _ member => cursor_le_of_mem_drawn later member) (ih later)

/-- A segment that is left out begins before the cursor or within one that is drawn from there on. -/
theorem overlaps_of_mem_hidden (fits : ∀ segment ∈ segments, Fits line segment)
    (ordered : segments.Pairwise Precedes) {segment : Segment} (member : segment ∈ hidden cursor segments) :
    segment.start < cursor ∨ ∃ first ∈ drawn cursor segments, Precedes first segment ∧ Overlaps first segment := by
  induction segments generalizing cursor with
  | nil => contradiction
  | cons head segments ih =>
    obtain ⟨_,later⟩ := List.forall_mem_cons.mp fits
    obtain ⟨first,others⟩ := List.pairwise_cons.mp ordered
    rw [hidden] at member
    rw [drawn]
    split at member
    next behind =>
      rw [if_pos behind]
      rcases List.mem_cons.mp member with rfl | member
      · exact .inl behind
      · exact ih later others member
    next further =>
      rw [if_neg further]
      right
      rcases ih later others member with inside | ⟨other,isDrawn,justified⟩
      -- It is the segment that has just been drawn in which the other one begins.
      · have isLater : segment ∈ segments :=
          (drawn_append_hidden_perm head.stop segments).subset (List.mem_append_right _ member)
        have precedes := first segment isLater
        refine ⟨head,List.mem_cons_self,precedes,?_,inside⟩
        have nonempty := (later segment isLater).nonempty
        rcases precedes with less | ⟨same,_⟩ <;> omega
      · exact ⟨other,List.mem_cons_of_mem _ isDrawn,justified⟩

end Sweep

theorem pairwise_segmentsOn (number : Nat) (line : Ruler) (decorations : List Decoration) :
    (segmentsOn number line decorations).Pairwise Precedes := by
  have sorted : (segmentsOn number line decorations).Pairwise fun left right =>
      decide (left.start < right.start ∨ (left.start = right.start ∧ left.stop ≤ right.stop)) := by
    apply List.pairwise_mergeSort
    · intro left middle right
      simp only [decide_eq_true_eq]
      omega
    · intro left right
      simp only [Bool.or_eq_true,decide_eq_true_eq]
      omega
  exact sorted.imp of_decide_eq_true

theorem line_is_cut_without_loss (number : Nat) (text : Text) (decorations : List Decoration) :
    let parts := segments number text decorations
    let stretches := Highlight.line number text decorations
    draw? text 0 parts = some stretches ∧ stretches.flatMap (·.text) = text ∧
      ∃ shown skipped, (shown ++ skipped).Perm parts ∧ shown.Sublist parts ∧
        List.Forall₂ (Draws text) shown (coloredFrom 0 stretches) ∧
        shown.Pairwise (fun first second => first.stop ≤ second.start) ∧
        ∀ segment ∈ skipped, ∃ first ∈ shown, Precedes first segment ∧ Overlaps first segment := by
  intro parts stretches
  have fits : ∀ segment ∈ parts, Fits (.ofText text) segment := fits_of_mem_segmentsOn number _ decorations
  have start := isBoundary_zero (.ofText text)
  refine ⟨draw?_eq fits start,text_line number text decorations,drawn 0 parts,hidden 0 parts,
    drawn_append_hidden_perm 0 parts,drawn_sublist 0 parts,coloredFrom_draw fits start,
    pairwise_drawn fits,fun segment member => ?_⟩
  exact (overlaps_of_mem_hidden fits (pairwise_segmentsOn ..) member).resolve_left (Nat.not_lt_zero _)

end TagOverlay.Highlight
