import TagOverlay.Highlight

/-! Drawing a line from left to right. The stretches of a drawn line make up the line, and the background
of a byte comes from the drawn segment that covers it. Where segments are apart or inside earlier ones,
that is the first segment that covers the byte, whether or not the sweep leaves out the others. -/
namespace TagOverlay.Highlight

/-- The background at a byte of stretches that follow one another. -/
def backgroundAt? : List StyledText → (byte : Nat) → Option Color
  | [],_ => none
  | stretch :: stretches,byte =>
      if byte < stretch.text.width then stretch.background
      else backgroundAt? stretches (byte - stretch.text.width)

/-- The segments that are drawn, where the line has been drawn up to `cursor`. -/
def drawn : (cursor : Nat) → List Segment → List Segment
  | _,[] => []
  | cursor,segment :: segments =>
      if segment.start < cursor then drawn cursor segments
      else segment :: drawn segment.stop segments

/-- The segment is a part of the line, between two of its characters. -/
structure Fits (line : Ruler) (segment : Segment) : Prop where
  nonempty : segment.start < segment.stop
  start : line.text.isBoundary segment.start
  stop : line.text.isBoundary segment.stop

def covers (byte : Nat) (segment : Segment) : Bool :=
  segment.start ≤ byte ∧ byte < segment.stop

theorem covers_iff {byte : Nat} {segment : Segment} :
    covers byte segment ↔ segment.start ≤ byte ∧ byte < segment.stop := by
  rw [covers,decide_eq_true_eq]

section Cut

variable {line : Ruler} {start stop : Nat} {rest : Text}

theorem le_width_of_isBoundary (boundary : line.text.isBoundary stop) : stop ≤ line.width := by
  obtain ⟨head,rest,whole,rfl⟩ := Text.isBoundary_iff.mp boundary
  rw [line.width_eq,whole,Text.width_append]
  omega

theorem exists_of_isBoundary (boundary : line.text.isBoundary stop) :
    ∃ rest, line.text.dropBytes? stop = some rest := by
  obtain ⟨head,rest,whole,filled⟩ := Text.isBoundary_iff.mp boundary
  exact ⟨rest,Text.dropBytes?_eq_some_iff.mpr ⟨head,whole,filled⟩⟩

theorem slice?_cut (first : line.text.isBoundary start) (second : line.text.isBoundary stop)
    (ordered : start ≤ stop) : line.text.slice? start stop = some (cut line start stop) := by
  obtain ⟨head,_,whole,rfl⟩ := Text.isBoundary_iff.mp first
  obtain ⟨longer,after,same,rfl⟩ := Text.isBoundary_iff.mp second
  obtain ⟨part,rfl,rfl⟩ := Text.prefix_of_width_le whole same ordered
  have sliced : line.text.slice? head.width (head ++ part).width = some part :=
    Text.slice?_eq_some_iff.mpr ⟨head,after,same,rfl,rfl⟩
  rw [cut,line.slice?_eq,sliced]
  rfl

theorem dropBytes?_cut (boundary : line.text.isBoundary start) (ordered : start ≤ stop)
    (dropped : line.text.dropBytes? stop = some rest) :
    line.text.dropBytes? start = some (cut line start stop ++ rest) ∧
      (cut line start stop).width = stop - start := by
  obtain ⟨head,whole,rfl⟩ := Text.dropBytes?_eq_some_iff.mp dropped
  have sliced := slice?_cut boundary (Text.isBoundary_iff.mpr ⟨head,rest,whole,rfl⟩) ordered
  obtain ⟨before,after,same,rfl,filled⟩ := Text.slice?_eq_some_iff.mp sliced
  have ends := Text.dropBytes?_eq_some_iff.mpr ⟨_,same,filled⟩
  obtain rfl := Option.some_inj.mp (dropped.symm.trans ends)
  refine ⟨Text.dropBytes?_eq_some_iff.mpr ⟨before,by simpa using same,rfl⟩,?_⟩
  rw [Text.width_append] at filled
  omega

theorem width_cut (first : line.text.isBoundary start) (second : line.text.isBoundary stop)
    (ordered : start ≤ stop) : (cut line start stop).width = stop - start := by
  obtain ⟨rest,dropped⟩ := exists_of_isBoundary second
  exact (dropBytes?_cut first ordered dropped).2

theorem isBoundary_width (line : Ruler) : line.text.isBoundary line.width :=
  Text.isBoundary_iff.mpr ⟨line.text,[],(List.append_nil _).symm,line.width_eq.symm⟩

theorem isBoundary_zero (line : Ruler) : line.text.isBoundary 0 :=
  Text.isBoundary_iff.mpr ⟨[],line.text,rfl,rfl⟩

end Cut

variable {line : Ruler} {segments : List Segment} {cursor byte : Nat}

/-- A line that has been drawn up to `cursor` is completed. -/
theorem text_draw (fits : ∀ segment ∈ segments, Fits line segment)
    (boundary : line.text.isBoundary cursor) :
    line.text.dropBytes? cursor = some ((draw line cursor segments).flatMap (·.text)) := by
  induction segments generalizing cursor with
  | nil =>
    have ends : line.text.dropBytes? line.width = some [] :=
      Text.dropBytes?_eq_some_iff.mpr ⟨line.text,(List.append_nil _).symm,line.width_eq.symm⟩
    have le := le_width_of_isBoundary boundary
    rw [draw]
    split
    next => simpa [plain] using (dropBytes?_cut boundary le ends).1
    next finished =>
      obtain rfl : cursor = line.width := by omega
      exact ends
  | cons segment segments ih =>
    obtain ⟨here,later⟩ := List.forall_mem_cons.mp fits
    rw [draw]
    split
    next => exact ih later boundary
    next further =>
      have rest := ih later here.stop
      have colored := (dropBytes?_cut here.start (Nat.le_of_lt here.nonempty) rest).1
      dsimp only
      split
      next => simpa [plain,Highlight.colored] using
        (dropBytes?_cut boundary (Nat.le_of_not_lt further) colored).1
      next touching =>
        obtain rfl : cursor = segment.start := by omega
        simpa [Highlight.colored] using colored

theorem cursor_le_of_mem_drawn (fits : ∀ segment ∈ segments, Fits line segment) {segment : Segment}
    (member : segment ∈ drawn cursor segments) : cursor ≤ segment.start := by
  induction segments generalizing cursor with
  | nil => contradiction
  | cons first segments ih =>
    obtain ⟨here,later⟩ := List.forall_mem_cons.mp fits
    rw [drawn] at member
    split at member
    next => exact ih later member
    next further =>
      rcases List.mem_cons.mp member with rfl | member
      · exact Nat.le_of_not_lt further
      · have := ih later member
        have := here.nonempty
        omega

theorem find?_drawn_of_lt (fits : ∀ segment ∈ segments, Fits line segment) (before : byte < cursor) :
    (drawn cursor segments).find? (covers byte) = none := by
  apply List.find?_eq_none.mpr
  intro segment member covered
  have := cursor_le_of_mem_drawn fits member
  have := (covers_iff.mp covered).1
  omega

theorem backgroundAt?_cons_of_le {stretch : StyledText} (stretches : List StyledText) {bytes : Nat}
    (width : stretch.text.width = bytes) (beyond : bytes ≤ byte) :
    backgroundAt? (stretch :: stretches) byte = backgroundAt? stretches (byte - bytes) := by
  rw [backgroundAt?,width,if_neg (Nat.not_lt.mpr beyond)]

theorem backgroundAt?_cons_of_lt {stretch : StyledText} (stretches : List StyledText) {bytes : Nat}
    (width : stretch.text.width = bytes) (within : byte < bytes) :
    backgroundAt? (stretch :: stretches) byte = stretch.background := by
  rw [backgroundAt?,width,if_pos within]

theorem backgroundAt?_draw (fits : ∀ segment ∈ segments, Fits line segment)
    (boundary : line.text.isBoundary cursor) (le : cursor ≤ byte) (inside : byte < line.width) :
    backgroundAt? (draw line cursor segments) (byte - cursor) =
      ((drawn cursor segments).find? (covers byte)).map fun segment => colorOf segment.style := by
  induction segments generalizing cursor with
  | nil =>
    have width := width_cut boundary (isBoundary_width line) (by omega)
    rw [draw,if_pos (by omega),backgroundAt?_cons_of_lt [] width (by omega)]
    rfl
  | cons segment segments ih =>
    obtain ⟨here,later⟩ := List.forall_mem_cons.mp fits
    rw [draw,drawn]
    split
    next => exact ih later boundary le
    next further =>
      have nonempty := here.nonempty
      have coloredWidth := width_cut here.start here.stop (Nat.le_of_lt nonempty)
      -- Past the plain stretch, if there is one, the byte is in the segment or after it.
      have onward (reached : segment.start ≤ byte) :
          backgroundAt? (colored (cut line segment.start segment.stop) segment.style ::
            draw line segment.stop segments) (byte - segment.start) =
          ((segment :: drawn segment.stop segments).find? (covers byte)).map
            fun segment => colorOf segment.style := by
        by_cases within : byte < segment.stop
        · rw [backgroundAt?_cons_of_lt _ coloredWidth (by omega),
            List.find?_cons_of_pos (covers_iff.mpr ⟨reached,within⟩)]
          rfl
        · rw [backgroundAt?_cons_of_le _ coloredWidth (by omega),
            List.find?_cons_of_neg (mt covers_iff.mp fun covered => within covered.2),
            ← ih later here.stop (Nat.le_of_not_lt within)]
          congr 1
          omega
      dsimp only
      split
      next gap =>
        have plainWidth := width_cut boundary here.start (Nat.le_of_lt gap)
        rw [List.singleton_append]
        by_cases reached : segment.start ≤ byte
        · rw [← onward reached,backgroundAt?_cons_of_le _ plainWidth (by omega)]
          congr 1
          omega
        · have missed : ¬ covers byte segment := mt covers_iff.mp fun covered => reached covered.1
          rw [backgroundAt?_cons_of_lt _ plainWidth (by omega),List.find?_cons_of_neg missed,
            find?_drawn_of_lt later (by omega)]
          rfl
      next touching =>
        obtain rfl : cursor = segment.start := by omega
        exact onward le

theorem fits_of_segment? {number : Nat} {decoration : Decoration} {segment : Segment}
    (cut : segment? number line decoration = some segment) : Fits line segment := by
  obtain ⟨⟨nonempty,start,stop⟩,same⟩ := Option.ite_none_right_eq_some.mp cut
  obtain rfl := Option.some_inj.mp same
  rw [Ruler.isBoundary_eq] at start stop
  exact ⟨nonempty,start,stop⟩

theorem fits_of_mem_segmentsOn (number : Nat) (line : Ruler) (decorations : List Decoration) :
    ∀ segment ∈ segmentsOn number line decorations, Fits line segment := by
  intro segment member
  obtain ⟨_,_,cut⟩ := List.mem_filterMap.mp ((List.mergeSort_perm _ _).mem_iff.mp member)
  exact fits_of_segment? cut

/-- Whatever is drawn on it, the line itself is shown. -/
theorem text_line (number : Nat) (text : Text) (decorations : List Decoration) :
    (Highlight.line number text decorations).flatMap (·.text) = text := by
  have whole := text_draw (fits_of_mem_segmentsOn number (.ofText text) decorations)
    (isBoundary_zero (.ofText text))
  rw [Text.dropBytes?_zero] at whole
  exact (Option.some_inj.mp whole).symm

/-- The second segment begins after the first one or lies inside it. -/
def Nests (first second : Segment) : Prop :=
  first.stop ≤ second.start ∨ first.start ≤ second.start ∧ second.stop ≤ first.stop

/-- Segments that are left out are inside drawn ones, so that they hide nothing. -/
theorem find?_drawn (fits : ∀ segment ∈ segments, Fits line segment) (nested : segments.Pairwise Nests)
    (sided : ∀ segment ∈ segments, cursor ≤ segment.start ∨ segment.stop ≤ cursor) (le : cursor ≤ byte) :
    (drawn cursor segments).find? (covers byte) = segments.find? (covers byte) := by
  induction segments generalizing cursor with
  | nil => rfl
  | cons segment segments ih =>
    obtain ⟨here,later⟩ := List.forall_mem_cons.mp fits
    obtain ⟨first,others⟩ := List.pairwise_cons.mp nested
    obtain ⟨side,sides⟩ := List.forall_mem_cons.mp sided
    rw [drawn]
    split
    next behind =>
      have passed : ¬ covers byte segment := mt covers_iff.mp fun covered => by omega
      rw [List.find?_cons_of_neg passed]
      exact ih later others sides le
    next further =>
      by_cases covered : covers byte segment
      · rw [List.find?_cons_of_pos covered,List.find?_cons_of_pos covered]
      · rw [List.find?_cons_of_neg covered,List.find?_cons_of_neg covered]
        rw [covers_iff] at covered
        have nonempty := here.nonempty
        by_cases before : byte < segment.start
        · rw [find?_drawn_of_lt later (by omega)]
          symm
          apply List.find?_eq_none.mpr
          intro other member covering
          have reached := (covers_iff.mp covering).1
          rcases first other member with apart | ⟨after,_⟩ <;> omega
        · apply ih later others ?_ (by omega)
          intro other member
          exact (first other member).imp_right And.right

end TagOverlay.Highlight
