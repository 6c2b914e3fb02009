import Mathlib.Data.List.Basic
import Mathlib.Data.List.TakeWhile
import TagOverlay.Files.Path

/-! Paths to what is below a folder. However the names are put behind the path of the folder, each after a
slash of its own or not, the same names are read off again, and the extension is that of the last one; the paths
differ by one slash at most. -/
namespace TagOverlay.Path

variable {base path name : Text} {names : List Text}

/-- A name that stands for itself between slashes. -/
structure IsName (name : Text) : Prop where
  nonempty : name ≠ []
  noSlash : '/' ∉ name
  notHere : name ≠ ['.']
  notAbove : name ≠ ['.','.']

/-- Paths that lead from a folder down some names. A slash before a name may be left out where the path so
far ends in one. -/
inductive Below (base : Text) : List Text → Text → Prop where
  | base : Below base [] base
  | slash {names : List Text} {path name : Text} (folder : Below base names path) (isName : IsName name) :
      Below base (names ++ [name]) (path ++ '/' :: name)
  | direct {names : List Text} {start name : Text} (folder : Below base names (start ++ ['/']))
      (isName : IsName name) : Below base (names ++ [name]) (start ++ '/' :: name)

theorem parts_append_slash (left right : Text) : parts (left ++ '/' :: right) = parts left ++ parts right := by
  rw [parts,List.splitOn_append_cons_self,List.filter_append]
  rfl

theorem parts_of_isName (isName : IsName name) : parts name = [name] := by
  rw [parts,List.splitOn_eq_singleton isName.noSlash]
  simp [isName.nonempty]

theorem parts_intercalate (areNames : ∀ name ∈ names, IsName name) :
    parts (['/'].intercalate names) = names := by
  cases names with
  | nil => rfl
  | cons first rest =>
    rw [parts,List.splitOn_intercalate '/' (fun name member => (areNames name member).noSlash)
      (List.cons_ne_nil _ _)]
    apply List.filter_eq_self.mpr
    intro name member
    exact decide_eq_true (areNames name member).nonempty

theorem of_mem_splitOn {part : Text} (member : part ∈ path.splitOn '/') :
    ∀ c ∈ part, c ∈ path ∧ c ≠ '/' := by
  induction path generalizing part with
  | nil =>
    obtain rfl : part = [] := by simpa using member
    exact fun _ inside => absurd inside List.not_mem_nil
  | cons first rest ih =>
    have later {other : Text} (isPart : other ∈ rest.splitOn '/') :
        ∀ c ∈ other, c ∈ first :: rest ∧ c ≠ '/' :=
      fun c inside => (ih isPart c inside).imp_left (List.mem_cons_of_mem first)
    rw [List.splitOn_cons_eq_if_modifyHead] at member
    split at member
    next =>
      rcases List.mem_cons.mp member with rfl | isPart
      · exact fun _ inside => absurd inside List.not_mem_nil
      · exact later isPart
    next noSlash =>
      obtain ⟨head,others,whole⟩ := List.exists_cons_of_ne_nil (List.splitOn_ne_nil '/' rest)
      rw [whole,List.modifyHead_cons] at member
      rw [whole] at later
      rcases List.mem_cons.mp member with rfl | isPart
      · have new : first ≠ '/' := by simpa using noSlash
        exact List.forall_mem_cons.mpr ⟨⟨List.mem_cons_self,new⟩,later List.mem_cons_self⟩
      · exact later (List.mem_cons_of_mem head isPart)

theorem of_mem_parts {part : Text} (member : part ∈ parts path) :
    part ≠ [] ∧ ∀ c ∈ part, c ∈ path ∧ c ≠ '/' := by
  obtain ⟨split,nonempty⟩ := List.mem_filter.mp member
  exact ⟨of_decide_eq_true nonempty,of_mem_splitOn split⟩

theorem endsInSlash_append (isName : IsName name) (start : Text) :
    endsInSlash (start ++ '/' :: name) = false := by
  have last : (start ++ '/' :: name).getLast? = name.getLast? := by
    rw [List.append_cons,List.getLast?_append_of_ne_nil _ isName.nonempty]
  rw [endsInSlash,last]
  exact decide_eq_false fun slash => isName.noSlash (List.mem_of_getLast? slash)

theorem parts_ne_nil (nonempty : path ≠ []) (notAbsolute : ¬ isAbsolute path) : parts path ≠ [] := by
  obtain ⟨first,rest,rfl⟩ := List.exists_cons_of_ne_nil nonempty
  have noSlash : first ≠ '/' := by simpa [isAbsolute] using notAbsolute
  obtain ⟨part,others,whole⟩ := List.exists_cons_of_ne_nil (List.splitOn_ne_nil '/' rest)
  rw [parts,List.splitOn_cons_eq_if_modifyHead,if_neg (by simpa using noSlash),whole]
  simp

theorem extensionOf?_append {stem tail : Text} (noDot : '.' ∉ tail) :
    extensionOf? (stem ++ '.' :: tail) = if stem = [] then none else some tail := by
  have letters : ∀ c ∈ tail.reverse, decide (c ≠ '.') = true :=
    fun c member => decide_eq_true fun dot => noDot (dot ▸ List.mem_reverse.mp member)
  have back : ((stem ++ '.' :: tail).reverse.takeWhile (· ≠ '.')).reverse = tail := by
    rw [List.reverse_append,List.reverse_cons,List.append_assoc,List.takeWhile_append_of_pos letters]
    simp
  rw [extensionOf?,back]
  by_cases empty : stem = []
  · simp [empty]
  · have positive := List.length_pos_iff.mpr empty
    rw [if_neg empty,if_pos (by rw [List.length_append,List.length_cons]; omega)]

theorem extensionOf?_of_noDot (noDot : '.' ∉ name) : extensionOf? name = none := by
  have letters : ∀ c ∈ name.reverse, decide (c ≠ '.') = true :=
    fun c member => decide_eq_true fun dot => noDot (dot ▸ List.mem_reverse.mp member)
  rw [extensionOf?,List.takeWhile_eq_self_iff.mpr letters,List.reverse_reverse]
  exact if_neg (by omega)

theorem extensionOf?_eq_some_iff {tail : Text} :
    extensionOf? name = some tail ↔ ∃ stem, stem ≠ [] ∧ name = stem ++ '.' :: tail ∧ '.' ∉ tail := by
  constructor
  · intro found
    by_cases dot : '.' ∈ name
    · obtain ⟨back,front,whole,noDot⟩ := List.eq_append_cons_of_mem (List.mem_reverse.mpr dot)
      have same : name = front.reverse ++ '.' :: back.reverse := by simpa using congrArg List.reverse whole
      have noDot : '.' ∉ back.reverse := fun member => noDot (List.mem_reverse.mp member)
      rw [same,extensionOf?_append noDot] at found
      split at found
      next => contradiction
      next nonempty =>
        obtain rfl := Option.some_inj.mp found
        exact ⟨_,nonempty,same,noDot⟩
    · rw [extensionOf?_of_noDot dot] at found
      contradiction
  · rintro ⟨stem,nonempty,rfl,noDot⟩
    rw [extensionOf?_append noDot,if_neg nonempty]

namespace Below

theorem areNames (below : Below base names path) : ∀ name ∈ names, IsName name := by
  induction below with
  | base => exact fun _ member => absurd member List.not_mem_nil
  | slash folder isName ih => exact List.forall_mem_append.mpr ⟨ih,List.forall_mem_singleton.mpr isName⟩
  | direct folder isName ih => exact List.forall_mem_append.mpr ⟨ih,List.forall_mem_singleton.mpr isName⟩

theorem parts_eq (below : Below base names path) : parts path = parts base ++ names := by
  induction below with
  | base => exact (List.append_nil _).symm
  | slash folder isName ih => rw [parts_append_slash,ih,parts_of_isName isName,List.append_assoc]
  | direct folder isName ih =>
    have nothing : parts [] = [] := rfl
    rw [parts_append_slash,nothing,List.append_nil] at ih
    rw [parts_append_slash,ih,parts_of_isName isName,List.append_assoc]

theorem nonempty (below : Below base names path) (relative : base ≠ []) : path ≠ [] := by
  cases below with
  | base => exact relative
  | slash => exact List.append_ne_nil_of_right_ne_nil _ (List.cons_ne_nil _ _)
  | direct => exact List.append_ne_nil_of_right_ne_nil _ (List.cons_ne_nil _ _)

theorem isAbsolute_eq (below : Below base names path) (relative : base ≠ []) :
    isAbsolute path = isAbsolute base := by
  induction below with
  | base => rfl
  | slash folder isName ih =>
    rw [← ih,isAbsolute,isAbsolute,List.head?_append,Option.or_of_isSome]
    exact List.isSome_head?.mpr (folder.nonempty relative)
  | direct folder isName ih =>
    rw [← ih,isAbsolute,isAbsolute,List.head?_append,List.head?_append]
    rfl

theorem endsInSlash_eq (below : Below base names path) (deeper : names ≠ []) : endsInSlash path = false := by
  cases below with
  | base => contradiction
  | slash folder isName => exact endsInSlash_append isName _
  | direct folder isName => exact endsInSlash_append isName _

theorem not_mem (below : Below base names path) {c : Char} (noSlash : c ≠ '/') (fromBase : c ∉ base)
    (fromNames : ∀ name ∈ names, c ∉ name) : c ∉ path := by
  induction below with
  | base => exact fromBase
  | slash folder isName ih =>
    obtain ⟨earlier,last⟩ := List.forall_mem_append.mp fromNames
    simp [ih earlier,noSlash,List.forall_mem_singleton.mp last]
  | direct folder isName ih =>
    obtain ⟨earlier,last⟩ := List.forall_mem_append.mp fromNames
    have start := ih earlier
    simp at start
    simp [start,List.forall_mem_singleton.mp last]

/-- The names follow the components of the folder, of which the first decides how the path begins. -/
theorem components_eq (below : Below base names path) (relative : base ≠ []) :
    components path = components base ++ names.map .name := by
  have kept : (names.filter fun part => part ≠ ['.']) = names := by
    apply List.filter_eq_self.mpr
    intro name member
    exact decide_eq_true (below.areNames name member).notHere
  have named : names.map Component.ofPart = names.map .name := by
    apply List.map_congr_left
    intro name member
    exact if_neg (below.areNames name member).notAbove
  rw [components,components,below.isAbsolute_eq relative,below.parts_eq,List.filter_append,List.map_append,
    kept,named]
  split
  next => rfl
  next notAbsolute =>
    rw [List.head?_append_of_ne_nil _ (parts_ne_nil relative notAbsolute)]
    split
    next => rfl
    next => rfl

theorem under?_eq (below : Below base names path) (relative : base ≠ []) :
    under? base path = some (names.map .name) := by
  rw [under?,below.components_eq relative,if_pos (List.isPrefixOf_iff_prefix.mpr (List.prefix_append _ _)),
    List.drop_left]

theorem fileName?_eq (below : Below base names path) (relative : base ≠ []) (deeper : names ≠ []) :
    fileName? path = names.getLast? := by
  obtain ⟨front,last,rfl⟩ := (List.eq_nil_or_concat names).resolve_left deeper
  rw [List.concat_eq_append] at below ⊢
  have ends : (components path).getLast? = some (.name last) := by
    rw [below.components_eq relative,List.map_append,← List.append_assoc]
    exact List.getLast?_concat
  rw [fileName?,ends,List.getLast?_concat]

end Below

theorem ofComponents_names (names : List Text) :
    ofComponents (names.map .name) = ['/'].intercalate names := by
  have texts : (names.map Component.name).map Component.toText = names := by
    rw [List.map_map]
    exact List.map_id names
  cases names with
  | nil => rfl
  | cons first rest => exact congrArg (['/'].intercalate ·) texts

theorem join_eq (isName : IsName name) (relative : base ≠ []) :
    join base name = if endsInSlash base then base ++ name else base ++ '/' :: name := by
  have notAbsolute : isAbsolute name = false :=
    decide_eq_false fun slash => isName.noSlash (List.mem_of_head? slash)
  rw [join,notAbsolute,List.isEmpty_eq_false_iff.mpr relative,Bool.false_or,if_neg Bool.false_ne_true,
    ← List.append_cons]

theorem Below.join {front : List Text} (folder : Below base front path) (relative : base ≠ [])
    (areNames : ∀ name ∈ names, IsName name) : Below base (front ++ names) (names.foldl join path) := by
  induction names generalizing front path with
  | nil =>
    rw [List.append_nil]
    exact folder
  | cons name names ih =>
    obtain ⟨isName,areNames⟩ := List.forall_mem_cons.mp areNames
    rw [List.append_cons,List.foldl_cons]
    apply ih ?_ areNames
    rw [join_eq isName (folder.nonempty relative)]
    split
    next slash =>
      obtain ⟨start,rfl⟩ := List.getLast?_eq_some_iff.mp (of_decide_eq_true slash)
      rw [← List.append_cons]
      exact folder.direct isName
    next => exact folder.slash isName

/-- Behind a path that ends in no slash each name is put after one. -/
theorem foldl_join (relative : path ≠ []) (noSlash : endsInSlash path = false)
    (areNames : ∀ name ∈ names, IsName name) : names.foldl join path = path ++ names.flatMap ('/' :: ·) := by
  induction names generalizing path with
  | nil => rw [List.foldl_nil,List.flatMap_nil,List.append_nil]
  | cons name names ih =>
    obtain ⟨isName,areNames⟩ := List.forall_mem_cons.mp areNames
    rw [List.foldl_cons,join_eq isName relative,noSlash,if_neg Bool.false_ne_true,List.flatMap_cons,
      ih (List.append_ne_nil_of_left_ne_nil relative _) (endsInSlash_append isName path) areNames,List.append_assoc]

/-- A path with a slash before every name has one more than there has to be if the folder ends in one. -/
theorem width_foldl_join (relative : base ≠ []) (deeper : names ≠ []) (areNames : ∀ name ∈ names, IsName name) :
    (base ++ names.flatMap ('/' :: ·)).width = (names.foldl join base).width + if endsInSlash base then 1 else 0 := by
  obtain ⟨name,names,rfl⟩ := List.exists_cons_of_ne_nil deeper
  obtain ⟨isName,others⟩ := List.forall_mem_cons.mp areNames
  by_cases slash : endsInSlash base
  · have noSlash : endsInSlash (base ++ name) = false := by
      obtain ⟨start,rfl⟩ := List.getLast?_eq_some_iff.mp (of_decide_eq_true slash)
      rw [← List.append_cons]
      exact endsInSlash_append isName start
    have one : '/'.utf8Size = 1 := rfl
    rw [List.foldl_cons,join_eq isName relative,if_pos slash,if_pos slash,
      foldl_join (List.append_ne_nil_of_left_ne_nil relative _) noSlash others]
    simp only [List.flatMap_cons,List.cons_append,Text.width_append,Text.width_cons,one]
    omega
  · rw [if_neg slash,Nat.add_zero,foldl_join relative (Bool.eq_false_iff.mpr slash) areNames]

theorem Below.slashes {front : List Text} (folder : Below base front path)
    (areNames : ∀ name ∈ names, IsName name) :
    Below base (front ++ names) (path ++ names.flatMap ('/' :: ·)) := by
  induction names generalizing front path with
  | nil =>
    rw [List.append_nil,List.flatMap_nil,List.append_nil]
    exact folder
  | cons name names ih =>
    obtain ⟨isName,areNames⟩ := List.forall_mem_cons.mp areNames
    rw [List.append_cons,List.flatMap_cons,← List.append_assoc]
    exact ih (folder.slash isName) areNames

theorem append_intercalate (relative : base ≠ []) (areNames : ∀ name ∈ names, IsName name) :
    append base (['/'].intercalate names) = base ++ names.flatMap ('/' :: ·) := by
  rw [append,List.isEmpty_eq_false_iff.mpr relative,if_neg Bool.false_ne_true,parts_intercalate areNames]

end TagOverlay.Path
