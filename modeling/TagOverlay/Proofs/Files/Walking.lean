import TagOverlay.Proofs.Files.Trees

/-! Finding what stands at a path by walking from folder to folder. A path that leads on from another one finds
what the names between them lead to, unless it is longer than a path may be. -/
namespace TagOverlay

section Outcomes

variable {ε α γ : Type} {first : Except ε α}

theorem bind_eq_ok_iff {next : α → Except ε γ} {value : γ} :
    first.bind next = .ok value ↔ ∃ middle, first = .ok middle ∧ next middle = .ok value := by
  cases first with
  | error error => simp [Except.bind]
  | ok middle => simp [Except.bind]

theorem map_eq_ok_iff {f : α → γ} {value : γ} :
    first.map f = .ok value ↔ ∃ middle, first = .ok middle ∧ f middle = value := by
  cases first with
  | error error => simp [Except.map]
  | ok middle => simp [Except.map]

end Outcomes

namespace FileSystem
open FileTree (at?_append at?_cons_eq_some_iff)

variable {fs : FileSystem} {root tree last : FileTree} {trail final : Trail} {parts names : List Text}
    {base path : Text}

/-- Each name of the trail is one in what the rest of the trail leads to. -/
inductive Leads (root : FileTree) : Trail → Prop where
  | nil : Leads root []
  | cons {trail : Trail} {name : Text} {child : FileTree} (rest : Leads root trail)
      (here : (trail.endsAt root).child? name = some child) : Leads root ((name,child) :: trail)

theorem Leads.at?_eq (leads : Leads root trail) :
    root.at? (trail.map (·.1)).reverse = some (trail.endsAt root) := by
  induction leads with
  | nil => rfl
  | cons rest here ih =>
    rw [List.map_cons,List.reverse_cons,at?_append,ih]
    exact at?_cons_eq_some_iff.mpr ⟨_,here,rfl⟩

theorem Leads.tail (leads : Leads root trail) : Leads root trail.tail := by
  cases leads with
  | nil => exact .nil
  | cons rest here => exact rest

theorem walk_cons (root : FileTree) (trail : Trail) (part : Text) (parts : List Text) :
    walk root trail (part :: parts) = (walk root trail [part]).bind (walk root · parts) := by
  rw [walk,walk]
  cases trail.endsAt root with
  | file content => rfl
  | folder entries =>
    dsimp only
    split
    next => rfl
    next =>
      split
      next => rfl
      next =>
        split
        next => rfl
        next => cases (FileTree.folder entries).child? part <;> rfl

theorem walk_append (root : FileTree) (trail : Trail) (front back : List Text) :
    walk root trail (front ++ back) = (walk root trail front).bind (walk root · back) := by
  induction front generalizing trail with
  | nil => rfl
  | cons part front ih =>
    rw [List.cons_append,walk_cons,walk_cons root trail part front]
    cases walk root trail [part] with
    | error fault => rfl
    | ok next => exact ih next

theorem Leads.step (leads : Leads root trail) {part : Text} (walked : walk root trail [part] = .ok final) :
    Leads root final := by
  rw [FileSystem.walk] at walked
  split at walked
  next => contradiction
  next entries ends =>
    split at walked
    next =>
      obtain rfl := Except.ok.inj walked
      exact leads
    next =>
      split at walked
      next =>
        obtain rfl := Except.ok.inj walked
        exact leads.tail
      next =>
        split at walked
        next => contradiction
        next =>
          split at walked
          next child here =>
            obtain rfl := Except.ok.inj walked
            exact .cons leads (ends ▸ here)
          next => contradiction

theorem Leads.walk (leads : Leads root trail) (walked : walk root trail parts = .ok final) :
    Leads root final := by
  induction parts generalizing trail with
  | nil =>
    obtain rfl := Except.ok.inj walked
    exact leads
  | cons part parts ih =>
    rw [walk_cons,bind_eq_ok_iff] at walked
    obtain ⟨next,stepped,further⟩ := walked
    exact ih (leads.step stepped) further

/-- A dot asks for a folder and leads nowhere else. -/
theorem walk_here (walked : walk root trail [['.']] = .ok final) : final = trail := by
  rw [walk] at walked
  split at walked
  next => contradiction
  next => exact (Except.ok.inj walked).symm

theorem exists_walk (found : (trail.endsAt root).at? names = some last)
    (named : ∀ name ∈ names, FileTree.EntryName name) :
    ∃ final, walk root trail names = .ok final ∧ Trail.endsAt root final = last := by
  induction names generalizing trail with
  | nil => exact ⟨trail,rfl,Option.some_inj.mp found⟩
  | cons name names ih =>
    obtain ⟨child,here,further⟩ := at?_cons_eq_some_iff.mp found
    obtain ⟨isName,named⟩ := List.forall_mem_cons.mp named
    obtain ⟨final,walked,ends⟩ := ih (show (Trail.endsAt root ((name,child) :: trail)).at? names = some last from
      further) named
    refine ⟨final,?_,ends⟩
    rw [walk]
    cases whole : trail.endsAt root with
    | file content =>
      rw [whole] at here
      contradiction
    | folder entries =>
      rw [whole] at here
      dsimp only
      rw [if_neg isName.notHere,if_neg isName.notAbove,if_neg (Nat.not_lt.mpr isName.short),here]
      exact walked

/-- Where a path begins. -/
def beginning (fs : FileSystem) (path : Text) : Except FileFault Trail :=
  if Path.isAbsolute path then .ok [] else walk fs.root [] fs.workingFolder

theorem leads_of_beginning {start : Trail} (begins : fs.beginning path = .ok start) : Leads fs.root start := by
  rw [beginning] at begins
  split at begins
  next =>
    obtain rfl := Except.ok.inj begins
    exact .nil
  next => exact Leads.nil.walk begins

theorem follow_eq (sound : pathFault? path = none) (parts : List Text) :
    fs.follow path parts = (fs.beginning path).bind fun start =>
      (walk fs.root start parts).bind fun final => .ok (final.map (·.1)).reverse := by
  rw [follow,sound,beginning]
  cases Path.isAbsolute path <;> rfl

/-- Finding is walking: what stands at the names of a trail is what the trail ends at. -/
theorem find_eq (sound : pathFault? path = none) :
    fs.find path = (fs.beginning path).bind fun start =>
      (walk fs.root start (Path.parts path ++ if Path.endsInSlash path then [['.']] else [])).map
        (Trail.endsAt fs.root) := by
  rw [find,locate,follow_eq sound]
  cases begins : fs.beginning path with
  | error fault => rfl
  | ok start =>
    dsimp only [Except.bind]
    cases walked : walk fs.root start (Path.parts path ++ if Path.endsInSlash path then [['.']] else []) with
    | error fault => rfl
    | ok final =>
      have reached := ((leads_of_beginning begins).walk walked).at?_eq
      dsimp only
      rw [reached]
      rfl

theorem find_of_fault {fault : FileFault} (unsound : pathFault? path = some fault) :
    fs.find path = .error fault := by
  rw [find,locate,follow,unsound]

theorem sound_of_find (found : fs.find path = .ok tree) : pathFault? path = none := by
  cases fault : pathFault? path with
  | none => rfl
  | some fault =>
    rw [find_of_fault fault] at found
    contradiction

theorem noZero_of_sound (sound : pathFault? path = none) : '\x00' ∉ path := by
  intro zero
  rw [pathFault?,if_pos zero] at sound
  contradiction

theorem ne_nil_of_sound (sound : pathFault? path = none) : path ≠ [] := by
  rintro rfl
  exact Option.some_ne_none _ sound

theorem pathFault?_below (sound : pathFault? base = none) (below : Path.Below base names path)
    (named : ∀ name ∈ names, FileTree.EntryName name) :
    pathFault? path = if maxPath < path.width then some .nameTooLong else none := by
  have noZero := below.not_mem (by decide) (noZero_of_sound sound) fun name member => (named name member).noZero
  have nonempty := below.nonempty (ne_nil_of_sound sound)
  rw [pathFault?,if_neg noZero,List.isEmpty_eq_false_iff.mpr nonempty,if_neg Bool.false_ne_true]

theorem short_of_find (found : fs.find path = .ok tree) : path.width ≤ maxPath := by
  have same := pathFault?_below (sound_of_find found) .base fun _ member => absurd member List.not_mem_nil
  rw [sound_of_find found] at same
  split at same
  next => contradiction
  next short => exact Nat.le_of_not_lt short

theorem walk_of_find (found : fs.find path = .ok tree) :
    ∃ start final, fs.beginning path = .ok start ∧ walk fs.root start (Path.parts path) = .ok final ∧
      final.endsAt fs.root = tree := by
  rw [find_eq (sound_of_find found),bind_eq_ok_iff] at found
  obtain ⟨start,begins,found⟩ := found
  obtain ⟨last,walked,rfl⟩ := map_eq_ok_iff.mp found
  -- What a slash at the end of the path adds to the walk does not lead any further.
  rw [walk_append,bind_eq_ok_iff] at walked
  obtain ⟨final,walked,stays⟩ := walked
  refine ⟨start,final,begins,walked,?_⟩
  split at stays
  next => rw [walk_here stays]
  next => rw [Except.ok.inj stays]

theorem find_below (found : fs.find base = .ok tree) (below : Path.Below base names path) (deeper : names ≠ [])
    (further : tree.at? names = some last) (named : ∀ name ∈ names, FileTree.EntryName name)
    (short : path.width ≤ maxPath) : fs.find path = .ok last := by
  have sound := sound_of_find found
  have relative := ne_nil_of_sound sound
  have stillSound : pathFault? path = none := by
    rw [pathFault?_below sound below named,if_neg (Nat.not_lt.mpr short)]
  obtain ⟨start,folder,begins,walked,rfl⟩ := walk_of_find found
  obtain ⟨final,down,rfl⟩ := exists_walk further named
  have sameStart : fs.beginning path = .ok start := by
    rw [← begins,beginning,beginning,below.isAbsolute_eq relative]
  have onward : walk fs.root start (Path.parts base ++ names) = .ok final := by
    rw [walk_append,bind_eq_ok_iff]
    exact ⟨folder,walked,down⟩
  rw [find_eq stillSound,below.parts_eq,below.endsInSlash_eq deeper,if_neg Bool.false_ne_true,List.append_nil]
  exact bind_eq_ok_iff.mpr ⟨start,sameStart,map_eq_ok_iff.mpr ⟨final,onward,rfl⟩⟩

theorem read_eq_ok_iff {content : ByteArray} : fs.read path = .ok content ↔ fs.find path = .ok (.file content) := by
  rw [read]
  cases fs.find path with
  | error fault => simp
  | ok tree => cases tree <;> simp

theorem parts_slashes (count : Nat) : Path.parts (List.replicate count '/') = [] := by
  induction count with
  | zero => rfl
  | succ count ih =>
    rw [List.replicate_succ,← List.nil_append ('/' :: _),Path.parts_append_slash,ih]
    rfl

theorem width_slashes (count : Nat) : Text.width (List.replicate count '/') = count := by
  induction count with
  | zero => rfl
  | succ count ih =>
    have one : '/'.utf8Size = 1 := rfl
    rw [List.replicate_succ,Text.width_cons,ih,one,Nat.add_comm]

theorem endsInSlash_slashes (count : Nat) : Path.endsInSlash (List.replicate (count + 1) '/') :=
  decide_eq_true (List.getLast?_eq_some_iff.mpr ⟨_,List.replicate_succ'⟩)

/-- Any number of slashes leads to the root. -/
theorem find_slashes {entries : List (Text × FileTree)} (isFolder : fs.root = .folder entries) {count : Nat}
    (short : count + 1 ≤ maxPath) : fs.find (List.replicate (count + 1) '/') = .ok fs.root := by
  have noZero : '\x00' ∉ List.replicate (count + 1) '/' := fun zero => absurd (List.eq_of_mem_replicate zero) (by decide)
  have sound : pathFault? (List.replicate (count + 1) '/') = none := by
    rw [pathFault?,if_neg noZero,width_slashes,if_neg (Nat.not_lt.mpr short)]
    rfl
  have begins : fs.beginning (List.replicate (count + 1) '/') = .ok [] := if_pos rfl
  rw [find_eq sound,begins,parts_slashes,if_pos (endsInSlash_slashes count)]
  have stays : walk fs.root [] ([] ++ [['.']]) = .ok [] := by
    rw [isFolder]
    rfl
  exact map_eq_ok_iff.mpr ⟨[],stays,rfl⟩

end FileSystem

end TagOverlay
