import Mathlib.Data.List.Lex
import TagOverlay.Files.Path

/-! The order of paths. It goes by the components, the first that differs deciding, and not by the characters.
Sorting leaves paths to different places in ascending order, and a list in ascending order is told by its
members. -/
namespace TagOverlay.Path

def Component.rank : Component → Nat
  | root => 0
  | here => 1
  | above => 2
  | name _ => 3

/-- The root is before a dot, then come two dots and then names, as their characters are ordered. -/
inductive Component.Before : Component → Component → Prop where
  | kind {one other : Component} (less : one.rank < other.rank) : Before one other
  | name {one other : Text} (less : List.Lex (· < ·) one other) : Before (name one) (name other)

/-- The first component that differs is before the other one, or there is none where the other path goes on. -/
def Before (left right : Text) : Prop :=
  List.Lex Component.Before (components left) (components right)

variable {left middle right : Text} {files others : List Text}

theorem lex_map_iff {α β : Type} {f : α → β} (injective : f.Injective) {less : β → β → Prop} {one other : List α} :
    List.Lex less (one.map f) (other.map f) ↔ List.Lex (fun a b => less (f a) (f b)) one other := by
  induction one generalizing other with
  | nil => cases other <;> simp
  | cons a one ih =>
    cases other with
    | nil => simp
    | cons b other =>
      rw [List.map_cons,List.map_cons,List.cons_lex_cons_iff,List.cons_lex_cons_iff,ih,injective.eq_iff]

theorem Component.order_injective : order.Injective := by
  intro one other same
  cases one <;> cases other <;> simp_all [order,List.map_inj_right,Char.toNat_inj]

/-- Rows of numbers are ordered as the components that they stand for. -/
theorem Component.lex_order_iff {one other : Component} :
    List.Lex (· < ·) one.order other.order ↔ one.Before other := by
  have row (component : Component) : ∃ letters, component.order = component.rank :: letters := by
    cases component <;> exact ⟨_,rfl⟩
  have texts {one other : Text} : List.Lex (· < ·) (one.map Char.toNat) (other.map Char.toNat) ↔
      List.Lex (· < ·) one other := lex_map_iff fun _ _ => Char.toNat_inj.mp
  constructor
  · intro less
    obtain ⟨letters,whole⟩ := row one
    obtain ⟨otherLetters,otherWhole⟩ := row other
    rw [whole,otherWhole,List.cons_lex_cons_iff] at less
    rcases less with kind | ⟨same,less⟩
    · exact .kind kind
    · cases one <;> cases other
      case name.name =>
        obtain rfl := (List.cons.inj whole).2
        obtain rfl := (List.cons.inj otherWhole).2
        exact .name (texts.mp less)
      all_goals simp_all [rank,order]
  · intro before
    cases before with
    | kind less =>
      obtain ⟨_,whole⟩ := row one
      obtain ⟨_,otherWhole⟩ := row other
      rw [whole,otherWhole]
      exact .rel less
    | name less => exact .cons (texts.mpr less)

theorem before_iff : Before left right ↔ List.Lex (List.Lex (· < ·)) (order left) (order right) := by
  rw [order,order,lex_map_iff Component.order_injective]
  simp only [Component.lex_order_iff]
  rfl

theorem not_before (before : Before left right) : ¬ Before right left := by
  rw [before_iff] at before ⊢
  exact asymm before

theorem precedes_iff : precedes left right ↔ ¬ Before right left := by
  rw [precedes,Bool.not_eq_true',← Bool.not_eq_true,List.lex_eq_true_iff_lex,before_iff]
  simp only [List.lex_eq_true_iff_lex,decide_eq_true_eq]

theorem precedes_trans (first : precedes left middle) (second : precedes middle right) : precedes left right := by
  rw [precedes_iff,before_iff] at first second ⊢
  intro less
  exact (IsOrderConnected.conn _ (order middle) _ less).elim second first

theorem precedes_total (left right : Text) : precedes left right || precedes right left := by
  rw [Bool.or_eq_true,precedes_iff,precedes_iff]
  exact not_and_or.mp fun both => not_before both.1 both.2

theorem before_of_precedes (different : components left ≠ components right) (precedes : precedes left right) :
    Before left right := by
  rw [precedes_iff,before_iff] at precedes
  rw [before_iff]
  rcases trichotomous_of (List.Lex (List.Lex (· < ·))) (order left) (order right) with less | same | more
  · exact less
  · exact absurd (List.map_injective_iff.mpr Component.order_injective same) different
  · exact absurd more precedes

theorem ascending_mergeSort (different : files.Pairwise fun left right => components left ≠ components right) :
    (files.mergeSort precedes).Pairwise Before := by
  have sorted : (files.mergeSort precedes).Pairwise fun left right => precedes left right := by
    apply List.pairwise_mergeSort
    · exact fun _ _ _ => precedes_trans
    · exact precedes_total
  have apart := (List.mergeSort_perm files precedes).symm.pairwise different Ne.symm
  exact (sorted.and apart).imp fun both => before_of_precedes both.2 both.1

theorem eq_of_ascending (ascending : files.Pairwise Before) (alsoAscending : others.Pairwise Before)
    (same : ∀ path, path ∈ files ↔ path ∈ others) : files = others := by
  have distinct {paths : List Text} (ascending : paths.Pairwise Before) : paths.Nodup := by
    apply ascending.imp
    rintro path _ before rfl
    exact not_before before before
  have perm := (List.perm_ext_iff_of_nodup (distinct ascending) (distinct alsoAscending)).mpr same
  exact perm.eq_of_pairwise (fun _ _ _ _ before after => absurd after (not_before before)) ascending alsoAscending

end TagOverlay.Path
