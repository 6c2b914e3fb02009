import TagOverlay.Text.Basic

/-! TOML tables and how they grow while a document is read. Each table remembers how it came to be,
since that decides whether a later line may open it again. -/
namespace TagOverlay

namespace Toml

/-- How a table came to be. -/
inductive Origin where
  /-- By a header of its own; the whole document counts as such. -/
  | header
  /-- By being on the way to another header's table. -/
  | implied
  /-- By a dotted key. -/
  | dotted
  /-- By being written out as a value. -/
  | inline
deriving DecidableEq

end Toml

inductive Toml where
  | string (text : Text)
  | integer (value : Int)
  | boolean (value : Bool)
  | float (literal : Text)
  | moment (literal : Text)
  | array (items : List Toml)
  /-- The tables of one repeated header, the last one first. -/
  | tables (items : List Toml)
  | table (origin : Toml.Origin) (entries : List (Text × Toml))

namespace Toml

abbrev Entries := List (Text × Toml)

def lookup? (key : Text) (entries : Entries) : Option Toml :=
  (entries.find? fun entry => entry.1 = key).map (·.2)

def exchange (key : Text) (value : Toml) (entries : Entries) : Entries :=
  entries.map fun entry => if entry.1 = key then (key,value) else entry

/-- A change of a table, which may be forbidden. -/
abbrev Change := Origin → Entries → Option Entries

/-- Carries a change to the table at the end of a row of keys. Tables that are missing are made on
the way, and of a repeated header the last table is meant. A table that was written out as a value
is closed, and a dotted key does not reach into a table with a header. -/
def alter (dotted : Bool) (change : Change) : List Text → Change
  | [],origin,entries => change origin entries
  | key :: keys,_,entries =>
      match lookup? key entries with
      | none =>
          let origin := if dotted then .dotted else .implied
          (alter dotted change keys origin []).map fun inner =>
            entries ++ [(key,.table origin inner)]
      | some (.table origin inner) =>
          if origin = .inline ∨ (dotted ∧ origin = .header) then none
          else
            (alter dotted change keys origin inner).map fun inner =>
              exchange key (.table origin inner) entries
      | some (.tables (.table origin inner :: before)) =>
          (alter dotted change keys origin inner).map fun inner =>
            exchange key (.tables (.table origin inner :: before)) entries
      | some _ => none

/-- Adds a value under a key that is not there yet. The last table of a dotted key has to be one
that dotted keys made. -/
def add (dotted : Bool) (key : Text) (value : Toml) : Change := fun origin entries =>
  if decide (origin = .dotted) = dotted ∧ (lookup? key entries).isNone then
    some (entries ++ [(key,value)])
  else none

def assign (keys : List Text) (value : Toml) : Change := fun origin entries =>
  match keys.getLast? with
  | none => none
  | some key =>
      alter true (add (!keys.dropLast.isEmpty) key value) keys.dropLast origin entries

/-- Opens the table of a header. It may only have been implied before. -/
def openTable (key : Text) : Change := fun _ entries =>
  match lookup? key entries with
  | none => some (entries ++ [(key,.table .header [])])
  | some (.table .implied inner) => some (exchange key (.table .header inner) entries)
  | some _ => none

def openNext (key : Text) : Change := fun _ entries =>
  match lookup? key entries with
  | none => some (entries ++ [(key,.tables [.table .header []])])
  | some (.tables before) => some (exchange key (.tables (.table .header [] :: before)) entries)
  | some _ => none

end Toml

end TagOverlay
