import TagOverlay.Config.Basic
import TagOverlay.Proofs.Config.Expansion
import TagOverlay.Proofs.Files.Writing
import TagOverlay.Proofs.Toml.Entries

/-! A saved configuration is loaded again. What is loaded has the path expanded, where that is possible; a save
that fails takes no file away. -/
namespace TagOverlay.Config
open Toml (Line)

variable {config : Config} {environment : Environment} {fs : FileSystem} {path : Text}

/-- The lines of the file. -/
def lines (config : Config) : List Line :=
  [⟨documentsPathKey,Toml.writeString config.documentsPath,.string config.documentsPath⟩,
    ⟨tagNameKey,Toml.writeString config.tagName,.string config.tagName⟩,
    ⟨maxMatchesKey,Text.digitsOf 10 config.maxMatches,.integer config.maxMatches⟩]

theorem toToml_eq (config : Config) : config.toToml = config.lines.flatMap Line.text := by
  simp [toToml,lines,Line.text]

theorem bare_keys : Toml.Bare documentsPathKey ∧ Toml.Bare tagNameKey ∧ Toml.Bare maxMatchesKey :=
  ⟨by decide,by decide,by decide⟩

theorem distinct_keys : [documentsPathKey,tagNameKey,maxMatchesKey].Nodup := by decide

theorem sound_lines (inRange : config.maxMatches ≤ maxCount) : ∀ line ∈ config.lines, line.Sound := by
  have small : config.maxMatches < Nat.pow 2 128 := Nat.lt_of_le_of_lt inRange (by decide)
  obtain ⟨documentsPath,tagName,maxMatches⟩ := bare_keys
  simp only [lines,List.forall_mem_cons]
  exact ⟨⟨documentsPath,Toml.readsBack_string _⟩,⟨tagName,Toml.readsBack_string _⟩,
    ⟨maxMatches,Toml.readsBack_natural small⟩,nofun⟩

theorem ofEntries?_lines (inRange : config.maxMatches ≤ maxCount) :
    ofEntries? (config.lines.map Line.entry) = some config := by
  have documentsPath : Toml.lookup? documentsPathKey (config.lines.map Line.entry) = some (.string config.documentsPath) := rfl
  have tagName : Toml.lookup? tagNameKey (config.lines.map Line.entry) = some (.string config.tagName) := rfl
  have maxMatches : Toml.lookup? maxMatchesKey (config.lines.map Line.entry) = some (.integer config.maxMatches) := rfl
  have counted : (0 : Int) ≤ config.maxMatches ∧ (config.maxMatches : Int) ≤ maxCount := by omega
  rw [ofEntries?,textAt?,documentsPath,textAt?,tagName,countAt?,maxMatches]
  dsimp only
  rw [if_pos counted]
  rfl

theorem parse?_toToml (inRange : config.maxMatches ≤ maxCount) :
    (Toml.parse? config.toToml).bind ofEntries? = some config := by
  rw [toToml_eq,Toml.parse?_lines (sound_lines inRange) distinct_keys]
  exact ofEntries?_lines inRange

theorem loadFrom_of_read {bytes : ByteArray} (read : fs.read path = .ok bytes)
    (parsed : ∃ text, Text.ofUtf8 bytes = .ok text ∧ (Toml.parse? text).bind ofEntries? = some config)
    (environment : Environment) :
    loadFrom environment fs path = .ok (some { config with
      documentsPath := (Expansion.expand? environment config.documentsPath).getD config.documentsPath }) := by
  obtain ⟨text,valid,entries⟩ := parsed
  have found : fs.exists? path = true := by
    rw [FileSystem.exists?,FileSystem.read_eq_ok_iff.mp read]
    rfl
  rw [loadFrom,if_pos found,read]
  dsimp only
  rw [valid]
  dsimp only
  rw [entries]

/-- What is loaded where a configuration was saved. -/
structure Reloads (environment : Environment) (saved loaded : Config) : Prop where
  tagName : loaded.tagName = saved.tagName
  maxMatches : loaded.maxMatches = saved.maxMatches
  expanded : ¬ Expansion.Unset environment saved.documentsPath →
    Expansion.expand? environment saved.documentsPath = some loaded.documentsPath
  verbatim : Expansion.Unset environment saved.documentsPath → loaded.documentsPath = saved.documentsPath
  same : '$' ∉ saved.documentsPath → saved.documentsPath.head? ≠ some '~' → loaded = saved

theorem reloads_getD (environment : Environment) (config : Config) :
    Reloads environment config { config with
      documentsPath := (Expansion.expand? environment config.documentsPath).getD config.documentsPath } := by
  refine ⟨rfl,rfl,?_,?_,?_⟩
  · intro bound
    obtain ⟨path,found⟩ := Option.ne_none_iff_exists'.mp (Expansion.expand?_eq_none_iff.not.mpr bound)
    rw [found,Option.getD_some]
  · intro unset
    rw [Expansion.expand?_eq_none_iff.mpr unset,Option.getD_none]
  · intro plain noTilde
    rw [Expansion.expand?_of_plain environment plain noTilde,Option.getD_some]

section Saving

variable {after : FileSystem}

theorem read_of_saveTo_error {fault : FileFault} {content : ByteArray}
    (failed : config.saveTo fs path = (.error fault,after)) (readable : fs.read path = .ok content) :
    after.read path = .ok content := by
  have kept : (fs.makeParent path).2.read path = .ok content := FileSystem.read_of_makeParent readable
  rw [saveTo] at failed
  split at failed
  next made =>
    obtain ⟨_,rfl⟩ := Prod.mk.inj failed
    rwa [made] at kept
  next made =>
    split at failed
    next =>
      obtain ⟨_,rfl⟩ := Prod.mk.inj failed
      rwa [made] at kept
    next => exact absurd (Prod.mk.inj failed).1 nofun

theorem read_of_saveTo (saved : config.saveTo fs path = (.ok (),after)) :
    after.read path = .ok (Text.toUtf8 config.toToml) := by
  rw [saveTo] at saved
  split at saved
  next => exact absurd (Prod.mk.inj saved).1 nofun
  next =>
    split at saved
    next => exact absurd (Prod.mk.inj saved).1 nofun
    next written =>
      obtain ⟨_,rfl⟩ := Prod.mk.inj saved
      exact FileSystem.read_of_write written

end Saving

end TagOverlay.Config
