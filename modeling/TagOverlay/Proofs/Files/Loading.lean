import TagOverlay.Proofs.Files.Listing
import TagOverlay.Proofs.Text.Breaks

/-! What a document is loaded as. A file of UTF-8 gives its bytes back, from the document as well as from the
editor's lines, and nothing else is loaded; document and editor number their lines alike. -/
namespace TagOverlay

namespace Text

theorem toUtf8_eq (text : Text) : text.toUtf8 = text.utf8Encode := by
  simp [toUtf8]

theorem ofUtf8_eq_ok_iff {bytes : ByteArray} {text : Text} : ofUtf8 bytes = .ok text ↔ text.toUtf8 = bytes :=
  ⟨toUtf8_of_ofUtf8,fun same => same ▸ ofUtf8_toUtf8 text⟩

theorem isValidUTF8_iff {bytes : ByteArray} : bytes.IsValidUTF8 ↔ ∃ text, ofUtf8 bytes = .ok text := by
  constructor
  · rintro ⟨text,rfl⟩
    exact ⟨text,ofUtf8_eq_ok_iff.mpr (toUtf8_eq text)⟩
  · intro ⟨text,decoded⟩
    exact ⟨text,(ofUtf8_eq_ok_iff.mp decoded).symm.trans (toUtf8_eq text)⟩

end Text

namespace Documents
open Text (BreaksAfter EndsInBreak)

theorem file_loads_as_its_bytes {fs : FileSystem} {folder relative : Text} {bytes : ByteArray}
    (found : fs.find (Path.append folder relative) = .ok (.file bytes)) :
    ((∃ loaded, load fs folder relative = .ok loaded) ↔ bytes.IsValidUTF8) ∧
    (¬ bytes.IsValidUTF8 →
      ∃ fault, load fs folder relative = .error (.notUtf8 (Path.append folder relative) fault)) ∧
    ∀ loaded, load fs folder relative = .ok loaded →
      let text := loaded.document.text
      text.toUtf8 = bytes ∧ (Text.joinLines loaded.lines).toUtf8 = bytes ∧
      (∀ index < TextBuffer.lineCount loaded.document, ∃ stretch line,
        loaded.lines[index]? = some stretch ∧ TextBuffer.line? loaded.document (index + 1) = some line ∧
        (stretch = line ++ ['\r'] ∧ BreaksAfter text index stretch ∨
          stretch = line ∧ ¬ (stretch.getLast? = some '\r' ∧ BreaksAfter text index stretch))) ∧
      loaded.lines.length =
        TextBuffer.lineCount loaded.document + if text = [] ∨ EndsInBreak text then 1 else 0 := by
  rw [load_of_file found,Text.isValidUTF8_iff]
  cases decoded : Text.ofUtf8 bytes with
  | error fault => exact ⟨by simp [Except.map,Except.mapError],fun _ => ⟨fault,rfl⟩,nofun⟩
  | ok text =>
    have encoded := Text.ofUtf8_eq_ok_iff.mp decoded
    refine ⟨⟨fun _ => ⟨text,rfl⟩,fun _ => ⟨_,rfl⟩⟩,fun invalid => absurd ⟨text,rfl⟩ invalid,?_⟩
    intro loaded success
    obtain rfl := Except.ok.inj success
    refine ⟨encoded,by rw [Text.joinLines_splitLines,encoded],?_,Text.length_splitLines text⟩
    intro index inside
    have found : (Text.lines text)[index]? = some (Text.lines text)[index] := List.getElem?_eq_getElem inside
    obtain ⟨stretch,there,kept⟩ := Text.stretch_of_line found
    exact ⟨stretch,_,there,(TextBuffer.line?_succ ..).trans found,kept⟩

/-- One file of both kinds of breaks, and one whose only byte begins no character. -/
theorem mixed_breaks_load :
    let text : Text := ['é','\r','\n','\n','\r']
    let fs : FileSystem := ⟨.folder [(['a'],.file text.toUtf8),(['b'],.file ⟨#[255]⟩)],[]⟩
    fs.find (Path.append ['/'] ['a']) = .ok (.file text.toUtf8) ∧
    fs.find (Path.append ['/'] ['b']) = .ok (.file ⟨#[255]⟩) ∧
    (∃ loaded, load fs ['/'] ['a'] = .ok loaded ∧ (Text.joinLines loaded.lines).toUtf8 = text.toUtf8 ∧
      TextBuffer.lineCount loaded.document = 3 ∧ loaded.lines.length = 3) ∧
    ¬ ∃ loaded, load fs ['/'] ['b'] = .ok loaded := by
  intro text fs
  have found : fs.find (Path.append ['/'] ['a']) = .ok (.file text.toUtf8) := rfl
  have broken : fs.find (Path.append ['/'] ['b']) = .ok (.file ⟨#[255]⟩) := rfl
  have valid : text.toUtf8.IsValidUTF8 := Text.isValidUTF8_iff.mpr ⟨text,Text.ofUtf8_toUtf8 text⟩
  have invalid : ¬ ByteArray.IsValidUTF8 ⟨#[255]⟩ := by
    rw [Text.isValidUTF8_iff]
    exact not_exists.mpr nofun
  obtain ⟨loads,_,kept⟩ := file_loads_as_its_bytes found
  obtain ⟨loaded,success⟩ := loads.mpr valid
  obtain ⟨encoded,joined,_,numbered⟩ := kept loaded success
  have same : loaded.document.text = text := by
    have decoded := Text.ofUtf8_eq_ok_iff.mpr encoded
    rw [Text.ofUtf8_toUtf8] at decoded
    exact (Except.ok.inj decoded).symm
  have count : TextBuffer.lineCount loaded.document = 3 := by
    rw [← TextBuffer.length_lines]
    change (Text.lines loaded.document.text).length = 3
    rw [same]
    decide
  rw [same,count] at numbered
  exact ⟨found,broken,⟨loaded,success,joined,count,numbered⟩,fun opened =>
    invalid ((file_loads_as_its_bytes broken).1.mp opened)⟩

end Documents

end TagOverlay
