import TagOverlay.Text.Basic

/-! Reading bytes as UTF-8. Bytes either are the encoding of one text or have a first fault, which
is reported by its byte offset and, unless the bytes just stop too early, by its length. -/
namespace TagOverlay.Text

/-- The first place where bytes stop being UTF-8. -/
structure Utf8Fault where
  offset : Nat
  /-- The number of bytes that no character begins with; none if the bytes end inside one. -/
  length? : Option Nat
deriving DecidableEq

def Utf8Fault.message (fault : Utf8Fault) : String :=
  match fault.length? with
  | some length => s!"invalid utf-8 sequence of {length} bytes from index {fault.offset}"
  | none => s!"incomplete utf-8 byte sequence from index {fault.offset}"

/-- The ranges that the bytes after a first byte must lie in, if that byte may stand first. -/
def followers? (first : UInt8) : Option (List (UInt8 × UInt8)) :=
  let tail : UInt8 × UInt8 := (0x80,0xBF)
  if first < 0x80 then some []
  else if first < 0xC2 then none
  else if first < 0xE0 then some [tail]
  else if first = 0xE0 then some [(0xA0,0xBF),tail]
  else if first = 0xED then some [(0x80,0x9F),tail]
  else if first < 0xF0 then some [tail,tail]
  else if first = 0xF0 then some [(0x90,0xBF),tail,tail]
  else if first < 0xF4 then some [tail,tail,tail]
  else if first = 0xF4 then some [(0x80,0x8F),tail,tail]
  else none

/-- How far the bytes fill the ranges: nothing is wrong, or so many bytes are no character's
beginning, or the bytes end too early. -/
def followFault? (good : Nat) : List (UInt8 × UInt8) → List UInt8 → Option (Option Nat)
  | [],_ => none
  | _ :: _,[] => some none
  | (low,high) :: ranges,byte :: bytes =>
      if low ≤ byte ∧ byte ≤ high then followFault? (good + 1) ranges bytes else some (some good)

/-- The first fault of bytes that begin at `offset`; `skip` bytes are known to be sound. -/
def firstFault (offset skip : Nat) : List UInt8 → Utf8Fault
  | [] => ⟨offset,none⟩
  | byte :: bytes =>
      match skip with
      | skip + 1 => firstFault (offset + 1) skip bytes
      | 0 =>
          match followers? byte with
          | none => ⟨offset,some 1⟩
          | some ranges =>
              match followFault? 1 ranges bytes with
              | some length? => ⟨offset,length?⟩
              | none => firstFault (offset + 1) ranges.length bytes

/-- The text that the bytes encode, or their first fault. -/
def ofUtf8 (bytes : ByteArray) : Except Utf8Fault Text :=
  match bytes.utf8Decode? with
  | some chars => .ok chars.toList
  | none => .error (firstFault 0 0 bytes.data.toList)

/-- The UTF-8 form. -/
def toUtf8 (text : Text) : ByteArray :=
  (String.ofList text).toByteArray

theorem ofUtf8_toUtf8 (text : Text) : ofUtf8 text.toUtf8 = .ok text := by
  simp [ofUtf8,toUtf8,List.utf8Decode?_utf8Encode]

theorem toUtf8_of_ofUtf8 {bytes : ByteArray} {text : Text} (ok : ofUtf8 bytes = .ok text) :
    text.toUtf8 = bytes := by
  rw [ofUtf8] at ok
  split at ok
  next chars decoded =>
    obtain rfl := Except.ok.inj ok
    have decodes : bytes.utf8Decode?.isSome = true := by simp [decoded]
    simpa [toUtf8,decoded] using ByteArray.utf8Encode_get_utf8Decode? (b := bytes) (h := decodes)
  next => simp at ok

end TagOverlay.Text
