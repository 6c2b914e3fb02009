import Mathlib.Data.List.Forall2
import TagOverlay.Json.Record
import TagOverlay.Proofs.Json.RoundTrip

/-! Records and choices are read from their written forms as they were written. A record finds each of its fields
once, under its own key, and its numbers have no more digits than are read. -/
namespace TagOverlay

namespace Json

theorem length_digitsOf_le {number : Nat} (bound : number ≤ maxNumber) :
    (Text.digitsOf 10 number).length ≤ maxDigits := by
  apply (Nat.length_toDigits_le_iff (by decide) (by decide)).mpr
  exact Nat.lt_of_le_of_lt bound (by decide)

theorem mapM_eq_some_of_forall₂ {α β : Type} {read : α → Option β} {items : List α} {values : List β}
    (each : List.Forall₂ (fun item value => read item = some value) items values) :
    items.mapM read = some values := by
  induction each with
  | nil => rfl
  | cons first _ rest => rw [List.mapM_cons,first,rest]; rfl

theorem mapM_number? {numbers : List Nat} (bounds : ∀ number ∈ numbers, number ≤ maxNumber) :
    (numbers.map natural).mapM number? = some numbers := by
  apply mapM_eq_some_of_forall₂
  rw [List.forall₂_map_left_iff,List.forall₂_same]
  intro number listed
  exact if_pos (bounds number listed)

theorem member?_of_mem {members : List (Text × Json)} (distinct : (members.map Prod.fst).Nodup) {key : Text}
    {value : Json} (listed : (key,value) ∈ members) : member? members key = some value := by
  have only : members.filter (fun member => member.1 = key) = [(key,value)] := by
    induction members with
    | nil => contradiction
    | cons member members ih =>
      obtain ⟨new,distinct⟩ := List.nodup_cons.mp distinct
      rcases List.mem_cons.mp listed with rfl | later
      · have others : members.filter (fun member => member.1 = key) = [] := by
          rw [List.filter_eq_nil_iff]
          intro member listed same
          exact new (List.mem_map.mpr ⟨member,listed,of_decide_eq_true same⟩)
        rw [List.filter_cons_of_pos (by simp),others]
      · have apart : member.1 ≠ key := fun same => new (same ▸ List.mem_map_of_mem (f := Prod.fst) later)
        rw [List.filter_cons_of_neg (by simpa using apart),ih distinct later]
  rw [member?,only]

section Fields

variable {keys : List Text} {values : List Json}

theorem fields?_zip (distinct : keys.Nodup) (paired : keys.length = values.length) :
    fields? keys (object (keys.zip values)) = some values := by
  have keysOnce : ((keys.zip values).map Prod.fst).Nodup := by rwa [List.map_fst_zip (Nat.le_of_eq paired)]
  exact mapM_eq_some_of_forall₂ (List.forall₂_iff_zip.mpr ⟨paired,member?_of_mem keysOnce⟩)

theorem Plain.fields (plain : ∀ value ∈ values, value.Plain) : (Json.object (keys.zip values)).Plain :=
  .object fun _ listed => plain _ (List.of_mem_zip listed).2

end Fields

theorem Plain.numbers {keys : List Text} {numbers : List Nat} (bounds : ∀ number ∈ numbers, number ≤ maxNumber) :
    (Json.object (keys.zip (numbers.map Json.natural))).Plain := by
  apply Plain.fields
  intro value listed
  obtain ⟨number,inside,rfl⟩ := List.mem_map.mp listed
  exact .natural (length_digitsOf_le (bounds number inside))

/-- What the text holds for a reader of records. -/
def decode? {α : Type} (ofJson? : Json → Option α) (text : Text) : Option α :=
  (parse? text).bind ofJson?

theorem Plain.decode?_render {json : Json} (plain : json.Plain) {α : Type} {ofJson? : Json → Option α} {value : α}
    (back : ofJson? json = some value) : decode? ofJson? json.render = some value := by
  rw [decode?,plain.parse?_render,Option.bind_some,back]

end Json

open Json

/-- The numbers are ones that a record holds. -/
def Position.Fits (position : Position) : Prop :=
  position.line ≤ maxNumber ∧ position.column ≤ maxNumber

def Span.Fits (span : Span) : Prop :=
  span.start.Fits ∧ span.stop.Fits

theorem TagPayload.plain_toJson (payload : TagPayload) : payload.toJson.Plain :=
  Plain.fields (List.forall_mem_singleton.mpr (.string payload.text))

theorem TagPayload.ofJson?_toJson (payload : TagPayload) : ofJson? payload.toJson = some payload := by
  rw [ofJson?,toJson,fields?_zip (by decide) rfl]
  rfl

theorem Position.bounds {position : Position} (fits : position.Fits) :
    ∀ number ∈ [position.line,position.column], number ≤ maxNumber := by
  simpa [Fits] using fits

theorem Position.plain_toJson {position : Position} (fits : position.Fits) : position.toJson.Plain :=
  Plain.numbers (bounds fits)

theorem Position.ofJson?_toJson {position : Position} (fits : position.Fits) :
    ofJson? position.toJson = some position := by
  rw [ofJson?,toJson,fields?_zip (by decide) rfl]
  change (List.mapM number? ([position.line,position.column].map natural)).bind _ = _
  rw [mapM_number? (bounds fits)]
  rfl

theorem Span.bounds {span : Span} (fits : span.Fits) :
    ∀ number ∈ [span.start.line,span.start.column,span.stop.line,span.stop.column], number ≤ maxNumber := by
  simpa [Fits,Position.Fits,and_assoc] using fits

theorem Span.plain_toJson {span : Span} (fits : span.Fits) : span.toJson.Plain :=
  Plain.numbers (bounds fits)

theorem Span.ofJson?_toJson {span : Span} (fits : span.Fits) : ofJson? span.toJson = some span := by
  rw [ofJson?,toJson,fields?_zip (by decide) rfl]
  change (List.mapM number?
    ([span.start.line,span.start.column,span.stop.line,span.stop.column].map natural)).bind _ = _
  rw [mapM_number? (bounds fits)]
  rfl

theorem DecorationId.ofJson?_toJson (id : DecorationId) : ofJson? id.toJson = some id := by
  simp [ofJson?,toJson,text?]

theorem ReviewStatus.ofJson?_toJson (status : ReviewStatus) : ofJson? status.toJson = some status := by
  cases status <;> rfl

theorem TagIntent.ofJson?_toJson (intent : TagIntent) : ofJson? intent.toJson = some intent := by
  cases intent <;> rfl

theorem records_read_back :
    (∀ payload : TagPayload, parse? payload.toJson.render = some payload.toJson ∧
      decode? TagPayload.ofJson? payload.toJson.render = some payload) ∧
    (∀ position : Position, position.Fits →
      decode? Position.ofJson? position.toJson.render = some position) ∧
    (∀ span : Span, span.Fits → decode? Span.ofJson? span.toJson.render = some span) ∧
    (∀ id : DecorationId, decode? DecorationId.ofJson? id.toJson.render = some id) ∧
    (∀ status : ReviewStatus, decode? ReviewStatus.ofJson? status.toJson.render = some status) ∧
    ∀ intent : TagIntent, decode? TagIntent.ofJson? intent.toJson.render = some intent := by
  refine ⟨fun payload => ⟨payload.plain_toJson.parse?_render,?payload⟩,?position,?span,?id,?status,?intent⟩
  case payload => exact payload.plain_toJson.decode?_render payload.ofJson?_toJson
  case position =>
    intro position fits
    exact (Position.plain_toJson fits).decode?_render (Position.ofJson?_toJson fits)
  case span =>
    intro span fits
    exact (Span.plain_toJson fits).decode?_render (Span.ofJson?_toJson fits)
  case id =>
    intro id
    exact (Plain.string id.name.toList).decode?_render id.ofJson?_toJson
  case status =>
    intro status
    exact (Plain.string status.choice).decode?_render status.ofJson?_toJson
  case intent =>
    intro intent
    exact (Plain.string intent.choice).decode?_render intent.ofJson?_toJson

theorem largest_numbers_read_back :
    let last : Position := ⟨maxNumber,maxNumber⟩
    let span : Span := ⟨⟨1,0⟩,last⟩
    let payload : TagPayload := ⟨['"','\\','\n','\x00','é','\u2028','😀']⟩
    last.Fits ∧ decode? Position.ofJson? last.toJson.render = some last ∧
      span.Fits ∧ decode? Span.ofJson? span.toJson.render = some span ∧
      decode? TagPayload.ofJson? payload.toJson.render = some payload := by
  intro last span payload
  have lastFits : last.Fits := ⟨Nat.le_refl _,Nat.le_refl _⟩
  have spanFits : span.Fits := ⟨⟨by decide,by decide⟩,lastFits⟩
  obtain ⟨payloads,positions,spans,_⟩ := records_read_back
  exact ⟨lastFits,positions last lastFits,spanFits,spans span spanFits,(payloads payload).2⟩

end TagOverlay
