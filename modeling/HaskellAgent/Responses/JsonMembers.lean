import HaskellAgent.Lib.JsonReader
import HaskellAgent.Responses.WireItems

/-!
# The members of JSON objects

How the members of an object are read and written.  Reading is over the values of documents.  Of
several members with one key it takes the first; a member that may be left out may also be `null`.
-/

open List

namespace HaskellAgent.Wire

/-- How the JSON library writes a number, and what it reads of a text. -/
structure JsonCodec where
  renderNumber : ℤ → ℤ → Text
  parse : Text → Option Json

/-- Reading gives normal values, and is inverse to writing. -/
structure JsonCodec.Lawful (codec : JsonCodec) : Prop where
  parse_render : ∀ v : Json, codec.parse (v.render codec.renderNumber) = some v.norm
  norm_of_parse : ∀ {text : Text} {v : Json}, codec.parse text = some v → v.norm = v

def JsonCodec.encode (codec : JsonCodec) (v : Json) : Text := v.render codec.renderNumber

/-! ### Reading -/

abbrev Decoder (α : Type) := Json → Option α

abbrev FieldsDecoder (α : Type) := Object → Option α

namespace Hermes

def text : Decoder Text
  | .string s => some s
  | _ => none

def bool : Decoder Bool
  | .bool value => some value
  | _ => none

/-- A machine integer, written as one. -/
def int : Decoder ℤ
  | .number c e => if e = 0 ∧ -2 ^ 63 ≤ c ∧ c < 2 ^ 63 then some c else none
  | _ => none

def list {α : Type} (decoder : Decoder α) : Decoder (List α)
  | .array xs => xs.mapM decoder
  | _ => none

def nullable {α : Type} (decoder : Decoder α) : Decoder (Option α)
  | .null => some none
  | v => (decoder v).map some

def object {α : Type} (fields : FieldsDecoder α) : Decoder α
  | .object members => fields members
  | _ => none

def atKey {α : Type} (key : String) (decoder : Decoder α) : FieldsDecoder α :=
  fun members => (members.lookup key.toList).bind decoder

def atKeyOptional {α : Type} (key : String) (decoder : Decoder α) : FieldsDecoder (Option α) :=
  fun members =>
    match members.lookup key.toList with
    | none => some none
    | some v => (decoder v).map some

def objectAsKeyValues {α : Type} (decoder : Decoder α) : Decoder (List (Text × α))
  | .object members => members.mapM fun m => (decoder m.2).map fun a => (m.1, a)
  | _ => none

end Hermes

/-- A missing or explicit `null` member is `none`. -/
def optionalAtKey {α : Type} (key : String) (decoder : Decoder α) : FieldsDecoder (Option α) :=
  fun members => (Hermes.atKeyOptional key (Hermes.nullable decoder) members).map Option.join

/-- A number whose value is an integer. -/
def integerDecoder : Decoder ℤ
  | .number c e => if (Json.normNumber c e).2 = 0 then some (Json.normNumber c e).1 else none
  | _ => none

def boundedComputerInt (value : ℤ) : Option ℤ :=
  if value < -2 ^ 63 ∨ 2 ^ 63 - 1 < value then none else some value

/-! ### Writing -/

/-- A member, which is left out where it has no value. -/
abbrev Field := Text × Option Json

def field (name : String) (value : Json) : Field := (name.toList, some value)

def membersOf (fields : List Field) : Object := fields.filterMap fun f => f.2.map fun v => (f.1, v)

def objectWith (fields : List Field) : Json := .object (membersOf fields)

def string (s : String) : Json := .string s.toList

def integer (n : ℤ) : Json := .number n 0

def listOf {α : Type} (toJson : α → Json) (xs : List α) : Json := .array (xs.map toJson)

/-! ### What is written is read again -/

variable {α : Type}

/-- The members of what is written as an object of the fields. -/
def Written (fields : List Field) (members : Object) : Prop :=
  ∀ ⦃key o⦄, fields.lookup key = some o → members.lookup key = o.map Json.norm

theorem bind_some {β : Type} {x : Option α} {f : α → Option β} {a : α} {b : β} (hx : x = some a)
    (hf : f a = some b) : (x >>= f) = some b := by
  rw [hx]
  exact hf

/-! ### Objects -/

theorem keys_membersOf_sublist (fields : List Field) :
    ((membersOf fields).map Prod.fst).Sublist (fields.map Prod.fst) := by
  induction fields with
  | nil => exact List.Sublist.refl _
  | cons f fields ih =>
    obtain ⟨key, o⟩ := f
    cases o with
    | none => exact ih.cons key
    | some v => exact ih.cons_cons key

variable {fields : List Field}

theorem lookup_membersOf (hnodup : (fields.map Prod.fst).Nodup) {key : Text}
    {o : Option Json} (h : fields.lookup key = some o) : (membersOf fields).lookup key = o := by
  induction fields with
  | nil => cases h
  | cons f fields ih =>
    obtain ⟨name, value⟩ := f
    rw [map_cons, nodup_cons] at hnodup
    rw [lookup_cons] at h
    by_cases hkey : key = name
    · subst hkey
      obtain rfl : value = o := by simpa using h
      cases value with
      | some v => simp [membersOf]
      | none =>
        have hnot : key ∉ (membersOf fields).map Prod.fst :=
          fun hin => hnodup.1 ((keys_membersOf_sublist fields).subset hin)
        have hlookup : (membersOf fields).lookup key = none := by
          rw [List.lookup_eq_none_iff]
          intro m hm
          have hne : key ≠ m.1 := fun heq => hnot (List.mem_map.mpr ⟨m, hm, heq.symm⟩)
          simpa using hne
        simpa [membersOf] using hlookup
    · have hbeq : (key == name) = false := by simpa using hkey
      rw [hbeq] at h
      cases value with
      | some v =>
        have htail := ih hnodup.2 h
        simpa [membersOf, lookup_cons, hbeq] using htail
      | none =>
        have htail := ih hnodup.2 h
        simpa [membersOf] using htail

theorem lookup_map_norm (members : Object) (key : Text) :
    (members.map fun m => (m.1, m.2.norm)).lookup key = (members.lookup key).map Json.norm := by
  induction members with
  | nil => rfl
  | cons m members ih =>
    rw [map_cons, lookup_cons, lookup_cons, ih]
    cases key == m.1 <;> rfl

/-- An object that is written has its fields as members. -/
theorem norm_objectWith (hnodup : (fields.map Prod.fst).Nodup) :
    (objectWith fields).norm = .object ((membersOf fields).map fun m => (m.1, m.2.norm)) := by
  have hkeys := hnodup.sublist (keys_membersOf_sublist fields)
  rw [objectWith, Json.norm, Json.normMembers_eq_map, Json.lastMembers_map Json.norm,
    Json.lastMembers_eq_self hkeys]

theorem written_norm (hnodup : (fields.map Prod.fst).Nodup) :
    Written fields ((membersOf fields).map fun m => (m.1, m.2.norm)) := by
  intro key o h
  rw [lookup_map_norm, lookup_membersOf hnodup h]

theorem reads_objectWith {read : FieldsDecoder α} {a : α}
    (hnodup : (fields.map Prod.fst).Nodup)
    (h : ∀ members, Written fields members → read members = some a) :
    Hermes.object read (objectWith fields).norm = some a := by
  rw [norm_objectWith hnodup]
  exact h _ (written_norm hnodup)

/-! ### Members -/

theorem norm_ne_null {v : Json} (h : v ≠ .null) : v.norm ≠ .null := by
  cases v with
  | null => exact absurd rfl h
  | _ => rw [Json.norm]; exact fun h => nomatch h

theorem text_string (s : Text) : Hermes.text (Json.string s).norm = some s := by
  rw [Json.norm]
  rfl

theorem integer_ne_null {n : ℤ} : integer n ≠ .null := fun h => nomatch h

theorem nullable_of_ne_null {decoder : Decoder α} {v : Json} (h : v ≠ .null) :
    Hermes.nullable decoder v = (decoder v).map some := by
  cases v with
  | null => exact absurd rfl h
  | _ => rfl

section Fields

variable {decoder : Decoder α} {toJson : α → Json} {key : String} {source members : Object}
  {fields : List Field}

/-- A member that is there is read. -/
theorem Written.present (hw : Written fields members) {a : α}
    (hread : decoder (toJson a).norm = some a) (hne : toJson a ≠ .null)
    (hfield : fields.lookup key.toList = some (some (toJson a))) :
    optionalAtKey key decoder members = some (some a) := by
  have hmember : members.lookup key.toList = some (toJson a).norm := hw hfield
  rw [optionalAtKey, Hermes.atKeyOptional, hmember]
  simp only [nullable_of_ne_null (norm_ne_null hne), hread]
  rfl

/-- The type of what is written. -/
theorem Written.tag (hw : Written fields members) {s : Text}
    (hfield : fields.lookup key.toList = some (some (.string s))) :
    Hermes.atKey key Hermes.text members = some s := by
  rw [Hermes.atKey, hw hfield]
  exact text_string s

end Fields

/-! ### Simple values -/

theorem normNumber_integer (n : ℤ) : Json.normNumber n 0 = (n, 0) := by
  rw [show (0 : ℤ) = Int.ofNat 0 from rfl, Json.normNumber, pow_zero, mul_one]
  rfl

theorem norm_integer (n : ℤ) : (integer n).norm = integer n := by
  rw [integer, Json.norm, normNumber_integer]

theorem listOf_ne_null {toJson : α → Json} {as : List α} : listOf toJson as ≠ .null :=
  fun h => nomatch h

end HaskellAgent.Wire
