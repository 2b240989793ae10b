import LuaView.Json.Value

/-!
# Parts of a JSON value

A part of a value is a value inside it, together with the fact that it is smaller.  Decoders that
look up members by name recurse on parts, so that they end on every value.
-/

namespace LuaView
namespace Json

/-- A value that is smaller than the given one. -/
abbrev Part (json : Json) := { part : Json // sizeOf part < sizeOf json }

theorem sizeOf_lt_of_member? {name : String} {members : List (String × Json)} {value : Json}
    (h : member? name members = some value) : sizeOf value < sizeOf members := by
  induction members with
  | nil => simp [member?] at h
  | cons head rest ih =>
      obtain ⟨key, first⟩ := head
      simp only [member?] at h
      split at h
      · obtain rfl := Option.some.inj h
        simp only [List.cons.sizeOf_spec, Prod.mk.sizeOf_spec]
        omega
      · have := ih h
        simp only [List.cons.sizeOf_spec]
        omega

theorem sizeOf_lt_of_get? {name : String} {json value : Json}
    (h : json.get? name = some value) : sizeOf value < sizeOf json := by
  cases json with
  | object members =>
      have := sizeOf_lt_of_member? h
      simp only [object.sizeOf_spec]
      omega
  | _ => simp [get?] at h

/-- The member of a name, as a part of the object. -/
def part? (name : String) (json : Json) : Option (Part json) :=
  match h : json.get? name with
  | some value => some ⟨value, sizeOf_lt_of_get? h⟩
  | none => none

/-- The member of a name, where a missing member and `null` both stand for nothing. -/
def optionalPart (name : String) (json : Json) : Option (Part json) :=
  match json.part? name with
  | some ⟨.null, _⟩ => none
  | found => found

theorem sizeOf_lt_of_mem {item : Json} {items : List Json}
    (h : item ∈ items) : sizeOf item < sizeOf (array items) := by
  have := List.sizeOf_lt_of_mem h
  simp only [array.sizeOf_spec]
  omega

/-- The items of an array, as parts of it. -/
def items? : (json : Json) → Option (List (Part json))
  | .array items => some (items.attach.map fun item => ⟨item.val, sizeOf_lt_of_mem item.property⟩)
  | _ => none

/-- The items of the array that a member holds. -/
def itemsOf? (name : String) (json : Json) : Option (List (Part json)) := do
  let part ← json.part? name
  let items ← part.val.items?
  pure (items.map fun item => ⟨item.val, Nat.lt_trans item.property part.property⟩)

theorem Part.sizeOf_lt {json : Json} (part : Part json) : sizeOf part.val < sizeOf json :=
  part.property

/-- The only member of an object is larger than each of its parts. -/
theorem Part.sizeOf_lt_variant {tag : String} {payload : Json} (part : Part payload) :
    sizeOf part.val < sizeOf (Json.object [(tag, payload)]) := by
  have := part.property
  simp only [object.sizeOf_spec, List.cons.sizeOf_spec, Prod.mk.sizeOf_spec]
  omega

theorem sizeOf_lt_variant (tag : String) (payload : Json) :
    sizeOf payload < sizeOf (Json.object [(tag, payload)]) := by
  simp only [object.sizeOf_spec, List.cons.sizeOf_spec, Prod.mk.sizeOf_spec]
  omega

end Json
end LuaView
