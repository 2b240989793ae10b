import LuaView.Json.Part
import Mathlib.Data.List.Basic

/-!
# Decoding members

A decoder looks up a member, decodes it and goes on with what it has found.  If the member is there
and is decoded to a value, the decoder goes on with that value.  The lemmas below say so for a
member that is decoded in place, for one that is decoded as a part, for one that may be missing, and
for an array of items.
-/

namespace LuaView
namespace Json

variable {α β : Type}
variable {json part : Json}
variable {name : String}

theorem part?_eq_some
    (h : json.get? name = some part) :
    json.part? name = some ⟨part, sizeOf_lt_of_get? h⟩ := by
  unfold part?
  split
  · rename_i found hfound
    obtain rfl : found = part := Option.some.inj (hfound.symm.trans h)
    rfl
  · rename_i hmissing
    rw [h] at hmissing
    cases hmissing

/-- A member that is decoded in place. -/
theorem bind_get?
    {decode : Json → Option α}
    {value : α}
    (hget : json.get? name = some part)
    (hvalue : decode part = some value)
    (next : α → Option β) :
    (json.get? name >>= fun found => decode found >>= next) = next value := by
  rw [hget]
  exact congrArg (· >>= next) hvalue

/-- A member that is a text, from which a value is made. -/
theorem bind_string?
    {ofKey? : String → Option α}
    {key : String}
    {value : α}
    (hget : json.get? name = some (.string key))
    (hvalue : ofKey? key = some value)
    (next : α → Option β) :
    (json.get? name >>= fun found => found.string? >>= fun text => ofKey? text >>= next) =
      next value := by
  rw [hget]
  exact congrArg (· >>= next) hvalue

/-- A member that is decoded as a part of the object. -/
theorem bind_part?
    {decode : Json → Option α}
    {value : α}
    (hget : json.get? name = some part)
    (hvalue : decode part = some value)
    (next : α → Option β) :
    (json.part? name >>= fun part => decode part.val >>= next) = next value := by
  rw [part?_eq_some hget]
  exact congrArg (· >>= next) hvalue

/-- The items of an array are there as parts of it. -/
theorem exists_items? (items : List Json) :
    ∃ parts, (Json.array items).items? = some parts ∧ parts.map Subtype.val = items := by
  refine ⟨_, rfl, ?_⟩
  rw [List.map_map]
  exact List.attach_map_subtype_val items

theorem mapM_parts
    (parts : List (Part json))
    (decode : Json → Option α) :
    parts.mapM (fun part => decode part.val) = (parts.map Subtype.val).mapM decode :=
  List.mapM_map.symm

/-- The items of an array, decoded one by one. -/
theorem bind_items?
    {decode : Json → Option α}
    {items : List Json}
    {values : List α}
    (hvalues : items.mapM decode = some values)
    (next : List α → Option β) :
    ((Json.array items).items? >>= fun parts =>
      parts.mapM (fun part => decode part.val) >>= next) = next values := by
  obtain ⟨parts, hparts, hitems⟩ := exists_items? items
  have hdecoded : parts.mapM (fun part => decode part.val) = some values := by
    rw [mapM_parts, hitems, hvalues]
  rw [hparts]
  exact congrArg (· >>= next) hdecoded

/-- The items of an array that a member holds. -/
theorem bind_itemsOf?
    {decode : Json → Option α}
    {items : List Json}
    {values : List α}
    (hget : json.get? name = some (.array items))
    (hvalues : items.mapM decode = some values)
    (next : List α → Option β) :
    (json.itemsOf? name >>= fun parts => parts.mapM (fun part => decode part.val) >>= next) =
      next values := by
  obtain ⟨parts, hparts, hitems⟩ := exists_items? items
  have hdecoded : ∀ smaller : List (Part json), smaller.map Subtype.val = items →
      smaller.mapM (fun part => decode part.val) = some values := by
    intro smaller hsmaller
    rw [mapM_parts, hsmaller, hvalues]
  rw [itemsOf?, part?_eq_some hget]
  change (((Json.array items).items? >>= fun items => _) >>= _) = _
  rw [hparts]
  refine congrArg (· >>= next) (hdecoded _ ?_)
  rw [List.map_map]
  exact hitems

/-- A member that is not `null`, where it may be missing. -/
theorem optionalPart_eq_some
    (hget : json.get? name = some part)
    (hpart : part ≠ .null) :
    json.optionalPart name = some ⟨part, sizeOf_lt_of_get? hget⟩ := by
  rw [optionalPart, part?_eq_some hget]
  split
  · rename_i hnull
    cases hnull
    exact absurd rfl hpart
  · rfl

theorem optionalPart_eq_none
    (hget : json.get? name = some .null) :
    json.optionalPart name = none := by
  rw [optionalPart, part?_eq_some hget]

end Json
end LuaView
