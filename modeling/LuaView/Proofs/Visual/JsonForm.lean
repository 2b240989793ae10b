import LuaView.Markup.Render
import LuaView.Proofs.Json.Members
import LuaView.Proofs.Json.Writing

/-!
# Elements are read back from their JSON form

An element is encoded with the name of its alternative, and each of its members with a name.
Decoding undoes encoding, and what is written of an element in the JSON format is a spelling of its
encoding.  So nothing of an element is lost, whatever its texts are and however wide the indent is.
-/

namespace LuaView

attribute [local simp] Json.get? Json.member?

/-! ## Encoding and decoding -/

theorem Role.ofKey?_key (role : Role) :
    Role.ofKey? role.key = some role := by
  cases role <;> decide

theorem Layout.ofKey?_key (layout : Layout) :
    Layout.ofKey? layout.key = some layout := by
  cases layout <;> decide

theorem Emphasis.ofKey?_key (emphasis : Emphasis) :
    Emphasis.ofKey? emphasis.key = some emphasis := by
  cases emphasis <;> decide

namespace Element

mutual

/-- An element is read back from its object. -/
theorem ofJson?_toJson :
    ∀ element : Element, ofJson? element.toJson = some element
  | .container role layout children => by
      rw [toJson, ofJson?]
      refine (Json.bind_string? (by simp) (Role.ofKey?_key role) _).trans ?_
      refine (Json.bind_string? (by simp) (Layout.ofKey?_key layout) _).trans ?_
      exact Json.bind_itemsOf? (by simp) (mapM_ofJson?_allToJson children) _
  | .text run => by
      rw [toJson, ofJson?]
      rfl
  | .leaf word emphasis => by
      rw [toJson, ofJson?]
      have hword : Json.string? (.string word) = some word := rfl
      refine (Json.bind_get? (by simp) hword _).trans ?_
      exact Json.bind_string? (by simp) (Emphasis.ofKey?_key emphasis) _

/-- Children are read back one by one. -/
theorem mapM_ofJson?_allToJson :
    ∀ children : List Element, (allToJson children).mapM ofJson? = some children
  | [] => rfl
  | child :: rest => by
      rw [allToJson, List.mapM_cons, ofJson?_toJson child, mapM_ofJson?_allToJson rest]
      rfl

end

mutual

/-- There are no numbers in the JSON form of an element. -/
theorem hasNumerals_toJson :
    ∀ element : Element, element.toJson.HasNumerals
  | .container _ _ children =>
      ⟨⟨trivial, trivial, allHaveNumerals_allToJson children, trivial⟩, trivial⟩
  | .text _ => ⟨trivial, trivial⟩
  | .leaf _ _ => ⟨⟨trivial, trivial, trivial⟩, trivial⟩

theorem allHaveNumerals_allToJson :
    ∀ children : List Element, Json.AllHaveNumerals (allToJson children)
  | [] => trivial
  | child :: rest => ⟨hasNumerals_toJson child, allHaveNumerals_allToJson rest⟩

end

/-! ## Rendering -/

/-- The rendered text spells the object of the element. -/
theorem spells_render_json
    (element : Element)
    (settings : Settings) :
    Json.Spells (.value element.toJson) (element.render .json settings).toList := by
  have hspells := Json.spells_write (Json.Layout.isBlank_indented settings.indent)
    element.hasNumerals_toJson
  rw [render, Json.indented, String.toList_ofList]
  exact hspells

/-- The rendered text is read back as the element. -/
theorem read_render_json
    (element : Element)
    (settings : Settings) :
    (Json.parse? (element.render .json settings)).bind ofJson? = some element := by
  have hparse : Json.parse? (element.render .json settings) = some element.toJson :=
    Json.parse?_write (Json.Layout.isBlank_indented settings.indent) element.hasNumerals_toJson
  rw [hparse]
  exact element.ofJson?_toJson

/-- What is written of an element in the JSON format is JSON, and the element is decoded from it.
No other element is written in the same way, with whatever settings. -/
theorem render_json_lossless
    (element : Element)
    (settings : Settings) :
    Json.Spells (.value element.toJson) (element.render .json settings).toList ∧
    (Json.parse? (element.render .json settings)).bind ofJson? = some element ∧
    ∀ (other : Element) (settings' : Settings),
      other.render .json settings' = element.render .json settings → other = element := by
  refine ⟨element.spells_render_json settings, element.read_render_json settings, ?_⟩
  intro other settings' hsame
  have hother := other.read_render_json settings'
  rw [hsame, element.read_render_json settings] at hother
  exact (Option.some.inj hother).symm

end Element
end LuaView
