import LuaView.Json.Part
import LuaView.Visual.Element

/-!
# Elements as JSON

The JSON form of an element is an object with one member, named `container`, `text` or `leaf`.
-/

namespace LuaView
namespace Element

open Json (Part)

mutual

def toJson : Element → Json
  | .container role layout children =>
      .object [("container", .object
        [("role", .string role.key), ("layout", .string layout.key),
          ("children", .array (allToJson children))])]
  | .text run => .object [("text", .string run)]
  | .leaf word emphasis =>
      .object [("leaf", .object [("text", .string word), ("emphasis", .string emphasis.key)])]

def allToJson : List Element → List Json
  | [] => []
  | child :: rest => child.toJson :: allToJson rest

end

def ofJson? : Json → Option Element
  | .object [(tag, payload)] =>
      match tag with
      | "container" => do
          let role ← Role.ofKey? (← (← payload.get? "role").string?)
          let layout ← Layout.ofKey? (← (← payload.get? "layout").string?)
          let children ← payload.itemsOf? "children"
          pure (.container role layout (← children.mapM fun child => ofJson? child.val))
      | "text" => payload.string?.map .text
      | "leaf" => do
          let word ← (← payload.get? "text").string?
          let emphasis ← Emphasis.ofKey? (← (← payload.get? "emphasis").string?)
          pure (.leaf word emphasis)
      | _ => none
  | _ => none
termination_by json => sizeOf json
decreasing_by all_goals exact Part.sizeOf_lt_variant _

end Element
end LuaView
