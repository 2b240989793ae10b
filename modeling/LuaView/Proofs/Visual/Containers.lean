import LuaView.Visual.Element

/-!
# Conditions on containers

A condition on containers looks at the role of a container, its layout and its children.
`Element.Every` asks it of every container of an element, at any depth.
-/

namespace LuaView
namespace Element

variable {condition : Role → Layout → List Element → Prop}

mutual

/-- Every container of the element satisfies the condition. -/
def Every (condition : Role → Layout → List Element → Prop) : Element → Prop
  | .container role layout children =>
      condition role layout children ∧ EveryOfAll condition children
  | .text _ => True
  | .leaf _ _ => True

def EveryOfAll (condition : Role → Layout → List Element → Prop) : List Element → Prop
  | [] => True
  | child :: rest => child.Every condition ∧ EveryOfAll condition rest

end

/-- A condition at every node of a list is the condition at every node of each element. -/
theorem everyOfAll_iff
    {elements : List Element} :
    EveryOfAll condition elements ↔ ∀ element ∈ elements, element.Every condition := by
  induction elements with
  | nil => exact iff_of_true trivial nofun
  | cons element elements ih => rw [List.forall_mem_cons, EveryOfAll, ih]

end Element
end LuaView
