import Stencil.Live.Fragment
import Stencil.Proofs.Markup.Reading
import Stencil.Proofs.Template.Numbered

/-! # Plain templates

A plain template is made of elements and texts only, with proper tags and keys and without tags in
its texts.
-/
namespace Stencil.Node

/-- A tree of elements and texts that any settings and any document take for what it is. -/
inductive Plain (settings : Settings) : Node → Prop
  | text {markup : String} (h : '<' ∉ markup.toList) : Plain settings (.text markup)
  | element {tag : String} {point : PointSpec} {attributes : Attributes} {children : List Node}
      (word : Markup.IsWord tag) (written : ¬ settings.isVoid tag) (parent : ¬ Live.isChildless tag)
      (keys : Markup.HasKeys attributes) (inner : ∀ child ∈ children, Plain settings child) :
      Plain settings (.element tag point attributes children)

/-- The children of an element. -/
def inner : Node → List Node
  | element _ _ _ children => children
  | _ => []

theorem Plain.inner {settings : Settings} {node : Node} (h : node.Plain settings) :
    ∀ child ∈ node.inner, child.Plain settings := by
  cases h with
  | text => nofun
  | element _ _ _ _ inner => exact inner

theorem sizeList_inner_lt (node : Node) : sizeList node.inner < node.size := by
  cases node with
  | element => exact Nat.lt_succ_self _
  | text => exact Nat.one_pos
  | reference => exact Nat.succ_pos _

end Stencil.Node
