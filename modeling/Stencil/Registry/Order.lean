import Stencil.Template.Node

/-! # Ordering declarations

Declarations are sorted so that each comes behind the declared templates it references, by a
depth-first walk that takes them as they were declared and their references in the order of names.
Names that are not declared are left out. A walk that comes back to a template it has not finished
has found a cycle of references.
-/
namespace Stencil

namespace Declarations

/-- How many declared names are not on the way from the start of the walk. -/
def unvisited (declared : NameMap Node) (visiting : List String) : Nat :=
  (declared.names.filter (· ∉ visiting)).length

theorem unvisited_lt {declared : NameMap Node} {visiting : List String} {name : String}
    {root : Node}
    (hd : declared.find? name = some root) (hv : name ∉ visiting) :
    unvisited declared (visiting ++ [name]) < unvisited declared visiting := by
  have hm : name ∈ declared.names := by
    induction declared with
    | nil => simp at hd
    | cons e rest ih =>
      rw [NameMap.find?_cons] at hd
      by_cases he : name = e.1
      · simp [NameMap.names, he]
      · rw [if_neg he] at hd
        simpa [NameMap.names] using Or.inr (by simpa [NameMap.names] using ih hd)
  have hs : declared.names.filter (· ∉ visiting ++ [name]) =
      (declared.names.filter (· ∉ visiting)).filter (· ≠ name) := by
    rw [List.filter_filter]
    congr 1
    funext x
    by_cases h₁ : x ∈ visiting <;> by_cases h₂ : x = name <;> simp [h₁, h₂]
  unfold unvisited
  rw [hs]
  exact List.length_filter_lt_length_iff_exists.mpr ⟨name, by simp [hm, hv], by simp⟩

mutual

/-- Appends a template and what it references to `done`; `visiting` are the templates on the way to
it. The error is a cycle, from a name back to the same name. -/
def visit (declared : NameMap Node) (visiting done : List String) (name : String) :
    Except (List String) (List String) :=
  if name ∈ done then .ok done
  else if hv : name ∈ visiting then .error (visiting.dropWhile (· ≠ name) ++ [name])
  else
    match hd : declared.find? name with
    | none => .ok done
    | some root =>
      have _fewer := unvisited_lt hd hv
      (visitAll declared (visiting ++ [name]) done root.referencedTemplates).map (· ++ [name])
termination_by (unvisited declared visiting, 0)
decreasing_by exact Prod.Lex.left _ _ _fewer

def visitAll (declared : NameMap Node) (visiting done : List String) :
    List String → Except (List String) (List String)
  | [] => .ok done
  | name :: rest => do
    let done ← visit declared visiting done name
    visitAll declared visiting done rest
termination_by names => (unvisited declared visiting, names.length + 1)

end

/-- The declared names, each behind those it references; `order` is the order of declaration. -/
def sort (declared : NameMap Node) (order : List String) : Except (List String) (List String) :=
  visitAll declared [] [] order

end Declarations
end Stencil
