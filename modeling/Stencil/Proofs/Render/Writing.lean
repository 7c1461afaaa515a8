import Stencil.Proofs.Render.Emission
import Stencil.Render.Template

/-! # What is written

Pieces are written one after another, so the markup of a list of pieces falls apart wherever the
list does. A rendering that does not come to an end leaves all that contains it without one.
-/
namespace Stencil

namespace Piece
variable {quote : QuoteStyle}

theorem writeList_append (quote : QuoteStyle) (a b : List Piece) :
    writeList quote (a ++ b) = writeList quote a ++ writeList quote b := by
  induction a with
  | nil => exact String.empty_append.symm
  | cons p a ih => rw [List.cons_append, writeList, writeList, ih, String.append_assoc]

theorem writeList_singleton (quote : QuoteStyle) (p : Piece) :
    writeList quote [p] = write quote p := String.append_empty

theorem writeList_flatten (quote : QuoteStyle) (lists : List (List Piece)) :
    writeList quote lists.flatten = String.join (lists.map (writeList quote)) := by
  induction lists with
  | nil => rfl
  | cons list lists ih =>
    rw [List.flatten_cons, writeList_append, ih, List.map_cons, String.join_cons]

end Piece

namespace Render
variable (settings : Settings) (inclusion : Inclusion)

/-- The markup of a node, if its rendering ends. -/
def markup (isRoot : Bool) (scopes : List Record) (n : Node) : Option String :=
  (node settings inclusion isRoot scopes n).map (Piece.writeList settings.quote)

theorem fragment_nil (scopes : List Record) :
    fragment settings inclusion scopes [] = some "" := rfl

theorem fragment_cons (scopes : List Record) (child : Node) (rest : List Node) :
    fragment settings inclusion scopes (child :: rest) = do
      let here ← markup settings inclusion false scopes child
      let later ← fragment settings inclusion scopes rest
      return here ++ later := by
  unfold fragment markup
  rw [nodes]
  cases node settings inclusion false scopes child with
  | none => rfl
  | some here =>
    cases nodes settings inclusion scopes rest with
    | none => rfl
    | some later => exact congrArg some (Piece.writeList_append ..)

theorem fragment_append (scopes : List Record) (pre post : List Node) :
    fragment settings inclusion scopes (pre ++ post) = do
      let before ← fragment settings inclusion scopes pre
      let after ← fragment settings inclusion scopes post
      return before ++ after := by
  induction pre with
  | nil => simp [fragment_nil]
  | cons child pre ih => simp [fragment_cons, ih, Option.bind_assoc, String.append_assoc]

theorem markup_element {tag : String} {point : PointSpec} {attributes : Attributes}
    {children : List Node} {isRoot : Bool} {scopes : List Record} {overrides : Option Attributes}
    (hvoid : settings.isVoid tag = false)
    (h : emissions point isRoot scopes = .ok [⟨none, overrides⟩]) :
    markup settings inclusion isRoot scopes (.element tag point attributes children) =
      do
        let content ← fragment settings inclusion scopes children
        return Markup.openTag tag (attributes.merged overrides) settings.quote false ++ content ++
          Markup.closeTag tag := by
  unfold markup fragment
  rw [node_element, h]
  simp only [emitAll, List.mapM_cons, List.mapM_nil, emit, emitElement, surround, hvoid, inside]
  cases nodes settings inclusion scopes children with
  | none => rfl
  | some content => exact congrArg some (Piece.writeList_singleton ..)

theorem mapM_congr {α β : Type} {f g : α → Option β} {l : List α} (h : ∀ a ∈ l, f a = g a) :
    l.mapM f = l.mapM g := by
  induction l with
  | nil => rfl
  | cons a l ih =>
    obtain ⟨hhead, htail⟩ := List.forall_mem_cons.1 h
    rw [List.mapM_cons, List.mapM_cons, hhead, ih htail]

theorem write_emitAll (quote : QuoteStyle) (emit : Emission → Option (List Piece))
    (found : List Emission) :
    (emitAll emit (.ok found)).map (Piece.writeList quote) =
      (found.mapM fun e => (emit e).map (Piece.writeList quote)).map String.join := by
  have hmap : (found.mapM fun e => (emit e).map (Piece.writeList quote)) =
      (found.mapM emit).map (List.map (Piece.writeList quote)) := by
    induction found with
    | nil => rfl
    | cons e found ih =>
      rw [List.mapM_cons, List.mapM_cons, ih]
      cases emit e with
      | none => rfl
      | some here => cases found.mapM emit <;> rfl
  rw [hmap, Option.map_map, emitAll, Option.map_map]
  congr 1
  exact funext fun lists => Piece.writeList_flatten quote lists

theorem write_emitAll_singleton (quote : QuoteStyle) (emit : Emission → Option (List Piece))
    (e : Emission) :
    (emitAll emit (.ok [e])).map (Piece.writeList quote) =
      (emit e).map (Piece.writeList quote) := by
  rw [write_emitAll, List.mapM_cons, List.mapM_nil]
  cases emit e with
  | none => rfl
  | some pieces => exact congrArg some (by simp [String.join_cons])

end Render
end Stencil
