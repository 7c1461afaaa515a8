import Stencil.Proofs.Live.Draft
import Stencil.Render.Piece

/-! # Outlines

An outline is what is left of a tree when its texts and attributes are taken away: the elements with
their tags, in order. Rendered pieces, fragments and drafts all have one. What a draft comes to in
outline depends on nothing but its own outline and the tags that are still to be read.
-/
namespace Stencil

inductive Outline
  | node (tag : String) (children : List Outline)

namespace Outline

def tag : Outline → String
  | node tag _ => tag

def children : Outline → List Outline
  | node _ children => children

end Outline

namespace Live

namespace Fragment

mutual

/-- The outline of an element; a text has none. -/
def outlines : Fragment → List Outline
  | text _ => []
  | element tag _ children => [.node tag (outlinesList children)]

def outlinesList : List Fragment → List Outline
  | [] => []
  | child :: rest => outlines child ++ outlinesList rest

end

theorem outlinesList_append (a b : List Fragment) :
    outlinesList (a ++ b) = outlinesList a ++ outlinesList b := by
  induction a with
  | nil => rfl
  | cons f a ih => rw [List.cons_append, outlinesList, outlinesList, ih, List.append_assoc]

theorem outlinesList_singleton (f : Fragment) : outlinesList [f] = f.outlines := by
  rw [outlinesList, outlinesList, List.append_nil]

end Fragment

namespace Frame
variable {f g : Frame}

/-- The tag of an open element and the outlines of what stands in it. -/
def shape (f : Frame) : String × List Outline := (f.tag, Fragment.outlinesList f.before)

theorem shape_add (f : Frame) (child : Fragment) :
    (f.add child).shape = (f.shape.1, f.shape.2 ++ child.outlines) := by
  rw [shape, add, Fragment.outlinesList_append, Fragment.outlinesList_singleton]
  rfl

theorem shape_addText (f : Frame) (s : String) : (f.addText s).shape = f.shape := by
  unfold addText
  split
  · next t ht =>
    obtain ⟨pre, hpre⟩ := List.getLast?_eq_some_iff.1 ht
    rw [shape, shape, hpre, List.dropLast_concat, Fragment.outlinesList_append,
      Fragment.outlinesList_append]
    rfl
  · rw [shape_add, Fragment.outlines, List.append_nil]

theorem outlines_close (f : Frame) : f.close.outlines = [.node f.shape.1 f.shape.2] := rfl

end Frame

namespace Draft
variable {b c : Draft} {f g : Frame} {outer rest : List Frame} {tag : String}

/-- The outline of what has been read, the innermost open element first. -/
def shape (b : Draft) : List (String × List Outline) := (b.inner :: b.outer).map Frame.shape

theorem isOpen_congr (h : (f :: outer).map Frame.shape = (g :: rest).map Frame.shape) :
    isOpen tag f outer = isOpen tag g rest := by
  induction outer generalizing f g rest with
  | nil =>
    cases rest with
    | nil => rfl
    | cons => simp at h
  | cons f' outer ih =>
    cases rest with
    | nil => simp at h
    | cons g' rest =>
      obtain ⟨hhead, htail⟩ := List.cons.inj h
      have htag : f.tag = g.tag := congrArg Prod.fst hhead
      rw [isOpen, isOpen, htag, ih htail]

theorem shape_add_close_congr {f' g' : Frame} (hf : f.shape = g.shape) (hf' : f'.shape = g'.shape) :
    (f'.add f.close).shape = (g'.add g.close).shape := by
  rw [Frame.shape_add, Frame.shape_add, Frame.outlines_close, Frame.outlines_close, hf, hf']

theorem closeThrough_congr (h : (f :: outer).map Frame.shape = (g :: rest).map Frame.shape) :
    (closeThrough tag f outer).shape = (closeThrough tag g rest).shape := by
  induction outer generalizing f g rest with
  | nil =>
    cases rest with
    | nil => exact h
    | cons => simp at h
  | cons f' outer ih =>
    cases rest with
    | nil => simp at h
    | cons g' rest =>
      obtain ⟨hhead, htail⟩ := List.cons.inj h
      obtain ⟨hnext, hrest⟩ := List.cons.inj htail
      have htag : f.tag = g.tag := congrArg Prod.fst hhead
      have hadd := shape_add_close_congr hhead hnext
      rw [closeThrough, closeThrough, htag]
      split
      · exact congrArg₂ List.cons hadd hrest
      · exact ih (congrArg₂ List.cons hadd hrest)

theorem shape_step_text (b : Draft) (s : String) : (b.step (.text s)).shape = b.shape :=
  congrArg (· :: b.outer.map Frame.shape) (b.inner.shape_addText s)

theorem shape_step_congr (h : b.shape = c.shape) (token : Markup.Token) :
    (b.step token).shape = (c.step token).shape := by
  obtain ⟨hinner, houter⟩ := List.cons.inj h
  cases token with
  | startTag name attributes closing =>
    simp only [step]
    split
    · refine congrArg₂ List.cons ?_ houter
      rw [Frame.shape_add, Frame.shape_add, hinner]
    · exact congrArg₂ List.cons rfl h
  | endTag name =>
    simp only [step, isOpen_congr h]
    split
    · exact closeThrough_congr h
    · exact h
  | text s => rw [shape_step_text, shape_step_text, h]

theorem shape_run_congr (h : b.shape = c.shape) (tokens : List Markup.Token) :
    (tokens.foldl step b).shape = (tokens.foldl step c).shape := by
  induction tokens generalizing b c with
  | nil => exact h
  | cons token tokens ih => exact ih (shape_step_congr h token)

end Draft
end Live

namespace Piece

mutual

/-- The outline of the element that a piece is. -/
def outlines : Piece → List Outline
  | raw _ => []
  | element tag _ content => [.node tag (outlinesList content)]
  | void tag _ => [.node tag []]
  | marker _ => [.node "error" []]

def outlinesList : List Piece → List Outline
  | [] => []
  | piece :: rest => outlines piece ++ outlinesList rest

end

end Piece
end Stencil
