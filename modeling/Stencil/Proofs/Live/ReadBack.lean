import Stencil.Proofs.Live.Outline
import Stencil.Proofs.Live.Reachable
import Stencil.Proofs.Markup.Reading

/-! # Reading rendered markup back

Pieces whose tags, keys and texts keep to the rules are written as markup that is read back in the
same outline, at whatever place it stands and inside whatever it is wrapped.
-/
namespace Stencil
open Markup

/-- A piece that markup is read back from: its raw parts hold no tags, and its elements have proper
tags and keys and may have children. -/
inductive Piece.Readable : Piece → Prop
  | raw {markup : String} (h : '<' ∉ markup.toList) : Readable (.raw markup)
  | element {tag : String} {attributes : Attributes} {content : List Piece} (word : IsWord tag)
      (parent : ¬ Live.isChildless tag) (keys : HasKeys attributes)
      (inner : ∀ piece ∈ content, Readable piece) : Readable (.element tag attributes content)
  | marker (message : String) : Readable (.marker message)

namespace Live

/-- The draft that comes of reading some characters. -/
def Draft.after (b : Draft) (cs : List Char) : Draft := (Markup.read cs).foldl step b

/-- The characters are read as elements of these outlines, wherever they stand. -/
def Reads (cs : List Char) (os : List Outline) : Prop :=
  ∀ (f : Frame) (outer : List Frame) (rest : List Char),
    ∃ g : Frame, g.shape = (f.shape.1, f.shape.2 ++ os) ∧
      (Draft.after ⟨f, outer⟩ (cs ++ rest)).shape = (Draft.after ⟨g, outer⟩ rest).shape

namespace Draft
variable {b : Draft} {cs rest : List Char}

theorem shape_after_dropWhile (b : Draft) (cs : List Char) :
    (b.after cs).shape = (b.after (cs.dropWhile (· != '<'))).shape := by
  cases cs with
  | nil => rfl
  | cons c cs =>
    by_cases hc : c = '<'
    · rw [hc]
      rfl
    · obtain ⟨s, hs⟩ := read_text hc cs
      rw [after, hs]
      exact shape_run_congr (shape_step_text b s) _

theorem shape_after_text (h : '<' ∉ cs) (b : Draft) (rest : List Char) :
    (b.after (cs ++ rest)).shape = (b.after rest).shape := by
  have hcs : ∀ c ∈ cs, (c != '<') = true := by
    intro c hc
    rw [bne_iff_ne]
    rintro rfl
    exact h hc
  rw [shape_after_dropWhile, List.dropWhile_append_of_pos hcs, ← shape_after_dropWhile]

end Draft

namespace Reads
variable {cs ds : List Char} {os ps : List Outline} {tag : String} {attributes : Attributes}

theorem text (h : '<' ∉ cs) : Reads cs [] := fun f outer rest =>
  ⟨f, by rw [List.append_nil], Draft.shape_after_text h _ rest⟩

theorem append (h : Reads cs os) (h' : Reads ds ps) : Reads (cs ++ ds) (os ++ ps) := by
  intro f outer rest
  obtain ⟨g, hg, hcs⟩ := h f outer (ds ++ rest)
  obtain ⟨k, hk, hds⟩ := h' g outer rest
  refine ⟨k, ?_, ?_⟩
  · rw [hk, hg, List.append_assoc]
  · rw [List.append_assoc, hcs, hds]

theorem element (word : IsWord tag) (parent : ¬ isChildless tag) (keys : HasKeys attributes)
    (quote : QuoteStyle) (h : Reads cs os) :
    Reads ((openTag tag attributes quote false).toList ++ cs ++ (closeTag tag).toList)
      [.node tag os] := by
  intro f outer rest
  obtain ⟨found, hopen⟩ := read_openTag word keys quote false
  obtain ⟨g, hg, hcs⟩ := h ⟨tag, found, []⟩ (f :: outer) ((closeTag tag).toList ++ rest)
  have htag : g.tag = tag := congrArg Prod.fst hg
  have hclosed : isChildless tag = false := Bool.eq_false_of_not_eq_true parent
  refine ⟨f.add g.close, ?_, ?_⟩
  · rw [Frame.shape_add, Frame.outlines_close, hg]
    rfl
  · rw [List.append_assoc, List.append_assoc, Draft.after, hopen, List.foldl_cons, Draft.step,
      hclosed, Bool.or_self, if_neg Bool.false_ne_true]
    refine hcs.trans ?_
    rw [Draft.after, read_closeTag word, List.foldl_cons, Draft.step, Draft.isOpen, htag,
      beq_self_eq_true, Bool.true_or, if_pos rfl, Draft.closeThrough, if_pos htag]
    rfl

end Reads

variable {piece : Piece} {markup : String} {tag : String} {os : List Outline} {o : Outline}

theorem isWord_error : IsWord "error" := isWord_of_all rfl rfl rfl

theorem reads_writeList (quote : QuoteStyle) {pieces : List Piece}
    (h : ∀ p ∈ pieces, Reads (p.write quote).toList p.outlines) :
    Reads (Piece.writeList quote pieces).toList (Piece.outlinesList pieces) := by
  induction pieces with
  | nil => exact .text (by simp [Piece.writeList])
  | cons p pieces ih =>
    rw [Piece.writeList, String.toList_append, Piece.outlinesList]
    exact (h p List.mem_cons_self).append (ih fun q hq => h q (List.mem_cons_of_mem p hq))

theorem reads_write (h : piece.Readable) (quote : QuoteStyle) :
    Reads (piece.write quote).toList piece.outlines := by
  induction h with
  | raw h => exact .text h
  | element word parent keys _ ih =>
    rw [Piece.write, String.toList_append, String.toList_append]
    exact (reads_writeList quote ih).element word parent keys quote
  | marker message =>
    have hmarker := (Reads.text (not_mem_escapeText message)).element isWord_error (by decide)
      hasKeys_empty quote
    simpa [Piece.write, Piece.outlines, openTag, closeTag, attributeText, Attributes.empty]
      using hmarker

/-! ## Taking the element out -/

def nest (tags : List String) (os : List Outline) : List Outline :=
  tags.foldr (fun tag inner => [.node tag inner]) os

theorem reads_wrap {tags : List String} (h : ∀ tag ∈ tags, IsWord tag ∧ ¬ isChildless tag)
    (hm : Reads markup.toList os) : Reads (wrap tags markup).toList (nest tags os) := by
  induction tags with
  | nil => exact hm
  | cons tag tags ih =>
    obtain ⟨word, parent⟩ := h tag List.mem_cons_self
    have htag := (ih fun t ht => h t (List.mem_cons_of_mem tag ht)).element word parent
      hasKeys_empty .double
    simpa [wrap, nest, openTag, closeTag, attributeText, Attributes.empty] using htag

theorem scaffold_words (markup : String) :
    ∀ tag ∈ scaffold markup, IsWord tag ∧ ¬ isChildless tag := by
  have words : ∀ tag ∈ ["table", "tbody", "tr"], IsWord tag ∧ ¬ isChildless tag := by
    intro tag ht
    simp only [List.mem_cons, List.not_mem_nil, or_false] at ht
    rcases ht with rfl | rfl | rfl
    · exact ⟨isWord_of_all rfl rfl rfl, by decide⟩
    · exact ⟨isWord_of_all rfl rfl rfl, by decide⟩
    · exact ⟨isWord_of_all rfl rfl rfl, by decide⟩
  intro tag ht
  refine words tag ?_
  unfold scaffold at ht
  split at ht
  · exact List.mem_of_mem_take (i := 2) ht
  · exact ht
  · exact ht
  · cases ht

theorem outlines_read (h : Reads markup.toList os) (tag : String) (attributes : Attributes) :
    (Draft.read tag attributes (tokens markup)).outlines = [.node tag os] := by
  obtain ⟨g, hg, hshape⟩ := h ⟨tag, attributes, []⟩ [] []
  rw [List.append_nil] at hshape
  have hend : (Draft.after ⟨g, []⟩ []).shape = [g.shape] := by
    rw [Draft.after, Markup.read, unifyLineEnds, tokensOf]
    rfl
  have hdone : (Draft.after ⟨⟨tag, attributes, []⟩, []⟩ markup.toList).shape = [(tag, os)] :=
    (hshape.trans hend).trans (congrArg ([·]) hg)
  obtain ⟨hinner, houter⟩ := List.cons.inj hdone
  rw [List.map_eq_nil_iff] at houter
  unfold Draft.read
  rw [show ((tokens markup).foldl Draft.step ⟨⟨tag, attributes, []⟩, []⟩) =
    Draft.after ⟨⟨tag, attributes, []⟩, []⟩ markup.toList from rfl]
  simp only [houter, Draft.finish]
  rw [Frame.outlines_close, hinner]

theorem find?_isElement {children : List Fragment} (h : Fragment.outlinesList children = o :: os) :
    ∃ c, children.find? Fragment.isElement = some c ∧ c.outlines = [o] := by
  induction children with
  | nil => cases h
  | cons c children ih =>
    cases c with
    | text s => exact ih h
    | element tag attributes cs =>
      rw [Fragment.outlinesList, Fragment.outlines, List.singleton_append] at h
      exact ⟨_, rfl, by rw [Fragment.outlines, (List.cons.inj h).1]⟩

theorem descend?_nest {f : Fragment} {tags : List String}
    (h : f.outlines = [.node tag (nest tags [o])]) :
    ∃ c, f.descend? (tags.length + 1) = some c ∧ c.outlines = [o] := by
  induction tags generalizing f tag with
  | nil =>
    cases f with
    | text s => cases h
    | element t attributes children =>
      rw [Fragment.outlines] at h
      obtain ⟨c, hc, ho⟩ := find?_isElement (Outline.node.inj (List.cons.inj h).1).2
      exact ⟨c, by rw [Fragment.descend?, List.length_nil, hc]; rfl, ho⟩
  | cons t' tags ih =>
    cases f with
    | text s => cases h
    | element t attributes children =>
      rw [Fragment.outlines] at h
      obtain ⟨c, hc, ho⟩ := find?_isElement (Outline.node.inj (List.cons.inj h).1).2
      obtain ⟨e, he, heo⟩ := ih ho
      exact ⟨e, by rw [Fragment.descend?, hc, List.length_cons]; exact he, heo⟩

theorem ofMarkup?_write (h : piece.Readable) (ho : piece.outlines = [o]) (quote : QuoteStyle) :
    ∃ f, Fragment.ofMarkup? (piece.write quote) = some f ∧ f.outlines = [o] := by
  have hreads := reads_write h quote
  rw [ho] at hreads
  exact descend?_nest (outlines_read (reads_wrap (scaffold_words (piece.write quote)) hreads) "div"
    Attributes.empty)

end Live
end Stencil
