import Stencil.Proofs.Live.Enclosure
import Stencil.Proofs.Live.ReadBack

/-! # The scaffold

Rows and cells are read inside the table elements that they belong to, and taken out of them again.
What comes of it is what the markup comes to alone, up to the first of its end tags that closes an
element of the scaffold; but where the markup ends in the middle of a tag, the closing tags of the
scaffold are read as part of that tag.
-/
namespace Stencil.Live
open Markup

/-- The closing tags behind markup in a scaffold. -/
def closers : List String → String
  | [] => ""
  | tag :: tags => closers tags ++ closeTag tag

/-- The tokens of markup in a scaffold, without those of the scaffold in front of them, up to the
first end tag that closes an element of the scaffold. -/
def confinedTokens (markup : String) : List Token :=
  Draft.confined (scaffold markup) (.root "div") (tokens (markup ++ closers (scaffold markup)))

theorem read_wrap {tags : List String} (h : ∀ tag ∈ tags, IsWord tag) (markup : String)
    (rest : List Char) :
    Markup.read ((wrap tags markup).toList ++ rest) =
      tags.map Draft.opening ++
        Markup.read (markup.toList ++ ((closers tags).toList ++ rest)) := by
  induction tags generalizing rest with
  | nil => simp [wrap, closers]
  | cons tag tags ih =>
    obtain ⟨hfirst, hrest⟩ := List.forall_mem_cons.1 h
    have hwrap : (wrap (tag :: tags) markup).toList ++ rest =
        (openTag tag .empty .double false).toList ++
          ((wrap tags markup).toList ++ ((closeTag tag).toList ++ rest)) := by
      simp [wrap, openTag, attributeText, Attributes.empty]
    rw [hwrap, read_openTag_eq hfirst.isTagName hasKeys_empty, nameOf_word hfirst, ih hrest]
    simp [closers, Draft.opening]
    rfl

theorem tokens_wrap {tags : List String} (h : ∀ tag ∈ tags, IsWord tag) (markup : String) :
    tokens (wrap tags markup) = tags.map Draft.opening ++ tokens (markup ++ closers tags) := by
  have hread := read_wrap h markup []
  simpa [tokens, Markup.read] using hread

theorem ofMarkup?_eq (markup : String) :
    Fragment.ofMarkup? markup = ((Draft.root "div").whole (confinedTokens markup)).first? := by
  have hwords := scaffold_words markup
  have hopenings := Draft.descend?_openings_succ (fun tag ht => (hwords tag ht).2) "div"
    (tokens (markup ++ closers (scaffold markup)))
  rw [← tokens_wrap fun tag ht => (hwords tag ht).1] at hopenings
  exact hopenings

namespace Document
variable {d : Document} {markup : String} {found found' : Option Fragment}

/-- The first element that tokens build below a new element. -/
def firstBuilt? (d : Document) (tokens : List Token) : Option Fragment :=
  ((d.scratched tokens).elementChildren d.fresh).head?.map (d.scratched tokens).fragment

theorem firstBuilt?_eq (hf : d.Forest) (tokens : List Token) :
    d.firstBuilt? tokens = ((Draft.root "div").whole tokens).first? := by
  obtain ⟨hf', -, -, hread⟩ := builds_scratched hf tokens
  have hdescend := descend?_fragment hf' 1 d.fresh
  have hhead : (d.scratched tokens).descend? 1 d.fresh =
      ((d.scratched tokens).elementChildren d.fresh).head? := by
    rw [descend?]
    cases ((d.scratched tokens).elementChildren d.fresh).head? <;> rfl
  rw [hread, hhead] at hdescend
  exact hdescend.trans (Draft.descend?_one _)

/-- Reading the markup gives this element, or fails if there is none. -/
def Yields (d : Document) (markup : String) : Option Fragment → Prop
  | some f => ∃ e, (d.materialize markup).1 = .ok e ∧ (d.materialize markup).2.fragment e = f
  | none => (d.materialize markup).1 = .error ⟨markup⟩

theorem Yields.unique (h : d.Yields markup found) (h' : d.Yields markup found') :
    found = found' := by
  cases found with
  | none =>
    cases found' with
    | none => rfl
    | some =>
      obtain ⟨e, he, -⟩ := h'
      cases he.symm.trans h
  | some =>
    obtain ⟨e, he, hfragment⟩ := h
    cases found' with
    | none => cases he.symm.trans h'
    | some =>
      obtain ⟨e', he', hfragment'⟩ := h'
      cases he.symm.trans he'
      rw [← hfragment, ← hfragment']

theorem yields_ofMarkup? (hf : d.Forest) (markup : String) :
    d.Yields markup (Fragment.ofMarkup? markup) := by
  have hspec := (materialize_spec hf markup).2
  cases hm : Fragment.ofMarkup? markup with
  | none =>
    rw [hm] at hspec
    exact hspec
  | some f =>
    rw [hm] at hspec
    obtain ⟨e, he, -, -, hfragment⟩ := hspec
    exact ⟨e, he, hfragment⟩

/-- The scaffold does not show: reading the markup gives the first element that its own tokens
build. -/
def Transparent (d : Document) (markup : String) : Prop :=
  d.Yields markup (d.firstBuilt? (tokens markup))

theorem yields_confinedTokens (hf : d.Forest) (markup : String) :
    d.Yields markup (d.firstBuilt? (confinedTokens markup)) := by
  rw [firstBuilt?_eq hf, ← ofMarkup?_eq]
  exact yields_ofMarkup? hf markup

theorem transparent_iff (hf : d.Forest) :
    d.Transparent markup ↔
      d.firstBuilt? (confinedTokens markup) = d.firstBuilt? (tokens markup) := by
  have hyields := yields_confinedTokens hf markup
  constructor
  · exact hyields.unique
  · intro heq
    rw [Transparent, ← heq]
    exact hyields

theorem transparent_of_apart (hf : d.Forest)
    (hends : tokens (markup ++ closers (scaffold markup)) =
      tokens markup ++ (scaffold markup).reverse.map .endTag)
    (hown : Draft.confined (scaffold markup) (.root "div") (tokens markup) = tokens markup) :
    d.Transparent markup := by
  rw [transparent_iff hf, firstBuilt?_eq hf, firstBuilt?_eq hf, confinedTokens, hends,
    Draft.confined_append hown]
  have hleft := Draft.confined_prefix (scaffold markup)
    ((tokens markup).foldl Draft.step (.root "div")) ((scaffold markup).reverse.map .endTag)
  rw [List.prefix_iff_eq_take, ← List.map_take] at hleft
  rw [hleft, Draft.whole_append_endTags]

theorem transparent_of_prefix (hf : d.Forest) {pre : List Token} (hpre : pre <+: tokens markup)
    (hscaffold : pre <+: tokens (markup ++ closers (scaffold markup)))
    (hown : Draft.confined (scaffold markup) (.root "div") pre = pre)
    (hclosed : (pre.foldl Draft.step (.root "div")).outer = [])
    (hfirst : (pre.foldl Draft.step (.root "div")).inner.first?.isSome) : d.Transparent markup := by
  obtain ⟨e, he⟩ := Option.isSome_iff_exists.1 hfirst
  have hwhole (more : List Token) : ((Draft.root "div").whole (pre ++ more)).first? = some e := by
    have hbase : (Draft.base (pre.foldl Draft.step (.root "div")).inner
        (pre.foldl Draft.step (.root "div")).outer).first? = some e := by
      rw [hclosed]
      exact he
    rw [Draft.whole, List.foldl_append]
    exact Draft.first?_whole hbase more
  obtain ⟨more, hmore⟩ := hpre
  obtain ⟨ends, hends⟩ := hscaffold
  rw [transparent_iff hf, firstBuilt?_eq hf, firstBuilt?_eq hf, confinedTokens, ← hends, ← hmore,
    Draft.confined_append hown, hwhole, hwhole]

/-- **How far the scaffold does not show.** Reading markup gives the first element of its tokens in
the scaffold, up to the first end tag that closes an element of the scaffold. So the scaffold shows
exactly where this is not the first element of the markup's own tokens. It does not where the
closing tags are read as such and no end tag reaches out, and neither where that is so up to the end
of the first element. -/
theorem materialize_scaffold (hd : d.Reachable) (markup : String) :
    d.Yields markup (d.firstBuilt? (confinedTokens markup)) ∧
      (d.Transparent markup ↔
        d.firstBuilt? (confinedTokens markup) = d.firstBuilt? (tokens markup)) ∧
      (tokens (markup ++ closers (scaffold markup)) =
          tokens markup ++ (scaffold markup).reverse.map .endTag →
        Draft.confined (scaffold markup) (.root "div") (tokens markup) = tokens markup →
        d.Transparent markup) ∧
      ∀ pre, pre <+: tokens markup → pre <+: tokens (markup ++ closers (scaffold markup)) →
        Draft.confined (scaffold markup) (.root "div") pre = pre →
        (pre.foldl Draft.step (.root "div")).outer = [] →
        (pre.foldl Draft.step (.root "div")).inner.first?.isSome → d.Transparent markup :=
  ⟨yields_confinedTokens hd.forest markup, transparent_iff hd.forest,
    transparent_of_apart hd.forest, fun _ => transparent_of_prefix hd.forest⟩

/-- A cell that is still open, and a row with an end tag behind it that closes the scaffold. -/
theorem materialize_scaffold_row :
    Document.empty.Reachable ∧ Document.empty.Transparent "<td>1</b>" ∧
      Document.empty.Transparent "<tr></tr></tbody><p" ∧
      (Document.empty.firstBuilt? (confinedTokens "<td>1</b>")).map Fragment.markup =
        some "<td>1</td>" := by
  obtain ⟨-, -, hcell, -⟩ := materialize_scaffold .empty "<td>1</b>"
  obtain ⟨-, -, -, hrow⟩ := materialize_scaffold .empty "<tr></tr></tbody><p"
  refine ⟨.empty, hcell (by decide +kernel) (by decide +kernel), ?_, by decide +kernel⟩
  have hscaffold : scaffold "<tr></tr></tbody><p" = ["table", "tbody"] := by decide +kernel
  have hown : tokens "<tr></tr></tbody><p" =
      [.startTag "tr" .empty false, .endTag "tr", .endTag "tbody"] := by decide +kernel
  -- The last tag of the markup swallows the closing tag of the scaffold's body.
  have hread : [.startTag "tr" .empty false, .endTag "tr"] <+:
      tokens ("<tr></tr></tbody><p" ++ closers ["table", "tbody"]) :=
    ⟨[.endTag "tbody", .startTag "p<" (.ofList [("tbody", "")]) false, .endTag "table"],
      by decide +kernel⟩
  rw [hscaffold, hown] at hrow
  exact hrow [.startTag "tr" .empty false, .endTag "tr"] ⟨_, rfl⟩ hread rfl rfl rfl

/-- The scaffold shows where an unfinished tag runs on into its closing tag, and where an end tag of
the markup closes the scaffold around an open row. -/
theorem not_transparent_row :
    (¬ ∀ (d : Document) (markup : String), d.Reachable → d.Transparent markup) ∧
      Document.empty.firstBuilt? (tokens "<tr") = none ∧
      (Document.empty.materialize "<tr").1 = .ok 3 ∧
      (Document.empty.firstBuilt? (tokens "<tr></tbody>x</tr>")).map Fragment.markup =
        some "<tr>x</tr>" ∧
      (Document.empty.materialize "<tr></tbody>x</tr>").1 = .ok 3 ∧
      (Document.empty.materialize "<tr></tbody>x</tr>").2.outerMarkup 3 = "<tr></tr>" := by
  have hnone : Document.empty.firstBuilt? (tokens "<tr") = none := by decide +kernel
  have hmade : (Document.empty.materialize "<tr").1 = .ok 3 := by decide +kernel
  refine ⟨fun h => ?_, hnone, hmade, by decide +kernel, by decide +kernel, by decide +kernel⟩
  have hrow := h .empty "<tr" .empty
  rw [Transparent, hnone] at hrow
  cases hmade.symm.trans hrow

end Document
end Stencil.Live
