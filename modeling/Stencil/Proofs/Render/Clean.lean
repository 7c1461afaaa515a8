import Stencil.Proofs.Live.ReadBack
import Stencil.Proofs.Render.Labels

/-! # Clean data

Data is clean if it brings no tags into the markup and no keys that a tag cannot hold. Plain
templates render clean data to markup that is read back as it was meant.
-/
namespace Stencil
open Markup

/-- Scalars hold no tags, and attribute overrides have proper keys, at any depth. -/
inductive Value.Clean : Value → Prop
  | scalar {markup : String} (h : '<' ∉ markup.toList) : Clean (.scalar markup)
  | item {fields : List (String × Value)} (values : ∀ e ∈ fields, Clean e.2)
      (overrides : ∀ point value index attributes, (attributeKey point, value) ∈ fields →
        value.attributesAt index = some attributes → HasKeys attributes) : Clean (.item fields)
  | sequence {items : List Value} (h : ∀ value ∈ items, Clean value) : Clean (.sequence items)

/-- Every scope is clean. -/
def CleanScopes (scopes : List Record) : Prop := ∀ scope ∈ scopes, (Value.item scope).Clean

namespace Attributes
variable {a upper : Attributes} {overrides : Option Attributes} {key value : String}

theorem hasKeys_insert (ha : HasKeys a) (hkey : IsKey key) : HasKeys (a.insert key value) := by
  intro e he
  have hmem : e.1 ∈ (AttributeList.put a.entries key value).map Prod.fst := List.mem_map_of_mem he
  have hold {k : String} (hk : k ∈ a.entries.map Prod.fst) : IsKey k := by
    obtain ⟨e', he', rfl⟩ := List.mem_map.1 hk
    exact ha e' he'
  rw [AttributeList.keys_put] at hmem
  split at hmem
  · exact hold hmem
  · rcases List.mem_append.1 hmem with h | h
    · exact hold h
    · rw [List.mem_singleton.1 h]
      exact hkey

theorem hasKeys_foldl {entries : List (String × String)} (h : ∀ e ∈ entries, IsKey e.1)
    (ha : HasKeys a) : HasKeys (entries.foldl (fun a e => a.insert e.1 e.2) a) := by
  induction entries generalizing a with
  | nil => exact ha
  | cons e entries ih =>
    exact ih (fun e' he' => h e' (List.mem_cons_of_mem e he'))
      (hasKeys_insert ha (h e List.mem_cons_self))

theorem hasKeys_merge (ha : HasKeys a) (hupper : HasKeys upper) : HasKeys (a.merge upper) :=
  hasKeys_foldl hupper ha

theorem hasKeys_ofAttributes (h : HasKeys a) :
    HasKeys (Record.scalarAttributes (Record.ofAttributes a)) := by
  refine hasKeys_foldl (fun e he => ?_) nofun
  obtain ⟨⟨key, value⟩, hmem, hscalar⟩ := List.mem_filterMap.1 he
  obtain ⟨markup, _, rfl⟩ := Option.map_eq_some_iff.1 hscalar
  have hkey : key ∈ (Record.ofAttributes a).names := List.mem_map_of_mem hmem
  rw [Record.ofAttributes, NameMap.mem_names_ofList, List.map_map] at hkey
  obtain ⟨e', he', rfl⟩ := List.mem_map.1 hkey
  exact h e' he'

theorem hasKeys_merged (ha : HasKeys a) (h : ∀ upper, overrides = some upper → HasKeys upper) :
    HasKeys (a.merged overrides) := by
  cases overrides with
  | none => exact ha
  | some upper => exact hasKeys_merge ha (h upper rfl)

end Attributes

namespace Render
variable {scopes : List Record} {point : PointSpec} {isRoot : Bool} {key p : String}
  {value : Value} {attributes : Attributes} {index : Option Nat} {found : List Emission}
  {emission : Emission}

theorem mem_of_lookup (h : lookup scopes key = some value) :
    ∃ scope ∈ scopes, (key, value) ∈ scope := by
  obtain ⟨scope, hscope, hfind⟩ := List.exists_of_findSome?_eq_some h
  exact ⟨scope, hscope, NameMap.mem_of_find? hfind⟩

theorem clean_of_lookup (hs : CleanScopes scopes) (h : lookup scopes key = some value) :
    value.Clean := by
  obtain ⟨scope, hscope, hmem⟩ := mem_of_lookup h
  cases hs scope hscope with
  | item values _ => exact values _ hmem

theorem hasKeys_of_lookup (hs : CleanScopes scopes)
    (h : lookup scopes (attributeKey p) = some value)
    (ha : value.attributesAt index = some attributes) : HasKeys attributes := by
  obtain ⟨scope, hscope, hmem⟩ := mem_of_lookup h
  cases hs scope hscope with
  | item _ overrides => exact overrides p value index attributes hmem ha

theorem lookup_of_own {f : String → String}
    (h : (point.id.bind fun id => lookup scopes (f id)) = some value) :
    ∃ p, lookup scopes (f p) = some value := by
  obtain ⟨id, _, hid⟩ := Option.bind_eq_some_iff.1 h
  exact ⟨id, hid⟩

theorem lookup_of_root {f : String → String}
    (h : (lookup scopes (f rootKey)).or (point.id.bind fun id => lookup scopes (f id)) =
      some value) : ∃ p, lookup scopes (f p) = some value := by
  rcases Option.or_eq_some_iff.1 h with h | ⟨_, h⟩
  · exact ⟨rootKey, h⟩
  · exact lookup_of_own h

theorem lookup_of_bound (h : (bound point isRoot scopes).value = some value) :
    ∃ key, lookup scopes key = some value := by
  cases isRoot with
  | false => exact lookup_of_own (f := id) h
  | true => exact lookup_of_root (f := id) h

theorem lookup_of_overrides (h : (bound point isRoot scopes).overrides = some value) :
    ∃ p, lookup scopes (attributeKey p) = some value := by
  cases isRoot with
  | false => exact lookup_of_own h
  | true => exact lookup_of_root h

/-- What clean data emits: clean values, and overrides with proper keys. -/
structure Emission.Clean (emission : Emission) : Prop where
  value : ∀ value, emission.value = some value → value.Clean
  overrides : ∀ attributes, emission.overrides = some attributes → HasKeys attributes

theorem clean_emissions (hs : CleanScopes scopes) (h : emissions point isRoot scopes = .ok found)
    (hmem : emission ∈ found) : emission.Clean := by
  have hvalue {value : Value} (h : (bound point isRoot scopes).value = some value) :
      value.Clean := by
    obtain ⟨key, hkey⟩ := lookup_of_bound h
    exact clean_of_lookup hs hkey
  have hkeys {index : Option Nat} {attributes : Attributes}
      (h : (bound point isRoot scopes).overrides.bind (·.attributesAt index) = some attributes) :
      HasKeys attributes := by
    obtain ⟨value, hvalue, ha⟩ := Option.bind_eq_some_iff.1 h
    obtain ⟨p, hp⟩ := lookup_of_overrides hvalue
    exact hasKeys_of_lookup hs hp ha
  unfold emissions at h
  simp only at h
  split at h
  · cases h
  · cases h
    cases hmem
  · next items _ heq =>
    cases h
    obtain ⟨i, hi, rfl⟩ := List.mem_mapIdx.1 hmem
    cases hvalue heq with
    | sequence hitems =>
      refine ⟨fun value hv => ?_, fun attributes ha => hkeys ha⟩
      cases hv
      exact hitems _ (List.getElem_mem hi)
  · cases h
    obtain rfl := List.mem_singleton.1 hmem
    exact ⟨fun value hv => hvalue hv, fun attributes ha => hkeys ha⟩

/-! ## Readable pieces -/

open Labelled
variable {settings : Settings} {node : Node} {children : List Node} {label : Label} {tag : String}
  {content : List Labelled} {id next : NodeId} {indices : List Nat}

theorem readable_enclose (word : IsWord tag) (written : ¬ settings.isVoid tag)
    (parent : ¬ Live.isChildless tag) (keys : HasKeys attributes)
    (h : ∀ m ∈ content, m.erase.Readable) :
    (enclose settings label tag attributes content).erase.Readable := by
  rw [enclose, if_neg written, erase, eraseList_eq]
  exact .element word parent keys (List.forall_mem_map.2 h)

theorem readable_emission (word : IsWord tag) (written : ¬ settings.isVoid tag)
    (parent : ¬ Live.isChildless tag) (keys : HasKeys attributes)
    {inner : List Record → List Labelled}
    (hinner : ∀ scopes, CleanScopes scopes → ∀ m ∈ inner scopes, m.erase.Readable)
    (hs : CleanScopes scopes) (he : emission.Clean) :
    (labelledEmission settings label tag point attributes scopes inner
      emission).erase.Readable := by
  have hmerged := Attributes.hasKeys_merged keys he.overrides
  unfold labelledEmission
  cases hv : emission.value with
  | none => exact readable_enclose word written parent hmerged (hinner scopes hs)
  | some value =>
    have hclean := he.value value hv
    cases hclean with
    | scalar h =>
      refine readable_enclose word written parent hmerged fun m hm => ?_
      rw [List.mem_singleton.1 hm]
      exact .raw h
    | @item fields values overrides =>
      refine readable_enclose word written parent hmerged (hinner (fields :: scopes) ?_)
      exact List.forall_mem_cons.2 ⟨.item values overrides, hs⟩
    | sequence => exact .marker _

theorem readable_labelledList (h : ∀ child ∈ children, ∀ next,
      ∀ m ∈ labelled settings next indices false scopes child, m.erase.Readable) (next : NodeId) :
    ∀ m ∈ labelledList settings next indices scopes children, m.erase.Readable := by
  induction children generalizing next with
  | nil => nofun
  | cons child rest ih =>
    rw [labelledList]
    exact List.forall_mem_append.2 ⟨h child List.mem_cons_self next,
      ih (fun c hc => h c (List.mem_cons_of_mem child hc)) (next + child.size)⟩

theorem readable_labelled (hplain : node.Plain settings) (hs : CleanScopes scopes) (id : NodeId)
    (indices : List Nat) (isRoot : Bool) :
    ∀ m ∈ labelled settings id indices isRoot scopes node, m.erase.Readable := by
  induction hplain generalizing scopes id indices isRoot with
  | text h =>
    intro m hm
    rw [labelled, List.mem_singleton] at hm
    rw [hm]
    exact .raw h
  | @element tag point attributes children word written parent keys _ ih =>
    intro m hm
    rw [labelled] at hm
    cases he : emissions point isRoot scopes with
    | error message =>
      rw [he] at hm
      rw [List.mem_singleton.1 hm]
      exact .marker message
    | ok found =>
      rw [he] at hm
      obtain ⟨i, hi, rfl⟩ := List.mem_mapIdx.1 hm
      refine readable_emission word written parent keys (fun scopes hs => ?_) hs
        (clean_emissions hs he (List.getElem_mem hi))
      exact readable_labelledList
        (fun c hc next => ih c hc hs next (extended point indices i) false) (id + 1)

end Render
end Stencil
