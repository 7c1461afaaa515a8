import Stencil.Proofs.Data.Record

/-! # Merging attributes

Attribute maps with the same keys in the same order and the same values are equal, so a merge is
known from the keys and from the values it has. It is associative, order included, and the empty map
is neutral. A merge of many maps therefore depends on what is merged and in which order, but not on
how it is grouped.
-/
namespace Stencil

/-- The lists of entries that are made by inserting, by collecting entries, and by merging. -/
inductive AttributeList.Built : List (String × String) → Prop
  | empty : Built []
  | insert {entries : List (String × String)} (h : Built entries) (key value : String) :
      Built (put entries key value)
  | collect (entries : List (String × String)) :
      Built (entries.foldl (fun made e => put made e.1 e.2) [])
  | merge {lower upper : List (String × String)} (hlower : Built lower) (hupper : Built upper) :
      Built (upper.foldl (fun made e => put made e.1 e.2) lower)

namespace Attributes
variable {a b c upper : Attributes} {key value : String}

theorem entries_foldl_insert (a : Attributes) (entries : List (String × String)) :
    (entries.foldl (fun a e => a.insert e.1 e.2) a).entries =
      entries.foldl (fun made e => AttributeList.put made e.1 e.2) a.entries := by
  induction entries generalizing a with
  | nil => rfl
  | cons e rest ih => exact ih (a.insert e.1 e.2)

theorem built_iff_nodup {entries : List (String × String)} :
    AttributeList.Built entries ↔ (entries.map Prod.fst).Nodup := by
  constructor
  · intro h
    induction h with
    | empty => exact .nil
    | insert _ key value ih => exact AttributeList.nodup_put ih key value
    | collect entries => exact entries_foldl_insert empty entries ▸ (ofList entries).keys_nodup
    | @merge lower upper _ _ ihlower _ =>
      exact entries_foldl_insert ⟨lower, ihlower⟩ upper ▸ Attributes.keys_nodup _
  · intro h
    rw [← entries_ofList h, ofList, entries_foldl_insert]
    exact .collect entries

/-! ## Keys and values of a merge -/

/-- The keys in their order. -/
def keys (a : Attributes) : List String := a.entries.map Prod.fst

theorem get?_eq_some_iff : a.get? key = some value ↔ (key, value) ∈ a.entries := by
  rw [get?_eq_find?, NameMap.find?_ofList a.keys_nodup]

theorem ext_get? (hkeys : a.keys = b.keys) (hget : ∀ key, a.get? key = b.get? key) : a = b := by
  have hentries (a : Attributes) :
      a.entries = a.keys.map fun key => (key, (a.get? key).getD "") := by
    rw [keys, List.map_map, List.map_congr_left (g := id), List.map_id]
    intro e he
    have hvalue : a.get? e.1 = some e.2 := get?_eq_some_iff.2 he
    simp [hvalue]
  refine Attributes.ext ?_
  rw [hentries a, hentries b, hkeys]
  simp only [hget]

theorem get?_merge (a upper : Attributes) (key : String) :
    (a.merge upper).get? key = (upper.get? key).or (a.get? key) := by
  have run (entries : List (String × String)) :
      (entries.foldl (fun a e => a.insert e.1 e.2) a).get? key =
        (NameMap.find? entries.reverse key).or (a.get? key) := by
    induction entries using List.reverseRecOn with
    | nil => rfl
    | append_singleton entries e ih =>
      rw [List.foldl_append, List.foldl_cons, List.foldl_nil, get?_insert, ih, List.reverse_concat,
        NameMap.find?_cons]
      split <;> rfl
  rw [merge, run, ← get?_ofList, ofList_entries]

theorem keys_merge (a upper : Attributes) :
    (a.merge upper).keys = a.keys ++ upper.keys.filter (· ∉ a.keys) := by
  have run {entries : List (String × String)} (h : (entries.map Prod.fst).Nodup)
      (a : Attributes) : (entries.foldl (fun a e => a.insert e.1 e.2) a).keys =
        a.keys ++ (entries.map Prod.fst).filter (· ∉ a.keys) := by
    induction entries generalizing a with
    | nil => exact (List.append_nil _).symm
    | cons e rest ih =>
      obtain ⟨hnew, hrest⟩ := List.nodup_cons.1 h
      have hinsert : (a.insert e.1 e.2).keys =
          if e.1 ∈ a.keys then a.keys else a.keys ++ [e.1] := keys_insert a e.1 e.2
      rw [List.foldl_cons, ih hrest, hinsert, List.map_cons, List.filter_cons]
      by_cases hmem : e.1 ∈ a.keys
      · simp [hmem]
      · -- the key is not there again, so later keys are new to both
        have hlater : (rest.map Prod.fst).filter (· ∉ a.keys ++ [e.1]) =
            (rest.map Prod.fst).filter (· ∉ a.keys) := by
          refine List.filter_congr fun key hkey => ?_
          have hne : key ≠ e.1 := fun heq => hnew (heq ▸ hkey)
          simp [hne]
        rw [if_neg hmem, hlater, if_pos (by simpa using hmem), List.append_assoc]
        rfl
  exact run upper.keys_nodup a

/-- **Merging is associative**, and the order of the keys is the same as well. -/
theorem merge_assoc (a b c : Attributes) : (a.merge b).merge c = a.merge (b.merge c) := by
  refine ext_get? ?_ fun key => ?_
  · have hnew : c.keys.filter (· ∉ (a.merge b).keys) =
        (c.keys.filter (· ∉ b.keys)).filter (· ∉ a.keys) := by
      rw [List.filter_filter]
      refine List.filter_congr fun key _ => ?_
      rw [keys_merge, ← Bool.decide_and, decide_eq_decide, List.mem_append, List.mem_filter]
      by_cases hmem : key ∈ a.keys <;> simp [hmem]
    rw [keys_merge, keys_merge a b, keys_merge a, keys_merge b, List.filter_append, ← hnew,
      List.append_assoc, keys_merge a b]
  · rw [get?_merge, get?_merge, get?_merge, get?_merge, Option.or_assoc]

instance : Std.Associative merge := ⟨merge_assoc⟩

instance : Std.LawfulIdentity merge empty where
  left_id := empty_merge
  right_id := merge_empty

theorem get?_eq_none_iff : a.get? key = none ↔ key ∉ a.keys := NameMap.find?_eq_none_iff

/-- What comes of attributes laid over others, and over none. -/
structure MergeLaws (a b c : Attributes) : Prop where
  without : a.merged none = a
  below_empty : a.merged (some empty) = a
  above_empty : empty.merged (some a) = a
  assoc : (a.merged (some b)).merged (some c) = a.merged (some (b.merged (some c)))
  value (key : String) :
    (a.merged (some b)).get? key = if key ∈ b.keys then b.get? key else a.get? key
  order : (a.merged (some b)).keys = a.keys ++ b.keys.filter (· ∉ a.keys)

theorem mergeLaws (a b c : Attributes) : MergeLaws a b c where
  without := rfl
  below_empty := rfl
  above_empty := empty_merge a
  assoc := merge_assoc a b c
  value key := by
    rw [merged, get?_merge]
    split
    · next hmem =>
      have hsome : b.get? key ≠ none := get?_eq_none_iff.not.2 (not_not.2 hmem)
      obtain ⟨value, hvalue⟩ := Option.ne_none_iff_exists'.1 hsome
      rw [hvalue, Option.some_or]
    · next hmem => rw [get?_eq_none_iff.2 hmem, Option.none_or]
  order := keys_merge a b

theorem foldl_merge (parts : List Attributes) (a : Attributes) :
    parts.foldl merge a = a.merge (parts.foldl merge empty) := by
  have hassoc : parts.foldl merge (a.merge empty) = a.merge (parts.foldl merge empty) :=
    List.foldl_assoc
  exact hassoc

/-! ## Merges in a grouping -/

/-- Attributes that are merged two at a time; `upper` is laid over `lower`. -/
inductive Grouping
  | one (a : Attributes)
  | pair (lower upper : Grouping)

namespace Grouping

/-- What is merged, from below. -/
def parts : Grouping → List Attributes
  | one a => [a]
  | pair lower upper => lower.parts ++ upper.parts

def merged : Grouping → Attributes
  | one a => a
  | pair lower upper => lower.merged.merge upper.merged

theorem merged_eq_foldl (g : Grouping) : g.merged = g.parts.foldl merge empty := by
  induction g with
  | one a => exact (empty_merge a).symm
  | pair lower upper ihlower ihupper =>
    rw [merged, parts, List.foldl_append, ← ihlower, ihupper, ← foldl_merge]

end Grouping

/-! ## Attributes in the order of their keys -/

theorem sorted_merge_sorted (a upper : Attributes) :
    (a.merge upper.sorted).sorted = (a.merge upper).sorted := by
  refine Attributes.ext <|
    (sorted_entries_sorted _).eq_of_find? (sorted_entries_sorted _) fun key => ?_
  change (a.merge upper.sorted).sorted.get? key = (a.merge upper).sorted.get? key
  rw [get?_sorted, get?_sorted, get?_merge, get?_merge, get?_sorted]

end Attributes

namespace Record

theorem ofAttributes_sorted (a : Attributes) : ofAttributes a.sorted = ofAttributes a := by
  refine NameMap.ofList_eq_of_perm ((List.mergeSort_perm ..).map _) ?_
  rw [List.map_map]
  exact a.sorted.keys_nodup

theorem scalarAttributes_ofAttributes_eq_sorted (a : Attributes) :
    scalarAttributes (ofAttributes a) = a.sorted := by
  rw [← ofAttributes_sorted, scalarAttributes_ofAttributes a.sorted_entries_sorted]

end Record
end Stencil
