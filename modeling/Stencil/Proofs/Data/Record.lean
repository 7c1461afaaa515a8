import Mathlib.Data.List.Induction
import Stencil.Data.Value
import Stencil.Proofs.NameMap

/-! # Keys and attributes of a record

A record holds values of points under their names and attribute overrides behind an at sign, and the
root key besides. A name that none of these keys can be mistaken for keeps the three apart.

Overrides are written as an item of scalars. Read from an item whose fields are in order, attributes
can be written and read again without a change.
-/
namespace Stencil

/-! ## Keys -/

variable {name other : String} {d : Record}

/-- The name is not the root key, and it is not the key of any overrides. -/
structure IsName (name : String) : Prop where
  ne_rootKey : name ≠ rootKey
  ne_attributeKey (point : String) : name ≠ attributeKey point

theorem attributeKey_inj : attributeKey name = attributeKey other ↔ name = other :=
  String.append_right_inj "@"

theorem attributeKey_ne_rootKey (name : String) : attributeKey name ≠ rootKey := by
  intro h
  have hhead := congrArg (fun key : String => key.toList.head?) h
  rw [attributeKey, String.toList_append] at hhead
  cases hhead

theorem isName_of_head (hroot : name ≠ rootKey) (hhead : name.toList.head? ≠ some '@') :
    IsName name where
  ne_rootKey := hroot
  ne_attributeKey point := by
    rintro rfl
    rw [attributeKey, String.toList_append] at hhead
    exact hhead rfl

theorem IsName.attributeKey_ne (h : IsName name) : attributeKey name ≠ attributeKey rootKey :=
  fun hkey => h.ne_rootKey (attributeKey_inj.1 hkey)

/-! ## Attributes written and read again -/

namespace Attributes

theorem put_of_not_mem {entries : List (String × String)} {key : String} (value : String)
    (h : key ∉ entries.map Prod.fst) :
    AttributeList.put entries key value = entries ++ [(key, value)] := by
  induction entries with
  | nil => rfl
  | cons e rest ih =>
    obtain ⟨k, v⟩ := e
    rw [List.map_cons, List.mem_cons, not_or] at h
    rw [AttributeList.put, if_neg (Ne.symm h.1), ih h.2, List.cons_append]

theorem entries_ofList {entries : List (String × String)} (h : (entries.map Prod.fst).Nodup) :
    (ofList entries).entries = entries := by
  have run (a : Attributes) (hkeys : ((a.entries ++ entries).map Prod.fst).Nodup) :
      (entries.foldl (fun a e => a.insert e.1 e.2) a).entries = a.entries ++ entries := by
    induction entries generalizing a with
    | nil => exact (List.append_nil _).symm
    | cons e rest ih =>
      have hnew : e.1 ∉ a.entries.map Prod.fst := by
        rw [List.map_append, List.nodup_append] at hkeys
        exact fun hmem => hkeys.2.2 e.1 hmem e.1 (by simp) rfl
      have hput : (a.insert e.1 e.2).entries = a.entries ++ [e] := put_of_not_mem e.2 hnew
      rw [List.foldl_cons, ih (List.nodup_cons.1 h).2 (a.insert e.1 e.2), hput, List.append_assoc]
      · rfl
      · rw [hput, List.append_assoc]
        exact hkeys
  exact run empty h

theorem ofList_concat (entries : List (String × String)) (e : String × String) :
    ofList (entries ++ [e]) = (ofList entries).insert e.1 e.2 :=
  List.foldl_append

theorem keys_insert (a : Attributes) (key value : String) :
    (a.insert key value).entries.map Prod.fst =
      if key ∈ a.entries.map Prod.fst then a.entries.map Prod.fst
      else a.entries.map Prod.fst ++ [key] :=
  AttributeList.keys_put a.entries key value

theorem keys_ofList (entries : List (String × String)) :
    (ofList entries).entries.map Prod.fst = (entries.map Prod.fst).eraseDups := by
  induction entries using List.reverseRecOn with
  | nil => rfl
  | append_singleton entries e ih =>
    rw [ofList_concat, keys_insert, ih, List.map_append, List.eraseDups_append]
    split
    · next h => simp [List.removeAll, List.mem_eraseDups.1 h]
    · next h => simp [List.removeAll, List.mem_eraseDups.not.1 h, List.eraseDups_cons]

theorem get?_insert (a : Attributes) (key value other : String) :
    (a.insert key value).get? other = if other = key then some value else a.get? other := by
  have put (entries : List (String × String)) :
      NameMap.find? (AttributeList.put entries key value) other =
        if other = key then some value else NameMap.find? entries other := by
    induction entries with
    | nil => rw [AttributeList.put, NameMap.find?_cons]
    | cons e rest ih =>
      obtain ⟨k, v⟩ := e
      rw [AttributeList.put]
      by_cases hk : k = key
      · rw [if_pos hk, NameMap.find?_cons, NameMap.find?_cons, hk]
        by_cases ho : other = key
        · rw [if_pos ho, if_pos ho]
        · rw [if_neg ho, if_neg ho, if_neg ho]
      · rw [if_neg hk, NameMap.find?_cons, NameMap.find?_cons, ih]
        by_cases ho : other = k
        · rw [if_pos ho, if_pos ho, if_neg (ho ▸ hk)]
        · rw [if_neg ho, if_neg ho]
  exact put a.entries

theorem get?_ofList (entries : List (String × String)) (key : String) :
    (ofList entries).get? key = NameMap.find? entries.reverse key := by
  induction entries using List.reverseRecOn with
  | nil => rfl
  | append_singleton entries e ih =>
    rw [ofList_concat, get?_insert, ih, List.reverse_concat, NameMap.find?_cons]

@[simp] theorem ofList_entries (a : Attributes) : ofList a.entries = a :=
  Attributes.ext (entries_ofList a.keys_nodup)

theorem empty_merge (a : Attributes) : empty.merge a = a := ofList_entries a

/-- The attributes in the order of their keys. -/
def sorted (a : Attributes) : Attributes where
  entries := a.entries.mergeSort fun e e' => e.1 ≤ e'.1
  keys_nodup := ((List.mergeSort_perm ..).map _).nodup_iff.2 a.keys_nodup

theorem sorted_entries_sorted (a : Attributes) : NameMap.Sorted a.sorted.entries := by
  have hle : a.sorted.entries.Pairwise fun e e' => e.1 ≤ e'.1 := by
    refine (List.pairwise_mergeSort ?_ ?_ a.entries).imp fun h => of_decide_eq_true h
    · intro e e' e'' h h'
      exact decide_eq_true (String.le_trans (of_decide_eq_true h) (of_decide_eq_true h'))
    · intro e e'
      simpa using String.le_total e.1 e'.1
  have hne : a.sorted.entries.Pairwise fun e e' => e.1 ≠ e'.1 :=
    List.pairwise_map.1 a.sorted.keys_nodup
  refine (hle.and hne).imp fun {e e'} h => Decidable.byContradiction fun hnot => ?_
  exact h.2 (String.le_antisymm h.1 (String.not_lt.1 hnot))

theorem ofList_nameMap (a : Attributes) : ofList (NameMap.ofList a.entries) = a.sorted := by
  have hsorted := NameMap.sorted_ofList a.entries
  have hperm := NameMap.perm_ofList a.keys_nodup
  refine Attributes.ext ((entries_ofList (NameMap.nodup_names hsorted)).trans ?_)
  exact hsorted.eq_of_perm a.sorted_entries_sorted (hperm.trans (List.mergeSort_perm ..).symm)

theorem get?_eq_find? (a : Attributes) (key : String) :
    a.get? key = (NameMap.ofList a.entries).find? key := by
  rw [NameMap.find?_ofList_reverse, ← get?_ofList, ofList_entries]

theorem get?_sorted (a : Attributes) (key : String) : a.sorted.get? key = a.get? key := by
  have hperm : a.sorted.entries.Perm a.entries := List.mergeSort_perm ..
  rw [get?_eq_find?, get?_eq_find?, NameMap.ofList_eq_of_perm hperm a.sorted.keys_nodup]

theorem eq_empty_of_isEmpty {a : Attributes} (h : a.isEmpty) : a = empty :=
  Attributes.ext (List.isEmpty_iff.1 h)

theorem isEmpty_insert (a : Attributes) (key value : String) :
    (a.insert key value).isEmpty = false := by
  obtain ⟨entries, hkeys⟩ := a
  cases entries with
  | nil => rfl
  | cons e rest =>
    by_cases h : e.1 = key <;> simp [insert, isEmpty, AttributeList.put, h]

theorem eq_empty_of_merge {a upper : Attributes} (h : (a.merge upper).isEmpty) : upper = empty := by
  have run {entries : List (String × String)} (a : Attributes) (ha : a.isEmpty = false) :
      (entries.foldl (fun a e => a.insert e.1 e.2) a).isEmpty = false := by
    induction entries generalizing a with
    | nil => exact ha
    | cons e rest ih => exact ih _ (isEmpty_insert a e.1 e.2)
  refine Attributes.ext ?_
  unfold merge at h
  cases hupper : upper.entries with
  | nil => rfl
  | cons e rest =>
    rw [hupper, List.foldl_cons, run _ (isEmpty_insert a e.1 e.2)] at h
    cases h

end Attributes

/-- The fields of every record in a value are in the order of their names. -/
inductive Value.Ordered : Value → Prop
  | scalar (markup : String) : Ordered (.scalar markup)
  | item {fields : List (String × Value)} (sorted : NameMap.Sorted fields)
      (inner : ∀ e ∈ fields, Ordered e.2) : Ordered (.item fields)
  | sequence {items : List Value} (inner : ∀ item ∈ items, Ordered item) : Ordered (.sequence items)

theorem Value.Ordered.fields {fields : Record} (h : (Value.item fields).Ordered) :
    fields.Sorted ∧ ∀ e ∈ fields, e.2.Ordered := by
  cases h with
  | item sorted inner => exact ⟨sorted, inner⟩

namespace Record

theorem sorted_scalarAttributes (h : NameMap.Sorted d) :
    NameMap.Sorted (scalarAttributes d).entries := by
  have hsorted : NameMap.Sorted (d.filterMap fun e => e.2.asScalar?.map (e.1, ·)) := by
    refine h.filterMap _ fun e e' hlt b hb b' hb' => ?_
    obtain ⟨markup, _, rfl⟩ := Option.map_eq_some_iff.1 hb
    obtain ⟨markup', _, rfl⟩ := Option.map_eq_some_iff.1 hb'
    exact hlt
  exact (Attributes.entries_ofList (NameMap.nodup_names hsorted)).symm ▸ hsorted

/-- **Attributes survive in a record** if they are in order. -/
theorem scalarAttributes_ofAttributes {a : Attributes} (h : NameMap.Sorted a.entries) :
    scalarAttributes (ofAttributes a) = a := by
  have hsorted : NameMap.Sorted (a.entries.map fun e => (e.1, Value.scalar e.2)) :=
    List.pairwise_map.2 h
  rw [ofAttributes, NameMap.ofList_of_sorted hsorted, scalarAttributes, List.filterMap_map]
  refine Eq.trans (congrArg Attributes.ofList ?_) (Attributes.ofList_entries a)
  exact List.filterMap_some ..

end Record
end Stencil
