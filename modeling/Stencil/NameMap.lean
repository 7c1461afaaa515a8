/-! # Maps keyed by name

A map from names is the list of its entries in strictly increasing order of their names. Names are
compared character by character, which is also the order of their UTF-8 encodings, so a listing of
the map is a sorted listing. `insert` keeps the order and replaces the entry that has the name.
-/
namespace Stencil

abbrev NameMap (α : Type) := List (String × α)

namespace NameMap
variable {α β : Type}

/-- The names strictly increase, so none occurs twice. -/
def Sorted (m : NameMap α) : Prop := m.Pairwise (·.1 < ·.1)

def find? (m : NameMap α) (name : String) : Option α := m.lookup name

def contains (m : NameMap α) (name : String) : Bool := (m.find? name).isSome

def names (m : NameMap α) : List String := m.map (·.1)

def insert : NameMap α → String → α → NameMap α
  | [], name, value => [(name, value)]
  | (k, v) :: rest, name, value =>
    if name < k then (name, value) :: (k, v) :: rest
    else if name = k then (name, value) :: rest
    else (k, v) :: insert rest name value

def erase (m : NameMap α) (name : String) : NameMap α := m.filter (·.1 != name)

/-- Entries are taken in order, so the last one of a name stays. -/
def ofList (entries : List (String × α)) : NameMap α :=
  entries.foldl (fun m e => m.insert e.1 e.2) []

@[simp] theorem find?_nil (name : String) : find? ([] : NameMap α) name = none := rfl

theorem find?_cons (e : String × α) (m : NameMap α) (name : String) :
    find? (e :: m) name = if name = e.1 then some e.2 else find? m name := by
  obtain ⟨k, v⟩ := e
  by_cases h : name = k
  · simp [find?, h]
  · have hb : (name == k) = false := beq_false_of_ne h
    simp [find?, List.lookup_cons, hb, h]

theorem find?_insert (m : NameMap α) (name other : String) (value : α) :
    (m.insert name value).find? other = if other = name then some value else m.find? other := by
  induction m with
  | nil => simp [insert, find?_cons]
  | cons e rest ih =>
    obtain ⟨k, v⟩ := e
    by_cases hlt : name < k
    · simp [insert, hlt, find?_cons]
    · by_cases heq : name = k
      · subst heq
        by_cases ho : other = name <;> simp [insert, find?_cons, ho]
      · by_cases ho : other = name
        · subst ho
          simp [insert, hlt, heq, find?_cons, ih]
        · simp [insert, hlt, heq, find?_cons, ih, ho]

theorem mem_insert {m : NameMap α} {name : String} {value : α} {e : String × α}
    (h : e ∈ m.insert name value) : e = (name, value) ∨ e ∈ m := by
  induction m with
  | nil => simpa [insert] using h
  | cons d rest ih =>
    unfold insert at h
    split at h
    · simpa using h
    · split at h
      · rcases List.mem_cons.mp h with h | h
        · exact .inl h
        · exact .inr (List.mem_cons_of_mem _ h)
      · rcases List.mem_cons.mp h with h | h
        · exact .inr (h ▸ List.mem_cons_self)
        · exact (ih h).imp_right (List.mem_cons_of_mem _)

theorem sorted_insert {m : NameMap α} (h : m.Sorted) (name : String) (value : α) :
    (m.insert name value).Sorted := by
  induction m with
  | nil => simp [insert, Sorted]
  | cons e rest ih =>
    obtain ⟨k, v⟩ := e
    obtain ⟨hk, hrest⟩ := List.pairwise_cons.mp h
    unfold insert
    split
    · next hlt =>
      refine List.pairwise_cons.mpr ⟨fun d hd => ?_, h⟩
      rcases List.mem_cons.mp hd with rfl | hd
      · exact hlt
      · exact String.lt_trans hlt (hk d hd)
    · next hlt =>
      split
      · next heq =>
        subst heq
        exact List.pairwise_cons.mpr ⟨hk, hrest⟩
      · next hne =>
        refine List.pairwise_cons.mpr ⟨fun d hd => ?_, ih hrest⟩
        rcases mem_insert hd with rfl | hd
        · exact Decidable.byContradiction fun hle =>
            hne (String.le_antisymm (String.not_lt.mp hle) (String.not_lt.mp hlt))
        · exact hk d hd

end NameMap
end Stencil
