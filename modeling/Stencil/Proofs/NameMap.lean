import Mathlib.Data.List.Induction
import Stencil.NameMap

/-! # Lookup in maps keyed by name

`erase` and a selection by names are described by what is found in them afterwards. A selection may
drop the first entry of a name and with it uncover another one, so it needs a sorted map unless the
first entry stays.
-/
namespace Stencil.NameMap
variable {α β : Type} {m : NameMap α} {name : String} {v : α}

theorem mem_of_find? (h : m.find? name = some v) : (name, v) ∈ m := by
  induction m with
  | nil => cases h
  | cons e m ih =>
    rw [find?_cons] at h
    split at h
    · next he =>
      cases h
      rw [he]
      exact List.mem_cons_self
    · exact List.mem_cons_of_mem e (ih h)

theorem find?_of_mem (h : m.Sorted) (hmem : (name, v) ∈ m) : m.find? name = some v := by
  induction m with
  | nil => cases hmem
  | cons e m ih =>
    obtain ⟨hlt, hrest⟩ := List.pairwise_cons.1 h
    rw [find?_cons]
    rcases List.mem_cons.1 hmem with rfl | hmem
    · exact if_pos rfl
    · have hne : name ≠ e.1 := (String.ne_of_lt (hlt _ hmem)).symm
      rw [if_neg hne]
      exact ih hrest hmem

theorem find?_eq_none (h : ∀ e ∈ m, e.1 ≠ name) : m.find? name = none := by
  induction m with
  | nil => rfl
  | cons e m ih =>
    rw [find?_cons, if_neg (h e List.mem_cons_self).symm]
    exact ih fun e' he' => h e' (List.mem_cons_of_mem e he')

theorem find?_erase (m : NameMap α) (name other : String) :
    (m.erase name).find? other = if other = name then none else m.find? other := by
  induction m with
  | nil => exact (ite_self _).symm
  | cons e m ih =>
    unfold erase at ih ⊢
    rw [List.filter_cons, find?_cons]
    by_cases he : e.1 = name
    · have hne : (e.1 != name) = false := by simpa using he
      rw [hne, if_neg Bool.false_ne_true, ih, he]
      by_cases ho : other = name
      · rw [if_pos ho, if_pos ho]
      · rw [if_neg ho, if_neg ho, if_neg ho]
    · have hne : (e.1 != name) = true := by simpa using he
      rw [hne, if_pos rfl, find?_cons, ih]
      by_cases ho : other = e.1
      · rw [if_pos ho, if_pos ho, if_neg (ho ▸ he)]
      · rw [if_neg ho, if_neg ho]

theorem mem_names_insert (m : NameMap α) (name : String) (value : α) (other : String) :
    other ∈ (m.insert name value).names ↔ other = name ∨ other ∈ m.names := by
  induction m with
  | nil => simp [insert, names]
  | cons e rest ih =>
    obtain ⟨k, v⟩ := e
    unfold insert
    unfold names at ih ⊢
    split
    · simp
    · split
      · next h => simp [h]
      · simp only [List.map_cons, List.mem_cons, ih]
        exact or_left_comm

theorem mem_names_ofList {entries : List (String × α)} :
    name ∈ (ofList entries).names ↔ name ∈ entries.map (·.1) := by
  have run (m : NameMap α) : name ∈ (entries.foldl (fun m e => m.insert e.1 e.2) m).names ↔
      name ∈ entries.map (·.1) ∨ name ∈ m.names := by
    induction entries generalizing m with
    | nil => simp
    | cons e entries ih =>
      rw [List.foldl_cons, ih, mem_names_insert, List.map_cons, List.mem_cons, or_left_comm,
        or_assoc]
  exact (run []).trans (or_iff_left List.not_mem_nil)

theorem contains_of_find? (h : m.find? name = some v) : m.contains name := by
  rw [contains, h]
  rfl

theorem mem_names_of_contains (h : m.contains name) : name ∈ m.names := by
  obtain ⟨v, hv⟩ := Option.isSome_iff_exists.1 h
  exact List.mem_map_of_mem (mem_of_find? hv)

theorem find?_eq_none_iff : m.find? name = none ↔ name ∉ m.names := by
  constructor
  · intro h hmem
    obtain ⟨e, he, rfl⟩ := List.mem_map.1 hmem
    simpa using List.lookup_eq_none_iff.1 h e he
  · intro h
    exact find?_eq_none fun e he hname => h (hname ▸ List.mem_map_of_mem he)

theorem perm_insert (h : m.find? name = none) (value : α) :
    (m.insert name value).Perm ((name, value) :: m) := by
  induction m with
  | nil => exact .refl _
  | cons e rest ih =>
    obtain ⟨k, v⟩ := e
    rw [find?_cons] at h
    split at h
    · cases h
    · next hne =>
      unfold insert
      split
      · exact .refl _
      · exact ((ih h).cons _).trans (.swap ..)

theorem length_insert (h : m.find? name = none) (value : α) :
    (m.insert name value).length = m.length + 1 :=
  (perm_insert h value).length_eq

theorem sorted_ofList (entries : List (String × α)) : (ofList entries).Sorted := by
  have run (m : NameMap α) (h : m.Sorted) :
      Sorted (entries.foldl (fun m e => m.insert e.1 e.2) m) := by
    induction entries generalizing m with
    | nil => exact h
    | cons e entries ih => exact ih _ (sorted_insert h e.1 e.2)
  exact run [] .nil

theorem perm_ofList {entries : List (String × α)} (h : (entries.map (·.1)).Nodup) :
    (ofList entries).Perm entries := by
  have run (m : NameMap α) (hnames : ((m ++ entries).map (·.1)).Nodup) :
      (entries.foldl (fun m e => m.insert e.1 e.2) m).Perm (m ++ entries) := by
    induction entries generalizing m with
    | nil => simp
    | cons e entries ih =>
      have hperm : (m ++ e :: entries).Perm ((e :: m) ++ entries) := List.perm_middle
      have hnodup := (hperm.map (·.1)).nodup_iff.1 hnames
      have hnew : m.find? e.1 = none := by
        rw [find?_eq_none_iff]
        intro hmem
        obtain ⟨d, hd, hname⟩ := List.mem_map.1 hmem
        exact (List.nodup_cons.1 hnodup).1 (List.mem_map.2 ⟨d, List.mem_append_left _ hd, hname⟩)
      have hinsert := (perm_insert hnew e.2).append_right entries
      have hrest := ih (List.nodup_cons.1 h).2 (m.insert e.1 e.2)
        ((hinsert.map (·.1)).nodup_iff.2 hnodup)
      exact (hrest.trans hinsert).trans hperm.symm
  exact run [] h

theorem Sorted.eq_of_perm {other : NameMap α} (h : m.Sorted) (h' : other.Sorted)
    (hperm : m.Perm other) : m = other :=
  List.Perm.eq_of_pairwise (fun _ _ _ _ hlt hgt => absurd (String.lt_trans hlt hgt)
    (String.lt_irrefl _)) h h' hperm

theorem ofList_eq_of_perm {entries entries' : List (String × α)} (hperm : entries.Perm entries')
    (h : (entries.map (·.1)).Nodup) : ofList entries = ofList entries' :=
  (sorted_ofList entries).eq_of_perm (sorted_ofList entries')
    ((perm_ofList h).trans (hperm.trans (perm_ofList ((hperm.map _).nodup_iff.1 h)).symm))

theorem find?_ofList {entries : List (String × α)} (h : (entries.map (·.1)).Nodup) :
    (ofList entries).find? name = some v ↔ (name, v) ∈ entries := by
  rw [← (perm_ofList h).mem_iff]
  exact ⟨mem_of_find?, find?_of_mem (sorted_ofList entries)⟩

theorem find?_ofList_reverse (entries : List (String × α)) (name : String) :
    (ofList entries).find? name = find? entries.reverse name := by
  induction entries using List.reverseRecOn with
  | nil => rfl
  | append_singleton entries e ih =>
    have hlast : ofList (entries ++ [e]) = (ofList entries).insert e.1 e.2 := List.foldl_append
    rw [hlast, find?_insert, ih, List.reverse_concat, find?_cons]

theorem insert_of_lt {value : α} (h : ∀ e ∈ m, e.1 < name) :
    m.insert name value = m ++ [(name, value)] := by
  induction m with
  | nil => rfl
  | cons e rest ih =>
    obtain ⟨hhead, htail⟩ := List.forall_mem_cons.1 h
    have hlt : ¬ name < e.1 := fun hlt => String.lt_irrefl _ (String.lt_trans hhead hlt)
    have hne : name ≠ e.1 := fun heq => String.lt_irrefl _ (heq ▸ hhead)
    unfold insert
    rw [if_neg hlt, if_neg hne, ih htail, List.cons_append]

theorem ofList_of_sorted {entries : NameMap α} (h : entries.Sorted) : ofList entries = entries := by
  have run (m : NameMap α) (hall : Sorted (m ++ entries)) :
      entries.foldl (fun m e => m.insert e.1 e.2) m = m ++ entries := by
    induction entries generalizing m with
    | nil => exact (List.append_nil m).symm
    | cons e rest ih =>
      have hlast : m.insert e.1 e.2 = m ++ [e] :=
        insert_of_lt fun e' he' => (List.pairwise_append.1 hall).2.2 e' he' e List.mem_cons_self
      rw [List.foldl_cons, hlast, ih (List.pairwise_cons.1 h).2 _ (by simpa using hall)]
      simp
  exact run [] h

theorem nodup_names (h : m.Sorted) : m.names.Nodup :=
  (List.pairwise_map.2 h).imp String.ne_of_lt

theorem Sorted.eq_of_find? {other : NameMap α} (h : m.Sorted) (h' : other.Sorted)
    (hfind : ∀ name, m.find? name = other.find? name) : m = other := by
  have hnodup {m : NameMap α} (h : m.Sorted) : m.Nodup := by
    refine List.Pairwise.imp ?_ h
    rintro e _ hlt rfl
    exact String.lt_irrefl _ hlt
  refine h.eq_of_perm h' ((List.perm_ext_iff_of_nodup (hnodup h) (hnodup h')).2 fun e => ?_)
  constructor
  · intro hmem
    exact mem_of_find? ((hfind e.1).symm.trans (find?_of_mem h hmem))
  · intro hmem
    exact mem_of_find? ((hfind e.1).trans (find?_of_mem h' hmem))

theorem sorted_erase (h : m.Sorted) (name : String) : (m.erase name).Sorted := h.filter _

variable {f : String × α → Option (String × β)}

theorem find?_filterMap (hname : ∀ e e', f e = some e' → e'.1 = e.1) (hm : m.Sorted)
    (name : String) :
    find? (m.filterMap f) name = (m.find? name).bind fun v => (f (name, v)).map (·.2) := by
  induction m with
  | nil => rfl
  | cons e m ih =>
    obtain ⟨hlt, hrest⟩ := List.pairwise_cons.1 hm
    rw [find?_cons]
    by_cases he : name = e.1
    · -- no later entry has the name
      have hnone : find? (m.filterMap f) name = none := by
        refine find?_eq_none fun b hb hname' => ?_
        obtain ⟨e', he', hfe⟩ := List.mem_filterMap.1 hb
        have hlater := hlt e' he'
        rw [← he, ← hname e' b hfe, hname'] at hlater
        exact String.lt_irrefl name hlater
      rw [if_pos he, Option.bind_some, he]
      cases hfe : f e with
      | none =>
        rw [List.filterMap_cons_none hfe, ← he, hnone]
        rfl
      | some b =>
        rw [List.filterMap_cons_some hfe, find?_cons, if_pos (hname e b hfe).symm]
        rfl
    · rw [if_neg he, ← ih hrest]
      cases hfe : f e with
      | none => rw [List.filterMap_cons_none hfe]
      | some b => rw [List.filterMap_cons_some hfe, find?_cons, if_neg (hname e b hfe ▸ he)]

/-! ## Other values for the same names -/

def mapValues (f : α → β) (m : NameMap α) : NameMap β := m.map fun e => (e.1, f e.2)

theorem find?_mapValues (f : α → β) (m : NameMap α) (name : String) :
    (m.mapValues f).find? name = (m.find? name).map f := by
  induction m with
  | nil => rfl
  | cons e m ih =>
    rw [find?_cons]
    refine (find?_cons ..).trans ?_
    split
    · rfl
    · exact ih

theorem insert_mapValues (f : α → β) (m : NameMap α) (name : String) (value : α) :
    (m.mapValues f).insert name (f value) = (m.insert name value).mapValues f := by
  induction m with
  | nil => rfl
  | cons e m ih =>
    rw [mapValues, List.map_cons, insert, insert]
    split
    · rfl
    · split
      · rfl
      · exact congrArg ((e.1, f e.2) :: ·) ih

theorem erase_mapValues (f : α → β) (m : NameMap α) (name : String) :
    (m.mapValues f).erase name = (m.erase name).mapValues f := List.filter_map

theorem sorted_mapValues (h : m.Sorted) (f : α → β) : (m.mapValues f).Sorted := List.pairwise_map.2 h

end Stencil.NameMap
