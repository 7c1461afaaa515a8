import Stencil.Point.Table
import Stencil.Proofs.NameMap

/-! # What gets into a point table

A table holds nothing but points that were sighted, sorted by their names, as the ambiguous ones are.
-/
namespace Stencil.PointTable
variable {t : PointTable} {name : String} {entry : PointEntry} {sightings : List Sighting}

@[simp] theorem points_report (t : PointTable) (issue : Issue) :
    (t.report issue).points = t.points := by
  unfold report
  split <;> rfl

@[simp] theorem points_markAmbiguous (t : PointTable) (name : String) :
    (t.markAmbiguous name).points = t.points.erase name := by
  unfold markAmbiguous
  simp only
  split
  · rfl
  · rw [points_report]

theorem isAmbiguous_report (t : PointTable) (issue : Issue) (name : String) :
    (t.report issue).isAmbiguous name = t.isAmbiguous name := by
  unfold report
  split <;> rfl

theorem isAmbiguous_markAmbiguous (t : PointTable) (name other : String) :
    (t.markAmbiguous name).isAmbiguous other = (decide (other = name) || t.isAmbiguous other) := by
  unfold markAmbiguous
  simp only
  split
  · next h =>
    by_cases ho : other = name
    · rw [ho, decide_eq_true rfl, Bool.true_or]
      exact h
    · rw [decide_eq_false ho, Bool.false_or]
      rfl
  · rw [isAmbiguous_report, isAmbiguous, NameMap.contains, NameMap.find?_insert]
    by_cases ho : other = name
    · rw [if_pos ho, decide_eq_true ho]
      rfl
    · rw [if_neg ho, decide_eq_false ho, Bool.false_or]
      rfl

theorem points_record (t : PointTable) (s : Sighting) :
    (t.record s).points = t.points ∨ (∃ name, (t.record s).points = t.points.erase name) ∨
      ∃ name entry, s = .point name entry ∧ (t.record s).points = t.points.insert name entry := by
  cases s with
  | point name entry =>
    unfold record
    simp only
    split
    · exact .inl rfl
    · split
      · exact .inr (.inr ⟨name, entry, rfl, rfl⟩)
      · split
        · exact .inl rfl
        · exact .inr (.inl ⟨name, points_markAmbiguous t name⟩)
  | unaddressable name => exact .inl (points_report ..)
  | ambiguous name => exact .inr (.inl ⟨name, points_markAmbiguous t name⟩)
  | unresolved template => exact .inl (points_report ..)
  | unknownSlot template point => exact .inl (points_report ..)

theorem sorted_record (h : t.points.Sorted) (s : Sighting) : (t.record s).points.Sorted := by
  rcases points_record t s with hp | ⟨name, hp⟩ | ⟨name, entry, _, hp⟩
  · exact hp ▸ h
  · exact hp ▸ NameMap.sorted_erase h name
  · exact hp ▸ NameMap.sorted_insert h name entry

theorem sorted_ambiguous_report (h : t.ambiguous.Sorted) (issue : Issue) :
    (t.report issue).ambiguous.Sorted := by
  unfold report
  split <;> exact h

theorem sorted_ambiguous_markAmbiguous (h : t.ambiguous.Sorted) (name : String) :
    (t.markAmbiguous name).ambiguous.Sorted := by
  unfold markAmbiguous
  simp only
  split
  · exact h
  · apply sorted_ambiguous_report
    exact NameMap.sorted_insert h name ()

theorem sorted_ambiguous_record (h : t.ambiguous.Sorted) (s : Sighting) :
    (t.record s).ambiguous.Sorted := by
  cases s with
  | point name entry =>
    unfold record
    simp only
    split
    · exact h
    · split
      · exact h
      · split
        · exact h
        · exact sorted_ambiguous_markAmbiguous h name
  | ambiguous name => exact sorted_ambiguous_markAmbiguous h name
  | unaddressable | unresolved | unknownSlot => exact sorted_ambiguous_report h _

theorem point?_record {s : Sighting} (h : (t.record s).point? name = some entry) :
    t.point? name = some entry ∨ s = .point name entry := by
  unfold point? at h ⊢
  rcases points_record t s with hp | ⟨name', hp⟩ | ⟨name', entry', hs, hp⟩
  · exact .inl (hp ▸ h)
  · rw [hp, NameMap.find?_erase] at h
    split at h
    · cases h
    · exact .inl h
  · rw [hp, NameMap.find?_insert] at h
    split at h
    · next he =>
      cases h
      exact .inr (he ▸ hs)
    · exact .inl h

theorem sorted_ofSightings (sightings : List Sighting) : (ofSightings sightings).points.Sorted := by
  have run : ∀ t : PointTable, t.points.Sorted → (sightings.foldl record t).points.Sorted := by
    induction sightings with
    | nil => exact fun _ h => h
    | cons s sightings ih => exact fun t h => ih _ (sorted_record h s)
  exact run empty .nil

theorem sorted_ambiguous_ofSightings (sightings : List Sighting) :
    (ofSightings sightings).ambiguous.Sorted := by
  have run : ∀ t : PointTable, t.ambiguous.Sorted → (sightings.foldl record t).ambiguous.Sorted := by
    induction sightings with
    | nil => exact fun _ h => h
    | cons s sightings ih => exact fun t h => ih _ (sorted_ambiguous_record h s)
  exact run empty .nil

theorem sighted_foldl (h : (sightings.foldl record t).point? name = some entry) :
    t.point? name = some entry ∨ .point name entry ∈ sightings := by
  induction sightings generalizing t with
  | nil => exact .inl h
  | cons s sightings ih =>
    rcases ih h with h | h
    · rcases point?_record h with h | rfl
      · exact .inl h
      · exact .inr List.mem_cons_self
    · exact .inr (List.mem_cons_of_mem s h)

theorem sighted_of_point? (h : (ofSightings sightings).point? name = some entry) :
    .point name entry ∈ sightings := by
  rcases sighted_foldl h with h | h
  · cases h
  · exact h

end Stencil.PointTable
