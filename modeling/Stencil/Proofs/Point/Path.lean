import Mathlib.Data.List.Forall2
import Stencil.Point.Path

/-! # Following a segment and recognizing it

`Segment.resolve` and `Segment.capture` undo each other. The sum of a position and of the fixed
siblings that follow may overflow in either of them; a child that is found has a position for which
it does not.
-/
namespace Stencil

namespace Checked
variable {α β : Type} {x : Checked α} {f : α → Checked β} {b : β}

@[simp] theorem pure_eq (a : α) : (pure a : Checked α) = .ok a := rfl

@[simp] theorem ok_bind (a : α) (f : α → Checked β) :
    ((Except.ok a : Checked α) >>= f) = f a := rfl

@[simp] theorem error_bind (overflow : Overflow) (f : α → Checked β) :
    ((Except.error overflow : Checked α) >>= f) = .error overflow := rfl

theorem bind_eq_ok : x >>= f = .ok b ↔ ∃ a, x = .ok a ∧ f a = .ok b := by
  cases x with
  | error => simp
  | ok a => simp

theorem eq_error_iff : x = .error {} ↔ ∀ a, x ≠ .ok a := by
  cases x with
  | error => exact iff_of_true rfl nofun
  | ok a => exact iff_of_false nofun fun h => h a rfl

end Checked

variable {a b : Nat}

theorem wordAdd_of_lt (h : a + b < wordSize) : wordAdd a b = .ok (a + b) := if_pos h

theorem wordAdd_of_le (h : wordSize ≤ a + b) : wordAdd a b = .error {} :=
  if_neg (Nat.not_lt_of_le h)

namespace Segment
variable {segment : Segment} {key : String} {base trailing i p count : Nat}
  {index : Option Nat} {found : Option (Option Nat)}

theorem key?_eq_some_iff :
    segment.key? = some key ↔ ∃ base trailing, segment = .repeated key base trailing := by
  constructor
  · intro h
    cases segment with
    | index | fromEnd => cases h
    | repeated key' base trailing =>
      cases h
      exact ⟨base, trailing, rfl⟩
  · rintro ⟨base, trailing, rfl⟩
    rfl

/-! ## Downwards -/

theorem resolve_index {position : Nat} (h : position < count) (index? : Option Nat) :
    (Segment.index position).resolve index? count = .ok (some position) := by
  simp [resolve, target, h]

theorem backwards_of_lt {offset : Nat} (h : offset + 1 < wordSize) (count : Nat) :
    backwards offset count =
      .ok (if offset + 1 ≤ count then some (count - (offset + 1)) else none) := by
  rw [backwards, wordAdd_of_lt h]
  rfl

theorem resolve_fromEnd {offset : Nat} (hword : offset + 1 < wordSize) (index? : Option Nat) :
    (fromEnd offset).resolve index? (p + (offset + 1)) = .ok (some p) := by
  simp [resolve, target, backwards_of_lt hword]

theorem resolve_repeated_none :
    (repeated key base trailing).resolve none count = .ok none := rfl

theorem resolve_repeated_of_lt (hword : base + i + trailing < wordSize) :
    (repeated key base trailing).resolve (some i) count =
      .ok (if base + i + trailing < count then some (base + i) else none) := by
  rw [resolve, target, forwards, wordAdd_of_lt (by omega), Checked.ok_bind, wordAdd_of_lt hword]
  simp only [Checked.ok_bind, Checked.pure_eq]
  split
  · rw [Option.filter_some, if_pos (decide_eq_true (by omega))]
  · rfl

theorem resolve_repeated_of_le (hword : wordSize ≤ base + i + trailing) :
    (repeated key base trailing).resolve (some i) count = .error {} := by
  rw [resolve, target, forwards]
  rcases Nat.lt_or_ge (base + i) wordSize with h | h
  · rw [wordAdd_of_lt h, Checked.ok_bind, wordAdd_of_le hword]
    rfl
  · rw [wordAdd_of_le h]
    rfl

theorem resolve_repeated :
    (repeated key base trailing).resolve (some i) count = .ok (some p) ↔
      p = base + i ∧ p + trailing < wordSize ∧ p + trailing < count := by
  rcases Nat.lt_or_ge (base + i + trailing) wordSize with h | h
  · rw [resolve_repeated_of_lt h, Except.ok.injEq, Option.ite_none_right_eq_some, Option.some.injEq]
    constructor
    · rintro ⟨hlt, rfl⟩
      exact ⟨rfl, h, hlt⟩
    · rintro ⟨rfl, _, hlt⟩
      exact ⟨hlt, rfl⟩
  · rw [resolve_repeated_of_le h]
    refine iff_of_false nofun ?_
    rintro ⟨rfl, hlt, _⟩
    omega

theorem resolve_repeated_eq_none :
    (repeated key base trailing).resolve (some i) count = .ok none ↔
      base + i + trailing < wordSize ∧ count ≤ base + i + trailing := by
  rcases Nat.lt_or_ge (base + i + trailing) wordSize with h | h
  · rw [resolve_repeated_of_lt h, Except.ok.injEq]
    simp only [ite_eq_right_iff, reduceCtorEq, imp_false, Nat.not_lt, h, true_and]
  · rw [resolve_repeated_of_le h]
    exact iff_of_false nofun fun hlt => absurd hlt.1 (Nat.not_lt_of_le h)

theorem resolve_repeated_eq_error :
    (repeated key base trailing).resolve (some i) count = .error {} ↔
      wordSize ≤ base + i + trailing := by
  refine ⟨fun h => ?_, resolve_repeated_of_le⟩
  rcases Nat.lt_or_ge (base + i + trailing) wordSize with hlt | hle
  · rw [resolve_repeated_of_lt hlt] at h
    cases h
  · exact hle

/-! ## Upwards -/

theorem capture_of_lt (hlt : p < base) :
    (repeated key base trailing).capture p count = .ok none :=
  if_neg (Nat.not_le_of_lt hlt)

theorem capture_of_le (hle : base ≤ p) (hword : p + trailing < wordSize) :
    (repeated key base trailing).capture p count =
      .ok (if p + trailing < count then some (some (p - base)) else none) := by
  rw [capture, if_pos hle, wordAdd_of_lt hword]
  rfl

theorem capture_fromEnd {offset : Nat} (hword : offset + 1 < wordSize) (count : Nat) :
    (fromEnd offset).capture p count =
      .ok (if offset + 1 ≤ count ∧ count - (offset + 1) = p then some none else none) := by
  rw [capture, backwards_of_lt hword]
  simp only [Checked.ok_bind, Checked.pure_eq, Option.ite_none_right_eq_some, Option.some.injEq]

theorem capture_of_resolve_fixed (hkey : segment.key? = none)
    (h : segment.resolve none count = .ok (some p)) : segment.capture p count = .ok (some none) := by
  obtain ⟨position, hposition, h⟩ := Checked.bind_eq_ok.1 h
  have hfound := (Option.filter_eq_some_iff.1 (Except.ok.inj h)).1
  cases segment with
  | index q =>
    cases hposition
    exact congrArg Except.ok (if_pos (Option.some.inj hfound))
  | fromEnd offset =>
    rw [capture, show backwards offset count = .ok position from hposition]
    exact congrArg Except.ok (if_pos hfound)
  | repeated => cases hkey

theorem resolve_of_capture_fixed (hkey : segment.key? = none) (hlt : p < count)
    (h : segment.capture p count = .ok (some index)) :
    index = none ∧ segment.resolve none count = .ok (some p) := by
  have hfilter {position : Option Nat} (hp : position = some p) :
      position.filter (· < count) = some p := by
    rw [hp, Option.filter_some, if_pos (decide_eq_true hlt)]
  cases segment with
  | index q =>
    obtain ⟨hq, hnone⟩ := Option.ite_none_right_eq_some.1 (Except.ok.inj h)
    exact ⟨(Option.some.inj hnone).symm, congrArg Except.ok (hfilter (congrArg some hq))⟩
  | fromEnd offset =>
    obtain ⟨position, hposition, h⟩ := Checked.bind_eq_ok.1 h
    obtain ⟨hp, hnone⟩ := Option.ite_none_right_eq_some.1 (Except.ok.inj h)
    refine ⟨(Option.some.inj hnone).symm, ?_⟩
    rw [resolve, target, hposition]
    exact congrArg Except.ok (hfilter hp)
  | repeated => cases hkey

theorem capture_of_resolve_repeated
    (h : (repeated key base trailing).resolve (some i) count = .ok (some p)) :
    (repeated key base trailing).capture p count = .ok (some (some i)) := by
  obtain ⟨rfl, hword, hlt⟩ := resolve_repeated.1 h
  rw [capture_of_le (Nat.le_add_right base i) hword, if_pos hlt, Nat.add_sub_cancel_left]

theorem resolve_of_capture_repeated
    (h : (repeated key base trailing).capture p count = .ok (some index)) :
    ∃ i, index = some i ∧ (repeated key base trailing).resolve (some i) count = .ok (some p) := by
  rcases Nat.lt_or_ge p base with hp | hp
  · rw [capture_of_lt hp] at h
    cases h
  · rcases Nat.lt_or_ge (p + trailing) wordSize with hword | hword
    · rw [capture_of_le hp hword] at h
      obtain ⟨hlt, hindex⟩ := Option.ite_none_right_eq_some.1 (Except.ok.inj h)
      exact ⟨p - base, (Option.some.inj hindex).symm, resolve_repeated.2 ⟨by omega, hword, hlt⟩⟩
    · rw [capture, if_pos hp, wordAdd_of_le hword] at h
      cases h

/-- Fewer than `limit` siblings are counted by the segment. -/
def FitsIn (limit : Nat) : Segment → Prop
  | .index _ => True
  | .fromEnd offset => offset + 1 < limit
  | .repeated _ base trailing => base + trailing < limit

theorem FitsIn.resolve {index? : Option Nat} (h : segment.FitsIn wordSize)
    (hindex : ∀ key base trailing i, segment = .repeated key base trailing → index? = some i →
      base + i + trailing < wordSize) (count : Nat) :
    ∃ found, segment.resolve index? count = .ok found := by
  cases segment with
  | index position => exact ⟨_, rfl⟩
  | fromEnd offset =>
    rw [Segment.resolve, target, backwards_of_lt h]
    exact ⟨_, rfl⟩
  | repeated key base trailing =>
    cases index? with
    | none => exact ⟨_, rfl⟩
    | some i => exact ⟨_, resolve_repeated_of_lt (hindex key base trailing i rfl rfl)⟩

theorem FitsIn.capture {limit : Nat} (h : segment.FitsIn limit) (hword : p + limit ≤ wordSize)
    (count : Nat) : ∃ found, segment.capture p count = .ok found := by
  cases segment with
  | index position => exact ⟨_, rfl⟩
  | fromEnd offset =>
    rw [FitsIn] at h
    exact ⟨_, capture_fromEnd (by omega) count⟩
  | repeated key base trailing =>
    rw [FitsIn] at h
    rcases Nat.lt_or_ge p base with hp | hp
    · exact ⟨_, capture_of_lt hp⟩
    · exact ⟨_, capture_of_le hp (by omega)⟩

end Segment

namespace Path

/-- The points whose repetitions are chosen along a path. -/
def keys (path : Path) : List String := path.filterMap Segment.key?

variable {path : Path} {segment : Segment} {key : String} {base trailing : Nat}

theorem keys_fixed (hkey : segment.key? = none) : keys (segment :: path) = path.keys := by
  simp [keys, hkey]

@[simp] theorem keys_repeated :
    keys (.repeated key base trailing :: path) = key :: path.keys := rfl

end Path
end Stencil
