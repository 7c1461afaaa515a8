/-! # Attribute maps

Attributes keep the order in which their keys were first written. Setting a key that is present
replaces its value where it stands; a new key goes to the end. Merging lays one map over another:
`merged` is right-biased in values and left-biased in positions.
-/
namespace Stencil

namespace AttributeList

/-- Sets `key`, in place if it is present and at the end otherwise. -/
def put : List (String × String) → String → String → List (String × String)
  | [], key, value => [(key, value)]
  | (k, v) :: rest, key, value =>
    if k = key then (k, value) :: rest else (k, v) :: put rest key value

theorem keys_put (entries : List (String × String)) (key value : String) :
    (put entries key value).map Prod.fst =
      if key ∈ entries.map Prod.fst then entries.map Prod.fst
      else entries.map Prod.fst ++ [key] := by
  induction entries with
  | nil => simp [put]
  | cons e rest ih =>
    obtain ⟨k, v⟩ := e
    by_cases h : k = key
    · simp [put, h]
    · have h' : ¬ key = k := fun e => h e.symm
      by_cases hm : key ∈ rest.map Prod.fst <;> simp_all [put]

theorem nodup_put {entries : List (String × String)} (h : (entries.map Prod.fst).Nodup)
    (key value : String) : ((put entries key value).map Prod.fst).Nodup := by
  rw [keys_put]
  split
  · exact h
  · next hm =>
    refine List.nodup_append.mpr ⟨h, by simp, fun k hk d hd => ?_⟩
    rw [List.mem_singleton.mp hd]
    exact fun he => hm (he ▸ hk)

end AttributeList

structure Attributes where
  entries : List (String × String)
  keys_nodup : (entries.map Prod.fst).Nodup
  deriving DecidableEq

namespace Attributes

def empty : Attributes := ⟨[], .nil⟩

instance : Inhabited Attributes := ⟨empty⟩

@[ext] theorem ext {a b : Attributes} (h : a.entries = b.entries) : a = b := by
  cases a; cases b; simp_all

def insert (a : Attributes) (key value : String) : Attributes :=
  ⟨AttributeList.put a.entries key value, AttributeList.nodup_put a.keys_nodup key value⟩

def get? (a : Attributes) (key : String) : Option String := a.entries.lookup key

def size (a : Attributes) : Nat := a.entries.length

def isEmpty (a : Attributes) : Bool := a.entries.isEmpty

/-- Entries are taken in order: a repeated key keeps its first position and its last value. -/
def ofList (entries : List (String × String)) : Attributes :=
  entries.foldl (fun a e => a.insert e.1 e.2) empty

/-- Lays `upper` on top: keys of `a` keep their places, and `upper` wins where both have a key. -/
def merge (a upper : Attributes) : Attributes :=
  upper.entries.foldl (fun a e => a.insert e.1 e.2) a

def merged (a : Attributes) : Option Attributes → Attributes
  | none => a
  | some upper => a.merge upper

@[simp] theorem merged_none (a : Attributes) : a.merged none = a := rfl

@[simp] theorem merge_empty (a : Attributes) : a.merge empty = a := rfl

end Attributes
end Stencil
