import Mathlib.Data.List.Nodup

/-! Insertion-ordered maps: writing a present key keeps its place, a new key goes last. -/

namespace Symphony

structure IndexMap (Key Value : Type) where
  entries : List (Key × Value)
  distinct : (entries.map Prod.fst).Nodup

namespace IndexMap

variable {Key Value : Type} [DecidableEq Key]

instance [DecidableEq Value] : DecidableEq (IndexMap Key Value) := fun first second =>
  decidable_of_iff (first.entries = second.entries)
    ⟨fun same => by cases first; cases second; simp_all, fun same => by rw [same]⟩

def empty : IndexMap Key Value := ⟨[], List.nodup_nil⟩

instance : Inhabited (IndexMap Key Value) := ⟨empty⟩

def write (key : Key) (value : Value) : List (Key × Value) → List (Key × Value)
  | [] => [(key, value)]
  | entry :: rest =>
      if entry.1 = key then (key, value) :: rest else entry :: write key value rest

theorem keys_write (key : Key) (value : Value) (entries : List (Key × Value)) :
    (write key value entries).map Prod.fst =
      if key ∈ entries.map Prod.fst then entries.map Prod.fst
      else entries.map Prod.fst ++ [key] := by
  induction entries with
  | nil => simp [write]
  | cons entry rest ih =>
      by_cases same : entry.1 = key
      · simp [write, same]
      · have other : key ≠ entry.1 := fun equal => same equal.symm
        rw [write, if_neg same, List.map_cons, ih]
        by_cases present : key ∈ rest.map Prod.fst
        · simp only [List.map_cons, List.mem_cons, present, or_true, if_true]
        · simp only [List.map_cons, List.mem_cons, present, other, or_self, if_false,
            List.cons_append]

def insert (map : IndexMap Key Value) (key : Key) (value : Value) : IndexMap Key Value where
  entries := write key value map.entries
  distinct := by
    rw [keys_write]
    split
    · exact map.distinct
    · rename_i absent
      exact List.nodup_append.mpr ⟨map.distinct, List.nodup_singleton key, by
        intro old member new single equal
        rw [List.mem_singleton.mp single] at equal
        exact absent (equal ▸ member)⟩

def get? (map : IndexMap Key Value) (key : Key) : Option Value :=
  (map.entries.find? (fun entry => entry.1 = key)).map Prod.snd

theorem find_write_self (key : Key) (value : Value) (entries : List (Key × Value)) :
    (write key value entries).find? (fun entry => entry.1 = key) = some (key, value) := by
  induction entries with
  | nil => simp [write]
  | cons entry rest ih =>
      by_cases same : entry.1 = key
      · simp [write, same]
      · simp [write, same, ih]

theorem find_write_ne (key other : Key) (value : Value) (entries : List (Key × Value))
    (different : other ≠ key) :
    (write key value entries).find? (fun entry => entry.1 = other) =
      entries.find? (fun entry => entry.1 = other) := by
  induction entries with
  | nil => simp [write, different.symm]
  | cons entry rest ih =>
      by_cases same : entry.1 = key
      · simp [write, same, different.symm]
      · simp only [write, if_neg same, List.find?_cons, ih]

@[simp] theorem get?_insert_self (map : IndexMap Key Value) (key : Key) (value : Value) :
    (map.insert key value).get? key = some value := by
  simp [get?, insert, find_write_self]

theorem get?_insert_ne (map : IndexMap Key Value) (key other : Key) (value : Value)
    (different : other ≠ key) : (map.insert key value).get? other = map.get? other := by
  simp [get?, insert, find_write_ne key other value map.entries different]

theorem write_fresh (key : Key) (value : Value) (entries : List (Key × Value))
    (fresh : key ∉ entries.map Prod.fst) : write key value entries = entries ++ [(key, value)] := by
  induction entries with
  | nil => rfl
  | cons entry rest ih =>
      simp only [List.map_cons, List.mem_cons, not_or] at fresh
      rw [write, if_neg (fun equal => fresh.1 equal.symm), ih fresh.2, List.cons_append]

end IndexMap

end Symphony
