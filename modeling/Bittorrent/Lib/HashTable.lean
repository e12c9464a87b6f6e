import Bittorrent.Lib.AssocMap

/-!
Hash maps that are also iterated: the entries, with distinct keys, in the order of iteration. Which
order that is is not for the program to say, so results about it are stated for every permutation of
the entries.
-/
namespace HashTables
open List

structure HashTable (K V : Type) where
  entries : List (K × V)
  distinct : (entries.map Prod.fst).Nodup
  deriving DecidableEq

namespace HashTable
variable {K V : Type}

def empty : HashTable K V := ⟨[], nodup_nil⟩

variable (f : K → V → V)

theorem map_keys (entries : List (K × V)) :
    (entries.map fun e => (e.1, f e.1 e.2)).map Prod.fst = entries.map Prod.fst := by
  simp [map_map, Function.comp_def]

def mapValues (f : K → V → V) (t : HashTable K V) : HashTable K V :=
  ⟨t.entries.map fun e => (e.1, f e.1 e.2), by rw [map_keys]; exact t.distinct⟩

def single (k : K) (v : V) : HashTable K V := ⟨[(k, v)], by simp⟩

theorem map_single (k : K) (v : V) : (single k v).mapValues f = single k (f k v) := rfl

variable [DecidableEq K]

def get (k : K) (t : HashTable K V) : Option V := AssocMap.get k t.entries

def insert (k : K) (v : V) (t : HashTable K V) : HashTable K V :=
  ⟨AssocMap.insert k v t.entries, AssocMap.insert_nodup t.distinct⟩

def remove (k : K) (t : HashTable K V) : HashTable K V :=
  ⟨AssocMap.remove k t.entries, AssocMap.remove_nodup t.distinct⟩

def adjust (k : K) (f : V → V) (t : HashTable K V) : HashTable K V :=
  t.mapValues fun key v => if key = k then f v else v

variable {k k' : K} {v : V} {t t' : HashTable K V}

theorem mem_iff : (k, v) ∈ t.entries ↔ t.get k = some v :=
  ⟨AssocMap.get_of_mem t.distinct, AssocMap.mem_of_get⟩

theorem get_perm (perm : t.entries.Perm t'.entries) (k : K) : t.get k = t'.get k := by
  refine Option.ext fun v => ?_
  rw [← mem_iff, ← mem_iff]
  exact perm.mem_iff

@[simp] theorem get_insert (k : K) (v : V) (t : HashTable K V) : (t.insert k v).get k = some v :=
  AssocMap.get_insert k v t.entries

theorem get_insert_other (v : V) (t : HashTable K V) (other : k' ≠ k) :
    (t.insert k v).get k' = t.get k' :=
  AssocMap.get_insert_other v t.entries other

@[simp] theorem get_remove (k : K) (t : HashTable K V) : (t.remove k).get k = none :=
  AssocMap.get_remove_same k t.entries

theorem get_remove_other (t : HashTable K V) (other : k' ≠ k) : (t.remove k).get k' = t.get k' :=
  AssocMap.get_remove_other t.entries other

theorem found_remove (found : (t.remove k).get k' = some v) : t.get k' = some v :=
  AssocMap.found_remove found

theorem found_insert {w : V} (found : (t.insert k v).get k' = some w) : k' = k ∧ w = v ∨ t.get k' = some w :=
  AssocMap.found_insert found

@[simp] theorem get_map (t : HashTable K V) (k : K) :
    (t.mapValues f).get k = (t.get k).map (f k) := by
  refine Option.ext fun w => ?_
  rw [← mem_iff, Option.map_eq_some_iff]
  simp only [mapValues, mem_map, Prod.mk.injEq, Prod.exists]
  constructor
  · rintro ⟨key, v, member, rfl, value⟩
    exact ⟨v, mem_iff.mp member, value⟩
  · rintro ⟨v, found, value⟩
    exact ⟨k, v, mem_iff.mpr found, rfl, value⟩

@[simp] theorem get_adjust (k : K) (f : V → V) (t : HashTable K V) :
    (t.adjust k f).get k = (t.get k).map f := by
  simp [adjust]

theorem get_adjust_other (f : V → V) (t : HashTable K V) (other : k' ≠ k) :
    (t.adjust k f).get k' = t.get k' := by
  simp [adjust, other]

theorem adjust_adjust (f g : V → V) (t : HashTable K V) :
    (t.adjust k f).adjust k g = t.adjust k fun v => g (f v) := by
  simp only [adjust, mapValues, mk.injEq, map_map]
  apply map_congr_left
  intro entry _
  by_cases same : entry.1 = k <;> simp [same]

theorem find_get {p : K × V → Bool} (found : t.entries.find? p = some (k, v)) :
    t.get k = some v ∧ p (k, v) = true :=
  ⟨mem_iff.mp (mem_of_find?_eq_some found), List.find?_some found⟩

@[simp] theorem get_single (k : K) (v : V) : (single k v).get k = some v := by
  simp [single, get, AssocMap.get]

theorem adjust_single (f : V → V) (k : K) (v : V) : (single k v).adjust k f = single k (f v) := by
  rw [adjust, map_single, if_pos rfl]

end HashTable

end HashTables
