import Mathlib.Data.List.Basic

/-!
Hash maps as association lists, for maps that are read, written and erased by key and whose order
is never asked for.
-/
namespace AssocMap
open List
variable {K V : Type} [DecidableEq K]

def get (k : K) : List (K × V) → Option V
  | [] => none
  | (key, v) :: rest => if key = k then some v else get k rest

def remove (k : K) (m : List (K × V)) : List (K × V) := m.filter fun e => e.1 ≠ k

def insert (k : K) (v : V) (m : List (K × V)) : List (K × V) := (k, v) :: remove k m

variable {k : K} {m : List (K × V)} {v : V}

theorem mem_of_get (found : get k m = some v) : (k, v) ∈ m := by
  induction m with
  | nil => simp [get] at found
  | cons head rest ih =>
    obtain ⟨key, w⟩ := head
    simp only [get] at found
    split at found
    · rename_i same
      subst same
      simp only [Option.some.injEq] at found
      simp [found]
    · exact .tail _ (ih found)

theorem get_insert (k : K) (v : V) (m : List (K × V)) : get k (insert k v m) = some v :=
  if_pos rfl

theorem mem_remove {e : K × V} (member : e ∈ remove k m) : e ∈ m :=
  mem_of_mem_filter member

theorem mem_insert {e : K × V} (member : e ∈ insert k v m) : e = (k, v) ∨ e ∈ m := by
  rcases mem_cons.mp member with new | old
  · exact .inl new
  · exact .inr (mem_remove old)

theorem remove_nodup (distinct : (m.map Prod.fst).Nodup) : ((remove k m).map Prod.fst).Nodup :=
  distinct.sublist (List.Sublist.map _ filter_sublist)

theorem not_mem_remove (k : K) (m : List (K × V)) : k ∉ (remove k m).map Prod.fst := by
  simp [remove]

theorem insert_nodup (distinct : (m.map Prod.fst).Nodup) : ((insert k v m).map Prod.fst).Nodup :=
  nodup_cons.mpr ⟨not_mem_remove k m, remove_nodup distinct⟩

theorem get_remove_other {k' : K} (m : List (K × V)) (other : k' ≠ k) :
    get k' (remove k m) = get k' m := by
  induction m with
  | nil => rfl
  | cons head rest ih =>
    obtain ⟨key, w⟩ := head
    by_cases same : key = k
    · subst same
      have away : ¬ key = k' := fun h => other h.symm
      simpa [remove, get, away] using ih
    · have kept : remove k ((key, w) :: rest) = (key, w) :: remove k rest := by
        simp [remove, same]
      rw [kept, get, get, ih]

theorem get_remove_same (k : K) (m : List (K × V)) : get k (remove k m) = none := by
  cases found : get k (remove k m) with
  | none => rfl
  | some v =>
    have member : k ∈ (remove k m).map Prod.fst := mem_map.mpr ⟨_, mem_of_get found, rfl⟩
    exact absurd member (not_mem_remove k m)

theorem get_insert_other {k' : K} (v : V) (m : List (K × V)) (other : k' ≠ k) :
    get k' (insert k v m) = get k' m := by
  rw [insert, get, if_neg fun h => other h.symm, get_remove_other m other]

theorem found_remove {k' : K} (found : get k' (remove k m) = some v) : get k' m = some v := by
  by_cases same : k' = k
  · rw [same, get_remove_same] at found
    cases found
  · rwa [get_remove_other m same] at found

theorem found_insert {k' : K} {w : V} (found : get k' (insert k v m) = some w) :
    k' = k ∧ w = v ∨ get k' m = some w := by
  by_cases same : k' = k
  · rw [same, get_insert] at found
    cases found
    exact .inl ⟨same, rfl⟩
  · rw [get_insert_other v m same] at found
    exact .inr found

theorem get_of_mem (distinct : (m.map Prod.fst).Nodup) (member : (k, v) ∈ m) :
    get k m = some v := by
  induction m with
  | nil => cases member
  | cons head rest ih =>
    obtain ⟨key, w⟩ := head
    obtain ⟨new, later⟩ := nodup_cons.mp distinct
    rcases mem_cons.mp member with same | inside
    · cases same
      exact if_pos rfl
    · have other : key ≠ k := by
        intro same
        subst same
        exact new (mem_map.mpr ⟨_, inside, rfl⟩)
      rw [get, if_neg other, ih later inside]

theorem get_insert_all {l : List (K × V)} : ∀ {m : List (K × V)}, (l.map Prod.fst).Nodup →
    get k (l.foldl (fun m e => insert e.1 e.2 m) m) = (get k l).or (get k m) := by
  induction l with
  | nil => exact fun _ => rfl
  | cons head rest ih =>
    intro m distinct
    obtain ⟨key, v⟩ := head
    obtain ⟨new, later⟩ := nodup_cons.mp distinct
    rw [foldl_cons, ih later]
    by_cases same : key = k
    · subst same
      have absent : get key rest = none := by
        cases found : get key rest with
        | none => rfl
        | some w => exact absurd (mem_map.mpr ⟨_, mem_of_get found, rfl⟩) new
      rw [get_insert, absent, get, if_pos rfl]
      rfl
    · rw [get_insert_other _ _ fun h => same h.symm, get, if_neg same]

end AssocMap
