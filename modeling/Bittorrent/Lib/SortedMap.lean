import Mathlib.Data.List.Lex
import Mathlib.Data.List.Induction
import Mathlib.Order.Lattice

/-!
Ordered maps as association lists with strictly increasing keys, which is what a `BTreeMap`
shows through `iter`, `get`, `insert` and `keys().last()`.
-/
namespace SortedMap
open List hiding lookup
variable {K V W : Type} [LinearOrder K]

def Sorted (m : List (K × V)) : Prop := m.Pairwise fun a b => a.1 < b.1

instance (m : List (K × V)) : Decidable (Sorted m) :=
  inferInstanceAs (Decidable (m.Pairwise fun a b => a.1 < b.1))

def lookup (k : K) : List (K × V) → Option V
  | [] => none
  | (key, v) :: rest => if key = k then some v else lookup k rest

def insert (k : K) (v : V) : List (K × V) → List (K × V)
  | [] => [(k, v)]
  | (key, w) :: rest =>
    if k < key then (k, v) :: (key, w) :: rest
    else if key = k then (k, v) :: rest
    else (key, w) :: insert k v rest

def remove (k : K) (m : List (K × V)) : List (K × V) := m.filter fun e => e.1 ≠ k

def lastKey (m : List (K × V)) : Option K := m.getLast?.map Prod.fst

def ofList (entries : List (K × V)) : List (K × V) :=
  entries.foldl (fun m e => insert e.1 e.2 m) []

variable {k : K} {m : List (K × V)} {v : V}

theorem mem_insert {e : K × V} (member : e ∈ insert k v m) : e = (k, v) ∨ e ∈ m := by
  induction m with
  | nil => simpa [insert] using member
  | cons head rest ih =>
    obtain ⟨key, w⟩ := head
    simp only [insert] at member
    split at member
    · exact mem_cons.mp member
    · split at member
      · exact (mem_cons.mp member).imp_right (.tail _)
      · rcases mem_cons.mp member with rfl | later
        · exact .inr (.head _)
        · exact (ih later).imp_right (.tail _)

theorem insert_sorted (sorted : Sorted m) : Sorted (insert k v m) := by
  induction m with
  | nil => simp [insert, Sorted]
  | cons head rest ih =>
    obtain ⟨key, w⟩ := head
    obtain ⟨above, tail⟩ := pairwise_cons.mp sorted
    simp only [insert]
    split
    · rename_i before
      refine pairwise_cons.mpr ⟨?_, sorted⟩
      intro e member
      rcases mem_cons.mp member with same | later
      · simpa [same] using before
      · exact lt_trans before (above e later)
    · split
      · rename_i same
        subst same
        exact pairwise_cons.mpr ⟨above, tail⟩
      · rename_i notBefore notSame
        have after : key < k := lt_of_le_of_ne (not_lt.mp notBefore) notSame
        refine pairwise_cons.mpr ⟨?_, ih tail⟩
        intro e member
        rcases mem_insert member with new | old
        · simpa [new] using after
        · exact above e old

variable (entries : List (K × V))

theorem of_list_sorted : Sorted (ofList entries) :=
  List.foldlRecOn (motive := Sorted) entries _ .nil fun _ sorted _ _ => insert_sorted sorted

theorem lookup_insert_self (k : K) (v : V) (m : List (K × V)) :
    lookup k (insert k v m) = some v := by
  induction m with
  | nil => simp [insert, lookup]
  | cons head rest ih =>
    obtain ⟨key, w⟩ := head
    simp only [insert]
    split
    · simp [lookup]
    · split
      · simp [lookup]
      · rename_i notSame
        simp [lookup, notSame, ih]

theorem lookup_insert_other {k' : K} (v : V) (m : List (K × V)) (other : k' ≠ k) :
    lookup k' (insert k v m) = lookup k' m := by
  induction m with
  | nil => simp [insert, lookup, other.symm]
  | cons head rest ih =>
    obtain ⟨key, w⟩ := head
    simp only [insert]
    split
    · simp [lookup, other.symm]
    · split
      · rename_i same
        subst same
        simp [lookup, other.symm]
      · simp only [lookup, ih]

theorem lookup_eq_none : lookup k m = none ↔ k ∉ m.map Prod.fst := by
  induction m with
  | nil => simp [lookup]
  | cons head rest ih =>
    obtain ⟨key, w⟩ := head
    by_cases same : key = k
    · simp [lookup, same]
    · have other : k ≠ key := fun h => same h.symm
      simp only [lookup, same, ↓reduceIte, ih, map_cons, mem_cons, other, false_or]

theorem insert_above (above : ∀ e ∈ m, e.1 < k) : insert k v m = m ++ [(k, v)] := by
  induction m with
  | nil => rfl
  | cons head rest ih =>
    obtain ⟨key, w⟩ := head
    have less : key < k := above (key, w) (by simp)
    have tail := ih (forall_mem_cons.mp above).2
    simp only [insert, not_lt_of_gt less, ↓reduceIte, ne_of_lt less, tail, cons_append]

theorem lastKey_greatest (sorted : Sorted m) {last : K} (isLast : lastKey m = some last) :
    ∀ e ∈ m, e.1 ≤ last := by
  induction m using List.reverseRecOn with
  | nil => simp
  | append_singleton front e _ =>
    simp only [lastKey, List.getLast?_append, List.getLast?_singleton, Option.some_or,
      Option.map_some, Option.some.injEq] at isLast
    intro f member
    rcases mem_append.mp member with early | final
    · have less := (pairwise_append.mp sorted).2.2 f early e (by simp)
      exact le_of_lt (isLast ▸ less)
    · simp only [mem_singleton] at final
      simp [final, isLast]

omit [LinearOrder K] in
theorem lastKey_eq_none : lastKey m = none ↔ m = [] := by
  simp [lastKey]

omit [LinearOrder K] in
theorem lastKey_mem {last : K} (isLast : lastKey m = some last) : last ∈ m.map Prod.fst := by
  obtain ⟨e, final, rfl⟩ := Option.map_eq_some_iff.mp isLast
  exact mem_map_of_mem (mem_of_getLast? final)

theorem mem_keys_insert {k' : K} :
    k' ∈ (insert k v m).map Prod.fst ↔ k' = k ∨ k' ∈ m.map Prod.fst := by
  induction m with
  | nil => simp [insert]
  | cons head rest ih =>
    obtain ⟨key, w⟩ := head
    simp only [insert]
    split
    · simp
    · split
      · rename_i same
        simp [same]
      · simp only [map_cons, mem_cons, ih]
        tauto

variable {entries : List (K × V)}

theorem mem_keys_of_list : k ∈ (ofList entries).map Prod.fst ↔ k ∈ entries.map Prod.fst := by
  have step : ∀ m : List (K × V),
      k ∈ (entries.foldl (fun m e => insert e.1 e.2 m) m).map Prod.fst ↔
        k ∈ m.map Prod.fst ∨ k ∈ entries.map Prod.fst := by
    induction entries with
    | nil => simp
    | cons e rest ih =>
      intro m
      rw [foldl_cons, ih, mem_keys_insert, map_cons, mem_cons]
      tauto
  simpa [ofList] using step []

theorem insert_perm (fresh : k ∉ m.map Prod.fst) : (insert k v m).Perm ((k, v) :: m) := by
  induction m with
  | nil => exact .refl _
  | cons head rest ih =>
    obtain ⟨key, w⟩ := head
    rw [map_cons, mem_cons, not_or] at fresh
    simp only [insert]
    split
    · exact .refl _
    · rw [if_neg (Ne.symm fresh.1)]
      exact ((ih fresh.2).cons _).trans (List.Perm.swap _ _ _)

theorem mem_of_list {e : K × V} (member : e ∈ ofList entries) : e ∈ entries := by
  refine List.foldlRecOn (motive := (e ∈ · → e ∈ entries)) entries _ (by simp) ?_ member
  intro m old f inside new
  rcases mem_insert new with rfl | early
  · exact inside
  · exact old early

theorem of_list_snoc (k : K) (v : V) :
    ofList (entries ++ [(k, v)]) = insert k v (ofList entries) := by
  unfold ofList
  rw [foldl_append, foldl_cons, foldl_nil]

theorem of_list_perm (distinct : (entries.map Prod.fst).Nodup) : (ofList entries).Perm entries := by
  induction entries using List.reverseRecOn with
  | nil => exact .refl _
  | append_singleton front e ih =>
    rw [map_append, nodup_append] at distinct
    have fresh : e.1 ∉ (ofList front).map Prod.fst := fun member =>
      distinct.2.2 e.1 (mem_keys_of_list.mp member) e.1 (.head _) rfl
    rw [of_list_snoc]
    exact (insert_perm fresh).trans (((ih distinct.1).cons e).trans
      (perm_append_singleton e front).symm)

theorem of_list_of_sorted (sorted : Sorted entries) : ofList entries = entries := by
  have step : ∀ front rest : List (K × V), Sorted (front ++ rest) →
      rest.foldl (fun m e => insert e.1 e.2 m) front = front ++ rest := by
    intro front rest
    induction rest generalizing front with
    | nil => simp
    | cons e rest ih =>
      intro both
      have above : ∀ f ∈ front, f.1 < e.1 := fun f member =>
        (pairwise_append.mp both).2.2 f member e (by simp)
      rw [foldl_cons, insert_above above, ih (front ++ [(e.1, e.2)]) (by simpa using both)]
      simp
  exact step [] entries sorted

theorem lookup_insert (k k' : K) (v : V) (m : List (K × V)) :
    lookup k' (insert k v m) = if k' = k then some v else lookup k' m := by
  by_cases same : k' = k
  · rw [if_pos same, same, lookup_insert_self]
  · rw [if_neg same, lookup_insert_other v m same]

theorem lookup_insert_all : ∀ m : List (K × V),
    lookup k (entries.foldl (fun m e => insert e.1 e.2 m) m) =
      (lookup k (ofList entries)).or (lookup k m) := by
  induction entries with
  | nil => exact fun m => rfl
  | cons e rest ih =>
    intro m
    have whole := ih (insert e.1 e.2 m)
    have alone := ih (insert e.1 e.2 [])
    have first : ofList (e :: rest) =
        rest.foldl (fun m e => insert e.1 e.2 m) (insert e.1 e.2 []) := rfl
    rw [foldl_cons, whole, first, alone, lookup_insert, lookup_insert]
    by_cases same : k = e.1
    · simp [same]
    · simp [same, lookup]

/-- Mapping the stored values keeps the keys and so the order. -/
def mapValues (f : V → W) (m : List (K × V)) : List (K × W) := m.map fun e => (e.1, f e.2)

theorem map_values_insert (f : V → W) (k : K) (v : V) (m : List (K × V)) :
    mapValues f (insert k v m) = insert k (f v) (mapValues f m) := by
  induction m with
  | nil => rfl
  | cons head rest ih =>
    obtain ⟨key, w⟩ := head
    simp only [mapValues] at ih
    simp only [insert, mapValues, map_cons]
    split
    · rfl
    · split
      · rfl
      · simp only [map_cons, ih]

theorem map_values_of_list (f : V → W) (entries : List (K × V)) :
    mapValues f (ofList entries) = ofList (mapValues f entries) := by
  have step : ∀ m : List (K × V),
      mapValues f (entries.foldl (fun m e => insert e.1 e.2 m) m) =
        (mapValues f entries).foldl (fun m e => insert e.1 e.2 m) (mapValues f m) := by
    induction entries with
    | nil => exact fun m => rfl
    | cons e rest ih =>
      intro m
      rw [foldl_cons, ih, map_values_insert]
      rfl
  exact step []

theorem map_values_sorted {f : V → W} : Sorted (mapValues f m) ↔ Sorted m := by
  simp [Sorted, mapValues, pairwise_map]

end SortedMap
