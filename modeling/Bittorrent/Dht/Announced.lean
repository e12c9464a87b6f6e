import Mathlib.Data.List.Nodup
import Mathlib.Data.List.TakeWhile
import Mathlib.Data.Set.Card
import Mathlib.Data.Set.Finite.Lattice
import Bittorrent.Lib.Calls
import Bittorrent.Dht.Storage

/-!
What the announce storage is for: it remembers, for each contact, the time of its latest accepted
announcement, and forgets a contact when that is a day old. The two containers are shown to agree
with this memory after every history of calls on a clock that does not run backwards.
-/
namespace DhtAnnounced
open Rust Action DhtNode DhtStorage AnnounceStorage

abbrev Contact := InfoHash × SocketAddr

def contactOf (item : ItemExpiration) : Contact := (item.infoHash, item.address)

theorem same_contact (a b : ItemExpiration) : a.same b = true ↔ contactOf a = contactOf b := by
  simp [ItemExpiration.same, contactOf, and_comm]

theorem other_contact (a b : ItemExpiration) :
    (!a.same b) = true ↔ contactOf a ≠ contactOf b := by
  rw [Bool.not_eq_true', ← Bool.not_eq_true, same_contact]

section Map
open List
variable {storage : List (InfoHash × List ItemExpiration)} {item : ItemExpiration}

def storedContacts (storage : List (InfoHash × List ItemExpiration)) : List Contact :=
  storage.flatMap fun entry => entry.2.map fun item => (entry.1, item.address)

/-- A list of the map belongs to its hash and names no address twice. -/
structure Proper (infoHash : InfoHash) (items : List ItemExpiration) : Prop where
  keyed : ∀ item ∈ items, item.infoHash = infoHash
  distinct : (items.map (·.address)).Nodup

structure Tidy (storage : List (InfoHash × List ItemExpiration)) : Prop where
  keys : (storage.map Prod.fst).Nodup
  full : ∀ infoHash, AssocMap.get infoHash storage ≠ some []
  lists : ∀ infoHash items, AssocMap.get infoHash storage = some items → Proper infoHash items

def itemsOf (infoHash : InfoHash) (storage : List (InfoHash × List ItemExpiration)) :
    List ItemExpiration := (AssocMap.get infoHash storage).getD []

variable {infoHash : InfoHash}

section
variable (tidy : Tidy storage)
include tidy

theorem items_proper (infoHash : InfoHash) : Proper infoHash (itemsOf infoHash storage) := by
  unfold itemsOf
  cases found : AssocMap.get infoHash storage with
  | none => exact ⟨nofun, .nil⟩
  | some items => exact tidy.lists _ _ found

theorem mem_stored (c : Contact) :
    c ∈ storedContacts storage ↔ ∃ item ∈ itemsOf c.1 storage, contactOf item = c := by
  simp only [storedContacts, mem_flatMap, mem_map]
  constructor
  · rintro ⟨⟨infoHash, items⟩, entry, item, member, rfl⟩
    have found := AssocMap.get_of_mem tidy.keys entry
    refine ⟨item, ?_, by rw [contactOf, (tidy.lists _ _ found).keyed item member]⟩
    rw [itemsOf, found]
    exact member
  · rintro ⟨item, member, rfl⟩
    unfold itemsOf at member
    cases found : AssocMap.get (contactOf item).1 storage with
    | none =>
      rw [found] at member
      cases member
    | some items =>
      rw [found] at member
      exact ⟨(item.infoHash, items), AssocMap.mem_of_get found, item, member, rfl⟩

theorem stored_nodup : (storedContacts storage).Nodup := by
  refine nodup_flatMap.mpr ⟨?_, ?_⟩
  · rintro ⟨infoHash, items⟩ entry
    have proper := tidy.lists _ _ (AssocMap.get_of_mem tidy.keys entry)
    have shape : (items.map fun item => (infoHash, item.address)) =
        (items.map (·.address)).map (Prod.mk infoHash) := by simp
    rw [shape]
    exact proper.distinct.map (Prod.mk_right_injective infoHash)
  · refine (pairwise_map.mp tidy.keys).imp ?_
    intro a b different c left right
    obtain ⟨_, _, rfl⟩ := mem_map.mp left
    obtain ⟨_, _, same⟩ := mem_map.mp right
    exact different (congrArg Prod.fst same).symm

theorem replaced {items : List ItemExpiration} (proper : Proper infoHash items) :
    let storage' := if items.isEmpty then AssocMap.remove infoHash storage
      else AssocMap.insert infoHash items storage
    Tidy storage' ∧ ∀ c, c ∈ storedContacts storage' ↔
      if c.1 = infoHash then ∃ item ∈ items, contactOf item = c else c ∈ storedContacts storage := by
  intro storage'
  have got : ∀ other, AssocMap.get other storage' =
      if other = infoHash then (if items.isEmpty then none else some items)
      else AssocMap.get other storage := by
    intro other
    by_cases same : other = infoHash <;> cases items <;>
      simp [storage', same, AssocMap.get_remove_same, AssocMap.get_insert, AssocMap.get_remove_other,
        AssocMap.get_insert_other]
  have tidy' : Tidy storage' := by
    refine ⟨?_, fun other => ?_, fun other list found => ?_⟩
    · cases items
      · exact AssocMap.remove_nodup tidy.keys
      · exact AssocMap.insert_nodup tidy.keys
    · rw [got]
      split
      · cases items <;> simp
      · exact tidy.full other
    · rw [got] at found
      split at found
      · subst other
        cases items <;> simp_all
      · exact tidy.lists _ _ found
  refine ⟨tidy', fun c => ?_⟩
  rw [mem_stored tidy', mem_stored tidy, itemsOf, got]
  split
  · cases items <;> simp
  · rfl

end

theorem mem_drop_item (tidy : Tidy storage) (item : ItemExpiration) :
    Tidy (dropItem storage item) ∧ ∀ c, c ∈ storedContacts (dropItem storage item) ↔
      c ∈ storedContacts storage ∧ c ≠ contactOf item := by
  unfold dropItem
  cases found : AssocMap.get item.infoHash storage with
  | none =>
    refine ⟨tidy, fun c => (and_iff_left_of_imp ?_).symm⟩
    rintro inside rfl
    obtain ⟨other, member, _⟩ := (mem_stored tidy _).mp inside
    simp [itemsOf, contactOf, found] at member
  | some items =>
    have proper := tidy.lists _ _ found
    have left : Proper item.infoHash (items.filter fun a => !a.same item) :=
      ⟨fun a member => proper.keyed a (mem_of_mem_filter member),
        proper.distinct.sublist (filter_sublist.map _)⟩
    obtain ⟨tidy', same⟩ := replaced tidy left
    refine ⟨tidy', fun c => (same c).trans ?_⟩
    split
    · rename_i here
      rw [mem_stored tidy, itemsOf, here, found]
      simp only [mem_filter, other_contact, Option.getD_some]
      constructor
      · rintro ⟨a, ⟨inside, kept⟩, rfl⟩
        exact ⟨⟨a, inside, rfl⟩, kept⟩
      · rintro ⟨⟨a, inside, rfl⟩, other⟩
        exact ⟨a, ⟨inside, other⟩, rfl⟩
    · rename_i other
      exact (and_iff_left fun same => other (congrArg Prod.fst same)).symm

theorem drop_items (expired : List ItemExpiration) : ∀ storage, Tidy storage →
    Tidy (expired.foldl dropItem storage) ∧ ∀ c, c ∈ storedContacts (expired.foldl dropItem storage) ↔
      c ∈ storedContacts storage ∧ c ∉ expired.map contactOf := by
  induction expired with
  | nil => exact fun storage tidy => ⟨tidy, by simp⟩
  | cons item rest ih =>
    intro storage tidy
    obtain ⟨first, dropped⟩ := mem_drop_item tidy item
    obtain ⟨tidy', same⟩ := ih _ first
    refine ⟨tidy', fun c => ?_⟩
    rw [foldl_cons, same, dropped, map_cons, mem_cons]
    tauto

theorem insert_item (tidy : Tidy storage) (item : ItemExpiration)
    (absent : contactOf item ∉ storedContacts storage) :
    Tidy (AssocMap.insert item.infoHash (itemsOf item.infoHash storage ++ [item]) storage) ∧
      ∀ c, c ∈ storedContacts
        (AssocMap.insert item.infoHash (itemsOf item.infoHash storage ++ [item]) storage) ↔
          c ∈ storedContacts storage ∨ c = contactOf item := by
  have proper := items_proper tidy item.infoHash
  have more : Proper item.infoHash (itemsOf item.infoHash storage ++ [item]) := by
    refine ⟨forall_mem_append.mpr ⟨proper.keyed, by simp⟩, ?_⟩
    rw [map_append, map_singleton, ← concat_eq_append, nodup_concat]
    refine ⟨fun member => ?_, proper.distinct⟩
    obtain ⟨a, inside, same⟩ := mem_map.mp member
    refine absent ((mem_stored tidy _).mpr ⟨a, inside, ?_⟩)
    rw [contactOf, contactOf, proper.keyed a inside, same]
  obtain ⟨tidy', same⟩ := replaced tidy more
  rw [if_neg (by simp)] at tidy' same
  refine ⟨tidy', fun c => (same c).trans ?_⟩
  split
  · rename_i here
    rw [mem_stored tidy, here]
    simp only [mem_append, mem_singleton, or_and_right, exists_or, exists_eq_left]
    exact or_congr_right eq_comm
  · rename_i other
    exact (or_iff_left fun same => other (congrArg Prod.fst same)).symm

end Map

section Memory
open List

/-- The time of the latest accepted announcement of each contact. -/
abbrev Memory := Contact → Option Int

def Fresh (memory : Memory) (now : Int) (c : Contact) : Prop :=
  ∃ t, memory c = some t ∧ now - t < expirationTime

/-- The storage at this time or later, next to the memory it stands for. `expires` is in the order
    of time, so that what is missing from it has expired. -/
structure Matches (memory : Memory) (now : Int) (s : AnnounceStorage) : Prop where
  tidy : Tidy s.storage
  same : ∀ c, c ∈ storedContacts s.storage ↔ c ∈ s.expires.map contactOf
  distinct : (s.expires.map contactOf).Nodup
  bounded : s.expires.length ≤ maxItemsStored
  ordered : s.expires.Pairwise fun a b => a.inserted ≤ b.inserted
  past : ∀ item ∈ s.expires, item.inserted ≤ now
  dated : ∀ item ∈ s.expires, memory (contactOf item) = some item.inserted
  gone : ∀ c t, memory c = some t → c ∈ s.expires.map contactOf ∨ expirationTime ≤ now - t

variable {memory : Memory} {now later : Int} {s : AnnounceStorage} {item : ItemExpiration}

theorem new_matches (now : Int) : Matches (fun _ => none) now AnnounceStorage.new where
  tidy := ⟨nodup_nil, nofun, nofun⟩
  same := by simp [storedContacts, AnnounceStorage.new]
  distinct := nodup_nil
  bounded := Nat.zero_le _
  ordered := .nil
  past := nofun
  dated := nofun
  gone := nofun

theorem matches_later (kept : Matches memory now s) (forward : now ≤ later) :
    Matches memory later s :=
  { kept with
    past := fun item member => Int.le_trans (kept.past item member) forward
    gone := fun c t known => (kept.gone c t known).imp_right fun old => by omega }

theorem is_expired (item : ItemExpiration) (now : Int) :
    item.isExpired now = true ↔ expirationTime ≤ now - item.inserted := by
  simp [ItemExpiration.isExpired]

theorem unexpired_behind (now : Int) (items : List ItemExpiration)
    (ordered : items.Pairwise fun a b => a.inserted ≤ b.inserted) :
    ∀ item ∈ items.dropWhile (·.isExpired now), ¬ expirationTime ≤ now - item.inserted := by
  induction items with
  | nil => exact nofun
  | cons first rest ih =>
    obtain ⟨before, ordered'⟩ := pairwise_cons.mp ordered
    by_cases expired : first.isExpired now = true
    · rw [dropWhile_cons, if_pos expired]
      exact ih ordered'
    · rw [dropWhile_cons, if_neg expired]
      rw [is_expired] at expired
      intro item member
      rcases mem_cons.mp member with rfl | inside
      · exact expired
      · have order := before item inside
        omega

theorem remove_expired_lists (s : AnnounceStorage) (now : Int) : s.removeExpiredItems now =
    ⟨(s.expires.takeWhile (·.isExpired now)).foldl dropItem s.storage,
      s.expires.dropWhile (·.isExpired now)⟩ := by
  have parts := takeWhile_append_dropWhile (p := (·.isExpired now)) (l := s.expires)
  have behind : (s.expires.takeWhile (·.isExpired now) ++ s.expires.dropWhile (·.isExpired now)).drop
      (s.expires.takeWhile (·.isExpired now)).length = s.expires.dropWhile (·.isExpired now) :=
    drop_left
  rw [parts] at behind
  unfold removeExpiredItems
  dsimp only
  rw [behind]

theorem remove_expired (kept : Matches memory now s) :
    Matches memory now (s.removeExpiredItems now) ∧
      ∀ c, c ∈ (s.removeExpiredItems now).expires.map contactOf ↔ Fresh memory now c := by
  have parts := takeWhile_append_dropWhile (p := (·.isExpired now)) (l := s.expires)
  have unexpired := unexpired_behind now s.expires kept.ordered
  have expired : ∀ item ∈ s.expires.takeWhile (·.isExpired now),
      expirationTime ≤ now - item.inserted := by
    intro item member
    have holds := mem_takeWhile_imp (p := fun i : ItemExpiration => i.isExpired now) member
    exact (is_expired item now).mp holds
  have sub : (s.expires.dropWhile (·.isExpired now)).Sublist s.expires := dropWhile_sublist _
  obtain ⟨tidy, left⟩ := drop_items (s.expires.takeWhile (·.isExpired now)) s.storage kept.tidy
  rw [remove_expired_lists]
  generalize s.expires.takeWhile (·.isExpired now) = front at *
  generalize s.expires.dropWhile (·.isExpired now) = back at *
  have whole : ∀ item, item ∈ s.expires ↔ item ∈ front ∨ item ∈ back := by simp [← parts]
  have listed : ∀ c, c ∈ back.map contactOf ↔ Fresh memory now c := by
    intro c
    constructor
    · intro inside
      obtain ⟨item, there, rfl⟩ := mem_map.mp inside
      exact ⟨item.inserted, kept.dated item (sub.subset there), not_le.mp (unexpired item there)⟩
    · rintro ⟨t, known, young⟩
      obtain ⟨item, there, rfl⟩ := mem_map.mp ((kept.gone c t known).resolve_right (not_le.mpr young))
      cases known.symm.trans (kept.dated item there)
      refine mem_map_of_mem (((whole item).mp there).resolve_left fun inFront => ?_)
      exact not_le.mpr young (expired item inFront)
  refine ⟨⟨tidy, fun c => ?_, kept.distinct.sublist (sub.map _), sub.length_le.trans kept.bounded,
    kept.ordered.sublist sub, fun item there => kept.past item (sub.subset there),
    fun item there => kept.dated item (sub.subset there), fun c t known => ?_⟩, listed⟩
  · have distinct := kept.distinct
    rw [← parts, map_append] at distinct
    have apart := (nodup_append.mp distinct).2.2
    rw [left, kept.same, ← parts, map_append, mem_append]
    exact ⟨fun inside => inside.1.resolve_left inside.2, fun inBack =>
      ⟨.inr inBack, fun inFront => apart c inFront c inBack rfl⟩⟩
  · rw [listed]
    by_cases old : expirationTime ≤ now - t
    · exact .inr old
    · exact .inl ⟨t, known, not_le.mp old⟩

theorem insert_contact_cases (kept : Matches memory now s) (item : ItemExpiration) :
    (contactOf item ∈ s.expires.map contactOf ∧ s.insertContact item = (some true, s)) ∨
      (contactOf item ∉ s.expires.map contactOf ∧ s.expires.length < maxItemsStored ∧
        s.insertContact item = (some false, { s with
          storage := AssocMap.insert item.infoHash (itemsOf item.infoHash s.storage ++ [item])
            s.storage })) ∨
      (contactOf item ∉ s.expires.map contactOf ∧ s.expires.length = maxItemsStored ∧
        s.insertContact item = (none, s)) := by
  have listed : (itemsOf item.infoHash s.storage).any (·.same item) = true ↔
      contactOf item ∈ s.expires.map contactOf := by
    rw [← kept.same, mem_stored kept.tidy, any_eq_true]
    simp only [same_contact]
    rfl
  have bounded := kept.bounded
  by_cases known : contactOf item ∈ s.expires.map contactOf
  · refine .inl ⟨known, ?_⟩
    exact if_pos (listed.mpr known)
  · have unlisted : ¬ (itemsOf item.infoHash s.storage).any (·.same item) = true :=
      fun found => known (listed.mp found)
    by_cases room : s.expires.length < maxItemsStored
    · refine .inr (.inl ⟨known, room, ?_⟩)
      exact (if_neg unlisted).trans (if_pos room)
    · refine .inr (.inr ⟨known, by omega, ?_⟩)
      exact (if_neg unlisted).trans (if_neg room)

theorem others_mem {i : ItemExpiration} :
    i ∈ (s.expires.filter fun i => !i.same item) ↔ i ∈ s.expires ∧ contactOf i ≠ contactOf item := by
  rw [mem_filter, other_contact]

theorem others_room (kept : Matches memory now s)
    (room : contactOf item ∈ s.expires.map contactOf ∨ s.expires.length < maxItemsStored) :
    (s.expires.filter fun i => !i.same item).length < maxItemsStored := by
  rcases room with known | space
  · obtain ⟨old, there, same⟩ := mem_map.mp known
    have shorter : (s.expires.filter fun i => !i.same item).length < s.expires.length :=
      length_filter_lt_length_iff_exists.mpr
        ⟨old, there, by simp [(same_contact old item).mpr same]⟩
    exact Nat.lt_of_lt_of_le shorter kept.bounded
  · exact Nat.lt_of_le_of_lt filter_sublist.length_le space

theorem noted_contacts (c : Contact) :
    c ∈ ((s.expires.filter fun i => !i.same item) ++ [item]).map contactOf ↔
      c ∈ s.expires.map contactOf ∨ c = contactOf item := by
  simp only [map_append, map_cons, map_nil, mem_append, mem_singleton,
    mem_map, others_mem]
  constructor
  · rintro (⟨i, ⟨inside, _⟩, rfl⟩ | last)
    · exact .inl ⟨i, inside, rfl⟩
    · exact .inr last
  · rintro (⟨i, inside, rfl⟩ | last)
    · by_cases same : contactOf i = contactOf item
      · exact .inr same
      · exact .inl ⟨i, ⟨inside, same⟩, rfl⟩
    · exact .inr last

/-- An accepted announcement: the contact moves to the end of `expires`, or is added there. -/
theorem matches_noted (kept : Matches memory now s) (forward : now ≤ item.inserted)
    {storage : List (InfoHash × List ItemExpiration)} (tidy : Tidy storage)
    (stored : ∀ c, c ∈ storedContacts storage ↔
      c ∈ storedContacts s.storage ∨ c = contactOf item)
    (room : contactOf item ∈ s.expires.map contactOf ∨ s.expires.length < maxItemsStored) :
    Matches (Function.update memory (contactOf item) (some item.inserted)) item.inserted
      ⟨storage, (s.expires.filter fun i => !i.same item) ++ [item]⟩ := by
  have sub : (s.expires.filter fun i => !i.same item).Sublist s.expires := filter_sublist
  refine ⟨tidy, fun c => ?_, ?_, ?_, ?_, ?_, ?_, ?_⟩
  · rw [stored, kept.same, noted_contacts]
  · rw [map_append, nodup_append]
    refine ⟨kept.distinct.sublist (sub.map _), by simp, ?_⟩
    intro c inside last isLast
    obtain ⟨i, there, rfl⟩ := mem_map.mp inside
    obtain rfl := mem_singleton.mp isLast
    exact (others_mem.mp there).2
  · rw [length_append, length_singleton]
    exact others_room kept room
  · rw [pairwise_append]
    refine ⟨kept.ordered.sublist sub, pairwise_singleton _ _, ?_⟩
    intro i there last isLast
    obtain rfl := mem_singleton.mp isLast
    exact Int.le_trans (kept.past i (sub.subset there)) forward
  · intro i member
    rcases mem_append.mp member with there | last
    · exact Int.le_trans (kept.past i (sub.subset there)) forward
    · rw [mem_singleton.mp last]
  · intro i member
    rcases mem_append.mp member with there | last
    · rw [Function.update_of_ne (others_mem.mp there).2]
      exact kept.dated i (sub.subset there)
    · rw [mem_singleton.mp last, Function.update_self]
  · intro c t known
    rw [noted_contacts]
    by_cases same : c = contactOf item
    · exact .inl (.inr same)
    · rw [Function.update_of_ne same] at known
      rcases kept.gone c t known with inside | old
      · exact .inl (.inl inside)
      · exact .inr (by omega)

end Memory

section Histories
variable {ν ε : Type}

inductive Request where
  | add (infoHash : InfoHash) (address : SocketAddr)
  | find (infoHash : InfoHash)

inductive Reply where
  | added (accepted : Bool)
  | found (addresses : List SocketAddr)

def serve : Request → AnnounceStorage → Action (World ν) ε (Reply × AnnounceStorage)
  | .add infoHash address, s => do
    let (accepted, s) ← s.addItem infoHash address
    pure (.added accepted, s)
  | .find infoHash, s => do
    let (addresses, s) ← s.findItems infoHash
    pure (.found addresses, s)

/-- The readings of the clock that a call makes: `add_item` dates its item a second time. -/
def readings (visit : Visit Request AnnounceStorage (World ν) Reply) : List Int :=
  match visit.asked with
  | .add .. => [visit.met.utc 0, visit.met.utc 1]
  | .find _ => [visit.met.utc 0]

def remember (memory : Memory) (visit : Visit Request AnnounceStorage (World ν) Reply) : Memory :=
  match visit.asked, visit.answer with
  | .add infoHash address, .added true =>
    Function.update memory (infoHash, address) (some (visit.met.utc 1))
  | _, _ => memory

def memoryOf (history : List (Visit Request AnnounceStorage (World ν) Reply)) : Memory :=
  history.foldl remember fun _ => none

def Right (memory : Memory) (now : Int) : Request → Reply → Prop
  | .add infoHash address, .added accepted =>
    accepted = false ↔ ¬ Fresh memory now (infoHash, address) ∧
      {c | Fresh memory now c}.ncard = maxItemsStored
  | .find infoHash, .found addresses =>
    addresses.Nodup ∧ ∀ address, address ∈ addresses ↔ Fresh memory now (infoHash, address)
  | _, _ => False

variable {memory : Memory} {now : Int} {s s' : AnnounceStorage} {w w' : World ν}

/-- The number of fresh contacts is the length of `expires` once the expired items are out. -/
theorem fresh_count (kept : Matches memory now s)
    (fresh : ∀ c, c ∈ s.expires.map contactOf ↔ Fresh memory now c) :
    {c | Fresh memory now c}.ncard = s.expires.length := by
  have shape : {c | Fresh memory now c} = ((s.expires.map contactOf).toFinset : Set Contact) := by
    ext c
    rw [Finset.mem_coe, List.mem_toFinset, fresh]
    rfl
  rw [shape, Set.ncard_coe_finset, List.toFinset_card_of_nodup kept.distinct, List.length_map]

theorem find_right (infoHash : InfoHash) (kept : Matches memory now s) :
    Right memory now (.find infoHash) (.found (s.find infoHash now).1) ∧
      Matches memory now (s.find infoHash now).2 := by
  obtain ⟨kept', fresh⟩ := remove_expired kept
  refine ⟨⟨?_, fun address => ?_⟩, kept'⟩
  · unfold AnnounceStorage.find
    cases found : AssocMap.get infoHash (s.removeExpiredItems now).storage with
    | none => simp [found]
    | some items => simpa [found] using (kept'.tidy.lists _ _ found).distinct
  · rw [← fresh, ← kept'.same, mem_stored kept'.tidy]
    change address ∈ (itemsOf infoHash (s.removeExpiredItems now).storage).map (·.address) ↔ _
    rw [List.mem_map]
    constructor
    · rintro ⟨item, member, rfl⟩
      exact ⟨item, member, by rw [contactOf, (items_proper kept'.tidy infoHash).keyed item member]⟩
    · rintro ⟨item, member, same⟩
      exact ⟨item, member, congrArg Prod.snd same⟩

/-- `add` behind the removal of what has expired: the answer, the memory and the storage. -/
theorem added_right (kept : Matches memory now s) (item : ItemExpiration)
    (fresh : ∀ c, c ∈ s.expires.map contactOf ↔ Fresh memory now c)
    (forward : now ≤ item.inserted) : ∃ accepted s',
      (∀ w : World ν, (match s.insertContact item with
        | (some true, s) =>
          pure (true, { s with expires := (s.expires.filter fun i => !i.same item) ++ [item] })
        | (some false, s) => pure (true, { s with expires := s.expires ++ [item] })
        | (none, s) => pure (false, s) : Action (World ν) ε (Bool × AnnounceStorage)) w =
          (.ok (accepted, s'), w)) ∧
      Right memory now (.add item.infoHash item.address) (.added accepted) ∧
      Matches (if accepted then Function.update memory (contactOf item) (some item.inserted)
        else memory) item.inserted s' := by
  have count := fresh_count kept fresh
  rcases insert_contact_cases kept item with
    ⟨known, result⟩ | ⟨unknown, room, result⟩ | ⟨unknown, full, result⟩
  · rw [result]
    refine ⟨true, _, fun _ => rfl, ?_, ?_⟩
    · have young : Fresh memory now (item.infoHash, item.address) := (fresh _).mp known
      simp [Right, young]
    · refine matches_noted kept forward kept.tidy (fun c => ?_) (.inl known)
      refine ⟨.inl, ?_⟩
      rintro (stored | rfl)
      · exact stored
      · exact (kept.same _).mpr known
  · rw [result]
    have absent : contactOf item ∉ storedContacts s.storage :=
      fun stored => unknown ((kept.same _).mp stored)
    obtain ⟨tidy, stored⟩ := insert_item kept.tidy item absent
    have others : (s.expires.filter fun i => !i.same item) = s.expires := by
      refine List.filter_eq_self.mpr fun i member => (other_contact i item).mpr ?_
      exact fun same => unknown (same ▸ List.mem_map_of_mem member)
    refine ⟨true, _, fun _ => rfl, ?_, ?_⟩
    · constructor
      · exact nofun
      · exact fun full => absurd full.2 (by omega)
    · have noted := matches_noted kept forward tidy stored (.inr room)
      rwa [others] at noted
  · rw [result]
    refine ⟨false, _, fun _ => rfl, ?_, matches_later kept forward⟩
    simp only [Right, count, full, and_true, true_iff]
    exact fun young => unknown ((fresh _).mpr young)

theorem serve_right {request : Request} {reply : Reply} (kept : Matches memory (w.utc 0) s)
    (forward : (readings ⟨request, s, w, reply, w'⟩).Pairwise (· ≤ ·))
    (returned : (serve request s : Action (World ν) ε _) w = (.ok (reply, s'), w')) :
    Right memory (w.utc 0) request reply ∧
      ∃ last ∈ readings ⟨request, s, w, reply, w'⟩,
        Matches (remember memory ⟨request, s, w, reply, w'⟩) last s' := by
  obtain ⟨kept', fresh⟩ := remove_expired kept
  cases request with
  | add infoHash address =>
    have order : w.utc 0 ≤ w.utc 1 := List.rel_of_pairwise_cons forward (by simp)
    obtain ⟨accepted, s'', run, right, matched⟩ := added_right (ν := ν) (ε := ε) kept'
      ⟨address, w.utc 1, infoHash⟩ fresh order
    obtain ⟨answer, w₁, added, ended⟩ := bind_ok returned
    have same := (run _).symm.trans added
    cases same
    cases ended
    refine ⟨right, w.utc 1, by simp [readings], ?_⟩
    cases accepted <;> exact matched
  | find infoHash =>
    obtain ⟨answer, w₁, found, ended⟩ := bind_ok returned
    cases found
    cases ended
    obtain ⟨right, matched⟩ := find_right infoHash kept
    exact ⟨right, w.utc 0, by simp [readings], matched⟩

theorem matches_history {history : List (Visit Request AnnounceStorage (World ν) Reply)}
    (calls : Calls (serve (ε := ε)) AnnounceStorage.new history s) :
    (history.flatMap readings).Pairwise (· ≤ ·) →
      ∀ now, (∀ r ∈ history.flatMap readings, r ≤ now) → Matches (memoryOf history) now s := by
  refine calls_invariant (I := fun history s => (history.flatMap readings).Pairwise (· ≤ ·) →
    ∀ now, (∀ r ∈ history.flatMap readings, r ≤ now) → Matches (memoryOf history) now s)
    (fun _ now _ => new_matches now) ?_ calls
  intro history visit s' ih returned forward now latest
  rw [List.flatMap_append, List.flatMap_singleton] at forward latest
  obtain ⟨before, inner, across⟩ := List.pairwise_append.mp forward
  have first : visit.met.utc 0 ∈ readings visit := by
    unfold readings
    split <;> simp
  have matched := ih before (visit.met.utc 0) fun r member => across r member _ first
  obtain ⟨_, last, made, kept⟩ := serve_right matched inner returned
  rw [memoryOf, List.foldl_append]
  exact matches_later kept (latest last (List.mem_append_right _ made))

/-- The pairs in the two containers: the same set, without repetition, at most 500, and no list of
    the map is empty. -/
structure InSync (s : AnnounceStorage) : Prop where
  stored : (storedContacts s.storage).Nodup
  expiring : (s.expires.map contactOf).Nodup
  same : ∀ c, c ∈ storedContacts s.storage ↔ c ∈ s.expires.map contactOf
  bounded : (storedContacts s.storage).length ≤ 500
  lists : ∀ entry ∈ s.storage, entry.2 ≠ []

theorem matches_in_sync (kept : Matches memory now s) : InSync s := by
  refine ⟨stored_nodup kept.tidy, kept.distinct, kept.same, ?_, ?_⟩
  · have together : (storedContacts s.storage).Perm (s.expires.map contactOf) :=
      (List.perm_ext_iff_of_nodup (stored_nodup kept.tidy) kept.distinct).mpr kept.same
    rw [together.length_eq, List.length_map]
    exact kept.bounded
  · rintro ⟨infoHash, items⟩ entry rfl
    exact kept.tidy.full infoHash (AssocMap.get_of_mem kept.tidy.keys entry)

theorem serve_returns (request : Request) (s : AnnounceStorage) (w : World ν) : ∃ reply s' w',
    (serve request s : Action (World ν) ε (Reply × AnnounceStorage)) w = (.ok (reply, s'), w') := by
  cases request with
  | add infoHash address =>
    obtain ⟨_, _, w', run⟩ := s.add_returns infoHash address w
    exact ⟨_, _, w', bind_run run⟩
  | find infoHash => exact ⟨_, _, _, rfl⟩

/-- Every call returns. After every history of calls on a clock that does not run backwards the
    containers are in sync, and every answer was right for what had been announced before it. -/
theorem storage_remembers {history : List (Visit Request AnnounceStorage (World ν) Reply)}
    (calls : Calls (serve (ε := ε)) AnnounceStorage.new history s)
    (forward : (history.flatMap readings).Pairwise (· ≤ ·)) :
    InSync s ∧
    (∀ before visit after, history = before ++ visit :: after →
      Right (memoryOf before) (visit.met.utc 0) visit.asked visit.answer) ∧
    ∀ request (w : World ν), ∃ reply s' w',
      (serve request s : Action _ ε _) w = (.ok (reply, s'), w') := by
  have matched := matches_history calls forward
  refine ⟨?_, ?_, fun request w => serve_returns request s w⟩
  · -- some time is not before any reading
    obtain ⟨now, latest⟩ := (history.flatMap readings).toFinset.bddAbove
    exact matches_in_sync (matched now fun r member => latest (by simpa using member))
  · intro before visit after cut
    rw [List.append_cons] at cut
    obtain ⟨_, first, _⟩ := calls_split calls _ _ cut
    obtain ⟨earlier, returned⟩ := calls_last first
    rw [cut, List.flatMap_append, List.flatMap_append, List.flatMap_singleton] at forward
    obtain ⟨both, _, _⟩ := List.pairwise_append.mp forward
    obtain ⟨past, inner, across⟩ := List.pairwise_append.mp both
    have start : visit.met.utc 0 ∈ readings visit := by
      unfold readings
      split <;> simp
    have kept := matches_history earlier past (visit.met.utc 0) fun r member =>
      across r member _ start
    exact (serve_right kept inner returned).1

def somePeer : Request := .add ⟨Vector.replicate 20 0⟩ (.v4 10 0 0 1 6881)

/-- A clock that shows one nanosecond more at every reading. -/
def fromTime (t : Int) : World Unit := ⟨fixed 0, fun k => t + k, fun _ => 0, fun _ => true, []⟩

def announcing : Visit Request AnnounceStorage (World Unit) Reply :=
  ⟨somePeer, AnnounceStorage.new, fromTime 0, .added true,
    ((serve somePeer AnnounceStorage.new : Action _ Unit _) (fromTime 0)).2⟩

theorem one_announcement_remembered : ∃ s, InSync s ∧ s.expires.length = 1 ∧
    Right (fun _ => none) 0 announcing.asked announcing.answer := by
  have calls : Calls (serve (ε := Unit)) AnnounceStorage.new [announcing] _ :=
    calls_more .none rfl rfl
  obtain ⟨synced, right, _⟩ := storage_remembers calls (by decide)
  exact ⟨_, synced, rfl, right [] announcing [] rfl⟩

end Histories

end DhtAnnounced
