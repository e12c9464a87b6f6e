import Bittorrent.Bencode.Unfold

/-!
The concrete syntax the decoder reads. A `Form` keeps the spelling of every number, `print` is
the text it stands for, `value` the value it denotes and `refAt` what the decoder builds when
the text starts at a given position. `Accepted` collects the limits set by the decode options.
-/
namespace BencodeForm
open Rust BencodeValue BencodeDecode BencodeLexeme SortedMap
open List hiding lookup

inductive Form where
  | int : Numeral → Form
  | bytes : ByteString → Form
  | list : List Form → Form
  | dict : List (ByteString × Form) → Form

@[elab_as_elim]
theorem Form.induct {motive : Form → Prop}
    (int : ∀ n, motive (.int n)) (bytes : ∀ s, motive (.bytes s))
    (list : ∀ items, (∀ f ∈ items, motive f) → motive (.list items))
    (dict : ∀ entries : List (ByteString × Form), (∀ e ∈ entries, motive e.2) →
      motive (.dict entries)) : ∀ f, motive f :=
  @Form.rec motive (fun items => ∀ f ∈ items, motive f)
    (fun entries => ∀ e ∈ entries, motive e.2) (fun e => motive e.2) int bytes list dict
    (by simp) (fun _ _ first later => forall_mem_cons.mpr ⟨first, later⟩)
    (by simp) (fun _ _ first later => forall_mem_cons.mpr ⟨first, later⟩)
    (by intro key f h; exact h)

def Form.print : Form → Bytes
  | .int n => intStart :: (n.text ++ [benEnd])
  | .bytes s => s.print
  | .list items => listStart :: (printItems items ++ [benEnd])
  | .dict entries => dictStart :: (printEntries entries ++ [benEnd])
where
  printItems : List Form → Bytes
    | [] => []
    | f :: rest => f.print ++ printItems rest
  printEntries : List (ByteString × Form) → Bytes
    | [] => []
    | (key, f) :: rest => key.print ++ (f.print ++ printEntries rest)

def Form.value : Form → Bencode
  | .int n => .int n.value
  | .bytes s => .bytes s.content
  | .list items => .list (valueItems items)
  | .dict entries => .dict (ofList (valueEntries entries))
where
  valueItems : List Form → List Bencode
    | [] => []
    | f :: rest => f.value :: valueItems rest
  valueEntries : List (ByteString × Form) → List (Bytes × Bencode)
    | [] => []
    | (key, f) :: rest => (key.content, f.value) :: valueEntries rest

def Form.refAt : Form → Nat → BencodeRef
  | .int n, pos => .int n.value ⟨pos, (Form.int n).print⟩
  | .bytes s, pos => .bytes s.content ⟨pos, (Form.bytes s).print⟩
  | .list items, pos => .list (refItems items (pos + 1)) ⟨pos, (Form.list items).print⟩
  | .dict entries, pos =>
    .dict (ofList (refEntries entries (pos + 1))) ⟨pos, (Form.dict entries).print⟩
where
  refItems : List Form → Nat → List BencodeRef
    | [], _ => []
    | f :: rest, pos => f.refAt pos :: refItems rest (pos + f.print.length)
  refEntries : List (ByteString × Form) → Nat → List (Bytes × BencodeRef)
    | [], _ => []
    | (key, f) :: rest, pos =>
      (key.content, f.refAt (pos + key.print.length)) ::
        refEntries rest (pos + key.print.length + f.print.length)

abbrev printItems := Form.print.printItems
abbrev printEntries := Form.print.printEntries
abbrev refItems := Form.refAt.refItems
abbrev refEntries := Form.refAt.refEntries

def keysOf (entries : List (ByteString × Form)) : List Bytes := entries.map fun e => e.1.content

/-- No key comes twice, and under `check_key_sort` they come in increasing order. -/
def KeysAccepted (opts : BDecodeOpt) (keys : List Bytes) : Prop :=
  keys.Nodup ∧ (opts.checkKeySort = true → keys.Pairwise (· < ·))

/-- A key that may follow the given ones: `check_key_sort` asks for no smaller key, and whether
    it is a duplicate is only asked once its value has been read. -/
def KeyMayFollow (opts : BDecodeOpt) (keys : List Bytes) (key : Bytes) : Prop :=
  opts.checkKeySort = true → ∀ k ∈ keys, k ≤ key

/-- The forms that the decoder reads at this depth. A byte string used as a value must start with
    a digit, since the decoder dispatches on it; one used as a key need not. -/
inductive Accepted (opts : BDecodeOpt) : Nat → Form → Prop where
  | int {depth : Nat} (shallow : depth < opts.maxRecursion) (n : Numeral) :
      Accepted opts depth (.int n)
  | bytes {depth : Nat} (shallow : depth < opts.maxRecursion) (s : ByteString)
      (digit : ∃ c, s.len.text.head? = some c ∧ byteLenLow ≤ c ∧ c ≤ byteLenHigh) :
      Accepted opts depth (.bytes s)
  | list {depth : Nat} (shallow : depth < opts.maxRecursion) (items : List Form)
      (all : ∀ f ∈ items, Accepted opts (depth + 1) f) : Accepted opts depth (.list items)
  | dict {depth : Nat} (shallow : depth < opts.maxRecursion) (entries : List (ByteString × Form))
      (keys : KeysAccepted opts (keysOf entries))
      (all : ∀ e ∈ entries, Accepted opts (depth + 1) e.2) : Accepted opts depth (.dict entries)

theorem accepted_shallow {opts : BDecodeOpt} {depth : Nat} {f : Form}
    (accepted : Accepted opts depth f) : depth < opts.maxRecursion := by
  cases accepted <;> assumption

/-- A form that is accepted is so where there is as much room for its levels. -/
theorem accepted_room {opts : BDecodeOpt} {depth : Nat} {f : Form} (accepted : Accepted opts depth f)
    {more : Nat} : ∀ depth', depth' + opts.maxRecursion ≤ depth + more →
      Accepted { opts with maxRecursion := more } depth' f := by
  induction accepted with
  | int shallow n => exact fun _ room => .int (show _ < more by omega) n
  | bytes shallow s digit => exact fun _ room => .bytes (show _ < more by omega) s digit
  | list shallow items _ ih =>
    intro depth' room
    exact .list (show depth' < more by omega) items fun f member => ih f member _ (by omega)
  | dict shallow entries keys _ ih =>
    intro depth' room
    exact .dict (show depth' < more by omega) entries keys fun e member => ih e member _ (by omega)

theorem print_items_append (front rest : List Form) :
    printItems (front ++ rest) = printItems front ++ printItems rest := by
  induction front with
  | nil => rfl
  | cons f front ih => simp only [cons_append, printItems, Form.print.printItems] at *; simp [ih]

variable (front rest : List (ByteString × Form))

theorem print_entries_append :
    printEntries (front ++ rest) = printEntries front ++ printEntries rest := by
  induction front with
  | nil => rfl
  | cons e front ih =>
    obtain ⟨key, f⟩ := e
    simp only [cons_append, printEntries, Form.print.printEntries] at *
    simp [ih]

theorem ref_items_snoc (items : List Form) (f : Form) (pos : Nat) :
    refItems (items ++ [f]) pos = refItems items pos ++ [f.refAt (pos + (printItems items).length)] := by
  induction items generalizing pos with
  | nil => rfl
  | cons g rest ih =>
    simp only [cons_append, refItems, printItems, Form.refAt.refItems, Form.print.printItems, ih,
      length_append, Nat.add_assoc]

theorem ref_entries_append (pos : Nat) :
    refEntries (front ++ rest) pos =
      refEntries front pos ++ refEntries rest (pos + (printEntries front).length) := by
  induction front generalizing pos with
  | nil => rfl
  | cons e front ih =>
    obtain ⟨key, f⟩ := e
    simp only [cons_append, refEntries, printEntries, Form.refAt.refEntries,
      Form.print.printEntries, ih, length_append, Nat.add_assoc]

variable (entries : List (ByteString × Form))

theorem ref_entries_keys (pos : Nat) :
    (refEntries entries pos).map Prod.fst = keysOf entries := by
  induction entries generalizing pos with
  | nil => rfl
  | cons e rest ih =>
    obtain ⟨key, f⟩ := e
    simp only [refEntries, Form.refAt.refEntries, map_cons, ih, keysOf]

theorem numeral_head (n : Numeral) : ∃ c rest, n.text = c :: rest ∧ c ≠ benEnd := by
  cases shape : n.text with
  | nil => exact absurd shape (numeral_ne_nil n)
  | cons c rest =>
    refine ⟨c, rest, rfl, ?_⟩
    intro same
    exact separator_not_mem ben_end_separator n (by simp [shape, same])

theorem string_head (s : ByteString) : ∃ c rest, s.print = c :: rest ∧ c ≠ benEnd := by
  obtain ⟨c, rest, shape, other⟩ := numeral_head s.len
  exact ⟨c, rest ++ byteLenEnd :: s.content, by simp [ByteString.print, shape], other⟩

theorem form_head (f : Form) : ∃ c rest, f.print = c :: rest ∧ c ≠ benEnd := by
  cases f with
  | bytes s =>
    rw [Form.print]
    exact string_head s
  | int n | list items | dict entries => exact ⟨_, _, by rw [Form.print], by decide⟩

theorem form_ne_nil (f : Form) : f.print ≠ [] := by
  obtain ⟨c, rest, shape, _⟩ := form_head f
  simp [shape]

theorem buffer_ref_at (f : Form) (pos : Nat) : (f.refAt pos).buffer = ⟨pos, f.print⟩ := by
  cases f <;> simp only [Form.refAt, BencodeRef.buffer]

theorem value_items_eq (items : List Form) :
    Form.value.valueItems items = items.map Form.value := by
  induction items with
  | nil => rfl
  | cons f rest ih => simp [Form.value.valueItems, ih]

theorem value_entries_eq :
    Form.value.valueEntries entries = entries.map fun e => (e.1.content, e.2.value) := by
  induction entries with
  | nil => rfl
  | cons e rest ih =>
    obtain ⟨key, f⟩ := e
    simp [Form.value.valueEntries, ih]

/-- Where a form starts decides the slices of the reference and nothing else. -/
theorem kind_ref_at (f : Form) : ∀ pos, (f.refAt pos).kind = f.value := by
  induction f using Form.induct with
  | int n | bytes s => intro pos; simp [Form.refAt, Form.value]
  | list items ih =>
    intro pos
    have each : ∀ pos, (refItems items pos).map BencodeRef.kind = items.map Form.value := by
      induction items with
      | nil => intro pos; rfl
      | cons f rest later =>
        intro pos
        have tail := later (forall_mem_cons.mp ih).2
        simp only [refItems, Form.refAt.refItems, map_cons, ih f (by simp), tail]
    simp only [Form.refAt, kind_list, Form.value, value_items_eq, ← each (pos + 1), refItems]
  | dict entries ih =>
    intro pos
    have each : ∀ pos, mapValues BencodeRef.kind (refEntries entries pos) =
        entries.map fun e => (e.1.content, e.2.value) := by
      induction entries with
      | nil => intro pos; rfl
      | cons e rest later =>
        intro pos
        obtain ⟨key, f⟩ := e
        have tail := later (forall_mem_cons.mp ih).2
        have head := ih (key, f) (by simp)
        simp only [refEntries, mapValues] at tail
        simp only [refEntries, Form.refAt.refEntries, mapValues, map_cons, head, tail]
    simp only [Form.refAt, kind_dict, Form.value, value_entries_eq, map_values_of_list,
      ← each (pos + 1), refEntries]

section Keys
variable {opts : BDecodeOpt}
variable {key : Bytes}

theorem keys_accepted_snoc {keys : List Bytes} : KeysAccepted opts (keys ++ [key]) ↔
      KeysAccepted opts keys ∧ key ∉ keys ∧
        (opts.checkKeySort = true → ∀ k ∈ keys, k < key) := by
  constructor
  · rintro ⟨distinct, sorted⟩
    obtain ⟨front, _, apart⟩ := nodup_append.mp distinct
    refine ⟨⟨front, fun check => (pairwise_append.mp (sorted check)).1⟩, ?_, ?_⟩
    · intro member
      exact apart key member key (by simp) rfl
    · intro check k member
      exact (pairwise_append.mp (sorted check)).2.2 k member key (by simp)
  · rintro ⟨⟨distinct, sorted⟩, fresh, above⟩
    constructor
    · refine nodup_append.mpr ⟨distinct, by simp, ?_⟩
      intro k member k' single same
      rw [mem_singleton] at single
      subst same single
      exact fresh member
    · intro check
      refine pairwise_append.mpr ⟨sorted check, by simp, ?_⟩
      intro k member k' single
      rw [mem_singleton] at single
      exact single ▸ above check k member

variable {entries : List (Bytes × BencodeRef)}

theorem key_may_follow_iff :
    ¬ keyOutOfOrder opts (ofList entries) key ↔
      KeyMayFollow opts (entries.map Prod.fst) key := by
  constructor
  · intro inOrder check k member
    have stored := mem_keys_of_list.mpr member
    obtain ⟨e, inside, rfl⟩ := mem_map.mp stored
    cases isLast : lastKey (ofList entries) with
    | none =>
      rw [lastKey_eq_none.mp isLast] at inside
      simp at inside
    | some last =>
      have below := lastKey_greatest (of_list_sorted entries) isLast e inside
      have notBefore : ¬ key < last := fun less => inOrder ⟨last, isLast, check, less⟩
      exact le_trans below (not_lt.mp notBefore)
  · rintro follows ⟨last, isLast, check, less⟩
    have member := mem_keys_of_list.mp (lastKey_mem isLast)
    exact absurd less (not_lt.mpr (follows check last member))

/-- The two checks the loop makes on a key are the two conditions on the whole list of keys. -/
theorem key_checks :
    (¬ keyOutOfOrder opts (ofList entries) key ∧
      lookup key (ofList entries) = none) ↔
    key ∉ entries.map Prod.fst ∧
      (opts.checkKeySort = true → ∀ k ∈ entries.map Prod.fst, k < key) := by
  rw [key_may_follow_iff, lookup_eq_none, mem_keys_of_list, and_comm]
  constructor
  · rintro ⟨fresh, follows⟩
    refine ⟨fresh, fun check k member => lt_of_le_of_ne (follows check k member) ?_⟩
    intro same
    exact fresh (same ▸ member)
  · rintro ⟨fresh, above⟩
    exact ⟨fresh, fun check k member => le_of_lt (above check k member)⟩

end Keys

end BencodeForm
