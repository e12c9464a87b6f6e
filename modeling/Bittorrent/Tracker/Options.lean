import Bittorrent.Lib.Chunks
import Bittorrent.Lib.HashTable
import Bittorrent.Lib.Nom

/-!
The options of an announce request. Each is written as records of up to 255 bytes behind the byte of the
option and a length, in the order in which the map is iterated, and the records are joined again by their
byte. The bytes 0 and 1 mean the end and nothing, and an option without content has no record.
-/
namespace TrackerOptions
open Rust Outcome NomParse HashTables HashTable ListChunks
open List hiding take take_append

def endOfOptionsByte : UInt8 := 0
def noOperationByte : UInt8 := 1
def urlDataByte : UInt8 := 2

abbrev AnnounceOptions := HashTable UInt8 Bytes

/-- The contents of the option and the byte are those of the `AnnounceOption`. -/
def AnnounceOptions.insert (options : AnnounceOptions) (optionByte : UInt8) (contents : Bytes) :
    AnnounceOptions :=
  HashTable.insert optionByte contents options

def u8Max : Nat := 255

def writeRecord (byte : UInt8) (contentChunk : Bytes) : Bytes :=
  byte :: UInt8.ofNat contentChunk.length :: contentChunk

def writeOption (option : UInt8 × Bytes) : Bytes :=
  (chunks u8Max option.2).flatMap (writeRecord option.1)

def AnnounceOptions.writeBytes (options : AnnounceOptions) : Bytes :=
  options.entries.flatMap writeOption ++ [endOfOptionsByte]

section Parse

/-- Whether the end was found. -/
def parseEndOption : Parser Bool := fun input => do
  let (_, rest) ← alt (eof input) (tag [endOfOptionsByte] input)
  return (true, rest)

def parseNoOption : Parser Bool := fun input => do
  let (_, rest) ← tag [noOperationByte] input
  return (false, rest)

def lengthBytes : Parser Bytes := fun input => do
  let (length, rest) ← beU8 input
  take length.toNat rest

def extend (byte : UInt8) (contents : Bytes) (optionMap : AnnounceOptions) : AnnounceOptions :=
  match optionMap.get byte with
  | some _ => optionMap.adjust byte (· ++ contents)
  | none => HashTable.insert byte contents optionMap

def parseUserOption (optionMap : AnnounceOptions) : Parser AnnounceOptions := fun input => do
  let (optionByte, rest) ← beU8 input
  let (optionContents, rest) ← lengthBytes rest
  return (extend optionByte optionContents optionMap, rest)

/-- One round of the loop: the alternatives, with the map that the last one writes. -/
def parseOption (optionMap : AnnounceOptions) : Parser (Bool × AnnounceOptions) := fun input =>
  let found (parser : Parser Bool) : Parsed ((Bool × AnnounceOptions) × Bytes) := do
    let (isEnd, rest) ← parser input
    return ((isEnd, optionMap), rest)
  alt (found parseEndOption) (alt (found parseNoOption) (do
    let (optionMap, rest) ← parseUserOption optionMap input
    return ((false, optionMap), rest)))

def parseOptions : Nat → AnnounceOptions → Parser AnnounceOptions
  | 0, _, _ => .unfinished
  | fuel + 1, optionMap, input => do
    let ((isEnd, optionMap), rest) ← parseOption optionMap input
    if isEnd then return (optionMap, rest) else parseOptions fuel optionMap rest

/-- `AnnounceOptions::from_bytes`. A round that goes on takes at least one byte. -/
def AnnounceOptions.fromBytes : Parser AnnounceOptions := fun input =>
  parseOptions (input.length + 1) .empty input

end Parse

section Rounds
variable {optionMap : AnnounceOptions} {rest : Bytes}

theorem parse_option_end (optionMap : AnnounceOptions) (rest : Bytes) :
    parseOption optionMap (endOfOptionsByte :: rest) = .ok ((true, optionMap), rest) := by
  have isEnd : tag [endOfOptionsByte] (endOfOptionsByte :: rest) = .ok ([endOfOptionsByte], rest) :=
    tag_append [endOfOptionsByte] rest
  simp [parseOption, parseEndOption, eof, isEnd]

theorem parse_option_none (optionMap : AnnounceOptions) (rest : Bytes) :
    parseOption optionMap (noOperationByte :: rest) = .ok ((false, optionMap), rest) := by
  have isNone : tag [noOperationByte] (noOperationByte :: rest) = .ok ([noOperationByte], rest) :=
    tag_append [noOperationByte] rest
  have notEnd : tag [endOfOptionsByte] (noOperationByte :: rest) = .err .error :=
    @tag_other _ [noOperationByte] rest rfl (by decide)
  simp [parseOption, parseEndOption, parseNoOption, eof, isNone, notEnd]

theorem parse_option_user {byte : UInt8} (notEnd : byte ≠ endOfOptionsByte)
    (notNone : byte ≠ noOperationByte) (optionMap : AnnounceOptions) (rest : Bytes) :
    parseOption optionMap (byte :: rest) = (do
      let (optionMap, rest) ← parseUserOption optionMap (byte :: rest)
      return ((false, optionMap), rest)) := by
  have first : tag [endOfOptionsByte] (byte :: rest) = .err .error :=
    @tag_other _ [byte] rest rfl (by simpa using notEnd)
  have second : tag [noOperationByte] (byte :: rest) = .err .error :=
    @tag_other _ [byte] rest rfl (by simpa using notNone)
  simp [parseOption, parseEndOption, parseNoOption, eof, first, second]

theorem parse_record {byte : UInt8} {chunk : Bytes} (notEnd : byte ≠ endOfOptionsByte)
    (notNone : byte ≠ noOperationByte) (small : chunk.length ≤ u8Max) (optionMap : AnnounceOptions)
    (rest : Bytes) : parseOption optionMap (writeRecord byte chunk ++ rest) =
      .ok ((false, extend byte chunk optionMap), rest) := by
  have length : (UInt8.ofNat chunk.length).toNat = chunk.length :=
    UInt8.toNat_ofNat_of_lt (Nat.lt_of_le_of_lt small (by decide))
  have contents : lengthBytes (UInt8.ofNat chunk.length :: (chunk ++ rest)) = .ok (chunk, rest) := by
    rw [lengthBytes, be_u8_cons, ok_bind]
    dsimp only
    rw [length, take_append rest rfl]
  rw [writeRecord, cons_append, cons_append, parse_option_user notEnd notNone, parseUserOption,
    be_u8_cons, ok_bind]
  dsimp only
  rw [contents]
  rfl

/-- Whatever is read, no option has the byte of the end or of nothing. -/
theorem parse_option_reserved {input : Bytes} {optionMap' : AnnounceOptions} {isEnd : Bool}
    {reserved : UInt8} (isReserved : reserved = endOfOptionsByte ∨ reserved = noOperationByte)
    (parsed : parseOption optionMap input = .ok ((isEnd, optionMap'), rest)) :
    optionMap'.get reserved = optionMap.get reserved := by
  cases input with
  | nil =>
    have stop : parseOption optionMap [] = .ok ((true, optionMap), []) := rfl
    rw [stop] at parsed
    cases parsed
    rfl
  | cons byte more =>
    by_cases isEnd : byte = endOfOptionsByte
    · rw [isEnd, parse_option_end] at parsed
      cases parsed
      rfl
    · by_cases isNone : byte = noOperationByte
      · rw [isNone, parse_option_none] at parsed
        cases parsed
        rfl
      · rw [parse_option_user isEnd isNone, parseUserOption, be_u8_cons, ok_bind] at parsed
        obtain ⟨⟨next, after⟩, user, parsed⟩ := bind_eq_ok.mp parsed
        obtain ⟨⟨contents, after'⟩, _, user⟩ := bind_eq_ok.mp user
        cases user
        cases parsed
        have other : reserved ≠ byte := by
          rintro rfl
          exact isReserved.elim isEnd isNone
        unfold extend
        split
        · exact get_adjust_other _ _ other
        · exact get_insert_other _ _ other

theorem parse_options_reserved {reserved : UInt8}
    (isReserved : reserved = endOfOptionsByte ∨ reserved = noOperationByte) (fuel : Nat) :
    ∀ {optionMap optionMap' : AnnounceOptions} {input : Bytes},
      parseOptions fuel optionMap input = .ok (optionMap', rest) →
      optionMap'.get reserved = optionMap.get reserved := by
  induction fuel with
  | zero =>
    intro optionMap optionMap' input parsed
    cases parsed
  | succ fuel ih =>
    intro optionMap optionMap' input parsed
    obtain ⟨⟨⟨isEnd, next⟩, after⟩, round, parsed⟩ := bind_eq_ok.mp parsed
    have kept := parse_option_reserved isReserved round
    cases isEnd with
    | true =>
      cases parsed
      exact kept
    | false => rw [ih parsed, kept]

end Rounds

section RoundTrip
variable {byte : UInt8}

/-- The map with the contents added behind what it has under the byte; no contents add nothing. -/
def Joined (byte : UInt8) (contents : Bytes) (before after : AnnounceOptions) : Prop :=
  (∀ other, other ≠ byte → after.get other = before.get other) ∧
    after.get byte = if contents = [] then before.get byte else
      some ((before.get byte).getD [] ++ contents)

theorem extend_joined (chunk : Bytes) (some : chunk ≠ []) (optionMap : AnnounceOptions) :
    Joined byte chunk optionMap (extend byte chunk optionMap) := by
  unfold extend
  constructor
  · intro other different
    split
    · exact get_adjust_other _ _ different
    · exact get_insert_other _ _ different
  · rw [if_neg some]
    cases found : optionMap.get byte with
    | none => simp
    | some value => simp [found]

theorem joined_append {front back : Bytes} {a b c : AnnounceOptions} (first : Joined byte front a b)
    (second : Joined byte back b c) : Joined byte (front ++ back) a c := by
  refine ⟨fun other different => (second.1 other different).trans (first.1 other different), ?_⟩
  rw [second.2, first.2]
  by_cases noFront : front = [] <;> by_cases noBack : back = [] <;> simp [noFront, noBack]

theorem joined_nothing (optionMap : AnnounceOptions) : Joined byte [] optionMap optionMap :=
  ⟨fun _ _ => rfl, (if_pos rfl).symm⟩

theorem write_option_step (byte : UInt8) {contents : Bytes} (some : contents ≠ []) :
    writeOption (byte, contents) = writeRecord byte (contents.take u8Max) ++
      writeOption (byte, contents.drop u8Max) := by
  rw [writeOption, chunks_step (by decide) some, flatMap_cons]
  rfl

/-- The records of one option are read by some rounds of the loop. -/
theorem parse_written_option (notEnd : byte ≠ endOfOptionsByte) (notNone : byte ≠ noOperationByte)
    (contents : Bytes) : ∀ (optionMap : AnnounceOptions) (rest : Bytes), ∃ rounds after,
      rounds ≤ (writeOption (byte, contents)).length ∧ Joined byte contents optionMap after ∧
      ∀ fuel, parseOptions (rounds + fuel) optionMap (writeOption (byte, contents) ++ rest) =
        parseOptions fuel after rest := by
  -- along the chunks: one round for each record
  have positive : 0 < u8Max := by decide
  induction contents using chunks_induction positive with
  | nil =>
    intro optionMap rest
    exact ⟨0, optionMap, Nat.zero_le _, joined_nothing optionMap, fun fuel => by rw [Nat.zero_add]; rfl⟩
  | step contents some ih =>
    intro optionMap rest
    have small : (contents.take u8Max).length ≤ u8Max := length_take_le ..
    have front : contents.take u8Max ≠ [] := by
      intro none
      rcases take_eq_nil_iff.mp none with zero | empty
      · exact absurd zero (by decide)
      · exact some empty
    obtain ⟨rounds, after, few, joined, same⟩ := ih (extend byte (contents.take u8Max) optionMap) rest
    refine ⟨rounds + 1, after, ?_, ?_, ?_⟩
    · rw [write_option_step byte some, length_append, writeRecord, length_cons]
      omega
    · have whole := joined_append (extend_joined (contents.take u8Max) front optionMap) joined
      rwa [take_append_drop] at whole
    · intro fuel
      rw [write_option_step byte some, append_assoc, show rounds + 1 + fuel = rounds + fuel + 1 by omega,
        parseOptions, parse_record notEnd notNone small, ok_bind]
      exact same fuel

/-- The bytes of the options are neither the end nor nothing. -/
def Usable (entries : List (UInt8 × Bytes)) : Prop :=
  ∀ entry ∈ entries, entry.1 ≠ endOfOptionsByte ∧ entry.1 ≠ noOperationByte

/-- What the map of the written options has under a byte. -/
def shown (entries : List (UInt8 × Bytes)) (byte : UInt8) : Option Bytes :=
  (AssocMap.get byte entries).filter fun contents => contents ≠ []

theorem parse_written_entries (entries : List (UInt8 × Bytes)) : Usable entries →
    (entries.map Prod.fst).Nodup → ∀ (optionMap : AnnounceOptions) (rest : Bytes),
    (∀ entry ∈ entries, optionMap.get entry.1 = none) → ∃ rounds after,
      rounds ≤ (entries.flatMap writeOption).length ∧
      (∀ byte, after.get byte = (shown entries byte).or (optionMap.get byte)) ∧
      ∀ fuel, parseOptions (rounds + fuel) optionMap (entries.flatMap writeOption ++ rest) =
        parseOptions fuel after rest := by
  induction entries with
  | nil =>
    intro _ _ optionMap rest _
    exact ⟨0, optionMap, Nat.zero_le _, fun _ => rfl, fun fuel => by rw [Nat.zero_add]; rfl⟩
  | cons entry entries ih =>
    intro usable distinct optionMap rest fresh
    obtain ⟨byte, contents⟩ := entry
    obtain ⟨notEnd, notNone⟩ : byte ≠ endOfOptionsByte ∧ byte ≠ noOperationByte :=
      usable _ (.head _)
    obtain ⟨unused, others⟩ : byte ∉ entries.map Prod.fst ∧ _ := nodup_cons.mp distinct
    have own : optionMap.get byte = none := fresh _ (.head _)
    obtain ⟨rounds, middle, few, joined, same⟩ := parse_written_option notEnd notNone contents optionMap
      (entries.flatMap writeOption ++ rest)
    have apart : ∀ entry ∈ entries, entry.1 ≠ byte := by
      intro entry member same
      exact unused (same ▸ mem_map_of_mem (f := Prod.fst) member)
    obtain ⟨moreRounds, after, fewMore, gets, sameMore⟩ := ih
      (forall_mem_cons.mp usable).2 others middle rest
      (fun entry member => by
        rw [joined.1 _ (apart entry member)]
        exact fresh entry (.tail _ member))
    refine ⟨rounds + moreRounds, after, ?_, ?_, ?_⟩
    · rw [flatMap_cons, length_append]
      omega
    · intro other
      rw [gets]
      by_cases isOwn : other = byte
      · subst isOwn
        have absent : AssocMap.get other entries = none := by
          cases found : AssocMap.get other entries with
          | none => rfl
          | some value => exact absurd rfl (apart _ (AssocMap.mem_of_get found))
        by_cases empty : contents = [] <;>
          simp [shown, AssocMap.get, absent, joined.2, own, empty, Option.filter_some]
      · rw [joined.1 other isOwn]
        simp [shown, AssocMap.get, Ne.symm isOwn]
    · intro fuel
      rw [flatMap_cons, append_assoc, Nat.add_assoc, same, sameMore]

theorem parse_written {options : AnnounceOptions} (usable : Usable options.entries) :
    ∃ after, AnnounceOptions.fromBytes options.writeBytes = .ok (after, []) ∧
      ∀ byte, after.get byte = shown options.entries byte := by
  obtain ⟨rounds, after, few, gets, run⟩ := parse_written_entries options.entries usable
    options.distinct .empty [endOfOptionsByte] (fun _ _ => rfl)
  obtain ⟨more, enough⟩ : ∃ more, options.writeBytes.length + 1 = rounds + (more + 1) :=
    ⟨options.writeBytes.length - rounds, by
      rw [AnnounceOptions.writeBytes, length_append]
      omega⟩
  refine ⟨after, ?_, fun byte => (gets byte).trans Option.or_none⟩
  rw [AnnounceOptions.fromBytes, enough, AnnounceOptions.writeBytes, run, parseOptions,
    parse_option_end, ok_bind]
  rfl

def Same (a b : AnnounceOptions) : Prop := ∀ byte, a.get byte = b.get byte

/-- The written options come back whole exactly if each has some content and a byte of its own. -/
theorem written_options_iff (options : AnnounceOptions) :
    (∃ options', AnnounceOptions.fromBytes options.writeBytes = .ok (options', []) ∧
      Same options' options) ↔
    ∀ entry ∈ options.entries, entry.2 ≠ [] ∧ entry.1 ≠ endOfOptionsByte ∧ entry.1 ≠ noOperationByte := by
  constructor
  · rintro ⟨options', parsed, same⟩
    have usable : Usable options.entries := by
      intro entry member
      have present : options.get entry.1 = some entry.2 := mem_iff.mp member
      have kept : ∀ {reserved}, reserved = endOfOptionsByte ∨ reserved = noOperationByte →
          entry.1 ≠ reserved := by
        rintro reserved isReserved rfl
        have nothing := parse_options_reserved isReserved _ parsed
        rw [same, present] at nothing
        cases nothing
      exact ⟨kept (.inl rfl), kept (.inr rfl)⟩
    intro entry member
    refine ⟨?_, usable entry member⟩
    intro empty
    have present : options.get entry.1 = some entry.2 := mem_iff.mp member
    obtain ⟨after, read, gets⟩ := parse_written usable
    cases read.symm.trans parsed
    have missing := gets entry.1
    rw [same, present, shown, show AssocMap.get entry.1 options.entries = some entry.2 from present,
      empty] at missing
    cases missing
  · intro fine
    obtain ⟨after, read, gets⟩ := parse_written fun entry member => (fine entry member).2
    refine ⟨after, read, fun byte => ?_⟩
    rw [gets, shown]
    cases found : AssocMap.get byte options.entries with
    | none => exact found.symm
    | some contents =>
      have some := (fine _ (AssocMap.mem_of_get found)).1
      rw [Option.filter_some, if_pos (by simpa using some)]
      exact found.symm

end RoundTrip

end TrackerOptions
