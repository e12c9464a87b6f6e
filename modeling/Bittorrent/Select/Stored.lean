import Bittorrent.Select.Integrity

/-!
The bytes that the metadata module keeps for a torrent. They are not those the torrent came with: the
module writes the dictionary anew, and what comes out is the original exactly for a plain dictionary.
-/
namespace SelectStored
open Rust HashTables UtilSha BencodeEncode MetainfoInfo MetainfoBuilder MetainfoFidelity
  SelectMetadata SelectIntegrity

section Stored
variable {sha : Bytes → ShaHash} {repair : Bytes → Str} {b : Bytes} {info : Info}

/-- Writing and reading again gives an equal dictionary with the same hash. -/
def ComesBack (sha : Bytes → ShaHash) (repair : Bytes → Str) (info : Info) : Prop :=
  ∃ out again, (Info.toBytes repair info : Outcome Empty Bytes) = .ok out ∧
    Info.fromBytes sha out = .ok again ∧ InfoSame again info ∧ again.infoHash = info.infoHash

/-- What is stored for a torrent has the hash of the torrent. -/
def StoredRight (sha : Bytes → ShaHash) (repair : Bytes → Str) (info : Info) : Prop :=
  ∀ metainfo m, metainfo.info = info → m.completedMap.get info.infoHash = none →
    ∃ m' stored, addTorrent repair metainfo m = (.ok (.ok none), m') ∧
      m'.completedMap.get info.infoHash = some stored ∧ sha stored = info.infoHash

theorem add_torrent_stores {out : Bytes} {metainfo : Metainfo} {m : UtMetadataModule}
    (unknown : m.completedMap.get metainfo.info.infoHash = none)
    (written : (Info.toBytes repair metainfo.info : Outcome Empty Bytes) = .ok out) :
    addTorrent repair metainfo m = (.ok (.ok none),
      { m with completedMap := m.completedMap.insert metainfo.info.infoHash out }) := by
  unfold addTorrent
  rw [Action.get_bind, unknown]
  rw [written]
  rfl

/-- For every dictionary that is accepted: it comes back as it was and is stored under its own hash
    exactly if it is the canonical encoding of a plain dictionary. What is written is assumed not to
    collide with the original. -/
theorem info_kept_iff (fits : b.length ≤ isizeMax) (read : Info.fromBytes sha b = .ok info)
    (distinct : ∀ out, (Info.toBytes repair info : Outcome Empty Bytes) = .ok out → sha out = sha b → out = b) :
    (ComesBack sha repair info ∧ StoredRight sha repair info) ↔ ∃ v, PlainInfo v ∧ encode v = b := by
  have hashed := (decoded_whole fits read).1
  have rewritten : (Info.toBytes repair info : Outcome Empty Bytes) = .ok b ↔ ∃ v, PlainInfo v ∧ encode v = b :=
    rewritten_iff fits read
  rw [← rewritten]
  constructor
  · rintro ⟨⟨out, again, written, reread, _, same⟩, _⟩
    have small : out.length ≤ isizeMax := (to_bytes_ok_iff.mp written).2.2.1
    have rehashed := (decoded_whole small reread).1
    have original := distinct out written (by rw [← rehashed, same, hashed])
    rw [original] at written
    exact written
  · intro written
    refine ⟨⟨b, info, written, read, info_same_refl info, rfl⟩, ?_⟩
    rintro metainfo m rfl unknown
    exact ⟨_, b, add_torrent_stores unknown written, HashTable.get_insert _ _ _, hashed.symm⟩

theorem some_info_kept : ∃ info, Info.fromBytes hashOf someInfo = .ok info ∧
    ComesBack hashOf (fun _ => .ofAscii "") info ∧ StoredRight hashOf (fun _ => .ofAscii "") info := by
  obtain ⟨info, read⟩ := some_info_reads
  have distinct : ∀ out, (Info.toBytes (fun _ => .ofAscii "") info : Outcome Empty Bytes) = .ok out →
      hashOf out = hashOf someInfo → out = someInfo := by
    intro out _ same
    by_contra other
    unfold hashOf at same
    rw [if_neg other, if_pos rfl] at same
    exact absurd same (by decide)
  refine ⟨info, read, (info_kept_iff (by decide) read distinct).mpr ?_⟩
  exact ⟨.dict (singleEntries 1 (text "a") 1 []), .single ⟨by decide, by decide⟩ (by decide), by decide +kernel⟩

def privateInfo : Bytes := text "d6:lengthi1e4:name1:a12:piece lengthi1e6:pieces0:7:privatei1ee"

/-- A hash that tells these dictionaries apart. -/
def lengthHash (bytes : Bytes) : ShaHash := ⟨Vector.replicate 20 (UInt8.ofNat bytes.length)⟩

/-- The private flag is lost, and with it the hash. -/
theorem private_flag_not_kept : ∃ info out again, Info.fromBytes lengthHash privateInfo = .ok info ∧
    (Info.toBytes (fun _ => .ofAscii "") info : Outcome Empty Bytes) = .ok out ∧
    Info.fromBytes lengthHash out = .ok again ∧ again.isPrivate ≠ info.isPrivate ∧
    lengthHash out ≠ info.infoHash := by
  have checked : ((accepted (Info.fromBytes lengthHash privateInfo)).bind fun info =>
      (accepted (Info.toBytes (fun _ => .ofAscii "") info : Outcome Empty Bytes)).bind fun out =>
        (accepted (Info.fromBytes lengthHash out)).map fun again =>
          (decide (again.isPrivate = info.isPrivate), decide (lengthHash out = info.infoHash))) =
        some (false, false) := by
    decide +kernel
  obtain ⟨info, read, checked⟩ := Option.bind_eq_some_iff.mp checked
  obtain ⟨out, written, checked⟩ := Option.bind_eq_some_iff.mp checked
  obtain ⟨again, reread, checked⟩ := Option.map_eq_some_iff.mp checked
  obtain ⟨flags, hashes⟩ := Prod.mk.inj checked
  exact ⟨info, out, again, ok_of_accepted read, ok_of_accepted written, ok_of_accepted reread,
    of_decide_eq_false flags, of_decide_eq_false hashes⟩

end Stored

end SelectStored
