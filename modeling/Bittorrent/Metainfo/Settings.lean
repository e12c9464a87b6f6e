import Bittorrent.Metainfo.Fidelity

/-!
The settings of a metainfo builder. Every setter writes the entry of its key or takes it out; the entries go
through the encoder and are read back by the parser. The private flag is the one that is lost.
-/
namespace MetainfoSettings
open Rust Outcome UtilSha BencodeValue BencodeConvert BencodeEncode BencodeRoundTrip MetainfoInfo
  MetainfoBuilder MetainfoFidelity

inductive PieceLength where
  | optBalanced | optFileSize | optTransfer
  | custom (len : UInt64)

/-- `MetainfoBuilder` with the two parts of its `InfoBuilder`. -/
structure MetainfoBuilder where
  root : Dict
  info : Dict
  pieceLength : PieceLength

section Model
variable {ε : Type}

/-- The common body of the setters. -/
def setEntry (key : Bytes) (value : Option Bencode) (dict : Dict) : Dict :=
  match value with
  | some v => SortedMap.insert key v dict
  | none => SortedMap.remove key dict

def bencodeStr (s : Str) : Bencode := .bytes s.bytes

def trackerList (groups : List (List Str)) : Bencode :=
  .list (groups.map fun group => .list (group.map bencodeStr))

/-- The lengths that are computed with floats are a parameter. -/
def determinePieceLength (optimal : PieceLength → Nat → UInt64) (total : Nat) : PieceLength → UInt64
  | .custom len => len
  | strategy => optimal strategy total

namespace MetainfoBuilder

def new : MetainfoBuilder := ⟨[], [], .optBalanced⟩

def setTrackers (b : MetainfoBuilder) (optTrackers : Option (List (List Str))) : MetainfoBuilder :=
  { b with root := setEntry announceListKey (optTrackers.map trackerList) b.root }

def setMainTracker (b : MetainfoBuilder) (optTrackerUrl : Option Str) : MetainfoBuilder :=
  { b with root := setEntry announceUrlKey (optTrackerUrl.map bencodeStr) b.root }

def setCreationDate (b : MetainfoBuilder) (optSecsEpoch : Option Int64) : MetainfoBuilder :=
  { b with root := setEntry creationDateKey (optSecsEpoch.map .int) b.root }

def setComment (b : MetainfoBuilder) (optComment : Option Str) : MetainfoBuilder :=
  { b with root := setEntry commentKey (optComment.map bencodeStr) b.root }

def setCreatedBy (b : MetainfoBuilder) (optCreatedBy : Option Str) : MetainfoBuilder :=
  { b with root := setEntry createdByKey (optCreatedBy.map bencodeStr) b.root }

def setPrivateFlag (b : MetainfoBuilder) (optIsPrivate : Option Bool) : MetainfoBuilder :=
  { b with info := (InfoBuilder.setPrivateFlag ⟨b.info, 0⟩ optIsPrivate).info }

def setPieceLength (b : MetainfoBuilder) (pieceLength : PieceLength) : MetainfoBuilder :=
  { b with pieceLength := pieceLength }

def build (repair : Bytes → Str) (optimal : PieceLength → Nat → UInt64) (b : MetainfoBuilder) (threads : Nat)
    (accessor : Accessor) : Outcome ε Bytes := do
  let total ← totalFilesLen 0 (collectFiles repair accessor.metadata)
  buildWithAccessor repair threads accessor (some b.root) b.info
    (determinePieceLength optimal total b.pieceLength)

end MetainfoBuilder

inductive Setting where
  | mainTracker (url : Option Str)
  | trackers (groups : Option (List (List Str)))
  | creationDate (secs : Option Int64)
  | comment (text : Option Str)
  | createdBy (name : Option Str)
  | privateFlag (flag : Option Bool)
  | pieceLength (len : UInt64) (positive : 1 ≤ len)

def Setting.apply (b : MetainfoBuilder) : Setting → MetainfoBuilder
  | .mainTracker url => b.setMainTracker url
  | .trackers groups => b.setTrackers groups
  | .creationDate secs => b.setCreationDate secs
  | .comment text => b.setComment text
  | .createdBy name => b.setCreatedBy name
  | .privateFlag flag => b.setPrivateFlag flag
  | .pieceLength len _ => b.setPieceLength (.custom len)

def configured (calls : List Setting) : MetainfoBuilder := calls.foldl Setting.apply .new

end Model

section Last
variable {α : Type}

/-- The value that the last of the calls gave to a setting, if there was one and it did not unset it. -/
def last (pick : Setting → Option (Option α)) (calls : List Setting) : Option α :=
  (calls.filterMap pick).getLast?.join

theorem last_snoc (pick : Setting → Option (Option α)) (calls : List Setting) (call : Setting) :
    last pick (calls ++ [call]) = (pick call).getD (last pick calls) := by
  unfold last
  rw [List.filterMap_append]
  cases picked : pick call <;> simp [picked]

def mainTrackers : Setting → Option (Option Str)
  | .mainTracker url => some url
  | _ => none

def trackerGroups : Setting → Option (Option (List (List Str)))
  | .trackers groups => some groups
  | _ => none

def creationDates : Setting → Option (Option Int64)
  | .creationDate secs => some secs
  | _ => none

def comments : Setting → Option (Option Str)
  | .comment text => some text
  | _ => none

def creators : Setting → Option (Option Str)
  | .createdBy name => some name
  | _ => none

def privateFlags : Setting → Option (Option Bool)
  | .privateFlag flag => some flag
  | _ => none

def pieceLengths : Setting → Option (Option UInt64)
  | .pieceLength len _ => some (some len)
  | _ => none

/-- Each setting is read back as its last call left it. -/
structure Survive (calls : List Setting) (m : Metainfo) : Prop where
  mainTracker : m.announce = last mainTrackers calls
  trackers : m.announceList = last trackerGroups calls
  creationDate : m.creationDate = last creationDates calls
  comment : m.comment = last comments calls
  createdBy : m.createdBy = last creators calls
  privateFlag : m.info.isPrivate = last privateFlags calls
  pieceLength : ∀ len, last pieceLengths calls = some len → m.info.pieceLen = len

end Last

section Entries
open List
variable {α : Type}

theorem lookup_remove (k k' : Bytes) (m : Dict) :
    SortedMap.lookup k (SortedMap.remove k' m) = if k = k' then none else SortedMap.lookup k m := by
  induction m with
  | nil => simp [SortedMap.remove, SortedMap.lookup]
  | cons e rest ih =>
    unfold SortedMap.remove at ih ⊢
    by_cases same : e.1 = k'
    · rw [filter_cons_of_neg (by simpa using same), ih]
      by_cases here : k = k'
      · simp [here]
      · have other : e.1 ≠ k := fun twice => here (twice.symm.trans same)
        simp [SortedMap.lookup, here, other]
    · rw [filter_cons_of_pos (by simpa using same), SortedMap.lookup, SortedMap.lookup, ih]
      by_cases here : e.1 = k
      · simp [here, show k ≠ k' from here ▸ same]
      · simp [here]

theorem lookup_set (k key : Bytes) (value : Option Bencode) (m : Dict) :
    SortedMap.lookup k (setEntry key value m) = if k = key then value else SortedMap.lookup k m := by
  cases value with
  | none => exact lookup_remove k key m
  | some v =>
    rw [setEntry, SortedMap.lookup_insert]
    congr

/-- What one call does to one key, all of them do. -/
theorem entry_last {key : Bytes} {pick : Setting → Option (Option α)} {enc : α → Bencode}
    (step : ∀ b call, SortedMap.lookup key (Setting.apply b call).root =
      ((pick call).map (Option.map enc)).getD (SortedMap.lookup key b.root)) (calls : List Setting) :
    SortedMap.lookup key (configured calls).root = (last pick calls).map enc := by
  induction calls using List.reverseRecOn with
  | nil => rfl
  | append_singleton calls call ih =>
    rw [configured, foldl_append, foldl_cons, foldl_nil, step, last_snoc]
    cases picked : pick call with
    | none => exact ih
    | some value => rfl

variable (calls : List Setting)

/-- Every entry of the root is what the last call of its setter left there. -/
theorem configured_entries :
    let entry := fun key => SortedMap.lookup key (configured calls).root
    entry announceUrlKey = (last mainTrackers calls).map bencodeStr ∧
    entry announceListKey = (last trackerGroups calls).map trackerList ∧
    entry creationDateKey = (last creationDates calls).map .int ∧
    entry commentKey = (last comments calls).map bencodeStr ∧
    entry createdByKey = (last creators calls).map bencodeStr := by
  refine ⟨entry_last ?_ calls, entry_last ?_ calls, entry_last ?_ calls, entry_last ?_ calls,
    entry_last ?_ calls⟩ <;> intro b call <;> cases call <;> first | rfl | exact lookup_set ..

theorem configured_keeps {P : MetainfoBuilder → Prop} (first : P .new)
    (step : ∀ b call, P b → P (Setting.apply b call)) (calls : List Setting) : P (configured calls) := by
  unfold configured
  induction calls using List.reverseRecOn with
  | nil => exact first
  | append_singleton calls call ih =>
    rw [foldl_append]
    exact step _ call ih

theorem configured_info : (configured calls).info = [] := by
  refine configured_keeps (P := fun b => b.info = []) rfl ?_ calls
  intro b call empty
  cases call with
  | privateFlag flag =>
    change (InfoBuilder.setPrivateFlag ⟨b.info, 0⟩ flag).info = []
    rw [empty]
    exact congrArg InfoBuilder.info (private_flag_lost flag)
  | _ => exact empty

theorem configured_piece_length {len : UInt64}
    (set : last pieceLengths calls = some len) : (configured calls).pieceLength = .custom len := by
  induction calls using List.reverseRecOn with
  | nil => cases set
  | append_singleton calls call ih =>
    rw [configured, foldl_append, foldl_cons, foldl_nil]
    rw [last_snoc] at set
    cases call with
    | pieceLength other _ =>
      cases set
      rfl
    | _ => exact ih set

/-- A dictionary of entries that the encoder writes in order and the decoder is not too deep for. -/
def Storable (root : Dict) : Prop :=
  SortedMap.Sorted root ∧ ∀ e ∈ root, Shallow e.2 5

theorem set_storable {α : Type} {enc : α → Bencode} (fine : ∀ a, Shallow (enc a) 5) {root : Dict}
    (storable : Storable root) (key : Bytes) (value : Option α) :
    Storable (setEntry key (value.map enc) root) := by
  cases value with
  | none => exact ⟨storable.1.sublist filter_sublist, fun e member => storable.2 e (mem_of_mem_filter member)⟩
  | some a =>
    refine ⟨SortedMap.insert_sorted storable.1, ?_⟩
    intro e member
    rcases SortedMap.mem_insert member with rfl | old
    · exact fine a
    · exact storable.2 e old

theorem trackers_storable (groups : List (List Str)) : Shallow (trackerList groups) 5 :=
  shallow_list (forall_mem_map.mpr fun group _ => shallow_strings Str.bytes group)

theorem configured_storable : Storable (configured calls).root := by
  refine configured_keeps (P := fun b => Storable b.root) ⟨.nil, nofun⟩ ?_ calls
  intro b call storable
  cases call with
  | mainTracker s | comment s | createdBy s =>
    exact set_storable (fun _ => shallow_bytes _) storable _ s
  | trackers groups => exact set_storable trackers_storable storable _ groups
  | creationDate secs => exact set_storable shallow_int storable _ secs
  | privateFlag flag | pieceLength len _ => exact storable

end Entries

section Reading
open List hiding lookup
variable {sha : Bytes → ShaHash} {ε : Type}
variable {full : Dict}

variable {files : List (UInt64 × List Str)}

/-- The two shapes of an info dictionary that was built from nothing. -/
theorem laid_cases {pieceLength : UInt64} {pieces : Bytes} {directory : Option Str}
    (laid : (insertLayout (SortedMap.insert piecesKey (.bytes pieces)
      (SortedMap.insert pieceLengthKey (.int pieceLength.toInt64) [])) directory files : Outcome ε Dict) =
        .ok full) :
    (∃ name : Str, full = multiEntries name.bytes pieceLength.toInt64 pieces
      (files.map fun file => (file.1.toInt64, file.2.map Str.bytes))) ∨
    ∃ (length : UInt64) (name : Str),
      full = singleEntries length.toInt64 name.bytes pieceLength.toInt64 pieces := by
  unfold insertLayout at laid
  split at laid
  · cases laid
    exact .inl ⟨_, layout_multi ..⟩
  · cases laid
    exact .inl ⟨⟨[], rfl⟩, layout_multi ..⟩
  · rename_i len path
    cases laid
    have joined : (Str.concat path).bytes = path.flatMap Str.bytes := by
      induction path with
      | nil => rfl
      | cons s rest ih => simp [Str.concat, Str.append, ← ih]
    exact .inr ⟨len, Str.concat path, by rw [joined]; exact layout_single ..⟩
  · cases laid

theorem str_bytes (s : Str) : str (.bytes s.bytes) = some s := by
  simp [str, bytes, from_utf8_bytes]

theorem path_parses (names : List Str) :
    collect parsePathStr ((names.map Str.bytes).map .bytes) = .ok names := by
  induction names with
  | nil => rfl
  | cons name rest ih =>
    have first : parsePathStr (.bytes name.bytes) = .ok name := convert_ok_iff.mpr (str_bytes name)
    simp only [map_cons, collect, first, ih, ok_bind, pure_eq]

/-- The converse of the `_under` lemmas. -/
theorem read_under {α : Type} {access : Bencode → Option α} {expectedType : String} {dict : Dict}
    {key : Bytes} {v : Bencode} {a : α} (found : SortedMap.lookup key dict = some v)
    (value : access v = some a) :
    (lookup ParseError.bencodeConvert dict key >>= fun v =>
      convert ParseError.bencodeConvert access expectedType v key) = .ok a := by
  rw [lookup_ok_iff.mpr found, ok_bind, convert_ok_iff.mpr value]

theorem length_parses {dict : Dict} {length : UInt64}
    (found : SortedMap.lookup lengthKey dict = some (.int length.toInt64)) :
    parseLength dict = .ok length := by
  have read : lookupAndConvertInt ParseError.bencodeConvert dict lengthKey = .ok length.toInt64 :=
    read_under found rfl
  rw [parseLength, read, ok_bind]
  simp

theorem files_parse (files : List (UInt64 × List Str)) : ∃ parsed,
    collect parseFile ((files.map fun file => (file.1.toInt64, file.2.map Str.bytes)).map fun file =>
      .dict [(lengthKey, .int file.1), (pathKey, .list (file.2.map .bytes))]) = .ok parsed := by
  induction files with
  | nil => exact ⟨[], rfl⟩
  | cons file rest ih =>
    obtain ⟨parsed, read⟩ := ih
    let dict : Dict := [(lengthKey, .int file.1.toInt64), (pathKey, .list ((file.2.map Str.bytes).map .bytes))]
    have length : parseLength dict = .ok file.1 := length_parses (if_pos rfl)
    have found : SortedMap.lookup pathKey dict = some (.list ((file.2.map Str.bytes).map .bytes)) := rfl
    have path : parsePathList dict = .ok ((file.2.map Str.bytes).map .bytes) := read_under found rfl
    obtain ⟨first, here⟩ : ∃ first, parseFile (.dict dict) = .ok first := by
      have whole : parseFileDict (.dict dict) = .ok dict := rfl
      rw [parseFile, whole, ok_bind, File.asMultiFile, length, ok_bind, path, ok_bind,
        path_parses, ok_bind]
      exact ⟨_, rfl⟩
    refine ⟨first :: parsed, ?_⟩
    rw [map_cons, map_cons, collect, here, ok_bind, read]
    rfl

theorem pieces_parse (pieces : List ShaHash) : ∃ parsed, allocatePieces (mapPiecesList pieces) = .ok parsed := by
  have whole : (mapPiecesList pieces).length % shaHashLen = 0 := by
    rw [pieces_length, Nat.mul_mod_right]
  exact ⟨_, if_neg (not_not.mpr whole)⟩

/-- A built info dictionary is accepted, with its piece length and without a private flag. -/
theorem info_parses {r : BencodeRef} {pieceLength : UInt64} {pieces : List ShaHash}
    {directory : Option Str}
    (laid : (insertLayout (SortedMap.insert piecesKey (.bytes (mapPiecesList pieces))
      (SortedMap.insert pieceLengthKey (.int pieceLength.toInt64) [])) directory files : Outcome ε Dict) =
        .ok full) (kind : r.kind = .dict full) :
    ∃ info, parseInfoDictionary sha r = .ok info ∧ info.pieceLen = pieceLength ∧ info.isPrivate = none := by
  obtain ⟨hashes, allocated⟩ := pieces_parse pieces
  have whole : parseRootDict r.kind = .ok full := convert_ok_iff.mpr (by rw [kind]; rfl)
  have size : SortedMap.lookup pieceLengthKey full = some (.int pieceLength.toInt64) →
      parsePieceLength full = .ok pieceLength := by
    intro found
    have read : lookupAndConvertInt ParseError.bencodeConvert full pieceLengthKey =
      .ok pieceLength.toInt64 := read_under found rfl
    rw [parsePieceLength, read, ok_bind]
    simp
  unfold parseInfoDictionary
  rw [whole, ok_bind]
  rcases laid_cases laid with ⟨name, rfl⟩ | ⟨length, name, rfl⟩
  · obtain ⟨parsed, read⟩ := files_parse files
    generalize entries : multiEntries name.bytes pieceLength.toInt64 (mapPiecesList pieces)
      (files.map fun file => (file.1.toInt64, file.2.map Str.bytes)) = dict at *
    have hashed : parsePieces dict = .ok (mapPiecesList pieces) := entries ▸ rfl
    have multi : isMultiFileTorrent dict = true := entries ▸ rfl
    have open_ : parsePrivate dict = none := entries ▸ rfl
    have isName : parseName dict = .ok name := by
      subst entries
      exact read_under rfl (str_bytes name)
    obtain ⟨items, isList, read⟩ : ∃ items, parseFilesList dict = .ok items ∧
        collect parseFile items = .ok parsed := by
      subst entries
      exact ⟨_, rfl, read⟩
    rw [size (entries ▸ rfl), ok_bind, hashed, ok_bind, allocated, ok_bind, if_pos multi,
      isName, ok_bind, isList, ok_bind, read]
    exact ⟨_, rfl, rfl, open_⟩
  · generalize entries : singleEntries length.toInt64 name.bytes pieceLength.toInt64
      (mapPiecesList pieces) = dict at *
    have hashed : parsePieces dict = .ok (mapPiecesList pieces) := entries ▸ rfl
    have single : parseLength dict = .ok length := length_parses (entries ▸ rfl)
    have open_ : parsePrivate dict = none := entries ▸ rfl
    have isName : parseName dict = .ok name := by
      subst entries
      exact read_under rfl (str_bytes name)
    have one : ¬ isMultiFileTorrent dict = true := by simp [isMultiFileTorrent, single, accepted]
    rw [size (entries ▸ rfl), ok_bind, hashed, ok_bind, allocated, ok_bind, if_neg one,
      File.asSingleFile, single, ok_bind, isName]
    exact ⟨_, rfl, rfl, open_⟩

theorem lookup_kinds (k : Bytes) (entries : List (Bytes × BencodeRef)) :
    SortedMap.lookup k (SortedMap.mapValues BencodeRef.kind entries) =
      (SortedMap.lookup k entries).map BencodeRef.kind := by
  induction entries with
  | nil => rfl
  | cons e rest ih =>
    unfold SortedMap.mapValues at ih ⊢
    rw [map_cons, SortedMap.lookup, SortedMap.lookup, ih]
    split
    · rfl
    · rfl

/-- What the parser makes of a root dictionary, next to its info. -/
def described (dict : Dict) (info : Info) : Metainfo where
  comment := parseText dict commentKey
  announce := parseText dict announceUrlKey
  announceList := (parseAnnounceList dict).map convertAnnounceList
  encoding := parseText dict encodingKey
  createdBy := parseText dict createdByKey
  creationDate := parseCreationDate dict
  info := info

theorem root_parses (sha : Bytes → ShaHash) {root : Dict} {P : Info → Prop}
    (storable : Storable root) (shape : Shallow (.dict full) 5)
    (fits : (encode (.dict (SortedMap.insert infoKey (.dict full) root))).length ≤ isizeMax)
    (inner : ∀ r : BencodeRef, r.kind = .dict full → ∃ info, parseInfoDictionary sha r = .ok info ∧ P info) :
    ∃ info, Metainfo.fromBytes sha (encode (.dict (SortedMap.insert infoKey (.dict full) root))) =
      .ok (described (SortedMap.insert infoKey (.dict full) root) info) ∧ P info := by
  have storable : Storable (SortedMap.insert infoKey (.dict full) root) :=
    set_storable (fun _ => shape) storable infoKey (some ())
  obtain ⟨sorted, shallow⟩ := shallow_dict storable.1 storable.2
  obtain ⟨r, decodes, kind, _⟩ := decode_encode sorted fits
    (show _ ≤ BDecodeOpt.default.maxRecursion from shallow.trans (by decide))
  have read : decoded (encode (.dict (SortedMap.insert infoKey (.dict full) root))) = .ok r := by
    rw [decoded, decodes]
  have whole : parseRootDict r.kind = .ok (SortedMap.insert infoKey (.dict full) root) :=
    convert_ok_iff.mpr (by rw [kind]; rfl)
  cases r with
  | dict entries buffer =>
    rw [kind_dict] at kind
    have found := lookup_kinds infoKey entries
    rw [Bencode.dict.inj kind, SortedMap.lookup_insert_self] at found
    obtain ⟨infoRef, there, isInfo⟩ := Option.map_eq_some_iff.mp found.symm
    obtain ⟨info, parsed, holds⟩ := inner infoRef isInfo
    refine ⟨info, ?_, holds⟩
    have part : parseInfoBencode (.dict entries buffer) = .ok infoRef := by
      rw [parseInfoBencode, there]
    rw [Metainfo.fromBytes, read, ok_bind, whole, ok_bind, part, ok_bind, parsed]
    rfl
  | int n buffer | bytes b buffer | list items buffer => simp at kind

/-- A setting is read from the root as if the info did not stand beside it. -/
theorem beside_info {α β : Type} {access : Bencode → Option α} {expectedType : String} {root : Dict}
    {key : Bytes} {value : Option β} {enc : β → Bencode} {v : Bencode} (other : key ≠ infoKey)
    (entry : SortedMap.lookup key root = value.map enc) {handleError : BencodeConvertError → ParseError} :
    accepted (lookup handleError (SortedMap.insert infoKey v root) key >>= fun v =>
      convert handleError access expectedType v key) = value.bind fun b => access (enc b) := by
  rw [accepted_under, SortedMap.lookup_insert_other _ _ other, entry, Option.bind_map]
  rfl

theorem text_of {root : Dict} {key : Bytes} {value : Option Str} {v : Bencode} (other : key ≠ infoKey)
    (entry : SortedMap.lookup key root = value.map bencodeStr) :
    parseText (SortedMap.insert infoKey v root) key = value :=
  (beside_info other entry).trans ((Option.bind_congr fun s _ => str_bytes s).trans (by simp))

theorem announce_list_back (groups : List (List Str)) :
    convertAnnounceList (groups.map fun group => .list (group.map bencodeStr)) = groups := by
  have urls : ∀ group : List Str, (group.map bencodeStr).filterMap str = group := by
    intro group
    rw [filterMap_map]
    exact (filterMap_congr fun s _ => str_bytes s).trans (filterMap_some)
  have lists : (groups.map fun group => Bencode.list (group.map bencodeStr)).filterMap list =
      groups.map fun group => group.map bencodeStr := by
    rw [filterMap_map]
    exact congrFun filterMap_eq_map groups
  rw [convertAnnounceList, lists, map_map]
  exact (map_congr_left fun group _ => urls group).trans (map_id _)

end Reading

section Settings
variable {ε : Type}

/-- Whatever is called in whatever order, the result of the build is accepted, and every setting is in it as
    the last call left it, exactly if no private flag is left set. -/
theorem settings_survive_iff (sha : Bytes → ShaHash) (repair : Bytes → Str) (optimal : PieceLength → Nat → UInt64)
    (calls : List Setting) (threads : Nat) (accessor : Accessor) {out : Bytes}
    (built : ((configured calls).build repair optimal threads accessor : Outcome ε Bytes) = .ok out) :
    ∃ m, Metainfo.fromBytes sha out = .ok m ∧ (Survive calls m ↔ last privateFlags calls = none) := by
  obtain ⟨total, _, built⟩ := bind_eq_ok.mp built
  rw [configured_info] at built
  unfold buildWithAccessor at built
  dsimp only at built
  split at built
  · cases built
  obtain ⟨_, _, built⟩ := bind_eq_ok.mp built
  obtain ⟨hashes, _, built⟩ := bind_eq_ok.mp built
  obtain ⟨full, laid, built⟩ := bind_eq_ok.mp built
  obtain ⟨_, fits, built⟩ := bind_eq_ok.mp built
  cases built
  have shape : Shallow (.dict full) 5 := by
    rcases laid_cases laid with ⟨name, rfl⟩ | ⟨length, name, rfl⟩
    · exact multi_canonical ..
    · exact single_canonical ..
  obtain ⟨info, read, size, unset⟩ := root_parses sha (configured_storable calls) shape
    (allocate_ok_iff.mp fits) fun r kind => info_parses laid kind
  obtain ⟨main, trackers, date, comment, creator⟩ := configured_entries calls
  refine ⟨_, read, fun survive => survive.privateFlag.symm.trans unset, fun none => ?_⟩
  exact {
    mainTracker := text_of (by decide) main
    comment := text_of (by decide) comment
    createdBy := text_of (by decide) creator
    trackers := by
      refine (congrArg (Option.map convertAnnounceList) (beside_info (by decide) trackers)).trans ?_
      cases last trackerGroups calls with
      | none => rfl
      | some groups => exact congrArg some (announce_list_back groups)
    creationDate := (beside_info (by decide) date).trans (Option.bind_fun_some _)
    privateFlag := unset.trans none.symm
    pieceLength := by
      intro len set
      change info.pieceLen = len
      rw [size, configured_piece_length calls set]
      rfl }

def twoBytes : Accessor := ⟨none, [(2, [97])], [⟨Vector.replicate 20 7⟩]⟩

def someCalls : List Setting :=
  [.comment (some (.ofAscii "a")), .mainTracker (some (.ofAscii "u")), .creationDate (some (-5)), .comment none,
    .trackers (some [[.ofAscii "u", .ofAscii "v"], []]), .pieceLength 2 (by decide), .pieceLength 1 (by decide),
    .privateFlag (some true), .privateFlag none]

theorem some_calls_survive : ∃ out m, ((configured someCalls).build (fun _ => .ofAscii "") (fun _ _ => 1) 1
      twoBytes : Outcome Unit Bytes) = .ok out ∧
    Metainfo.fromBytes (fun _ => ⟨Vector.replicate 20 0⟩) out = .ok m ∧ Survive someCalls m := by
  have done : (accepted ((configured someCalls).build (fun _ => .ofAscii "") (fun _ _ => 1) 1 twoBytes :
    Outcome Unit Bytes)).isSome = true := by decide +kernel
  obtain ⟨out, built⟩ := Option.isSome_iff_exists.mp done
  obtain ⟨m, read, survive⟩ := settings_survive_iff (fun _ => ⟨Vector.replicate 20 0⟩) _ _ someCalls 1 twoBytes
    (ok_of_accepted built)
  exact ⟨out, m, ok_of_accepted built, read, survive.mpr rfl⟩

def privateCalls : List Setting := [.privateFlag (some true), .pieceLength 1 (by decide)]

/-- A torrent that was marked as private is read as one that was not. -/
theorem private_flag_dropped :
    (accepted ((configured privateCalls).build (fun _ => .ofAscii "") (fun _ _ => 1) 1 twoBytes >>=
      Metainfo.fromBytes fun _ => ⟨Vector.replicate 20 0⟩)).map (fun m => m.info.isPrivate) = some none ∧
    last privateFlags privateCalls = some true := by
  decide +kernel

end Settings

end MetainfoSettings
