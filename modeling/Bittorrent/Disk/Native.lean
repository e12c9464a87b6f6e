import Bittorrent.Disk.Accessor

/-!
Which paths the disk layer opens for a torrent below a base directory, and when they stay there.
The torrent chooses its name and the parts of each file's path freely.
-/
namespace DiskNative
open Rust Outcome UtilSha BencodeValue BencodeConvert MetainfoInfo DiskAccessor

def combineUserPath (userPath currentDir : Path) : Path :=
  if isAbsolute userPath then userPath else (iter userPath).foldl push currentDir

/-- The path that `NativeFileSystem::open_file` opens for a file of a torrent. -/
def openedPath (base : Path) (info : Info) (file : File) : Path :=
  combineUserPath (buildPath info.fileDirectory file) base

section User
open List hiding iter

theorem resolve_combined {userPath : Path} (relative : isAbsolute userPath = false) (base : Path) :
    resolve (combineUserPath userPath base) = (body userPath).foldl walk (resolve base) := by
  have begins : start userPath = [] ∨ start userPath = [.curDir] := by
    unfold start
    rw [relative]
    simp only [Bool.false_eq_true, if_false]
    split
    · exact .inr rfl
    · exact .inl rfl
  unfold combineUserPath iter components
  rw [relative]
  simp only [Bool.false_eq_true, if_false, map_append, foldl_append]
  rw [resolve_push_all (body userPath) _ fun _ member => member]
  rcases begins with none | dot
  · rw [none]
    rfl
  · rw [dot]
    change (body userPath).foldl walk (resolve (push base [46])) = _
    rw [resolve_push base [46] rfl]
    rfl

/-- A directory name that does not stand in a path: it is longer. -/
def freshName (path : Path) : Bytes := List.replicate (path.length + 3) 97

theorem fresh_is_name (path : Path) : IsName (freshName path) := by
  refine ⟨?_, ?_, ?_, ?_⟩
  · intro member
    have letter := eq_of_mem_replicate member
    cases letter
  all_goals
    intro same
    have size := congrArg List.length same
    simp only [freshName, length_replicate, length_cons, length_nil] at size
    omega

theorem fresh_not_mem (path : Path) : .normal (freshName path) ∉ body path := by
  intro member
  obtain ⟨part, inside, same⟩ := mem_filterMap.mp member
  obtain ⟨rfl, _⟩ := segment_normal same
  have short := part_length path _ inside
  simp only [freshName, length_replicate] at short
  omega

theorem resolve_root_name {name : Bytes} (isName : IsName name) :
    resolve (slash :: name) = [.normal name, .rootDir] := by
  have rooted : components (slash :: name) = [.rootDir, .normal name] := by
    have split : body (slash :: name) = body name := body_append [] name
    rw [components, split, body_name isName]
    rfl
  rw [resolve, rooted]
  rfl

/-- A user path stays below every base directory exactly if it is relative and never climbs above
    its beginning. -/
theorem combined_inside_iff (userPath : Path) :
    (∀ base, Inside base (combineUserPath userPath base)) ↔
      isAbsolute userPath = false ∧ stays 0 (body userPath) = true := by
  have isName := fresh_is_name userPath
  have absent := fresh_not_mem userPath
  constructor
  · intro inside
    have here := inside (slash :: freshName userPath)
    unfold Inside at here
    rw [resolve_root_name isName] at here
    have kept := here.subset (.head _)
    have relative : isAbsolute userPath = false := by
      by_contra absolute
      rw [Bool.not_eq_false] at absolute
      unfold combineUserPath at kept
      rw [if_pos absolute, resolve, components, start, if_pos absolute] at kept
      rcases walk_mem _ _ kept with nothing | member
      · cases nothing
      · rcases mem_append.mp member with root | inner
        · simp at root
        · exact absent inner
    refine ⟨relative, ?_⟩
    by_contra leaves
    rw [Bool.not_eq_true] at leaves
    rw [resolve_combined relative, resolve_root_name isName] at kept
    exact leaves_directory (body userPath) 0 [] rfl not_mem_nil absent leaves kept
  · rintro ⟨relative, holds⟩ base
    unfold Inside
    rw [resolve_combined relative]
    exact stays_suffix (body userPath) 0 [] rfl holds

end User

section Names
open List

/-- Parts of a path, in the order in which they are pushed, stay below where they begin. -/
def Confined (names : List Bytes) : Prop :=
  (∀ name ∈ names, isAbsolute name = false) ∧ stays 0 (names.flatMap body) = true

instance (names : List Bytes) : Decidable (Confined names) := inferInstanceAs (Decidable (_ ∧ _))

theorem push_absolute {buf path : Path} :
    isAbsolute (push buf path) = true ↔ isAbsolute buf = true ∨ isAbsolute path = true := by
  by_cases absolute : isAbsolute path = true
  · simp [push, absolute]
  · rw [Bool.not_eq_true] at absolute
    cases buf with
    | nil => simp [push_nil, isAbsolute]
    | cons c rest =>
      have form : ∃ tail, push (c :: rest) path = c :: tail := by
        unfold push
        rw [absolute]
        simp only [Bool.false_eq_true, if_false]
        split <;> exact ⟨_, rfl⟩
      obtain ⟨tail, same⟩ := form
      rw [same, absolute]
      simp [isAbsolute]

/-- The path is made of these parts: it is absolute if one of them is, and otherwise its components
    are theirs. -/
structure MadeOf (path : Path) (names : List Bytes) : Prop where
  absolute : isAbsolute path = true ↔ ∃ name ∈ names, isAbsolute name = true
  body : (∀ name ∈ names, isAbsolute name = false) → body path = names.flatMap body

theorem made_nil : MadeOf [] [] := ⟨by simp [isAbsolute], fun _ => rfl⟩

theorem made_single (name : Bytes) : MadeOf name [name] := ⟨by simp, by simp⟩

theorem made_push {buf path : Path} {names more : List Bytes} (first : MadeOf buf names)
    (second : MadeOf path more) : MadeOf (push buf path) (names ++ more) where
  absolute := by
    rw [push_absolute, first.absolute, second.absolute]
    simp only [mem_append, or_and_right, exists_or]
  body := by
    intro relative
    have before := first.body fun name member => relative name (mem_append_left _ member)
    have after := second.body fun name member => relative name (mem_append_right _ member)
    have last : isAbsolute path = false := by
      rw [← Bool.not_eq_true, second.absolute]
      rintro ⟨name, member, bad⟩
      rw [relative name (mem_append_right _ member)] at bad
      cases bad
    rw [body_push buf path last, before, after, flatMap_append]

theorem made_push_all (names : List Bytes) : ∀ {buf : Path} {before : List Bytes},
    MadeOf buf before → MadeOf (names.foldl push buf) (before ++ names) := by
  induction names with
  | nil =>
    intro buf before made
    rw [append_nil]
    exact made
  | cons name rest ih =>
    intro buf before made
    have next := ih (made_push made (made_single name))
    rw [append_assoc] at next
    exact next

theorem made_confined_iff {path : Path} {names : List Bytes} (made : MadeOf path names) :
    (∀ base, Inside base (combineUserPath path base)) ↔ Confined names := by
  rw [combined_inside_iff]
  have relative : isAbsolute path = false ↔ ∀ name ∈ names, isAbsolute name = false := by
    rw [← Bool.not_eq_true, made.absolute]
    simp
  rw [relative]
  constructor
  · rintro ⟨all, holds⟩
    rw [made.body all] at holds
    exact ⟨all, holds⟩
  · rintro ⟨all, holds⟩
    rw [← made.body all] at holds
    exact ⟨all, holds⟩

end Names

section Torrent

def pathNames (file : Bencode) : List Bytes :=
  match accepted (do parsePathList (← parseFileDict file) : ParseResult (List Bencode)) with
  | some parts => parts.filterMap bytes
  | none => []

/-- For each file of an info dictionary, the texts that its path is pushed from. -/
def dictNames (dict : Dict) : List (List Bytes) :=
  match accepted (parseName dict) with
  | none => []
  | some name =>
    if isMultiFileTorrent dict then
      match accepted (parseFilesList dict) with
      | some files => files.map fun file => name.bytes :: pathNames file
      | none => []
    else [[name.bytes]]

def infoNames (info : BencodeRef) : List (List Bytes) :=
  match accepted (parseRootDict info.kind) with
  | some dict => dictNames dict
  | none => []

/-- For each file of a torrent, the texts that its path is pushed from. -/
def torrentNames (torrent : Bytes) : List (List Bytes) :=
  match accepted (do parseInfoBencode (← decoded torrent) : ParseResult BencodeRef) with
  | some info => infoNames info
  | none => []

theorem collect_texts {parts : List Bencode} {names : List Str}
    (read : collect parsePathStr parts = .ok names) : parts.filterMap bytes = names.map Str.bytes := by
  rw [names_of read, List.filterMap_map]
  exact List.filterMap_some

theorem file_made {file : Bencode} {parsed : File} (read : parseFile file = .ok parsed) :
    MadeOf parsed.path (pathNames file) := by
  obtain ⟨dict, isDict, read⟩ := bind_eq_ok.mp read
  obtain ⟨length, _, read⟩ := bind_eq_ok.mp read
  obtain ⟨parts, isList, read⟩ := bind_eq_ok.mp read
  obtain ⟨names, texts, read⟩ := bind_eq_ok.mp read
  cases read
  have parsed : pathNames file = names.map Str.bytes := by
    unfold pathNames
    rw [isDict, ok_bind, accepted_ok isList]
    exact collect_texts texts
  rw [parsed]
  have made := made_push_all (names.map Str.bytes) made_nil
  rw [List.nil_append, List.foldl_map] at made
  exact made

theorem info_made {sha : Bytes → ShaHash} {bencode : BencodeRef} {info : Info}
    (read : parseInfoDictionary sha bencode = .ok info) :
    List.Forall₂ (fun file names => MadeOf (buildPath info.fileDirectory file) names) info.files
      (infoNames bencode) := by
  obtain ⟨dict, isDict, read⟩ := bind_eq_ok.mp read
  obtain ⟨pieceLen, _, read⟩ := bind_eq_ok.mp read
  obtain ⟨pieces, _, read⟩ := bind_eq_ok.mp read
  obtain ⟨buffers, _, read⟩ := bind_eq_ok.mp read
  unfold infoNames
  rw [accepted_ok isDict]
  dsimp only
  unfold dictNames
  split at read
  next multi =>
    obtain ⟨name, isName, read⟩ := bind_eq_ok.mp read
    obtain ⟨list, isList, read⟩ := bind_eq_ok.mp read
    obtain ⟨files, collected, read⟩ := bind_eq_ok.mp read
    cases read
    rw [accepted_ok isName]
    dsimp only
    rw [if_pos multi, accepted_ok isList]
    have made := collect_forall (fun _ _ => file_made) collected
    rw [List.forall₂_map_right_iff]
    refine made.imp ?_
    intro file item inner
    rw [push_nil]
    exact made_push (made_single name.bytes) inner
  next single =>
    obtain ⟨file, isFile, read⟩ := bind_eq_ok.mp read
    obtain ⟨length, _, isFile⟩ := bind_eq_ok.mp isFile
    obtain ⟨name, isName, isFile⟩ := bind_eq_ok.mp isFile
    cases isFile
    cases read
    rw [accepted_ok isName]
    dsimp only
    rw [if_neg single]
    exact .cons (made_single name.bytes) .nil

theorem forall_related {α β : Type} {R : α → β → Prop} {P : α → Prop} {Q : β → Prop}
    (same : ∀ a b, R a b → (P a ↔ Q b)) {list : List α} {other : List β}
    (related : List.Forall₂ R list other) : (∀ a ∈ list, P a) ↔ ∀ b ∈ other, Q b := by
  induction related with
  | nil => simp
  | cons first _ ih => simp [same _ _ first, ih]

/-- Everything that is opened for a torrent lies below every base directory exactly if the texts of
    each of its files stay below where they begin. -/
theorem opened_inside_iff (sha : Bytes → ShaHash) (torrent : Bytes) (metainfo : Metainfo)
    (read : Metainfo.fromBytes sha torrent = .ok metainfo) :
    (∀ file ∈ metainfo.info.files, ∀ base, Inside base (openedPath base metainfo.info file)) ↔
      ∀ names ∈ torrentNames torrent, Confined names := by
  obtain ⟨root, isRoot, read⟩ := bind_eq_ok.mp read
  obtain ⟨dict, _, read⟩ := bind_eq_ok.mp read
  obtain ⟨bencode, isInfo, read⟩ := bind_eq_ok.mp read
  obtain ⟨info, isDict, read⟩ := bind_eq_ok.mp read
  cases read
  have names : torrentNames torrent = infoNames bencode := by
    unfold torrentNames
    rw [isRoot, ok_bind, accepted_ok isInfo]
  rw [names]
  apply forall_related _ (info_made isDict)
  exact fun file texts made => made_confined_iff made

def noHash : Bytes → ShaHash := fun _ => ⟨Vector.replicate shaHashLen 0⟩

def plainTorrent : Bytes :=
  text ("d4:infod5:filesld6:lengthi1e4:pathl3:sub1:aeee4:name3:dir12:piece lengthi1e" ++
    "6:pieces20:aaaaaaaaaaaaaaaaaaaaee")

theorem plain_torrent_inside :
    ∃ metainfo, Metainfo.fromBytes noHash plainTorrent = .ok metainfo ∧
      ∀ file ∈ metainfo.info.files, ∀ base, Inside base (openedPath base metainfo.info file) := by
  have reads : (accepted (Metainfo.fromBytes noHash plainTorrent)).isSome = true := by
    decide +kernel
  obtain ⟨metainfo, same⟩ := Option.isSome_iff_exists.mp reads
  have read := ok_of_accepted same
  exact ⟨metainfo, read, (opened_inside_iff noHash plainTorrent metainfo read).mpr (by decide +kernel)⟩

def climbingTorrent : Bytes :=
  text "d4:infod6:lengthi1e4:name7:../evil12:piece lengthi1e6:pieces20:aaaaaaaaaaaaaaaaaaaaee"

theorem climbing_torrent_leaves :
    ∃ metainfo, Metainfo.fromBytes noHash climbingTorrent = .ok metainfo ∧
      ∃ file ∈ metainfo.info.files, openedPath (text "/base") metainfo.info file = text "/base/../evil" ∧
        ¬ Inside (text "/base") (openedPath (text "/base") metainfo.info file) := by
  have reads : (accepted (Metainfo.fromBytes noHash climbingTorrent)).any (fun metainfo =>
      metainfo.info.files.any fun file =>
        openedPath (text "/base") metainfo.info file = text "/base/../evil" ∧
          ¬ Inside (text "/base") (openedPath (text "/base") metainfo.info file)) = true := by
    decide +kernel
  obtain ⟨metainfo, same, leaves⟩ := (Option.any_eq_true _ _).mp reads
  obtain ⟨file, member, outside⟩ := List.any_eq_true.mp leaves
  exact ⟨metainfo, ok_of_accepted same, file, member, of_decide_eq_true outside⟩

end Torrent

end DiskNative
