import Bittorrent.Lib.Utf8

/-!
Unix paths of the Rust standard library: a path is a byte string, its components are what stands
between the slashes, without empty parts and without dots other than a leading one. Two paths are
equal if their components are. `resolve` removes dots without looking at a file system.
-/
namespace Rust
open List hiding iter

abbrev Path := Bytes

def slash : UInt8 := 47

def isSep (c : UInt8) : Bool := c == slash

inductive Component where
  | rootDir
  | curDir
  | parentDir
  | normal (name : Bytes)
  deriving DecidableEq, Repr

def Component.asOsStr : Component → Bytes
  | .rootDir => [slash]
  | .curDir => [46]
  | .parentDir => [46, 46]
  | .normal name => name

def isAbsolute (path : Path) : Bool := path.head? == some slash

def parts (path : Path) : List Bytes := path.splitOnP isSep

def segment (part : Bytes) : Option Component :=
  if part = [] ∨ part = [46] then none
  else if part = [46, 46] then some .parentDir
  else some (.normal part)

/-- A root, or a dot that the path begins with. -/
def start (path : Path) : List Component :=
  if isAbsolute path then [.rootDir]
  else if (parts path).head? = some [46] then [.curDir]
  else []

def body (path : Path) : List Component := (parts path).filterMap segment

def components (path : Path) : List Component := start path ++ body path

def iter (path : Path) : List Bytes := (components path).map Component.asOsStr

/-- `PathBuf::push`: an absolute path replaces what is there. -/
def push (buf path : Path) : Path :=
  if isAbsolute path then path
  else if buf.getLast?.any fun c => !isSep c then buf ++ slash :: path
  else buf ++ path

def join (path other : Path) : Path := push path other

def SamePath (p q : Path) : Prop := components p = components q

section Push

theorem parts_ne_nil (path : Path) : parts path ≠ [] := splitOnP_ne_nil isSep path

theorem parts_append (p q : Path) : parts (p ++ slash :: q) = parts p ++ parts q :=
  splitOnP_append_cons p q rfl

theorem parts_single {part : Bytes} (whole : slash ∉ part) : parts part = [part] := by
  apply splitOnP_eq_singleton
  intro c member
  have other : c ≠ slash := fun same => whole (same ▸ member)
  simpa [isSep] using other

theorem body_append (p q : Path) : body (p ++ slash :: q) = body p ++ body q := by
  simp [body, parts_append]

theorem body_trailing (p : Path) : body (p ++ [slash]) = body p := by
  have nothing : body ([] : Path) = [] := rfl
  rw [body_append, nothing, append_nil]

theorem push_nil (path : Path) : push [] path = path := by simp [push]

/-- What `push` does to a path that is not empty: the new part stands behind one slash. -/
theorem push_form {buf path : Path} (some : buf ≠ []) (relative : isAbsolute path = false) :
    ∃ front, push buf path = front ++ slash :: path ∧ (buf = front ∨ buf = front ++ [slash]) := by
  have last := List.getLast?_eq_some_getLast some
  by_cases ended : buf.getLast some = slash
  · have whole : buf = buf.dropLast ++ [slash] := by
      rw [← ended, dropLast_append_getLast some]
    refine ⟨buf.dropLast, ?_, .inr whole⟩
    have kept : push buf path = buf ++ path := by simp [push, relative, last, isSep, ended]
    rw [kept]
    nth_rewrite 1 [whole]
    simp
  · refine ⟨buf, ?_, .inl rfl⟩
    simp [push, relative, last, isSep, ended]

theorem body_push (buf path : Path) (relative : isAbsolute path = false) :
    body (push buf path) = body buf ++ body path := by
  by_cases empty : buf = []
  · subst empty
    rw [push_nil]
    rfl
  · obtain ⟨front, form, whole⟩ := push_form empty relative
    rw [form, body_append]
    rcases whole with same | same
    · rw [same]
    · rw [same, body_trailing]

theorem start_append {p : Path} (q : Path) (some : p ≠ []) : start (p ++ slash :: q) = start p := by
  have absolute : isAbsolute (p ++ slash :: q) = isAbsolute p := by
    cases p with
    | nil => exact absurd rfl some
    | cons c rest => rfl
  have first : (parts (p ++ slash :: q)).head? = (parts p).head? := by
    rw [parts_append, List.head?_append_of_ne_nil _ (parts_ne_nil p)]
  rw [start, start, absolute, first]

/-- Behind a path that is not empty, a leading dot is dropped. -/
theorem components_push {buf path : Path} (some : buf ≠ []) (relative : isAbsolute path = false) :
    components (push buf path) = components buf ++ body path := by
  have begins : start (push buf path) = start buf := by
    obtain ⟨front, form, whole⟩ := push_form some relative
    rw [form]
    by_cases root : front = []
    · subst root
      rcases whole with same | same
      · exact absurd same some
      · rw [same]
        rfl
    · rw [start_append path root]
      rcases whole with same | same
      · rw [same]
      · rw [same, start_append [] root]
  rw [components, components, begins, body_push buf path relative, append_assoc]

end Push

section Parts

/-- What holds of a path without a slash and of two paths around one holds of every part. -/
theorem each_part {P : Path → Bytes → Prop} (one : ∀ part, slash ∉ part → P part part)
    (first : ∀ {p part} (q : Path), P p part → P (p ++ slash :: q) part)
    (second : ∀ {q part} (p : Path), P q part → P (p ++ slash :: q) part) :
    ∀ (path : Path), ∀ part ∈ parts path, P path part := by
  intro path
  induction size : path.length using Nat.strong_induction_on generalizing path with
  | _ size ih =>
    intro part member
    by_cases cut : slash ∈ path
    · obtain ⟨front, back, rfl⟩ := append_of_mem cut
      rw [length_append, length_cons] at size
      rw [parts_append] at member
      rcases mem_append.mp member with early | late
      · exact first back (ih front.length (by omega) front rfl part early)
      · exact second front (ih back.length (by omega) back rfl part late)
    · rw [parts_single cut] at member
      rw [mem_singleton.mp member]
      exact one path cut

theorem parts_no_slash (path : Path) : ∀ part ∈ parts path, slash ∉ part :=
  each_part (P := fun _ part => slash ∉ part) (fun _ whole => whole) (fun _ whole => whole)
    (fun _ whole => whole) path

/-- The names that can stand in a path as a component. -/
def IsName (name : Bytes) : Prop :=
  slash ∉ name ∧ name ≠ [] ∧ name ≠ [46] ∧ name ≠ [46, 46]

variable {name : Bytes}

theorem segment_normal {part : Bytes} (same : segment part = some (.normal name)) :
    part = name ∧ name ≠ [] ∧ name ≠ [46] ∧ name ≠ [46, 46] := by
  unfold segment at same
  split at same
  next => cases same
  next other =>
    split at same
    next => cases same
    next up =>
      cases same
      rw [not_or] at other
      exact ⟨rfl, other.1, other.2, up⟩

theorem body_normal {path : Path} (member : .normal name ∈ body path) : IsName name := by
  obtain ⟨part, inside, same⟩ := mem_filterMap.mp member
  obtain ⟨rfl, some, notDot, notUp⟩ := segment_normal same
  exact ⟨parts_no_slash path part inside, some, notDot, notUp⟩

theorem body_no_root (path : Path) : .rootDir ∉ body path ∧ .curDir ∉ body path := by
  constructor <;>
  · intro member
    obtain ⟨part, _, same⟩ := mem_filterMap.mp member
    unfold segment at same
    split at same
    · cases same
    · split at same <;> cases same

theorem body_name (isName : IsName name) : body name = [.normal name] := by
  obtain ⟨whole, some, notDot, notUp⟩ := isName
  simp [body, parts_single whole, segment, some, notDot, notUp]

theorem whole_relative (whole : slash ∉ name) : isAbsolute name = false := by
  cases name with
  | nil => rfl
  | cons c rest =>
    have letter : c ≠ slash := fun same => whole (same ▸ .head _)
    simpa [isAbsolute] using letter

theorem part_length : ∀ (path : Path), ∀ part ∈ parts path, part.length ≤ path.length := by
  apply each_part
  · exact fun _ _ => le_refl _
  · intro p part q short
    rw [length_append]
    omega
  · intro q part p short
    rw [length_append, length_cons]
    omega

end Parts

section Iterate

/-- A part that stands for itself behind another one. -/
def IsPart (part : Bytes) : Prop := slash ∉ part ∧ part ≠ [] ∧ part ≠ [46]

/-- Lists of parts that a path can be iterated into. -/
def PlainParts : List Bytes → Prop
  | [] => True
  | first :: rest =>
    (IsPart first ∨ first = [46] ∨ first = [slash]) ∧ ∀ part ∈ rest, IsPart part

theorem body_part {path : Path} {c : Component} (member : c ∈ body path) : IsPart c.asOsStr := by
  cases c with
  | rootDir => exact absurd member (body_no_root path).1
  | curDir => exact absurd member (body_no_root path).2
  | parentDir => exact ⟨by decide, by decide, by decide⟩
  | normal name =>
    obtain ⟨whole, some, notDot, _⟩ := body_normal member
    exact ⟨whole, some, notDot⟩

theorem start_cases (path : Path) :
    start path = [] ∨ start path = [.curDir] ∨ start path = [.rootDir] := by
  unfold start
  split
  · exact .inr (.inr rfl)
  · split
    · exact .inr (.inl rfl)
    · exact .inl rfl

theorem iter_plain (path : Path) : PlainParts (iter path) := by
  have inner : ∀ part ∈ (body path).map Component.asOsStr, IsPart part := by
    intro part member
    obtain ⟨c, inside, rfl⟩ := mem_map.mp member
    exact body_part inside
  unfold iter components
  rcases start_cases path with none | dot | root
  · rw [none, nil_append]
    cases parts : (body path).map Component.asOsStr with
    | nil => trivial
    | cons first rest =>
      rw [parts] at inner
      exact ⟨.inl (inner first (.head _)),
        (forall_mem_cons.mp inner).2⟩
  · rw [dot]
    exact ⟨.inr (.inl rfl), inner⟩
  · rw [root]
    exact ⟨.inr (.inr rfl), inner⟩

variable {part : Bytes}


theorem body_of_part (isPart : IsPart part) : (body part).map Component.asOsStr = [part] := by
  obtain ⟨whole, some, notDot⟩ := isPart
  by_cases up : part = [46, 46]
  · subst up
    rfl
  · rw [body_name ⟨whole, some, notDot, up⟩]
    rfl

theorem start_of_part (isPart : IsPart part) : start part = [] := by
  unfold start
  rw [whole_relative isPart.1, parts_single isPart.1]
  simp [isPart.2.2]

theorem push_ne_nil {buf path : Path} (some : buf ≠ []) (relative : isAbsolute path = false) :
    push buf path ≠ [] := by
  obtain ⟨front, form, _⟩ := push_form some relative
  rw [form]
  simp

theorem iter_push_all (rest : List Bytes) : ∀ {buf : Path}, buf ≠ [] →
    (∀ part ∈ rest, IsPart part) → iter (rest.foldl push buf) = iter buf ++ rest := by
  induction rest with
  | nil => simp
  | cons part more ih =>
    intro buf some plain
    have isPart := plain part (.head _)
    have relative := whole_relative isPart.1
    have one : iter (push buf part) = iter buf ++ [part] := by
      rw [iter, components_push some relative, map_append, body_of_part isPart]
      rfl
    rw [foldl_cons, ih (push_ne_nil some relative) fun other member =>
      plain other (.tail _ member), one, append_assoc]
    rfl

/-- Pushing parts and iterating gives them back exactly if they are plain. -/
theorem iter_pushed_iff (names : List Bytes) :
    iter (names.foldl push []) = names ↔ PlainParts names := by
  constructor
  · intro same
    rw [← same]
    exact iter_plain _
  · intro plain
    cases names with
    | nil => rfl
    | cons first rest =>
      obtain ⟨begins, others⟩ := plain
      rw [foldl_cons, push_nil]
      have single : first ≠ [] ∧ iter first = [first] := by
        rcases begins with isPart | dot | root
        · refine ⟨isPart.2.1, ?_⟩
          rw [iter, components, start_of_part isPart, nil_append, body_of_part isPart]
        · subst dot
          exact ⟨by decide, by decide⟩
        · subst root
          exact ⟨by decide, by decide⟩
      rw [iter_push_all rest single.1 others, single.2]
      rfl

/-- Names that lose nothing when their components are put side by side. -/
def PlainName (name : Bytes) : Prop := slash ∉ name.tail ∧ name ≠ [slash, 46]

theorem iter_flat_iff (name : Bytes) : (iter name).flatten = name ↔ PlainName name := by
  have inner : slash ∉ ((body name).map Component.asOsStr).flatten := by
    intro member
    obtain ⟨part, inside, letter⟩ := mem_flatten.mp member
    obtain ⟨c, isComponent, rfl⟩ := mem_map.mp inside
    exact (body_part isComponent).1 letter
  constructor
  · intro same
    constructor
    · unfold iter components at same
      rcases start_cases name with none | begins | begins
      · rw [none, nil_append] at same
        rw [← same]
        exact fun member => inner (mem_of_mem_tail member)
      all_goals
        rw [begins] at same
        rw [← same]
        exact inner
    · intro bad
      subst bad
      cases same
  · rintro ⟨plain, notDot⟩
    by_cases rooted : isAbsolute name = true
    · match name, rooted with
      | c :: rest, rooted =>
        have first : c = slash := by simpa [isAbsolute] using rooted
        subst first
        have split : body (slash :: rest) = body rest := body_append [] rest
        have begins : start (slash :: rest) = [.rootDir] := rfl
        rw [iter, components, begins, split, map_append, flatten_append]
        by_cases empty : rest = []
        · subst empty
          rfl
        · have isPart : IsPart rest := ⟨plain, empty, fun same => notDot (same ▸ rfl)⟩
          rw [body_of_part isPart]
          simp [Component.asOsStr]
    · have whole : slash ∉ name := by
        cases name with
        | nil => exact not_mem_nil
        | cons c rest =>
          have letter : c ≠ slash := by simpa [isAbsolute] using rooted
          rw [mem_cons, not_or]
          exact ⟨letter.symm, plain⟩
      by_cases trivial_ : name = [] ∨ name = [46]
      · rcases trivial_ with empty | dot
        · subst empty
          rfl
        · subst dot
          rfl
      · rw [not_or] at trivial_
        have isPart : IsPart name := ⟨whole, trivial_.1, trivial_.2⟩
        rw [iter, components, start_of_part isPart, nil_append, body_of_part isPart]
        simp

end Iterate

section Text

theorem parts_valid : ∀ (path : Path), ∀ part ∈ parts path,
    validUtf8 path = true → validUtf8 part = true := by
  have halves : ∀ (p q : Path), validUtf8 (p ++ slash :: q) = true →
      validUtf8 p = true ∧ validUtf8 q = true := fun p q valid =>
    scan_split (by decide) q p 0 0x80 0xBF (by decide) valid
  apply each_part
  · exact fun _ _ valid => valid
  · exact fun q kept valid => kept (halves _ q valid).1
  · exact fun p kept valid => kept (halves p _ valid).2

theorem iter_valid {path : Path} (valid : validUtf8 path = true) :
    ∀ part ∈ iter path, validUtf8 part = true := by
  intro part member
  obtain ⟨c, isComponent, rfl⟩ := mem_map.mp member
  cases c with
  | rootDir => rfl
  | curDir => rfl
  | parentDir => rfl
  | normal name =>
    rcases mem_append.mp isComponent with first | inner
    · rcases start_cases path with none | dot | root
      · rw [none] at first
        cases first
      · rw [dot] at first
        simp at first
      · rw [root] at first
        simp at first
    · obtain ⟨part, isPart, same⟩ := mem_filterMap.mp inner
      obtain ⟨rfl, _⟩ := segment_normal same
      exact parts_valid path part isPart valid

theorem push_valid {buf path : Path} (first : validUtf8 buf = true) (second : validUtf8 path = true) :
    validUtf8 (push buf path) = true := by
  unfold push
  split
  · exact second
  · split
    · exact (scan_append _ _ _ _ _ first).trans second
    · exact (scan_append _ _ _ _ _ first).trans second

theorem push_all_valid {names : List Bytes} {buf : Path} (first : validUtf8 buf = true)
    (texts : ∀ name ∈ names, validUtf8 name = true) : validUtf8 (names.foldl push buf) = true :=
  List.foldlRecOn (motive := (validUtf8 · = true)) names _ first fun _ held name member =>
    push_valid held (texts name member)

end Text

section Resolve

/-- One component further, on the stack of what is left of the ones before. -/
def walk (stack : List Component) : Component → List Component
  | .rootDir => [.rootDir]
  | .curDir => stack
  | .parentDir =>
    match stack with
    | .normal _ :: rest => rest
    | .rootDir :: _ => stack
    | _ => .parentDir :: stack
  | .normal name => .normal name :: stack

/-- Where a path leads lexically, from the last component to the first. -/
def resolve (path : Path) : List Component := (components path).foldl walk []

/-- Lexically, the path lies in the directory or is the directory. -/
def Inside (base path : Path) : Prop := resolve base <:+ resolve path

instance (base path : Path) : Decidable (Inside base path) := inferInstanceAs (Decidable (_ <:+ _))

/-- From a directory, the components never lead above it; the number counts how far below it they
    are. -/
def stays : Nat → List Component → Bool
  | _, [] => true
  | depth, .normal _ :: rest => stays (depth + 1) rest
  | depth, .curDir :: rest => stays depth rest
  | 0, .parentDir :: _ => false
  | depth + 1, .parentDir :: rest => stays depth rest
  | _, .rootDir :: _ => false

variable {path : Path}

theorem start_relative (relative : isAbsolute path = false) (stack : List Component) :
    (start path).foldl walk stack = stack := by
  unfold start
  rw [relative]
  simp only [Bool.false_eq_true, if_false]
  split <;> rfl

theorem resolve_push (buf path : Path) (relative : isAbsolute path = false) :
    resolve (push buf path) = (body path).foldl walk (resolve buf) := by
  by_cases empty : buf = []
  · subst empty
    rw [push_nil, resolve, components, foldl_append, start_relative relative]
    rfl
  · rw [resolve, components_push empty relative, foldl_append]
    rfl

theorem walk_body {c : Component} (member : c ∈ body path) (stack : List Component) :
    (body c.asOsStr).foldl walk stack = walk stack c := by
  cases c with
  | rootDir => exact absurd member (body_no_root path).1
  | curDir => exact absurd member (body_no_root path).2
  | parentDir => rfl
  | normal name =>
    change (body name).foldl walk stack = _
    rw [body_name (body_normal member)]
    rfl

theorem component_relative {c : Component} (member : c ∈ body path) :
    isAbsolute c.asOsStr = false := by
  cases c with
  | rootDir => exact absurd member (body_no_root path).1
  | curDir => rfl
  | parentDir => rfl
  | normal name => exact whole_relative (body_normal member).1

variable (list : List Component)

theorem resolve_push_all : ∀ (buf : Path), (∀ c ∈ list, c ∈ body path) →
      resolve ((list.map Component.asOsStr).foldl push buf) = list.foldl walk (resolve buf) := by
  induction list with
  | nil => exact fun _ _ => rfl
  | cons c rest ih =>
    intro buf members
    have first := members c (.head _)
    rw [map_cons, foldl_cons, ih _ (forall_mem_cons.mp members).2,
      resolve_push _ _ (component_relative first), walk_body first]
    rfl

/-- What stays is found on top of the stack it started from. -/
theorem stays_suffix {base : List Component} :
    ∀ (depth : Nat) (above : List Bytes), above.length = depth → stays depth list = true →
      base <:+ list.foldl walk (above.map Component.normal ++ base) := by
  induction list with
  | nil => exact fun _ above _ _ => suffix_append _ _
  | cons c rest ih =>
    intro depth above size holds
    match c, depth, above, holds with
    | .normal name, depth, above, holds =>
      exact ih (depth + 1) (name :: above) (by simp [size]) holds
    | .curDir, depth, above, holds => exact ih depth above size holds
    | .parentDir, depth + 1, name :: above, holds =>
      exact ih depth above (Nat.succ.inj size) holds

/-- A name that no component has is not brought back. -/
theorem walk_mem {name : Bytes} (stack : List Component) :
    .normal name ∈ list.foldl walk stack → .normal name ∈ stack ∨ .normal name ∈ list := by
  refine List.foldlRecOn (motive := (Component.normal name ∈ · → _)) list _ .inl ?_
  intro top held c inside before
  cases c with
  | rootDir => simp [walk] at before
  | curDir => exact held before
  | parentDir =>
    apply held
    match top, before with
    | [], before => simp [walk] at before
    | .normal _ :: more, before => exact .tail _ before
    | .rootDir :: more, before => exact before
    | .curDir :: more, before => simpa [walk] using before
    | .parentDir :: more, before => simpa [walk] using before
  | normal other =>
    rcases mem_cons.mp before with same | old
    · exact .inr (same ▸ inside)
    · exact held old

/-- Components that do not stay lead out of a directory whose name they do not mention. -/
theorem leaves_directory {name : Bytes} :
    ∀ (depth : Nat) (above : List Bytes), above.length = depth → name ∉ above →
      .normal name ∉ list → stays depth list = false →
      .normal name ∉ list.foldl walk (above.map Component.normal ++ [.normal name, .rootDir]) := by
  induction list with
  | nil => exact fun _ _ _ _ _ holds => by cases holds
  | cons c rest ih =>
    intro depth above size fresh absent holds
    rw [mem_cons, not_or] at absent
    obtain ⟨notFirst, notLater⟩ := absent
    match c, depth, above, holds with
    | .normal other, depth, above, holds =>
      refine ih (depth + 1) (other :: above) (by simp [size]) ?_ notLater holds
      rw [mem_cons, not_or]
      exact ⟨fun same => notFirst (same ▸ rfl), fresh⟩
    | .curDir, depth, above, holds => exact ih depth above size fresh notLater holds
    | .parentDir, depth + 1, first :: above, holds =>
      exact ih depth above (Nat.succ.inj size) (fun old => fresh (.tail _ old))
        notLater holds
    | .parentDir, 0, [], holds =>
      intro member
      rcases walk_mem rest _ member with before | later
      · simp [walk] at before
      · exact notLater later
    | .rootDir, depth, above, holds =>
      intro member
      rcases walk_mem rest _ member with before | later
      · simp [walk] at before
      · exact notLater later

end Resolve

end Rust
