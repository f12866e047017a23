import PageGraph.PagePath
import PageGraph.Timestamp

/-!
# Directory trees

What lies on a disk, as a tree: files with a value each, directories with named entries, and links, which hold
the path that they lead to. A place is the list of names that leads from the top of a tree to an entry. Names
are octets, since a disk knows no characters.

`Entry.files` walks a tree: the files in it with their places, each directory in the order of its names. A link
is never followed, so no file is met on two ways.
-/

namespace PageGraph

/-- The name of an entry in its directory. -/
abbrev Name := List UInt8

/-- The names that lead to an entry, from the top down. -/
abbrev Place := List Name

namespace Place

/-- What separates two names. -/
def slash : UInt8 := 47

/-- The path of a place below the root, as octets. -/
def octets : Place → List UInt8
  | [] => [slash]
  | place => place.flatMap (slash :: ·)

end Place

/-- An entry of a directory tree whose files hold values of one type. -/
inductive Entry (α : Type) where
  | file (value : α)
  | directory (entries : List (Name × Entry α))
  | link (target : List UInt8)
  deriving Inhabited

namespace Entry

variable {α : Type}

/-- Whether an entry is a directory. -/
def isDirectory : Entry α → Bool
  | .directory _ => true
  | _ => false

/-- The entry at a place below another entry. -/
def get? : Entry α → Place → Option (Entry α)
  | entry, [] => some entry
  | .directory entries, name :: rest => (entries.lookup name).bind (get? · rest)
  | _, _ :: _ => none

mutual

/-- The files of a tree with their places, depth first, the entries of a directory in the order of their names. -/
def files : Entry α → List (Place × α)
  | .file value => [([], value)]
  | .directory entries => ((filesByName entries).mergeSort fun a b => (compare a.1 b.1).isLE).flatMap (·.2)
  | .link _ => []

/-- The files of each entry of a directory. -/
def filesByName : List (Name × Entry α) → List (Name × List (Place × α))
  | [] => []
  | (name, entry) :: rest =>
    (name, (files entry).map fun (place, value) => (name :: place, value)) :: filesByName rest

end

mutual

/-- The tree with other values in its files. -/
def map {β : Type} (f : α → β) : Entry α → Entry β
  | .file value => .file (f value)
  | .directory entries => .directory (mapEntries f entries)
  | .link target => .link target

/-- The entries of a directory with other values in their files. -/
def mapEntries {β : Type} (f : α → β) : List (Name × Entry α) → List (Name × Entry β)
  | [] => []
  | (name, entry) :: rest => (name, map f entry) :: mapEntries f rest

end

/-- The length that a name adds to a path: its own and that of the slash before it. -/
def step (name : Name) : Nat := name.length + 1

mutual

/-- A tree without the entries that are more than `room` octets further down the path. -/
def within (room : Nat) : Entry α → Entry α
  | .file value => .file value
  | .directory entries => .directory (entriesWithin room entries)
  | .link target => .link target

/-- The entries of a directory of which the path to it leaves `room` octets. -/
def entriesWithin (room : Nat) : List (Name × Entry α) → List (Name × Entry α)
  | [] => []
  | (name, entry) :: rest =>
    if step name ≤ room then (name, within (room - step name) entry) :: entriesWithin room rest
    else entriesWithin room rest

end

/-- The entries of a directory with another one under a name, or without the one that it names. -/
def setName (entries : List (Name × Entry α)) (name : Name) (entry : Option (Entry α)) : List (Name × Entry α) :=
  entries.filter (·.1 ≠ name) ++ (entry.map fun entry => (name, entry)).toList

/-- Changes what is at a place. Nothing happens where the directory of the place is missing. -/
def alter (change : Option (Entry α) → Option (Entry α)) : Place → Option (Entry α) → Option (Entry α)
  | [], entry => change entry
  | name :: rest, some (.directory entries) =>
    some (.directory (setName entries name (alter change rest (entries.lookup name))))
  | _ :: _, entry => entry

/-! ### Small facts -/

@[simp]
theorem get?_nil (entry : Entry α) : entry.get? [] = some entry := by cases entry <;> rfl

@[simp]
theorem get?_directory_cons (entries : List (Name × Entry α)) (name : Name) (rest : Place) :
    (Entry.directory entries).get? (name :: rest) = (entries.lookup name).bind (·.get? rest) := rfl

/-- After a change of a name only that name leads elsewhere. -/
theorem lookup_setName (entries : List (Name × Entry α)) (name other : Name) (entry : Option (Entry α)) :
    (setName entries name entry).lookup other = if other = name then entry else entries.lookup other := by
  induction entries with
  | nil =>
    cases entry with
    | none => simp [setName]
    | some entry => by_cases h : other = name <;> simp [setName, List.lookup_cons, h, beq_eq_false_iff_ne.2]
  | cons head tail ih =>
    obtain ⟨n, e⟩ := head
    by_cases hn : n = name
    · have : setName ((n, e) :: tail) name entry = setName tail name entry := by simp [setName, hn]
      rw [this, ih]
      by_cases h : other = name
      · simp [h]
      · have : (other == n) = false := by simpa [hn] using h
        simp [List.lookup_cons, h, this]
    · have : setName ((n, e) :: tail) name entry = (n, e) :: setName tail name entry := by simp [setName, hn]
      rw [this, List.lookup_cons, List.lookup_cons, ih]
      by_cases h : other = n
      · subst h; simp [hn]
      · have : (other == n) = false := by simpa using h
        simp [this]

end Entry

end PageGraph
