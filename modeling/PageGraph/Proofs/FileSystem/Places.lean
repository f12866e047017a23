import PageGraph.FileSystem.Basic

/-!
# What one change does to a file system

A file system is looked at place by place (`at?`), and what changes it puts a file or an empty directory into one place.
`Gains before after place node` says that `after` is `before` but for a single place, which held nothing, or a
file where there is a file now. Nothing lies below such a place before or after, so all other places keep what they held.

* `Entry.get?_append` : looking below what lies at a place;
* `at?_put` : what is where after something was put into a place;
* `Gains` : the relation, with what it keeps.
-/

namespace PageGraph

/-! ### Entries -/

namespace Entry

variable {α : Type}

theorem get?_append (entry : Entry α) (upper lower : Place) :
    entry.get? (upper ++ lower) = (entry.get? upper).bind (·.get? lower) := by
  induction upper generalizing entry with
  | nil => rw [List.nil_append, get?_nil, Option.bind_some]
  | cons name upper ih =>
    cases entry with
    | file value => rfl
    | link target => rfl
    | directory entries =>
      rw [List.cons_append, get?_directory_cons, get?_directory_cons, Option.bind_assoc]
      exact Option.bind_congr fun entry _ => ih entry

/-- Only a directory has something below it. -/
theorem exists_directory_of_get?_cons {entry lower : Entry α} {name : Name} {rest : Place}
    (h : entry.get? (name :: rest) = some lower) : ∃ entries, entry = .directory entries := by
  cases entry with
  | file value => cases h
  | link target => cases h
  | directory entries => exact ⟨entries, rfl⟩

/-! ### Changing one entry -/

/-- What an entry is at the places below it. -/
def nodeBelow? (entry : Option (Entry File)) (place : Place) : Option FileSystem.Node :=
  (entry.bind (·.get? place)).map FileSystem.Node.ofEntry

theorem nodeBelow?_directory_cons (entries : List (Name × Entry File)) (name : Name) (rest : Place) :
    nodeBelow? (some (.directory entries)) (name :: rest) = nodeBelow? (entries.lookup name) rest := rfl

/-- Nothing lies below what is no directory. -/
theorem nodeBelow?_eq_none {entry : Option (Entry File)} (h : nodeBelow? entry [] ≠ some .directory) {rest : Place}
    (hrest : rest ≠ []) : nodeBelow? entry rest = none := by
  obtain ⟨name, rest, rfl⟩ := List.exists_cons_of_ne_nil hrest
  cases entry with
  | none => rfl
  | some entry =>
    cases entry with
    | file content => rfl
    | link path => rfl
    | directory entries => exact absurd rfl h

/-- A change below a directory is seen through the name that leads to it only. -/
theorem nodeBelow?_alter_cons (change : Option (Entry File) → Option (Entry File)) (entries : List (Name × Entry File))
    (name other : Name) (rest place : Place) :
    nodeBelow? (alter change (name :: rest) (some (.directory entries))) (other :: place) =
      if other = name then nodeBelow? (alter change rest (entries.lookup name)) place
      else nodeBelow? (some (.directory entries)) (other :: place) := by
  rw [alter, nodeBelow?_directory_cons, nodeBelow?_directory_cons, lookup_setName]
  split <;> rfl

/-- Putting an entry that nothing lies below changes one place. -/
theorem nodeBelow?_alter {entry put : Entry File} {directory : Place} {entries : List (Name × Entry File)} {name : Name}
    (hdirectory : entry.get? directory = some (.directory entries))
    (hput : ∀ rest, rest ≠ [] → nodeBelow? (some put) rest = none)
    (hplace : nodeBelow? (some entry) (directory ++ [name]) ≠ some .directory) (place : Place) :
    nodeBelow? (alter (fun _ => some put) (directory ++ [name]) (some entry)) place =
      if place = directory ++ [name] then some (FileSystem.Node.ofEntry put) else nodeBelow? (some entry) place := by
  induction directory generalizing entry place with
  | nil =>
    obtain rfl := Option.some.inj ((get?_nil entry).symm.trans hdirectory)
    rw [List.nil_append, nodeBelow?_directory_cons] at hplace
    rw [List.nil_append]
    cases place with
    | nil => rfl
    | cons other rest =>
      rw [nodeBelow?_alter_cons]
      by_cases hother : other = name
      · subst hother
        rw [if_pos rfl, alter]
        by_cases hrest : rest = []
        · subst hrest
          rw [if_pos rfl]
          exact congrArg (Option.map FileSystem.Node.ofEntry) (get?_nil put)
        · rw [if_neg (by simpa using hrest), hput rest hrest, nodeBelow?_directory_cons, nodeBelow?_eq_none hplace hrest]
      · rw [if_neg hother, if_neg (by simp [hother])]
  | cons upper directory ih =>
    obtain ⟨others, rfl⟩ := exists_directory_of_get?_cons hdirectory
    rw [get?_directory_cons, Option.bind_eq_some_iff] at hdirectory
    obtain ⟨lower, hlookup, hlower⟩ := hdirectory
    rw [List.cons_append, nodeBelow?_directory_cons, hlookup] at hplace
    rw [List.cons_append]
    cases place with
    | nil => rw [alter]; rfl
    | cons other rest =>
      rw [nodeBelow?_alter_cons, nodeBelow?_directory_cons]
      by_cases hother : other = upper
      · subst hother
        rw [if_pos rfl, hlookup, ih hlower hplace rest]
        simp only [List.cons.injEq, true_and]
      · rw [if_neg hother, if_neg (by simp [hother])]

end Entry

namespace FileSystem

open Entry

variable {files before after : FileSystem} {place directory : Place} {name : Name} {node : Node}

/-! ### Looking at places -/

theorem at?_eq_directory_iff :
    files.at? place = some .directory ↔ ∃ entries, files.get? place = some (.directory entries) := by
  rw [at?, Option.map_eq_some_iff]
  constructor
  · rintro ⟨entry, hentry, hnode⟩
    cases entry with
    | directory entries => exact ⟨entries, hentry⟩
    | file content => cases hnode
    | link path => cases hnode
  · rintro ⟨entries, hentries⟩
    exact ⟨_, hentries, rfl⟩

theorem at?_eq_file_iff {file : File} : files.at? place = some (.file file) ↔ files.get? place = some (.file file) := by
  rw [at?, Option.map_eq_some_iff]
  constructor
  · rintro ⟨entry, hentry, hnode⟩
    cases entry with
    | file content =>
      obtain rfl := Node.file.inj hnode
      exact hentry
    | directory entries => cases hnode
    | link path => cases hnode
  · intro h
    exact ⟨_, h, rfl⟩

/-- What is above something is a directory. -/
theorem at?_eq_directory_of_append {lower : Place} (h : files.at? (place ++ lower) = some node) (hlower : lower ≠ []) :
    files.at? place = some .directory := by
  obtain ⟨entry, hentry, -⟩ := Option.map_eq_some_iff.1 h
  obtain ⟨name, rest, rfl⟩ := List.exists_cons_of_ne_nil hlower
  rw [get?, get?_append, Option.bind_eq_some_iff] at hentry
  obtain ⟨upper, hupper, hbelow⟩ := hentry
  obtain ⟨entries, rfl⟩ := exists_directory_of_get?_cons hbelow
  exact at?_eq_directory_iff.2 ⟨entries, hupper⟩

theorem at?_dropLast (h : files.at? place = some .directory) : files.at? place.dropLast = some .directory := by
  rcases List.eq_nil_or_concat place with rfl | ⟨upper, name, rfl⟩
  · exact h
  · rw [List.concat_eq_append] at h ⊢
    rw [List.dropLast_concat]
    exact at?_eq_directory_of_append h (List.cons_ne_nil _ _)

/-! ### Putting something into a place -/

theorem at?_put {put : Entry File} (hdirectory : files.at? directory = some .directory)
    (hput : ∀ rest, rest ≠ [] → nodeBelow? (some put) rest = none)
    (hplace : files.at? (directory ++ [name]) ≠ some .directory) (place : Place) :
    (files.put (directory ++ [name]) put).at? place =
      if place = directory ++ [name] then some (Node.ofEntry put) else files.at? place := by
  obtain ⟨entries, hentries⟩ := at?_eq_directory_iff.1 hdirectory
  have hchanged := nodeBelow?_alter hentries hput hplace place
  -- the root is a directory, so something is there after the change
  obtain ⟨root, hroot⟩ : ∃ root, Entry.alter (fun _ => some put) (directory ++ [name]) (some files.root) = some root := by
    cases hconcat : directory ++ [name] with
    | nil => exact ⟨put, rfl⟩
    | cons upper rest => cases hroot : files.root <;> exact ⟨_, rfl⟩
  rw [hroot] at hchanged
  rw [at?, get?, FileSystem.put, FileSystem.alter, hroot]
  exact hchanged

/-! ### File systems that differ in one place -/

/-- A file system is another one but for a single place, which holds something now: it held nothing, or there was
a file that has been written over. -/
structure Gains (before after : FileSystem) (place : Place) (node : Node) : Prop where
  current : after.current = before.current
  at?_eq : ∀ other, after.at? other = if other = place then some node else before.at? other
  noLink : ∀ path, node ≠ .link path
  /-- What the place held fits to what it holds. -/
  held : before.at? place = none ∨ ∃ old new, before.at? place = some (.file old) ∧ node = .file new

namespace Gains

theorem at?_place (h : Gains before after place node) : after.at? place = some node := by
  rw [h.at?_eq, if_pos rfl]

theorem at?_of_ne (h : Gains before after place node) {other : Place} (hother : other ≠ place) :
    after.at? other = before.at? other := by rw [h.at?_eq, if_neg hother]

/-- Directories stay directories, and links stay what they are. -/
theorem at?_eq_of_not_file (h : Gains before after place node) {other : Place} {kept : Node}
    (hother : before.at? other = some kept) (hkept : ∀ file, kept ≠ .file file) : after.at? other = some kept := by
  by_cases hplace : other = place
  · subst hplace
    rcases h.held with hnone | ⟨old, new, hold, -⟩
    · rw [hnone] at hother
      cases hother
    · rw [hold] at hother
      exact absurd (Option.some.inj hother).symm (hkept old)
  · rw [h.at?_of_ne hplace, hother]

/-- A file stays a file. -/
theorem exists_file (h : Gains before after place node) {other : Place} {file : File}
    (hother : before.at? other = some (.file file)) : ∃ now, after.at? other = some (.file now) := by
  by_cases hplace : other = place
  · subst hplace
    rcases h.held with hnone | ⟨old, new, -, rfl⟩
    · rw [hnone] at hother
      cases hother
    · exact ⟨new, h.at?_place⟩
  · exact ⟨file, by rw [h.at?_of_ne hplace, hother]⟩

/-- Where nothing is there was nothing. -/
theorem at?_eq_none (h : Gains before after place node) {other : Place} (hother : after.at? other = none) :
    before.at? other = none := by
  rw [h.at?_eq] at hother
  split at hother
  · cases hother
  · exact hother

/-- Where a file has been put, what is no file was there before. -/
theorem at?_eq_of_now_not_file {file : File} (h : Gains before after place (.file file)) {other : Place} {now : Node}
    (hother : after.at? other = some now) (hnow : ∀ file, now ≠ .file file) : before.at? other = some now := by
  rw [h.at?_eq] at hother
  split at hother
  · exact absurd (Option.some.inj hother).symm (hnow file)
  · exact hother

/-- Where a file is there was nothing, or a file. -/
theorem none_or_exists_file (h : Gains before after place node) {other : Place} {file : File}
    (hother : after.at? other = some (.file file)) :
    before.at? other = none ∨ ∃ old, before.at? other = some (.file old) := by
  by_cases hplace : other = place
  · subst hplace
    exact h.held.imp_right fun ⟨old, _, hold, _⟩ => ⟨old, hold⟩
  · exact .inr ⟨file, by rw [← h.at?_of_ne hplace, hother]⟩

end Gains

/-- Putting a file into a place where there is no directory. -/
theorem gains_put_file (hdirectory : files.at? directory = some .directory)
    (hheld : files.at? (directory ++ [name]) = none ∨ ∃ old, files.at? (directory ++ [name]) = some (.file old))
    (file : File) : Gains files (files.put (directory ++ [name]) (.file file)) (directory ++ [name]) (.file file) where
  current := rfl
  at?_eq := by
    refine at?_put hdirectory (fun rest hrest => ?_) ?_
    · obtain ⟨next, rest, rfl⟩ := List.exists_cons_of_ne_nil hrest
      rfl
    · rcases hheld with hnone | ⟨old, hold⟩
      · simp [hnone]
      · simp [hold]
  noLink path := Node.noConfusion
  held := hheld.imp_right fun ⟨old, hold⟩ => ⟨old, file, hold, rfl⟩

/-- Making a directory where there is nothing. -/
theorem gains_put_directory (hdirectory : files.at? directory = some .directory)
    (hheld : files.at? (directory ++ [name]) = none) :
    Gains files (files.put (directory ++ [name]) (.directory [])) (directory ++ [name]) .directory where
  current := rfl
  at?_eq := by
    refine at?_put hdirectory (fun rest hrest => ?_) (by simp [hheld])
    obtain ⟨next, rest, rfl⟩ := List.exists_cons_of_ne_nil hrest
    rfl
  noLink path := Node.noConfusion
  held := .inl hheld

end FileSystem

end PageGraph
