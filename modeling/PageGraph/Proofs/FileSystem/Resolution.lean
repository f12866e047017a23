import PageGraph.FileSystem.Reading
import PageGraph.Proofs.FileSystem.Places

/-!
# Where paths lead

`FileSystem.follow` follows names step by step and may fail in many ways. `Leads` is the relation of its
successes, one rule for each kind of step; `follow_eq_ok_iff` says that it is the same. What is said of where paths
lead is proved by induction over this relation.

* `Leads.ends` : where a path ends;
* `Leads.gains`, `Leads.of_gains_file` : a change of one place moves no end of a path, except that a missing name
  may be there then;
* `Leads.look`, `Leads.write_of_look` : what is written through a path is found through it, and where a file is
  found one can write;
* `Leads.name_of_look`, `Leads.look_of_name` : how the entry at the end itself is related to what it leads to.
-/

namespace PageGraph

/-- Where a path leads once a place has been filled: what was absent there is found. -/
def Target.filled (place : Place) : Target → Target
  | .found other => .found other
  | .absent directory name => if directory ++ [name] = place then .found place else .absent directory name

/-- The place where something is, or would be. -/
def Target.place : Target → Place
  | .found place => place
  | .absent directory name => directory ++ [name]

@[simp] theorem Target.place_filled (place : Place) (target : Target) : (target.filled place).place = target.place := by
  cases target with
  | found other => rfl
  | absent directory name =>
    rw [filled]
    split
    · next h => exact h.symm
    · rfl

/-- A path that starts in a directory can end so: at something, or in a directory where a name is missing. Only the
entry at the end itself may be a link. -/
def Target.IsEnd (files : FileSystem) (purpose : Purpose) : Target → Prop
  | .found place => ∃ node, files.at? place = some node ∧ (purpose ≠ .name → ∀ path, node ≠ .link path)
  | .absent directory name => files.at? directory = some .directory ∧ files.at? (directory ++ [name]) = none

namespace FileSystem

/-- A name, with others behind it, is looked up in a directory: it means neither the directory itself nor the
one above, and it is not refused. -/
structure LooksUp (purpose : Purpose) (directory : Place) (name : Name) (rest : List Name) : Prop where
  notHere : ¬(name = [] ∨ name = Route.here)
  notUp : name ≠ Route.up
  mayEnd : ¬(purpose = .write ∧ rest = [[]])
  admits : admits purpose directory name = true

/-- Nothing is looked up for a purpose that could not be looked at. -/
theorem LooksUp.look {purpose : Purpose} {directory : Place} {name : Name} {rest : List Name}
    (h : LooksUp purpose directory name rest) : LooksUp .look directory name rest := by
  refine ⟨h.notHere, h.notUp, by simp, ?_⟩
  have hadmits := h.admits
  simp only [FileSystem.admits, Bool.and_eq_true] at hadmits ⊢
  exact ⟨hadmits.1, rfl⟩

/-- Names lead from a place to a target, with so many links left to follow. -/
inductive Leads (files : FileSystem) (purpose : Purpose) : Nat → Place → List Name → Target → Prop where
  /-- No name is left. -/
  | done (links : Nat) (place : Place) : Leads files purpose links place [] (.found place)
  /-- The name means the directory itself. -/
  | stay {links : Nat} {place : Place} {name : Name} {rest : List Name} {target : Target}
      (hname : name = [] ∨ name = Route.here) (hrest : Leads files purpose links place rest target) :
      Leads files purpose links place (name :: rest) target
  /-- The name means the directory above. -/
  | up {links : Nat} {place : Place} {rest : List Name} {target : Target}
      (hrest : Leads files purpose links place.dropLast rest target) :
      Leads files purpose links place (Route.up :: rest) target
  /-- The last name is missing. -/
  | absent {links : Nat} {place : Place} {name : Name} (hname : LooksUp purpose place name [])
      (hnode : files.at? (place ++ [name]) = none) : Leads files purpose links place [name] (.absent place name)
  /-- The name is that of a directory. -/
  | down {links : Nat} {place : Place} {name : Name} {rest : List Name} {target : Target}
      (hname : LooksUp purpose place name rest) (hnode : files.at? (place ++ [name]) = some .directory)
      (hrest : Leads files purpose links (place ++ [name]) rest target) :
      Leads files purpose links place (name :: rest) target
  /-- The last name is that of a file. -/
  | file {links : Nat} {place : Place} {name : Name} {content : File} (hname : LooksUp purpose place name [])
      (hnode : files.at? (place ++ [name]) = some (.file content)) :
      Leads files purpose links place [name] (.found (place ++ [name]))
  /-- The last name is that of a link, and the link itself is meant. -/
  | linkItself {links : Nat} {place : Place} {name : Name} {path : List UInt8} (hname : LooksUp purpose place name [])
      (hnode : files.at? (place ++ [name]) = some (.link path)) (hpurpose : purpose = .name) :
      Leads files purpose links place [name] (.found (place ++ [name]))
  /-- The name is that of a link, which is followed. -/
  | link {links : Nat} {place : Place} {name : Name} {rest : List Name} {path : List UInt8} {target : Target}
      (hname : LooksUp purpose place name rest) (hnode : files.at? (place ++ [name]) = some (.link path))
      (hpurpose : ¬(purpose = .name ∧ rest = []))
      (hrest : Leads files purpose links (if (Route.ofOctets path).absolute then [] else place)
        ((Route.ofOctets path).steps ++ rest) target) :
      Leads files purpose (links + 1) place (name :: rest) target

section

variable {files before after : FileSystem} {purpose : Purpose} {links : Nat} {place start : Place} {names : List Name}
  {target : Target} {node : Node}

/-- Names that are followed lead to where they end, if what is beyond the next link does with one link less. -/
theorem leads_of_followNames {beyond : Place → List Name → Except OsError Target}
    (hbeyond : ∀ place names target, beyond place names = .ok target →
      ∃ fewer, links = fewer + 1 ∧ Leads files purpose fewer place names target)
    (h : files.followNames purpose beyond start names = .ok target) : Leads files purpose links start names target := by
  fun_induction followNames files purpose beyond start names with
  | case1 start =>
    obtain rfl := Except.ok.inj h
    exact .done links start
  | case2 start name rest hname ih => exact .stay hname (ih h)
  | case3 start rest hname ih => exact .up (ih h)
  | case4 => cases h
  | case5 => cases h
  | case6 start name hhere hup hadmits hnode hend =>
    obtain rfl := Except.ok.inj h
    exact .absent ⟨hhere, hup, hend, by simpa using hadmits⟩ hnode
  | case7 => cases h
  | case8 start name rest hhere hup hend hadmits hnode ih =>
    exact .down ⟨hhere, hup, hend, by simpa using hadmits⟩ hnode (ih h)
  | case9 start name hhere hup hadmits content hnode hend =>
    obtain rfl := Except.ok.inj h
    exact .file ⟨hhere, hup, hend, by simpa using hadmits⟩ hnode
  | case10 => cases h
  | case11 start name rest hhere hup hend hadmits path hnode hitself =>
    obtain rfl := Except.ok.inj h
    obtain ⟨hpurpose, rfl⟩ := hitself
    exact .linkItself ⟨hhere, hup, hend, by simpa using hadmits⟩ hnode hpurpose
  | case12 start name rest hhere hup hend hadmits path hnode hpurpose route =>
    obtain ⟨fewer, rfl, hrest⟩ := hbeyond _ _ _ h
    exact .link ⟨hhere, hup, hend, by simpa using hadmits⟩ hnode hpurpose hrest

theorem leads_of_follow (h : files.follow purpose links start names = .ok target) :
    Leads files purpose links start names target := by
  induction links generalizing start names target with
  | zero =>
    refine leads_of_followNames (fun place names target hbeyond => ?_) h
    cases hbeyond
  | succ links ih => exact leads_of_followNames (fun place names target hbeyond => ⟨links, rfl, ih hbeyond⟩) h

/-- What `follow` does with a name. -/
theorem follow_cons (files : FileSystem) (purpose : Purpose) (links : Nat) (place : Place) (name : Name)
    (rest : List Name) :
    files.follow purpose links place (name :: rest) =
      if name = [] ∨ name = Route.here then files.follow purpose links place rest
      else if name = Route.up then files.follow purpose links place.dropLast rest
      else if purpose = .write ∧ rest = [[]] then .error .isDirectory
      else if !FileSystem.admits purpose place name then .error .nameTooLong
      else
        match files.at? (place ++ [name]) with
        | none => if rest = [] then .ok (.absent place name) else .error .notFound
        | some .directory => files.follow purpose links (place ++ [name]) rest
        | some (.file _) => if rest = [] then .ok (.found (place ++ [name])) else .error .notDirectory
        | some (.link target) =>
          if purpose = .name ∧ rest = [] then .ok (.found (place ++ [name]))
          else
            match links with
            | 0 => .error .tooManyLinks
            | fewer + 1 =>
              files.follow purpose fewer (if (Route.ofOctets target).absolute then [] else place)
                ((Route.ofOctets target).steps ++ rest) := by
  cases links <;> rfl

theorem follow_of_leads (h : Leads files purpose links start names target) :
    files.follow purpose links start names = .ok target := by
  induction h with
  | done links place => cases links <;> rfl
  | stay hname _ ih => rw [follow_cons, if_pos hname, ih]
  | up _ ih => rw [follow_cons, if_neg (by decide), if_pos rfl, ih]
  | absent hname hnode =>
    rw [follow_cons, if_neg hname.notHere, if_neg hname.notUp, if_neg hname.mayEnd, hname.admits, hnode]
    rfl
  | down hname hnode _ ih =>
    rw [follow_cons, if_neg hname.notHere, if_neg hname.notUp, if_neg hname.mayEnd, hname.admits, hnode]
    exact ih
  | file hname hnode =>
    rw [follow_cons, if_neg hname.notHere, if_neg hname.notUp, if_neg hname.mayEnd, hname.admits, hnode]
    rfl
  | linkItself hname hnode hpurpose =>
    rw [follow_cons, if_neg hname.notHere, if_neg hname.notUp, if_neg hname.mayEnd, hname.admits, hnode]
    have hitself : purpose = .name ∧ ([] : List Name) = [] := ⟨hpurpose, rfl⟩
    exact if_pos hitself
  | link hname hnode hpurpose _ ih =>
    rw [follow_cons, if_neg hname.notHere, if_neg hname.notUp, if_neg hname.mayEnd, hname.admits, hnode]
    exact (if_neg hpurpose).trans ih

/-- **Names are followed to a target** exactly if they lead to it. -/
theorem follow_eq_ok_iff :
    files.follow purpose links start names = .ok target ↔ Leads files purpose links start names target :=
  ⟨leads_of_follow, follow_of_leads⟩

namespace Leads

/-! ### Where a path ends -/

/-- A link is followed from a directory. -/
theorem at?_linkStart {name : Name} (hnode : files.at? (start ++ [name]) = some node) (absolute : Bool) :
    files.at? (if absolute then [] else start) = some .directory := by
  split
  · have hroot : files.at? ([] ++ (start ++ [name])) = some node := hnode
    exact at?_eq_directory_of_append hroot (by simp)
  · exact at?_eq_directory_of_append hnode (by simp)

theorem ends (h : Leads files purpose links start names target) (hstart : files.at? start = some .directory) :
    target.IsEnd files purpose := by
  induction h with
  | done links place => exact ⟨_, hstart, fun _ _ => Node.noConfusion⟩
  | stay _ _ ih => exact ih hstart
  | up _ ih => exact ih (at?_dropLast hstart)
  | absent _ hnode => exact ⟨hstart, hnode⟩
  | down _ hnode _ ih => exact ih hnode
  | file _ hnode => exact ⟨_, hnode, fun _ _ => Node.noConfusion⟩
  | linkItself _ hnode hpurpose => exact ⟨_, hnode, fun hother => absurd hpurpose hother⟩
  | link _ hnode _ _ ih => exact ih (at?_linkStart hnode _)

/-! ### Changes of one place -/

/-- After a change of one place the names lead to where they led; what was missing there is found. -/
theorem gains (h : Leads before purpose links start names target) (hgains : Gains before after place node) :
    Leads after purpose links start names (target.filled place) := by
  induction h with
  | done links other => exact .done links other
  | stay hname _ ih => exact .stay hname ih
  | up _ ih => exact .up ih
  | @absent links directory name hname hnode =>
    rw [Target.filled]
    by_cases hplace : directory ++ [name] = place
    · rw [if_pos hplace]
      have hnow := hgains.at?_place
      subst hplace
      cases node with
      | file content => exact .file hname hnow
      | directory => exact .down hname hnow (.done _ _)
      | link path => exact absurd rfl (hgains.noLink path)
    · rw [if_neg hplace]
      exact .absent hname (by rw [hgains.at?_of_ne hplace, hnode])
  | down hname hnode _ ih => exact .down hname (hgains.at?_eq_of_not_file hnode fun _ => Node.noConfusion) ih
  | file hname hnode =>
    obtain ⟨now, hnow⟩ := hgains.exists_file hnode
    exact .file hname hnow
  | linkItself hname hnode hpurpose =>
    exact .linkItself hname (hgains.at?_eq_of_not_file hnode fun _ => Node.noConfusion) hpurpose
  | link hname hnode hpurpose _ ih =>
    exact .link hname (hgains.at?_eq_of_not_file hnode fun _ => Node.noConfusion) hpurpose ih

/-- A new or changed file opens no way that was not there: only a directory has something below it. -/
theorem of_gains_file {file : File} (h : Leads after purpose links start names target)
    (hgains : Gains before after place (.file file)) : ∃ earlier, Leads before purpose links start names earlier := by
  induction h with
  | done links other => exact ⟨_, .done links other⟩
  | stay hname _ ih =>
    obtain ⟨earlier, hearlier⟩ := ih
    exact ⟨earlier, .stay hname hearlier⟩
  | up _ ih =>
    obtain ⟨earlier, hearlier⟩ := ih
    exact ⟨earlier, .up hearlier⟩
  | absent hname hnode => exact ⟨_, .absent hname (hgains.at?_eq_none hnode)⟩
  | down hname hnode _ ih =>
    obtain ⟨earlier, hearlier⟩ := ih
    exact ⟨earlier, .down hname (hgains.at?_eq_of_now_not_file hnode fun _ => Node.noConfusion) hearlier⟩
  | @file links directory name content hname hnode =>
    rcases hgains.none_or_exists_file hnode with hnone | ⟨old, hold⟩
    · exact ⟨_, .absent hname hnone⟩
    · exact ⟨_, .file hname hold⟩
  | linkItself hname hnode hpurpose =>
    exact ⟨_, .linkItself hname (hgains.at?_eq_of_now_not_file hnode fun _ => Node.noConfusion) hpurpose⟩
  | link hname hnode hpurpose _ ih =>
    obtain ⟨earlier, hearlier⟩ := ih
    exact ⟨earlier, .link hname (hgains.at?_eq_of_now_not_file hnode fun _ => Node.noConfusion) hpurpose hearlier⟩

/-! ### Purposes -/

/-- Where a path leads for another purpose it leads when it is looked at, unless the entry at its end is meant. -/
theorem look (h : Leads files purpose links start names target) (hpurpose : purpose ≠ .name) :
    Leads files .look links start names target := by
  induction h with
  | done links place => exact .done links place
  | stay hname _ ih => exact .stay hname ih
  | up _ ih => exact .up ih
  | absent hname hnode => exact .absent hname.look hnode
  | down hname hnode _ ih => exact .down hname.look hnode ih
  | file hname hnode => exact .file hname.look hnode
  | linkItself _ _ hitself => exact absurd hitself hpurpose
  | link hname hnode _ _ ih => exact .link hname.look hnode (by simp) ih

/-- What stands behind a name keeps an empty name at the end. -/
theorem getLast?_of_cons {name : Name} {rest : List Name} (hname : name ≠ [])
    (hlast : (name :: rest).getLast? = some []) : rest.getLast? = some [] := by
  rw [List.getLast?_cons, Option.some.injEq] at hlast
  cases hrest : rest.getLast? with
  | none => exact absurd (by rwa [hrest] at hlast) hname
  | some last => rw [hrest, Option.getD_some] at hlast; rw [hlast]

/-- A slash behind the last name asks for a directory. -/
theorem directory_of_slash (h : Leads files .look links start names (.found place)) (hlast : names.getLast? = some [])
    (hstart : files.at? start = some .directory) : files.at? place = some .directory := by
  generalize htarget : Target.found place = target at h
  have hnonempty : ∀ {directory name rest}, LooksUp .look directory name rest → name ≠ [] :=
    fun hname hempty => hname.notHere (.inl hempty)
  induction h with
  | done => cases hlast
  | @stay links start name rest target _ hrest ih =>
    cases hrest with
    | done => exact Target.found.inj htarget ▸ hstart
    | _ => exact ih (by simpa [List.getLast?_cons] using hlast) hstart htarget
  | up _ ih => exact ih (getLast?_of_cons (by decide) hlast) (at?_dropLast hstart) htarget
  | absent => cases htarget
  | down hname hnode _ ih => exact ih (getLast?_of_cons (hnonempty hname) hlast) hnode htarget
  | file hname => exact absurd (getLast?_of_cons (hnonempty hname) hlast) (by simp)
  | linkItself _ _ hpurpose => cases hpurpose
  | @link links start name rest path target hname hnode _ _ ih =>
    have hrest := getLast?_of_cons (hnonempty hname) hlast
    exact ih (by rw [List.getLast?_append, hrest, Option.some_or]) (at?_linkStart hnode _) htarget

/-- Where a file is found one can write. -/
theorem write_of_look {file : File} (h : Leads files .look links start names (.found place))
    (hfile : files.at? place = some (.file file)) (hstart : files.at? start = some .directory) :
    Leads files .write links start names (.found place) := by
  generalize htarget : Target.found place = target at h
  have hlooks : ∀ {directory name rest}, LooksUp .look directory name rest → rest ≠ [[]] →
      LooksUp .write directory name rest :=
    fun hname hrest => ⟨hname.notHere, hname.notUp, by simp [hrest], hname.admits⟩
  induction h with
  | done links start => exact .done links start
  | stay hname _ ih => exact .stay hname (ih hstart htarget)
  | up _ ih => exact .up (ih (at?_dropLast hstart) htarget)
  | absent => cases htarget
  | down hname hnode hrest ih =>
    refine .down (hlooks hname ?_) hnode (ih hnode htarget)
    -- with a slash behind it the directory itself would be the end
    rintro rfl
    have hdirectory := (htarget ▸ hrest).directory_of_slash rfl hnode
    rw [hfile] at hdirectory
    cases hdirectory
  | file hname hnode => exact .file (hlooks hname (by simp)) hnode
  | linkItself _ _ hpurpose => cases hpurpose
  | @link links start name rest path target hname hnode _ hrest ih =>
    have hbelow := at?_linkStart hnode (Route.ofOctets path).absolute
    refine .link (hlooks hname ?_) hnode (by simp) (ih hbelow htarget)
    rintro rfl
    have hdirectory := (htarget ▸ hrest).directory_of_slash (by simp) hbelow
    rw [hfile] at hdirectory
    cases hdirectory

/-- Where something is found the entry at the end itself is found too. Whatever stands behind the names is left out. -/
theorem name_of_look {ending : List Name} (h : Leads files .look links start (names ++ ending) (.found place)) :
    ∃ other, Leads files .name links start names (.found other) := by
  have hlooks : ∀ {directory name rest}, LooksUp .look directory name (rest ++ ending) →
      LooksUp .name directory name rest :=
    fun hname => ⟨hname.notHere, hname.notUp, by simp, hname.admits⟩
  generalize hall : names ++ ending = all at h
  generalize htarget : Target.found place = target at h
  -- the induction is on all names, of which `names` are the first
  induction h generalizing names with
  | done links start =>
    obtain ⟨rfl, -⟩ := List.append_eq_nil_iff.1 hall
    exact ⟨_, .done links start⟩
  | stay hname _ ih =>
    rcases names with _ | ⟨name, names⟩
    · exact ⟨_, .done _ _⟩
    · obtain ⟨rfl, rfl⟩ := List.cons.inj hall
      obtain ⟨other, hother⟩ := ih rfl htarget
      exact ⟨other, .stay hname hother⟩
  | up _ ih =>
    rcases names with _ | ⟨name, names⟩
    · exact ⟨_, .done _ _⟩
    · obtain ⟨rfl, rfl⟩ := List.cons.inj hall
      obtain ⟨other, hother⟩ := ih rfl htarget
      exact ⟨other, .up hother⟩
  | absent => cases htarget
  | down hname hnode _ ih =>
    rcases names with _ | ⟨name, names⟩
    · exact ⟨_, .done _ _⟩
    · obtain ⟨rfl, rfl⟩ := List.cons.inj hall
      obtain ⟨other, hother⟩ := ih rfl htarget
      exact ⟨other, .down (hlooks hname) hnode hother⟩
  | file hname hnode =>
    rcases names with _ | ⟨name, names⟩
    · exact ⟨_, .done _ _⟩
    · obtain ⟨rfl, hrest⟩ := List.cons.inj hall
      obtain ⟨rfl, rfl⟩ := List.append_eq_nil_iff.1 hrest
      exact ⟨_, .file (hlooks hname) hnode⟩
  | linkItself _ _ hpurpose => cases hpurpose
  | @link links start name rest path target hname hnode _ _ ih =>
    rcases names with _ | ⟨name, names⟩
    · exact ⟨_, .done _ _⟩
    · obtain ⟨rfl, rfl⟩ := List.cons.inj hall
      by_cases hlast : names = []
      · subst hlast
        exact ⟨_, .linkItself (hlooks hname) hnode rfl⟩
      · obtain ⟨other, hother⟩ := ih (List.append_assoc _ _ _) htarget
        exact ⟨other, .link (hlooks hname) hnode (by simp [hlast]) hother⟩

/-- Empty names lead nowhere else. -/
theorem of_empty {ending : List Name} (hending : ∀ name ∈ ending, name = []) (links : Nat) (place : Place) :
    Leads files purpose links place ending (.found place) := by
  induction ending with
  | nil => exact .done links place
  | cons name ending ih =>
    have hname := hending name List.mem_cons_self
    exact .stay (.inl hname) (ih fun other hother => hending other (List.mem_cons_of_mem name hother))

/-- A directory that is made where a name is missing is found through it, with or without a slash behind the name. -/
theorem look_of_name {directory : Place} {name : Name} {ending : List Name} (hending : ∀ name ∈ ending, name = [])
    (h : Leads before .name links start names (.absent directory name))
    (hgains : Gains before after (directory ++ [name]) .directory) :
    Leads after .look links start (names ++ ending) (.found (directory ++ [name])) := by
  have hlooks : ∀ {directory name rest}, LooksUp .name directory name rest →
      LooksUp .look directory name (rest ++ ending) :=
    fun hname => ⟨hname.notHere, hname.notUp, by simp, hname.admits⟩
  generalize htarget : Target.absent directory name = target at h
  induction h with
  | done => cases htarget
  | stay hname _ ih => exact .stay hname (ih htarget)
  | up _ ih => exact .up (ih htarget)
  | absent hname hnode =>
    obtain ⟨rfl, rfl⟩ := Target.absent.inj htarget
    exact .down (hlooks hname) hgains.at?_place (of_empty hending _ _)
  | down hname hnode _ ih =>
    exact .down (hlooks hname) (hgains.at?_eq_of_not_file hnode fun _ => Node.noConfusion) (ih htarget)
  | file => cases htarget
  | linkItself => cases htarget
  | link hname hnode _ _ ih =>
    have hrest := ih htarget
    rw [List.append_assoc] at hrest
    exact .link (hlooks hname) (hgains.at?_eq_of_not_file hnode fun _ => Node.noConfusion) (by simp) hrest

end Leads

end

end FileSystem

end PageGraph
