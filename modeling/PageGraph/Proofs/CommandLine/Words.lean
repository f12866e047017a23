import PageGraph.CommandLine.Arguments

/-!
# Words of a command line

Options that stand before a command are read alike whatever the command is. So a command line that asks for a tree is
understood if the same one with another command is, and every page that is named by an absolute path can be asked for.

* `Reading.words_append` : the words of a level are read one after the other;
* `parse_tree` : asking for a tree, with the options of another command line.
-/

namespace PageGraph.CommandLine

/-! ### Word by word -/

/-- Words that are no command are read first, and then what follows them. -/
theorem Reading.words_append {level : Level} {reading later : Reading} {options : List String}
    (h : reading.words level options = .ok (later, none)) (more : List String) :
    reading.words level (options ++ more) = later.words level more := by
  induction options generalizing reading with
  | nil =>
    obtain rfl := (Prod.mk.inj (Except.ok.inj h)).1
    rfl
  | cons word options ih =>
    rw [words] at h
    rw [List.cons_append, words]
    split at h
    · cases h
    · next hhelp =>
      rw [if_neg hhelp]
      split at h
      · cases h
      · next hcommand =>
        cases hnext : reading.next level word with
        | error usage =>
          rw [hnext] at h
          cases h
        | ok following =>
          rw [hnext] at h
          exact ih h

/-- A command ends the words before it. -/
theorem Reading.words_command {upper : Reading} {word : String} {name : CommandName} (h : upper.takesCommand none = true)
    (hname : CommandName.ofWord? word = some name) (hhelp : word ≠ helpWord) (rest : List String) :
    upper.words none (word :: rest) = .ok (upper, some (name, rest)) := by
  rw [words, if_neg (fun hand => hhelp hand.2), if_pos h, hname]

/-! ### Asking for a tree -/

/-- An absolute path is no option. -/
theorem Reading.next_page {page : String} (hpage : page.toList.head? = some '/') :
    ({} : Reading).next (some .tree) page = .ok { page := some page } := by
  obtain ⟨rest, hrest⟩ : ∃ rest, page.toList = '/' :: rest := by
    cases hlist : page.toList with
    | nil => rw [hlist] at hpage; cases hpage
    | cons c rest => rw [hlist] at hpage; exact ⟨rest, by rw [Option.some.inj hpage]⟩
  rw [next.eq_def, hrest]
  rfl

theorem Reading.words_page {page : String} (hpage : page.toList.head? = some '/') (rest : List String) :
    ({} : Reading).words (some .tree) (page :: rest) = ({ page := some page } : Reading).words (some .tree) rest := by
  have htakes : ({} : Reading).takesCommand (some .tree) = false := rfl
  rw [words, htakes, next_page hpage]
  rfl

/-- The form of a tree is said behind its page. -/
theorem Reading.words_format (page : String) :
    ({ page := some page } : Reading).words (some .tree) ["--format", "json"] =
      .ok ({ page := some page, pending := some (.format, some "json") }, none) := rfl

/-- A command line in which options stand before a command. -/
theorem parse_command {options rest : List String} {upper : Reading} {word : String} {name : CommandName}
    (hoptions : ({} : Reading).words none options = .ok (upper, none)) (htakes : upper.takesCommand none = true)
    (hname : CommandName.ofWord? word = some name) (hhelp : word ≠ helpWord) :
    parse (options ++ word :: rest) = (do
      let (lower, _) ← Reading.words (some name) {} rest
      let lower ← lower.finish
      let command ← commandOf name lower.given lower.page
      let upper ← upper.finish
      let given := lower.merge upper
      .ok {
        command
        quiet := (given.lookup .quiet).isSome
        configuration := textOf? given .configuration
        storesDir := textOf? given .storesDir
        outputDir := textOf? given .outputDir }) := by
  rw [parse, Reading.words_append hoptions, Reading.words_command htakes hname hhelp]
  rfl

/-- **Asking for a tree.** Options before a command without options of its own are those of the tree of a page too. -/
theorem parse_tree {options : List String} {upper : Reading} {invocation : Invocation} {page : String}
    (hoptions : ({} : Reading).words none options = .ok (upper, none)) (htakes : upper.takesCommand none = true)
    (hdeep : parse (options ++ ["deep"]) = .ok { invocation with command := .deep none false })
    (hpage : page.toList.head? = some '/') :
    parse (options ++ ["tree", page]) = .ok { invocation with command := .tree page none "tree" none } ∧
      parse (options ++ ["tree", page, "--format", "json"]) =
        .ok { invocation with command := .tree page none "json" none } := by
  have hname : CommandName.ofWord? "tree" = some .tree := rfl
  have hother : CommandName.ofWord? "deep" = some .deep := rfl
  rw [parse_command hoptions htakes hother (by decide)] at hdeep
  rw [parse_command hoptions htakes hname (by decide), parse_command hoptions htakes hname (by decide),
    Reading.words_page hpage, Reading.words_page hpage, Reading.words_format]
  cases hfinish : upper.finish with
  | error usage =>
    rw [hfinish] at hdeep
    cases hdeep
  | ok done =>
    rw [hfinish] at hdeep
    -- the shared options are those of the upper level in all three command lines
    obtain ⟨-, hquiet, hconfiguration, hstoresDir, houtputDir⟩ := Invocation.mk.inj (Except.ok.inj hdeep)
    rw [← hquiet, ← hconfiguration, ← hstoresDir, ← houtputDir]
    exact ⟨rfl, rfl⟩

end PageGraph.CommandLine
