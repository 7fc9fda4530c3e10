import PlcLang.CommandLine
import PlcLang.Proofs.Computations
import PlcLang.Proofs.Toml.Strings
import PlcLang.Proofs.Toml.Tables

/-!
# `PlcLang.Proofs.Projects.Scaffolding`: a new project is read again

`plc new` puts the name of the project between double quotes in the settings file, as it is. The
file is read back as the settings of the new project exactly if the name may stand there
(`created_project_loads_iff`): with a quote, a backslash or a control character in it the file is
not well formed, or it says another name.

That a name which may stand there is read is computed: each line of the file changes a draft, and
what the changes come to is the table. The other direction has to speak of files of any kind, since
a name may hold quotes and newlines, and so statements of its own. Two facts carry it. Whatever the
name is, what stands between the quotes is shorter than it unless each character stands for itself
(`string_of_value`). And whatever the lines below say, they cannot take back the name that has been
said (`says_of_statementsOf`).
-/

set_option autoImplicit false

namespace PlcLang

/-- The name may stand between double quotes as it is: there is no quote, no backslash and no
control character in it but the tab. -/
def Quotable (name : String) : Prop :=
  ∀ c ∈ name.toList, Toml.isVerbatim c = true

/-- The file to which the path leads says the settings of a new project: its name, and for runs and
diagnostics what holds by default. -/
def FileTree.LoadsNew (tree : FileTree) (path : Path) (name : String) : Prop :=
  ∃ settings, tree.settingsIn path = .ok settings ∧ settings.package.name = .string name
    ∧ settings.run = {} ∧ settings.diagnostics = {}

namespace Proofs

open Toml CommandLine

/-! ### Line ends -/

/-- Line ends that are made alike are not longer than they were. -/
theorem length_unifyLineEnds_le (text : List Char) : (unifyLineEnds text).length ≤ text.length := by
  fun_induction unifyLineEnds text with
  | case1 => exact Nat.le_refl 0
  | case2 rest ih => exact Nat.le_succ_of_le (Nat.succ_le_succ ih)
  | case3 c rest _ ih => exact Nat.succ_le_succ ih

/-- A text without carriage returns stays as it is, whatever is behind it. -/
theorem unifyLineEnds_append_of_notMem {text : List Char} (h : '\r' ∉ text) (rest : List Char) :
    unifyLineEnds (text ++ rest) = text ++ unifyLineEnds rest := by
  induction text with
  | nil => rfl
  | cons c text ih =>
      rw [List.mem_cons, not_or] at h
      rw [List.cons_append, unifyLineEnds, ih h.2, List.cons_append]
      exact fun _ hc _ => h.1 hc.symm

/-- So it does when nothing is behind it. -/
theorem unifyLineEnds_of_notMem {text : List Char} (h : '\r' ∉ text) :
    unifyLineEnds text = text := by
  have hnil := unifyLineEnds_append_of_notMem h []
  rwa [unifyLineEnds, List.append_nil] at hnil

/-- Only a newline behind a text could make a line end with it. Without one the two
parts are made alike each by itself. -/
theorem unifyLineEnds_append (text : List Char) {rest : List Char} (h : rest.head? ≠ some '\n') :
    unifyLineEnds (text ++ rest) = unifyLineEnds text ++ unifyLineEnds rest := by
  fun_induction unifyLineEnds text with
  | case1 => rfl
  | case2 text ih => rw [List.cons_append, List.cons_append, unifyLineEnds, ih, List.cons_append]
  | case3 c text hpair ih =>
      rw [List.cons_append, unifyLineEnds, ih, List.cons_append]
      rintro more rfl hmore
      cases text with
      | nil => exact h (by rw [← List.nil_append rest, hmore]; rfl)
      | cons d text =>
          rw [List.cons_append, List.cons.injEq] at hmore
          exact hpair text rfl (by rw [hmore.1])

/-! ### The settings file -/

/-- Lines, each with its newline. -/
def textOf (lines : List String) : List Char :=
  lines.flatMap fun line => line.toList ++ ['\n']

/-- A line with a heading. -/
def headingLine (name : String) : String :=
  "[" ++ name ++ "]"

/-- A line with a key and what it is bound to. -/
def entryLine (name text : String) : String :=
  name ++ " = " ++ text

/-- What stands below the name in the settings of a new project. -/
def belowName : List Char :=
  textOf
    [entryLine "version" "\"0.1.0\"", entryLine "authors" "[]", entryLine "license" "\"\"", "",
      headingLine "run", entryLine "analyze" "true", entryLine "recursion_limit" "10000", "",
      headingLine "diagnostics", entryLine "color" "true"]

/-- What has been said in front of the name: the table of the package is open, and
is empty. -/
def packageDraft : Draft :=
  { root := ⟨[("package", .table .empty)]⟩, heading := ["package"], named := [["package"]] }

/-- What has been said with the name. -/
def namedDraft (name : String) : Draft :=
  { packageDraft with root := ⟨[("package", .table ⟨[("name", .string name)]⟩)]⟩ }

/-- What the settings of a new project say, in the order of the file. -/
def newTable (name : String) : Table :=
  ⟨[("package", .table ⟨[("name", .string name), ("version", .string "0.1.0"),
      ("authors", .array []), ("license", .string "")]⟩),
    ("run", .table ⟨[("analyze", .boolean true), ("recursion_limit", .integer 10000)]⟩),
    ("diagnostics", .table ⟨[("color", .boolean true)]⟩)]⟩

/-- The settings of a new project whose name is put so. -/
def settingsText (text : List Char) : List Char :=
  "[package]\nname = \"".toList ++ (text ++ '"' :: '\n' :: belowName)

/-- The text of lines, as a list of characters. -/
theorem toList_ofLines (lines : List String) : (Scaffold.ofLines lines).toList = textOf lines := by
  simp [Scaffold.ofLines, textOf, String.toList_join, List.flatMap_map, String.toList_append]

/-- The first line comes first, with its newline. -/
theorem textOf_cons (line : String) (lines : List String) :
    textOf (line :: lines) = line.toList ++ '\n' :: textOf lines := by
  rw [textOf, List.flatMap_cons, List.append_assoc]
  rfl

/-- The settings of a new project, as a list of characters. -/
theorem toList_settings (name : String) :
    (Scaffold.settings name).toList = settingsText name.toList := by
  have hopening : "[package]\nname = \"".toList
      = "[package]".toList ++ '\n' :: "name = \"".toList := rfl
  unfold Scaffold.settings settingsText
  rw [toList_ofLines, textOf_cons, textOf_cons, hopening]
  simp only [String.toList_append, List.append_assoc]
  rfl

/-- There are at least as many characters as there are lines, so the fuel suffices. -/
theorem le_length_settingsText (text : List Char) : 13 ≤ (settingsText text).length := by
  unfold settingsText
  simp

/-- Of the settings only the name can have carriage returns. -/
theorem unifyLineEnds_settingsText (text : List Char) :
    unifyLineEnds (settingsText text) = settingsText (unifyLineEnds text) := by
  have hbelow : unifyLineEnds ('"' :: '\n' :: belowName) = '"' :: '\n' :: belowName :=
    unifyLineEnds_of_notMem (by decide)
  unfold settingsText
  rw [unifyLineEnds_append_of_notMem (by decide), unifyLineEnds_append text (by simp),
    hbelow]

/-! ### Reading it line by line -/

/-- The heading opens the table of the package, whatever the name. -/
theorem statement_heading (text : List Char) :
    statement {} (skipGap (settingsText text)) = some (packageDraft,
      '\n' :: ("name = \"".toList ++ (text ++ '"' :: '\n' :: belowName))) :=
  rfl

/-- The line with the name assigns the value that begins at the quote, if one can be
read there. -/
theorem statement_name (draft : Draft) (text : List Char) :
    statement draft (skipGap ("name = \"".toList ++ text))
      = (value ('"' :: text)).bind fun read => (draft.assign ["name"] read.1).map (·, read.2) :=
  statement_bare draft "name".toList (by decide) (List.all_eq_true.mp (by decide)) fun c hc => by
    obtain rfl := Option.some.inj hc
    decide

/-- A name that is read is assigned in the table of the package. -/
theorem assign_name (name : String) :
    packageDraft.assign ["name"] (.string name) = some (namedDraft name) := by
  rfl

/-- A heading opens its table, and the lines below it are read on. -/
theorem statementsOf_heading (name : String)
    (hname : name.toList ≠ [] ∧ name.toList.all isKeyChar = true)
    (draft : Draft) (fuel : Nat) (lines : List String) :
    statementsOf (fuel + 1) draft (textOf (headingLine name :: lines))
      = (draft.openTable [name]).bind fun next => statementsOf fuel next (textOf lines) := by
  have hline : (headingLine name).toList ++ '\n' :: textOf lines
      = '[' :: (name.toList ++ ']' :: '\n' :: textOf lines) := by
    simp [headingLine, String.toList_append]
  have hstatement := statement_heading_bare draft name.toList hname.1
    (List.all_eq_true.mp hname.2) ('\n' :: textOf lines)
  rw [← hline, ← textOf_cons, String.ofList_toList] at hstatement
  exact statementsOf_bind hstatement

/-- A line with a bare key assigns what the key is bound to, and the lines below it
are read on. -/
theorem statementsOf_entry (name : String) {text : String} {v : Toml}
    (hname : name.toList ≠ [] ∧ name.toList.all isKeyChar = true)
    (htext : text.toList.head?.all (!isGap ·) = true)
    (hvalue : ∀ rest, value (text.toList ++ '\n' :: rest) = some (v, '\n' :: rest))
    (draft : Draft) (fuel : Nat) (lines : List String) :
    statementsOf (fuel + 1) draft (textOf (entryLine name text :: lines))
      = (draft.assign [name] v).bind fun next => statementsOf fuel next (textOf lines) := by
  have hline : (entryLine name text).toList ++ '\n' :: textOf lines
      = name.toList ++ ' ' :: '=' :: ' ' :: (text.toList ++ '\n' :: textOf lines) := by
    simp [entryLine, String.toList_append]
  have hgap : ∀ c ∈ (text.toList ++ '\n' :: textOf lines).head?, isGap c = false := by
    intro c hc
    cases hchars : text.toList with
    | nil =>
        rw [hchars] at hc
        obtain rfl := Option.some.inj hc
        decide
    | cons d chars =>
        rw [hchars] at hc htext
        obtain rfl := Option.some.inj hc
        simpa using htext
  have hstatement := statement_bare draft name.toList hname.1 (List.all_eq_true.mp hname.2) hgap
  rw [hvalue, Option.bind_some, ← hline, ← textOf_cons, String.ofList_toList] at hstatement
  exact statementsOf_bind hstatement

/-- An empty line says nothing. -/
theorem statementsOf_blank (draft : Draft) (fuel : Nat) (lines : List String) :
    statementsOf (fuel + 1) draft (textOf ("" :: lines)) = statementsOf fuel draft (textOf lines) :=
  statementsOf_line rfl

/-- The lines below the name add the other settings. -/
theorem statementsOf_belowName (name : String) (fuel : Nat) :
    statementsOf (fuel + 12) (namedDraft name) belowName = some (newTable name) := by
  have hdigits : ∀ c ∈ "0.1.0".toList, isVerbatim c = true := List.all_eq_true.mp (by decide)
  have hversion (rest : List Char) :
      value ("\"0.1.0\"".toList ++ '\n' :: rest) = some (.string "0.1.0", '\n' :: rest) :=
    value_verbatim hdigits (by simp)
  have hlicense (rest : List Char) :
      value ("\"\"".toList ++ '\n' :: rest) = some (.string "", '\n' :: rest) := rfl
  have hauthors (rest : List Char) :
      value ("[]".toList ++ '\n' :: rest) = some (.array [], '\n' :: rest) := rfl
  have htrue (rest : List Char) :
      value ("true".toList ++ '\n' :: rest) = some (.boolean true, '\n' :: rest) := rfl
  have hlimit (rest : List Char) :
      value ("10000".toList ++ '\n' :: rest) = some (.integer 10000, '\n' :: rest) := rfl
  -- once the text is gone, what is left are changes of the draft
  unfold belowName
  simp only [statementsOf_entry "version" (by decide) (by decide) hversion,
    statementsOf_entry "authors" (by decide) (by decide) hauthors,
    statementsOf_entry "license" (by decide) (by decide) hlicense, statementsOf_blank,
    statementsOf_heading "run" (by decide),
    statementsOf_entry "analyze" (by decide) (by decide) htrue,
    statementsOf_entry "recursion_limit" (by decide) (by decide) hlimit,
    statementsOf_heading "diagnostics" (by decide),
    statementsOf_entry "color" (by decide) (by decide) htrue]
  rfl

/-- The table of a new project holds settings: its name, and for runs and
diagnostics what holds by default. -/
theorem ofTable_newTable (name : String) :
    ∃ settings, Settings.ofTable (newTable name) = .ok settings
      ∧ settings.package.name = .string name ∧ settings.run = {} ∧ settings.diagnostics = {} :=
  ⟨_, rfl, rfl, rfl, rfl⟩

/-- The settings file is read statement by statement, with its line ends made alike. -/
theorem read?_settings (name : String) :
    Table.read? (Scaffold.settings name)
      = statementsOf ((settingsText (unifyLineEnds name.toList)).length + 1) {}
          (settingsText (unifyLineEnds name.toList)) := by
  rw [Table.read?, toList_settings, unifyLineEnds_settingsText]

/-- A name that may stand between quotes is read. -/
theorem read?_settings_of_quotable {name : String} (h : Quotable name) :
    Table.read? (Scaffold.settings name) = some (newTable name) := by
  have hline : unifyLineEnds name.toList = name.toList :=
    unifyLineEnds_of_notMem fun hmem => absurd (h '\r' hmem) (by decide)
  have hvalue : value ('"' :: (name.toList ++ '"' :: '\n' :: belowName))
      = some (.string (String.ofList name.toList), '\n' :: belowName) :=
    value_verbatim h (by simp)
  have hname : statement packageDraft
      (skipGap ("name = \"".toList ++ (name.toList ++ '"' :: '\n' :: belowName)))
      = some (namedDraft name, '\n' :: belowName) := by
    rw [statement_name, hvalue, String.ofList_toList]
    rfl
  -- There are steps enough for each of the lines.
  obtain ⟨fuel, hfuel⟩ : ∃ fuel, (settingsText name.toList).length + 1 = fuel + 12 + 1 + 1 := by
    have hlength := le_length_settingsText name.toList
    exact ⟨(settingsText name.toList).length - 13, by omega⟩
  rw [read?_settings, hline, hfuel, statementsOf_line (statement_heading name.toList),
    statementsOf_line hname, statementsOf_belowName]

/-- Whatever the name, what is read is what stands between the quotes, and stays: no
line below it takes it back. -/
theorem exists_value_of_read?_settings {name : String} {root : Table}
    (h : Table.read? (Scaffold.settings name) = some root) :
    ∃ v rest next,
      value ('"' :: (unifyLineEnds name.toList ++ '"' :: '\n' :: belowName)) = some (v, rest)
        ∧ packageDraft.assign ["name"] v = some next
        ∧ ∀ said key, Says said key next.root → Says said key root := by
  rw [read?_settings] at h
  generalize unifyLineEnds name.toList = text at h ⊢
  rw [statementsOf_line (statement_heading text)] at h
  -- of the rest only the first statement is known, since the name may end its line
  have hlength : (settingsText text).length = (settingsText text).tail.length + 1 := rfl
  rw [hlength] at h
  obtain ⟨next, rest, hstatement, hend⟩ := exists_statement_of_statementsOf h
  rw [statement_name] at hstatement
  obtain ⟨⟨v, behind⟩, hvalue, hassign⟩ := Option.bind_eq_some_iff.mp hstatement
  obtain ⟨named, hnamed, heq⟩ := Option.map_eq_some_iff.mp hassign
  obtain ⟨rfl, rfl⟩ := Prod.mk.inj heq
  refine ⟨v, behind, named, hvalue, hnamed, fun said key hsaid => ?_⟩
  rcases hend with rfl | ⟨below, hbelow⟩
  · exact hsaid
  · exact says_of_statementsOf hbelow hsaid

/-- What the settings say of the name. -/
theorem name_of_ofTable {root : Table} {settings : Settings} {name : String}
    (h : Settings.ofTable root = .ok settings) (hsaid : Says name ["package", "name"] root) :
    settings.package.name = .string name := by
  cases hsaid with
  | @within _ _ _ package hpackage hname =>
      cases hname with
      | within _ hnil => cases hnil
      | here hname =>
          have hsection : Settings.sectionOf root "package" = .ok package := by
            rw [Settings.sectionOf, hpackage]
          unfold Settings.ofTable at h
          rw [hsection] at h
          cases hrun : Settings.sectionOf root "run" with
          | error e =>
              rw [hrun] at h
              cases h
          | ok run =>
              rw [hrun] at h
              cases hdiagnostics : Settings.sectionOf root "diagnostics" with
              | error e =>
                  rw [hdiagnostics] at h
                  cases h
              | ok diagnostics =>
                  rw [hdiagnostics] at h
                  obtain rfl := Except.ok.inj h
                  show (package.get? "name").getD _ = _
                  rw [hname]
                  rfl

/-- A name that is read back may stand between quotes. -/
theorem quotable_of_read {name : String} {settings : Settings}
    (h : Settings.read (Scaffold.settings name) = .ok settings)
    (hname : settings.package.name = .string name) : Quotable name := by
  unfold Settings.read at h
  split at h
  · next root hroot =>
      obtain ⟨v, rest, next, hvalue, hassign, hkeeps⟩ := exists_value_of_read?_settings hroot
      obtain ⟨s, rfl, hsame⟩ := string_of_value hvalue (by decide +kernel)
      rw [assign_name, Option.some.injEq] at hassign
      subst hassign
      have hinner : Says s ["name"] ⟨[("name", .string s)]⟩ := .here rfl
      have hsaid : Says s ["package", "name"] root := hkeeps s _ (.within rfl hinner)
      rw [name_of_ofTable h hsaid] at hname
      obtain rfl : s = name := Toml.string.inj hname
      obtain ⟨hvalue, hall⟩ := hsame (by
        rw [← String.length_toList]
        exact length_unifyLineEnds_le s.toList)
      unfold Quotable
      rw [hvalue, String.toList_ofList]
      exact hall
  · cases h

/-! ### The command -/

/-- A text that is no table holds no settings. -/
theorem malformed_of_read? {text : String} (h : Table.read? text = none) :
    Settings.read text = .error .malformed := by
  rw [Settings.read, h]

/-- A file that holds a text is read as the text. -/
theorem settingsIn_eq_read {tree : FileTree} {path : Path} {text : String}
    (h : tree.readBytes path = .ok text.toUTF8) : tree.settingsIn path = Settings.read text := by
  have hexactly : tree.readExactly path = .ok text := by
    rw [FileTree.readExactly, h]
    exact exactTextOfBytes_toUTF8 text
  rw [FileTree.settingsIn, hexactly]

/-- A new project is made where nothing is yet and no file stands in the way. -/
theorem run_create_of_makeWay {s : Surroundings} {name : String} {place : Location}
    (hreaches : s.tree.reaches (Path.ofText name) = false)
    (hplace : s.tree.makeWay (Path.ofText name) = .ok place) :
    ∃ transcript, (create s name).run {} = .ok () transcript
      ∧ transcript.written = Scaffold.files place name := by
  unfold create
  dsimp only
  rw [hreaches, hplace]
  exact ⟨_, rfl, rfl⟩

/-- Where one is made, these are the files that are written. -/
theorem written_of_create {s : Surroundings} {name : String} {transcript : Transcript}
    (h : (create s name).run {} = .ok () transcript) :
    ∃ place, s.tree.makeWay (Path.ofText name) = .ok place
      ∧ transcript.written = Scaffold.files place name := by
  unfold create at h
  dsimp only at h
  split at h
  · cases h
  · cases hplace : s.tree.makeWay (Path.ofText name) with
    | error cause =>
        rw [hplace] at h
        cases h
    | ok place =>
        rw [hplace] at h
        cases h
        exact ⟨place, rfl, rfl⟩

/-- One of them is the settings file, and only one. -/
theorem filter_files_eq (place : Location) (name : String) :
    ((Scaffold.files place name).filter fun file => file.place = place ++ [Settings.fileName])
      = [⟨place ++ [Settings.fileName], Scaffold.settings name⟩] := by
  simp [Scaffold.files, Settings.fileName]

/-- Where `plc new` succeeds, it writes one settings file into the directory of the project, and
from wherever the file is loaded, it says the settings of the new project exactly if the name may
stand between quotes as it is. -/
theorem created_project_loads_iff {s : Surroundings} {name : String} {transcript : Transcript}
    (h : (create s name).run {} = .ok () transcript) :
    ∃ place file, s.tree.makeWay (Path.ofText name) = .ok place
      ∧ (transcript.written.filter fun file => file.place = place ++ [Settings.fileName]) = [file]
      ∧ ∀ (tree : FileTree) (path : Path), tree.readBytes path = .ok file.text.toUTF8 →
        (tree.LoadsNew path name ↔ Quotable name) := by
  obtain ⟨place, hplace, hwritten⟩ := written_of_create h
  refine ⟨place, _, hplace, by rw [hwritten, filter_files_eq], fun tree path hread => ?_⟩
  rw [FileTree.LoadsNew, settingsIn_eq_read hread]
  constructor
  · rintro ⟨settings, hsettings, hname, -, -⟩
    exact quotable_of_read hsettings hname
  · intro hquotable
    obtain ⟨settings, hsettings, hdefaults⟩ := ofTable_newTable name
    refine ⟨settings, ?_, hdefaults⟩
    rw [Settings.read, read?_settings_of_quotable hquotable]
    exact hsettings

/-- A project with a plain name is loaded from where it was made. -/
theorem created_project_loads :
    FileTree.LoadsNew
      ⟨["w"], ⟨[(["w", "hello", "plc.toml"], .file (Scaffold.settings "hello").toUTF8)]⟩⟩
      ⟨false, ["hello", "plc.toml"]⟩ "hello" := by
  have hplace : FileTree.makeWay ⟨["w"], ⟨[]⟩⟩ (Path.ofText "hello") = .ok ["w", "hello"] := by
    rfl
  obtain ⟨transcript, hrun, hwritten⟩ := run_create_of_makeWay (s := { tree := ⟨["w"], ⟨[]⟩⟩ })
    rfl hplace
  obtain ⟨place, file, hsame, hfile, hloads⟩ := created_project_loads_iff hrun
  obtain rfl : place = ["w", "hello"] := Except.ok.inj (hsame.symm.trans hplace)
  rw [hwritten, filter_files_eq, List.cons.injEq] at hfile
  obtain ⟨rfl, -⟩ := hfile
  exact (hloads _ _ rfl).mpr (List.all_eq_true.mp (by decide))

/-- A project whose name has a quote in it is made, and its settings file is not
well formed. -/
theorem created_project_malformed :
    ∃ s transcript, (create s "a\"b").run {} = .ok () transcript
      ∧ ∃ file ∈ transcript.written, file.place = ["w", "a\"b", Settings.fileName]
        ∧ Settings.read file.text = .error .malformed := by
  have hplace : FileTree.makeWay ⟨["w"], ⟨[]⟩⟩ (Path.ofText "a\"b") = .ok ["w", "a\"b"] := by
    rfl
  obtain ⟨transcript, hrun, hwritten⟩ := run_create_of_makeWay (s := { tree := ⟨["w"], ⟨[]⟩⟩ })
    rfl hplace
  have hnone : (Table.read? (Scaffold.settings "a\"b")).isNone = true := by
    rw [read?_settings, statementsOf_line (statement_heading _)]
    decide +kernel
  refine ⟨_, transcript, hrun, ⟨_, Scaffold.settings "a\"b"⟩, ?_, rfl, ?_⟩
  · rw [hwritten]
    exact List.mem_cons_self
  · exact malformed_of_read? (Option.isNone_iff_eq_none.mp hnone)

end Proofs

end PlcLang
