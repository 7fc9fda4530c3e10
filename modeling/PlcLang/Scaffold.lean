import PlcLang.Settings

/-!
# `PlcLang.Scaffold`: the files of a new project

A new project has settings, a program that greets, a list of what is not
kept under version control, and a description.
-/

set_option autoImplicit false

namespace PlcLang.Scaffold

/-- Lines joined, each with its newline. -/
def ofLines (lines : List String) : String :=
  String.join (lines.map (· ++ "\n"))

/-- The settings of a new project. All of them are spelled out, with the defaults
for values, so that there is something to change. The name goes between quotes as it
is. -/
def settings (name : String) : String :=
  ofLines
    ["[package]",
      "name = \"" ++ name ++ "\"",
      "version = \"0.1.0\"",
      "authors = []",
      "license = \"\"",
      "",
      "[run]",
      "analyze = true",
      "recursion_limit = 10000",
      "",
      "[diagnostics]",
      "color = true"]

/-- The program of a new project. It has a field, a method and a call, one of each. -/
def program : String :=
  ofLines
    ["LET greeting: String = \"Hello from Plc!\";",
      "",
      "DEF main(): Integer DO",
      "    print(greeting);",
      "    RETURN 0;",
      "END"]

/-- What is not kept under version control. -/
def ignored : String :=
  ofLines ["__pycache__/", ".plc/"]

/-- The fence around an example in a description: three backquotes. -/
def fence : String :=
  "\x60\x60\x60"

/-- The description of a new project. The name is its heading, as it is. -/
def description (name : String) : String :=
  ofLines
    ["# " ++ name,
      "",
      "A Plc project.",
      "",
      "## Run",
      "",
      fence ++ "bash",
      "plc run src/main.plc",
      fence,
      "",
      "## Check",
      "",
      fence ++ "bash",
      "plc check",
      fence]

/-- The files of a new project at a place. Directories between are made when the
files are written. -/
def files (place : Location) (name : String) : List FileWrite :=
  [⟨place ++ [Settings.fileName], settings name⟩,
    ⟨place ++ ["src", "main.plc"], program⟩,
    ⟨place ++ [".gitignore"], ignored⟩,
    ⟨place ++ ["README.md"], description name⟩]

end PlcLang.Scaffold
