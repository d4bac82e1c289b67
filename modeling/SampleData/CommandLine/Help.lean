import SampleData.Text.Unstyled

/-!
# The help of the command line

Both helps name the options one below the other, each with what is said of it on the next line. The
short one puts notes behind that, the long one makes them paragraphs of their own. The configuration
file that the surroundings name is shown in both; each of its lines is indented like the text around
it, and codes for a terminal are left out.
-/

namespace SampleData

open Text

/-- An option with what is said of it. -/
structure OptionHelp where
  /-- Its names, and what its value is called. -/
  name : String
  text : String
  /-- What the short help adds. -/
  note : Option String := none
  /-- The lines that the long help adds. -/
  details : List String := []

/-- The indentation of what is said of an option. -/
def helpIndent : String := "          "

/-- What stands for a line break in a note. -/
def lineBreakMark : String := "\x7bn\x7d"

/-- The note on the surroundings. -/
def surroundingsNote (named : Option String) : String :=
  let text := "[env: DATAFORGE_CONFIG=" ++ named.getD "" ++ "]"
  ("\n" ++ helpIndent).intercalate ((text.replace lineBreakMark "\n").splitOn "\n")

/-- The options; `helpHint` says where more or less help is found. -/
def optionHelps (named : Option String) (helpHint : String) : List OptionHelp :=
  [{ name := "      --files-count <FILES_COUNT>"
     text := "Number of files to generate (0 prints records to stdout)" },
   { name := "      --file-name <FILE_NAME>", text := "Base name for generated files" },
   { name := "      --file-prefix <FILE_PREFIX>"
     text := "Prefix strategy for file names"
     note := some "[possible values: count, random, uuid]"
     details :=
       ["",
        helpIndent ++ "Possible values:",
        helpIndent ++ "- count:  Sequential file index, starting at 1",
        helpIndent ++ "- random: Random lowercase hex",
        helpIndent ++ "- uuid:   Random UUID v4"] },
   { name := "      --data-lines <DATA_LINES>"
     text := "Number of records per file (or printed to stdout)" },
   { name := "      --clear-path"
     text := "Remove existing *.json files from the output path before generating" },
   { name := "      --data-schema <DATA_SCHEMA>"
     text := "Schema as JSON text or a path to a JSON file" },
   { name := "      --multiprocessing <MULTIPROCESSING>"
     text := "Number of parallel workers for file generation" },
   { name := "      --seed <SEED>"
     text := "Base random seed (same seed = same data, timestamps aside)" },
   { name := "      --config <CONFIG>"
     text := "Path to the configuration file"
     note := some (surroundingsNote named)
     details := [helpIndent, helpIndent ++ surroundingsNote named] },
   { name := "      --init-config", text := "Write a default configuration file and exit" },
   { name := "  -h, --help", text := "Print help (see " ++ helpHint ++ ")" },
   { name := "  -V, --version", text := "Print version" }]

/-- What both helps start with. -/
def helpHead : List String :=
  ["A tool for generating synthetic JSON Lines test data from a compact field schema",
   "",
   "Usage: dataforge [OPTIONS] [PATH]",
   "",
   "Arguments:"]

/-- What is said of the directory. -/
def pathHelp : String := "Directory to write files into (ignored when files count is 0)"

/-- An option in the short help. -/
def OptionHelp.brief (o : OptionHelp) : List String :=
  [o.name, helpIndent ++ o.text ++ (o.note.map fun n => " " ++ n).getD ""]

/-- An option in the long help. -/
def OptionHelp.full (o : OptionHelp) : List String :=
  [o.name, helpIndent ++ o.text] ++ o.details

/-- The short help. -/
def shortHelp (named : Option String) : List String :=
  helpHead
    ++ ["  [PATH]  " ++ pathHelp, "", "Options:"]
    ++ (optionHelps named "more with '--help'").flatMap OptionHelp.brief

/-- The long help. -/
def longHelp (named : Option String) : List String :=
  helpHead
    ++ ["  [PATH]", helpIndent ++ pathHelp, "", "Options:"]
    ++ [""].intercalate ((optionHelps named "a summary with '-h'").map OptionHelp.full)

/-- The help, short or long. -/
def helpText (long : Bool) (named : Option String) : String :=
  unstyled ("\n".intercalate (if long then longHelp named else shortHelp named) ++ "\n")

end SampleData
