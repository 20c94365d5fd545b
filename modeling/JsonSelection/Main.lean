import JsonSelection.CommandLine.Tool

/-!
# The command line program

The first word names a tool, the others are its command line. This module reads the files and the
standard input that the words name, and prints the answer.
-/

set_option autoImplicit false

open JsonSelection

/-- The text of a file, if it can be read. -/
def readTextFile (name : String) : IO (String × Option String) := do
  try
    return (name, some (← IO.FS.readFile name))
  catch _ =>
    return (name, none)

/-- Runs a tool and prints its output. -/
def runTool (tool : CommandLine.Tool) (words : List String) : IO UInt32 := do
  let files ← (tool.filesNamed words).mapM readTextFile
  let input ← if tool.readsInput words then (← IO.getStdin).readToEnd else pure ""
  let sources : CommandLine.Sources :=
    { input := input
      file? := fun name => (files.find? fun file => file.1 == name).bind Prod.snd }
  match tool.run words sources with
  | .ok ending =>
      IO.print ending.output
      return UInt32.ofNat ending.exit
  | .error error =>
      IO.eprintln error.message
      return 1

def main (words : List String) : IO UInt32 := do
  match words with
  | [] =>
      IO.eprintln ("usage: TOOL [OPTION]... [FILE], where TOOL is one of " ++
        ", ".intercalate (CommandLine.Tool.all.map CommandLine.Tool.name))
      return 2
  | name :: rest =>
      match CommandLine.Tool.ofName? name with
      | some tool => runTool tool rest
      | none =>
          IO.eprintln ("unknown tool: " ++ name)
          return 2
