import BlockScript.Text.Quoted

/-!
# The command line and its usage

The tool takes options, one of four commands, and the options and the input of
that command. Each of the five forms has a usage line and a help text.
-/

set_option autoImplicit false

namespace BlockScript.Command

inductive Verb where
  | step
  | convert
  | run
  | exec
  deriving DecidableEq, Repr

namespace Verb

def all : List Verb := [.step, .convert, .run, .exec]

def word : Verb → String
  | .step => "step"
  | .convert => "convert"
  | .run => "run"
  | .exec => "exec"

def ofWord? (s : String) : Option Verb := all.find? (fun v => v.word == s)

end Verb

inductive Setting where
  | help
  | verbose
  | json
  | noValidate
  | output
  | maxSteps
  deriving DecidableEq, Repr

structure Switch where
  setting : Setting
  names : List String
  deriving DecidableEq, Repr

namespace Switch

def title (switch : Switch) : String := "/".intercalate switch.names

def takesValue (switch : Switch) : Bool :=
  match switch.setting with
  | .output | .maxSteps => true
  | .help | .verbose | .json | .noValidate => false

end Switch

/-- The form of a command line: the options it knows and the texts that describe it. -/
structure Form where
  program : String
  usage : String
  help : String
  required : String
  switches : List Switch
  deriving DecidableEq, Repr

def helpSwitch : Switch := ⟨.help, ["-h", "--help"]⟩

def verboseSwitch : Switch := ⟨.verbose, ["-v", "--verbose"]⟩

def jsonSwitch : Switch := ⟨.json, ["--json"]⟩

def noValidateSwitch : Switch := ⟨.noValidate, ["--no-validate"]⟩

def outputSwitch : Switch := ⟨.output, ["-o", "--output"]⟩

def maxStepsSwitch : Switch := ⟨.maxSteps, ["--max-steps"]⟩

def lines (ls : List String) : String := String.join (ls.map (· ++ "\n"))

def Form.main : Form where
  program := "blocklab"
  usage := "usage: blocklab [-h] [-v] \x7bstep,convert,run,exec\x7d ...\n"
  help := lines
    ["",
     "Step, convert and run block programs",
     "",
     "positional arguments:",
     "  \x7bstep,convert,run,exec\x7d",
     "    step                Step a block program to completion",
     "    convert             Generate a Python script from a block program",
     "    run                 Run a script with the script interpreter",
     "    exec                Convert a block program and run the generated script",
     "",
     "options:",
     "  -h, --help            show this help message and exit",
     "  -v, --verbose         Verbose logging"]
  required := "command"
  switches := [helpSwitch, verboseSwitch]

def Form.ofVerb : Verb → Form
  | .step =>
    ⟨"blocklab step",
      "usage: blocklab step [-h] [--json] [--no-validate] input\n",
      lines
        ["",
         "positional arguments:",
         "  input          Path to a block program .json file",
         "",
         "options:",
         "  -h, --help     show this help message and exit",
         "  --json         Print the run state after every step as JSON",
         "  --no-validate  Skip block program validation"],
      "input",
      [helpSwitch, jsonSwitch, noValidateSwitch]⟩
  | .convert =>
    ⟨"blocklab convert",
      "usage: blocklab convert [-h] [-o OUTPUT] [--no-validate] input\n",
      lines
        ["",
         "positional arguments:",
         "  input                 Path to a block program .json file",
         "",
         "options:",
         "  -h, --help            show this help message and exit",
         "  -o OUTPUT, --output OUTPUT",
         "                        Write the script here instead of stdout",
         "  --no-validate         Skip block program validation"],
      "input",
      [helpSwitch, outputSwitch, noValidateSwitch]⟩
  | .run =>
    ⟨"blocklab run",
      "usage: blocklab run [-h] [--max-steps MAX_STEPS] input\n",
      lines
        ["",
         "positional arguments:",
         "  input                 Path to a script file",
         "",
         "options:",
         "  -h, --help            show this help message and exit",
         "  --max-steps MAX_STEPS",
         "                        Line budget before a run is stopped"],
      "input",
      [helpSwitch, maxStepsSwitch]⟩
  | .exec =>
    ⟨"blocklab exec",
      "usage: blocklab exec [-h] [--max-steps MAX_STEPS] [--no-validate] input\n",
      lines
        ["",
         "positional arguments:",
         "  input                 Path to a block program .json file",
         "",
         "options:",
         "  -h, --help            show this help message and exit",
         "  --max-steps MAX_STEPS",
         "                        Line budget before a run is stopped",
         "  --no-validate         Skip block program validation"],
      "input",
      [helpSwitch, maxStepsSwitch, noValidateSwitch]⟩

inductive UsageFault where
  | ambiguous (arg : String) (candidates : List String)
  | ignoredValue (switch : Switch) (value : String)
  | missingValue (switch : Switch)
  | notInteger (switch : Switch) (value : String)
  | unknownVerb (word : String)
  | missing (what : String)
  | unrecognized (args : List String)
  deriving DecidableEq, Repr

def UsageFault.message : UsageFault → String
  | .ambiguous arg candidates =>
    let names := ", ".intercalate candidates
    s!"ambiguous option: {arg} could match {names}"
  | .ignoredValue switch value =>
    s!"argument {switch.title}: ignored explicit argument {Text.quoted value}"
  | .missingValue switch => s!"argument {switch.title}: expected one argument"
  | .notInteger switch value =>
    s!"argument {switch.title}: invalid int value: {Text.quoted value}"
  | .unknownVerb word =>
    let choices := ", ".intercalate (Verb.all.map fun v => Text.quoted v.word)
    s!"argument command: invalid choice: {Text.quoted word} (choose from {choices})"
  | .missing what => s!"the following arguments are required: {what}"
  | .unrecognized args =>
    let shown := " ".intercalate args
    s!"unrecognized arguments: {shown}"

inductive Halt where
  | help (form : Form)
  | wrong (form : Form) (fault : UsageFault)
  deriving DecidableEq, Repr

namespace Halt

def exit : Halt → Nat
  | .help _ => 0
  | .wrong _ _ => 2

def out : Halt → String
  | .help form => form.usage ++ form.help
  | .wrong _ _ => ""

def err : Halt → String
  | .help _ => ""
  | .wrong form fault => s!"{form.usage}{form.program}: error: {fault.message}\n"

end Halt

end BlockScript.Command
