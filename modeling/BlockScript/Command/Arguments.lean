import BlockScript.Command.Usage
import BlockScript.Files.Path
import BlockScript.Number.Numeral
import BlockScript.Script.Interpreter

/-!
# Reading the command line

Every argument is first marked as an option, a plain word, or the double dash
after which there are only words. An option may be cut short as long as one
name fits it, may carry its value after an equals sign, and short options may
be joined. Arguments are then used from left to right, and the first that cannot
be used ends the reading.
-/

set_option autoImplicit false

namespace BlockScript.Command

/-- There are two conventions. They differ in a double dash that is attached to an
option, which the older takes for no value, and in letters behind a short option
that are no options, which the newer leaves over. -/
inductive Convention where
  | older
  | newer
  deriving DecidableEq, Repr

inductive Attached where
  | value (text : String)
  /-- The text after a short name, and whether an equals sign is between them. -/
  | letters (equals : Bool) (text : String)
  deriving DecidableEq, Repr

def Attached.ofEquals (name text : List Char) : Attached :=
  if Text.startsWith ['-', '-'] name then .value (String.ofList text)
  else .letters true (String.ofList text)

inductive Mark where
  | word
  | dashes
  | switch (switch : Switch) (attached : Option Attached)
  | unknown
  deriving DecidableEq, Repr

namespace Form

def find? (form : Form) (name : String) : Option Switch :=
  form.switches.find? fun s => s.names.contains name

def names (form : Form) : List (String × Switch) :=
  form.switches.flatMap fun s => s.names.map fun n => (n, s)

end Form

def splitEquals (text : List Char) : Option (List Char × List Char) :=
  match text.dropWhile (· != '=') with
  | '=' :: value => some (text.takeWhile (· != '='), value)
  | _ => none

def candidates (form : Form) (text : List Char) : List (String × Mark) :=
  match text with
  | '-' :: '-' :: _ =>
    let (given, attached) : List Char × Option Attached :=
      match splitEquals text with
      | some (name, text) => (name, some (.value (String.ofList text)))
      | none => (text, none)
    form.names.filterMap fun (name, s) =>
      if Text.startsWith given name.toList then some (name, .switch s attached) else none
  | '-' :: letter :: letters =>
    form.names.filterMap fun (name, s) =>
      if name.toList = ['-', letter] then
        some (name, .switch s (some (.letters false (String.ofList letters))))
      else none
  | _ => []

def endsInDigits (text : List Char) : Bool :=
  match Text.spanDigits text with
  | (_ :: _, []) | (_ :: _, ['\n']) => true
  | _ => false

def isNegativeNumber : List Char → Bool
  | '-' :: rest =>
    endsInDigits rest ||
      match (Text.spanDigits rest).2 with
      | '.' :: fraction => endsInDigits fraction
      | _ => false
  | _ => false

def markOf (form : Form) (arg : String) : Except UsageFault Mark :=
  let text := arg.toList
  match text with
  | '-' :: _ :: _ =>
    match form.find? arg with
    | some s => .ok (.switch s none)
    | none =>
      let joined := do
        let (name, after) ← splitEquals text
        let s ← form.find? (String.ofList name)
        return Mark.switch s (some (.ofEquals name after))
      match joined with
      | some mark => .ok mark
      | none =>
        match candidates form text with
        | [(_, mark)] => .ok mark
        | [] => .ok (if isNegativeNumber text || text.contains ' ' then .word else .unknown)
        | several => .error (.ambiguous arg (several.map Prod.fst))
  | _ => .ok .word

def markAll (form : Form) : List String → Except UsageFault (List (String × Mark))
  | [] => .ok []
  | arg :: args =>
    if arg = "--" then .ok ((arg, .dashes) :: args.map fun a => (a, .word))
    else do
      let mark ← markOf form arg
      return (arg, mark) :: (← markAll form args)

abbrev Use := Switch × Option String

structure Turn where
  uses : List Use
  extras : List String
  rest : List (String × Mark)
  deriving DecidableEq, Repr

def Turn.afterSetting (switch : Switch) (turn : Turn) : Turn :=
  { turn with uses := (switch, none) :: turn.uses }

def plainUse (switch : Switch) (rest : List (String × Mark)) : Except UsageFault Turn :=
  if switch.takesValue then
    match rest with
    | (value, .word) :: rest => .ok ⟨[(switch, some value)], [], rest⟩
    | _ => .error (.missingValue switch)
  else .ok ⟨[(switch, none)], [], rest⟩

/-- A short option and the letters after it. They are its value if it takes one, and
otherwise the letters of further options, the last of which may take its value from
there or from the next word. -/
def joinedUses (convention : Convention) (form : Form) (switch : Switch)
    (rest : List (String × Mark)) (equals : Bool) (letters : List Char) :
    Except UsageFault Turn :=
  if switch.takesValue then .ok ⟨[(switch, some (String.ofList letters))], [], rest⟩
  else
    match letters with
    | [] => .error (.ignoredValue switch "")
    | letter :: after =>
      if convention = .newer ∧ (equals = true ∨ letter = '-') then
        .error (.ignoredValue switch (String.ofList (letter :: after)))
      else
        match form.find? (String.ofList ['-', letter]), convention with
        | none, .older => .error (.ignoredValue switch (String.ofList (letter :: after)))
        | none, .newer =>
          .ok ⟨[(switch, none)], [String.ofList ('-' :: letter :: after)], rest⟩
        | some next, convention =>
          Except.map (Turn.afterSetting switch) <|
            match after, convention with
            | [], _ => plainUse next rest
            | '=' :: value, .newer => joinedUses .newer form next rest true value
            | after, convention => joinedUses convention form next rest false after

def turnOf (convention : Convention) (form : Form) (switch : Switch) (attached : Option Attached)
    (rest : List (String × Mark)) : Except UsageFault Turn :=
  match attached with
  | none => plainUse switch rest
  | some (.value text) =>
    if switch.takesValue then .ok ⟨[(switch, some text)], [], rest⟩
    else .error (.ignoredValue switch text)
  | some (.letters equals text) => joinedUses convention form switch rest equals text.toList

inductive Target where
  | screen
  | file (path : Path)
  /-- A file was asked for and none was named. -/
  | unnamed
  deriving DecidableEq, Repr

structure Settings where
  verbose : Bool
  json : Bool
  validate : Bool
  output : Target
  maxSteps : Option Int
  deriving DecidableEq, Repr

def Settings.initial : Settings := ⟨false, false, true, .screen, some Script.defaultBudget⟩

/-- An integer, with blanks around it other than information separators, and
with single underscores between its digits. -/
def wholeNumber? (text : String) : Option Int :=
  let (negative, unsigned) := Numeral.spanSign (Text.trim text.toList)
  let groups := (Text.splitOn '_' unsigned).map Text.spanDigits
  let digits := groups.flatMap Prod.fst
  if text.toList.any Text.isSeparator then none
  else if groups.all (fun (ds, after) => !ds.isEmpty && after.isEmpty) &&
      digits.length ≤ digitLimit then
    let size : Int := Text.valueOfDigits digits
    some (if negative then -size else size)
  else none

def Settings.apply (convention : Convention) (form : Form) (settings : Settings)
    (use : Use) : Except Halt Settings :=
  let (switch, value) := use
  let given :=
    match convention with
    | .older => value.filter (· != "--")
    | .newer => value
  match switch.setting with
  | .help => .error (.help form)
  | .verbose => .ok { settings with verbose := true }
  | .json => .ok { settings with json := true }
  | .noValidate => .ok { settings with validate := false }
  | .output =>
    let target := (given.map fun text => Target.file (.ofText text)).getD .unnamed
    .ok { settings with output := target }
  | .maxSteps =>
    match given with
    | none => .ok { settings with maxSteps := none }
    | some text =>
      match wholeNumber? text with
      | some n => .ok { settings with maxSteps := some n }
      | none => .error (.wrong form (.notInteger switch text))

structure Reading where
  settings : Settings
  found : Option (List String)
  extras : List String
  deriving DecidableEq, Repr

def Reading.leave (reading : Reading) (args : List String) : Reading :=
  { reading with extras := reading.extras ++ args }

/-- How many of the arguments from a plain word on the form takes: all of them
for a command, and a single word, with a double dash beside it, for an input. -/
def taken (takesAll : Bool) : List (String × Mark) → Option (List String × List (String × Mark))
  | (arg, .word) :: rest =>
    if takesAll then some (arg :: rest.map Prod.fst, [])
    else
      match rest with
      | (_, .dashes) :: rest => some ([arg], rest)
      | rest => some ([arg], rest)
  | (dashes, .dashes) :: (arg, .word) :: rest =>
    if takesAll then some (dashes :: arg :: rest.map Prod.fst, []) else some ([arg], rest)
  | _ => none

def readMarks (convention : Convention) (form : Form) (takesAll : Bool) :
    Nat → Reading → List (String × Mark) → Except Halt Reading
  | 0, reading, _ => .ok reading
  | _ + 1, reading, [] => .ok reading
  | fuel + 1, reading, (arg, mark) :: rest =>
    match mark with
    | .unknown => readMarks convention form takesAll fuel (reading.leave [arg]) rest
    | .switch switch attached =>
      match turnOf convention form switch attached rest with
      | .error fault => .error (.wrong form fault)
      | .ok turn => do
        let settings ← turn.uses.foldlM (Settings.apply convention form) reading.settings
        readMarks convention form takesAll fuel
          { reading.leave turn.extras with settings := settings } turn.rest
    | _ =>
      match reading.found, taken takesAll ((arg, mark) :: rest) with
      | none, some (words, rest) =>
        readMarks convention form takesAll fuel { reading with found := some words } rest
      | _, _ => readMarks convention form takesAll fuel (reading.leave [arg]) rest

def readForm (convention : Convention) (form : Form) (takesAll : Bool) (settings : Settings)
    (args : List String) : Except Halt (Reading × List String) :=
  match markAll form args with
  | .error fault => .error (.wrong form fault)
  | .ok marks => do
    -- Every turn uses up arguments, so fuel of their number is enough.
    let reading ← readMarks convention form takesAll marks.length ⟨settings, none, []⟩ marks
    match reading.found with
    | some words => return (reading, words)
    | none => throw (.wrong form (.missing form.required))

structure Request where
  verb : Verb
  input : Path
  settings : Settings
  deriving DecidableEq, Repr

def readBy (convention : Convention) (args : List String) : Except Halt Request := do
  let (outer, words) ← readForm convention .main true .initial args
  match words with
  | [] => throw (.wrong .main (.missing Form.main.required))
  | word :: rest =>
    match Verb.ofWord? word with
    | none => throw (.wrong .main (.unknownVerb word))
    | some verb =>
      let (inner, input) ← readForm convention (.ofVerb verb) false outer.settings rest
      let extras := outer.extras ++ inner.extras
      if extras.isEmpty then return ⟨verb, Path.ofText (input.headD ""), inner.settings⟩
      else throw (.wrong .main (.unrecognized extras))

def read (args : List String) : Except Halt Request := readBy .older args

end BlockScript.Command
