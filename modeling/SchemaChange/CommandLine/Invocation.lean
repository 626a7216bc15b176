import SchemaChange.Dialect.Known

/-!
# Invocations

The words of a command line are taken one after the other: a command with its options, in
any order, and one file. The first word that makes no sense decides, as does the first
question for help or for the version.
-/
namespace SchemaChange.CommandLine

/-- What is to be done with the file. -/
inductive Command where
  /-- Split a script into batches. -/
  | split
  /-- Write the SQL of a list of changes. -/
  | generate
  deriving DecidableEq, Repr

/-- The command of a name. -/
def Command.ofName? : String → Option Command
  | "split" => some .split
  | "generate" => some .generate
  | _ => none

/-- An option with a value. -/
inductive Setting where
  | config
  | dialect
  | mode
  | switches
  deriving DecidableEq, Repr

/-- An option without a value. -/
inductive Switch where
  | verbose
  | stripComments
  | help
  | version
  deriving DecidableEq, Repr

/-- Why nothing is run. -/
inductive Stop where
  | misuse
  | help
  | version
  deriving DecidableEq, Repr

/-- How a word of the command line is written. -/
inductive Word where
  /-- Two hyphens alone; only files follow. -/
  | separator
  /-- Two hyphens and a name, perhaps with a value behind an equals sign. -/
  | long (name : String) (attached : Option String)
  /-- A hyphen and letters, each an option. -/
  | short (letters : List Char)
  | plain (text : String)
  deriving DecidableEq, Repr

def Word.ofString (s : String) : Word :=
  match s.toList with
  | ['-', '-'] => .separator
  | '-' :: '-' :: cs =>
      match Text.splitOnce '=' cs with
      | some (name, value) => .long (String.ofList name) (some (String.ofList value))
      | none => .long (String.ofList cs) none
  | '-' :: c :: cs => .short (c :: cs)
  | _ => .plain s

/-- The option of a name; before the command there are only those of every command. -/
def setting? (command : Option Command) (name : String) : Option Setting :=
  match name, command with
  | "config", _ => some .config
  | "dialect", some _ => some .dialect
  | "mode", some .generate => some .mode
  | "switches", some .generate => some .switches
  | _, _ => none

def switch? (command : Option Command) (name : String) : Option Switch :=
  match name, command with
  | "verbose", _ => some .verbose
  | "help", _ => some .help
  | "version", none => some .version
  | "strip-comments", some .split => some .stripComments
  | _, _ => none

def letter? (command : Option Command) (c : Char) : Option Switch :=
  match c, command with
  | 'v', _ => some .verbose
  | 'h', _ => some .help
  | 'V', none => some .version
  | _, _ => none

/-- What has been given so far. Nothing may be given twice. -/
structure Given where
  config : Option String := none
  verbose : Bool := false
  file : Option String := none
  dialect : Option Dialect := none
  mode : Option Mode := none
  switches : Option String := none
  stripComments : Bool := false
  deriving DecidableEq

namespace Given

/-- A name of a file has at least one character. -/
def path (current : Option String) (s : String) : Except Stop (Option String) :=
  if current.isSome || s.isEmpty then .error .misuse else .ok (some s)

/-- A value that a reader of names accepts. -/
def named {α : Type} (current : Option α) (ofName : String → Except Error α) (s : String) :
    Except Stop (Option α) :=
  match current, ofName s with
  | none, .ok a => .ok (some a)
  | _, _ => .error .misuse

def addFile (g : Given) (s : String) : Except Stop Given := do
  return { g with file := ← path g.file s }

def set (g : Given) (value : String) : Setting → Except Stop Given
  | .config => do return { g with config := ← path g.config value }
  | .dialect => do return { g with dialect := ← named g.dialect Dialect.ofName value }
  | .mode => do return { g with mode := ← named g.mode Mode.ofName value }
  | .switches => do return { g with switches := ← named g.switches .ok value }

def turnOn (g : Given) : Switch → Except Stop Given
  | .verbose => if g.verbose then .error .misuse else .ok { g with verbose := true }
  | .stripComments =>
      if g.stripComments then .error .misuse else .ok { g with stripComments := true }
  | .help => .error .help
  | .version => .error .version

/-- Turn on the options of several letters in order. -/
def turnOnLetters (g : Given) (command : Option Command) : List Char → Except Stop Given
  | [] => .ok g
  | c :: cs =>
      match letter? command c with
      | some s => do (← g.turnOn s).turnOnLetters command cs
      | none => .error .misuse

/-- Take a word with two hyphens and a name, and the words behind it; the next one may be its
value unless it is an option itself. -/
def takeLong (g : Given) (command : Option Command) (name : String)
    (attached : Option String) (words : List String) : Except Stop (Given × List String) :=
  match setting? command name, switch? command name, attached, words with
  | some s, _, some value, _ => do return (← g.set value s, words)
  | some s, _, none, value :: rest =>
      match Word.ofString value with
      | .plain value => do return (← g.set value s, rest)
      | _ => .error .misuse
  | none, some s, none, _ => do return (← g.turnOn s, words)
  | _, _, _, _ => .error .misuse

theorem takeLong_length_le {g g' : Given} {command : Option Command} {name : String}
    {attached : Option String} {words rest : List String}
    (h : g.takeLong command name attached words = .ok (g', rest)) :
    rest.length ≤ words.length := by
  simp only [takeLong, bind, Except.bind, pure, Except.pure] at h
  repeat' split at h
  all_goals simp_all

/-- Take the words behind a command. -/
def takeWords (g : Given) (command : Command) : List String → Except Stop Given
  | [] => .ok g
  | word :: words =>
      match Word.ofString word with
      | .separator => words.foldlM addFile g
      | .plain s => do (← g.addFile s).takeWords command words
      | .short letters => do (← g.turnOnLetters (some command) letters).takeWords command words
      | .long name attached =>
          match _h : g.takeLong (some command) name attached words with
          | .ok (g, rest) => g.takeWords command rest
          | .error stop => .error stop
termination_by words => words.length
decreasing_by
  all_goals simp only [List.length_cons]
  all_goals first | omega | exact Nat.lt_succ_of_le (takeLong_length_le _h)

end Given

/-- A complete command line. -/
structure Invocation where
  command : Command
  file : String
  config : Option String
  dialect : Option Dialect
  mode : Option Mode
  switches : Option String
  stripComments : Bool
  deriving DecidableEq

namespace Invocation

/-- The invocation of what is given before and behind the command. -/
def ofGiven (command : Command) (before behind : Given) : Except Stop Invocation :=
  match behind.file with
  | some file => .ok {
      command, file
      config := behind.config.or before.config
      dialect := behind.dialect
      mode := behind.mode
      switches := behind.switches
      stripComments := behind.stripComments }
  | none => .error .misuse

/-- The word help as a command asks for help, perhaps on a command. -/
def help : List String → Stop
  | [] | ["split"] | ["generate"] | ["help"] => .help
  | _ => .misuse

/-- Take the words up to the command, then those behind it. -/
def ofWords (before : Given) : List String → Except Stop Invocation
  | [] => .error .misuse
  | word :: words =>
      match Word.ofString word with
      | .separator => .error .misuse
      | .plain "help" => .error (help words)
      | .plain s =>
          match Command.ofName? s with
          | some command => do ofGiven command before (← Given.takeWords {} command words)
          | none => .error .misuse
      | .short letters => do ofWords (← before.turnOnLetters none letters) words
      | .long name attached =>
          match _h : before.takeLong none name attached words with
          | .ok (before, rest) => ofWords before rest
          | .error stop => .error stop
termination_by words => words.length
decreasing_by
  all_goals simp only [List.length_cons]
  all_goals first | omega | exact Nat.lt_succ_of_le (Given.takeLong_length_le _h)

/-- The invocation of the arguments of the program. -/
def ofArguments (arguments : List String) : Except Stop Invocation := ofWords {} arguments

end Invocation

end SchemaChange.CommandLine
