/-!
# Arguments of the command line

The command line is a command with its operands. Options may stand anywhere among them: `--config`
with the path of the limits, which may also stand in front of the command, and `--sexp` for the
command that has it. After `--` all arguments are operands.

Main results:

* `Arguments.request?_help_cons` — a call for help in front of all else is answered, whatever
  follows.
-/

namespace VisualBasic

/-- What the program is asked to do. -/
inductive Command where
  /-- Print the tree of a file, as an outline or as an s-expression. -/
  | parse (file : String) (asSexp : Bool)
  /-- Print the tokens of a file. -/
  | tokens (file : String)
  /-- Print what a query finds in the tree of a file. -/
  | query (file : String) (pattern : String)
  deriving DecidableEq, Repr, Inhabited

/-- A command and the file that its limits are read from. -/
structure Request where
  limitsFile : String := "vbnet-parser.toml"
  command : Command
  deriving DecidableEq, Repr, Inhabited

/-- Why arguments ask for nothing that the program can do. -/
inductive UsageError where
  | noCommand
  | unknownCommand (word : String)
  | unknownOption (word : String)
  | repeatedOption (word : String)
  | missingValue (option : String)
  | missingOperand
  | extraOperand (word : String)
  | emptyPath
  deriving DecidableEq, Repr

def UsageError.message : UsageError → String
  | noCommand => "no command is given"
  | unknownCommand word => s!"there is no command '{word}'"
  | unknownOption word => s!"there is no option '{word}' here"
  | repeatedOption word => s!"the option '{word}' is given twice"
  | missingValue option => s!"the option '{option}' has no value"
  | missingOperand => "an operand is missing"
  | extraOperand word => s!"there is no place for '{word}'"
  | emptyPath => "a path is empty"

namespace Arguments

/-- The names of the commands. -/
inductive CommandName where
  | parse | tokens | query
  deriving DecidableEq, Repr, Inhabited

namespace CommandName

def ofText? : String → Option CommandName
  | "parse" => some parse
  | "tokens" => some tokens
  | "query" => some query
  | _ => none

/-- How many operands the command has. -/
def operandCount : CommandName → Nat
  | parse | tokens => 1
  | query => 2

end CommandName

/-- What an argument looks like, in front of `--`. -/
inductive Form where
  | help
  | sexp
  /-- The option whose value is the next argument. -/
  | config
  | configIs (path : String)
  /-- The end of the options. -/
  | stop
  | unknown
  | operand
  deriving DecidableEq, Repr

def Form.ofText (text : String) : Form :=
  if text == "--help" || text.startsWith "-h" then help
  else if text == "--sexp" then sexp
  else if text == "--config" then config
  else if text == "--" then stop
  else
    match "--config=".toList.isPrefixOf? text.toList with
    | some path => configIs (String.ofList path)
    | none => if text.startsWith "-" && text != "-" then unknown else operand

/-- The arguments that have been read. -/
structure Reading where
  command : Option CommandName := none
  /-- The path of the limits as given in front of the command. -/
  outerLimits : Option String := none
  /-- The path of the limits as given behind the command. -/
  innerLimits : Option String := none
  asSexp : Bool := false
  operands : List String := []
  deriving DecidableEq, Repr, Inhabited

namespace Reading

/-- Adds an operand; the first one is a path. -/
def addOperand (r : Reading) (name : CommandName) (word : String) : Except UsageError Reading :=
  if name.operandCount ≤ r.operands.length then .error (.extraOperand word)
  else if r.operands.isEmpty && word.isEmpty then .error .emptyPath
  else .ok { r with operands := r.operands ++ [word] }

/-- Adds the path of the limits, which is given at most once in front of the command and once behind
it. -/
def addLimits (r : Reading) (path : String) : Except UsageError Reading :=
  let given := if r.command.isSome then r.innerLimits else r.outerLimits
  if given.isSome then .error (.repeatedOption "--config")
  else if path.isEmpty then .error .emptyPath
  else if r.command.isSome then .ok { r with innerLimits := some path }
  else .ok { r with outerLimits := some path }

/-- Adds the option for s-expressions. -/
def addSexp (r : Reading) : Except UsageError Reading :=
  if r.command != some .parse then .error (.unknownOption "--sexp")
  else if r.asSexp then .error (.repeatedOption "--sexp")
  else .ok { r with asSexp := true }

/-- The request that has been read. A path behind the command counts for more than one in front. -/
def request (r : Reading) : Except UsageError Request := do
  let command ← match r.command, r.operands with
    | none, _ => .error .noCommand
    | some .parse, [file] => .ok (.parse file r.asSexp)
    | some .tokens, [file] => .ok (.tokens file)
    | some .query, [file, pattern] => .ok (.query file pattern)
    | some _, _ => .error .missingOperand
  return match r.innerLimits.or r.outerLimits with
    | some limitsFile => { limitsFile, command }
    | none => { command }

end Reading

/-- Reads the arguments one after another. The answer is nothing if help is asked for. -/
def read (r : Reading) : List String → Except UsageError (Option Reading)
  | [] => .ok (some r)
  | word :: rest =>
    match Form.ofText word, r.command with
    | .help, _ => .ok none
    | .sexp, _ => do read (← r.addSexp) rest
    | .configIs path, _ => do read (← r.addLimits path) rest
    | .config, _ =>
      match rest with
      | [] => .error (.missingValue word)
      | path :: rest => do
        if Form.ofText path != .operand then throw (.missingValue word)
        read (← r.addLimits path) rest
    | .stop, some name =>
      (rest.foldlM (fun (r : Reading) word => r.addOperand name word) r).map some
    | .stop, none => .error (rest.head?.elim .noCommand .unknownCommand)
    | .unknown, _ => .error (.unknownOption word)
    | .operand, some name => do read (← r.addOperand name word) rest
    | .operand, none =>
      match CommandName.ofText? word with
      | some name => read { r with command := some name } rest
      | none => if word == "help" then helpTopic rest else .error (.unknownCommand word)
where
  /-- Help may be asked for one command. -/
  helpTopic : List String → Except UsageError (Option Reading)
    | [] => .ok none
    | [topic] =>
      if topic == "help" || (CommandName.ofText? topic).isSome then .ok none
      else .error (.unknownCommand topic)
    | _ :: word :: _ => .error (.unknownCommand word)

/-- The request of a command line, or nothing if it asks for help. -/
def request? (arguments : List String) : Except UsageError (Option Request) := do
  match ← read {} arguments with
  | none => return none
  | some r => return some (← r.request)

theorem request?_help_cons (arguments : List String) :
    request? ("--help" :: arguments) = .ok none := by
  rfl

end Arguments

end VisualBasic
