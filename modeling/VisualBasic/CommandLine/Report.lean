import VisualBasic.CommandLine.Arguments
import VisualBasic.Limits.Configuration
import VisualBasic.Query.Match
import VisualBasic.Tree.Outline
import VisualBasic.Tree.Sexp

/-!
# Reports

What the program answers to a command line: the text that it prints, what it has to say about
errors, and its status. The status is zero if all went well, one if something is wrong with a file
or a query, and two if the command line asks for nothing that can be done.

Files are looked up by their paths, so a report is a function of the command line and of what is
found under the paths that it names.

Main results:

* `Report.ofArguments_congr` — only the files that the command line names matter.
-/

namespace VisualBasic

/-! ## Files -/

/-- What is found under a path. -/
inductive FileContent where
  | missing
  | directory
  /-- Bytes that are no text in UTF-8. -/
  | binary
  | text (chars : List Char)
  deriving DecidableEq, Repr, Inhabited

/-- Why a file cannot be read. -/
inductive ReadFailure where
  | missing
  | directory
  | binary
  deriving DecidableEq, Repr

def ReadFailure.message : ReadFailure → String
  | missing => "No such file or directory (os error 2)"
  | directory => "Is a directory (os error 21)"
  | binary => "stream did not contain valid UTF-8"

def FileContent.read : FileContent → Except ReadFailure (List Char)
  | missing => .error .missing
  | directory => .error .directory
  | binary => .error .binary
  | text chars => .ok chars

/-! ## Failures -/

/-- Why a command cannot be carried out. -/
inductive CommandError where
  | unreadable (path : String) (reason : ReadFailure)
  | malformedLimits (path : String)
  | limit (reason : LimitError)
  | query (reason : QueryError)
  deriving DecidableEq, Repr

def CommandError.message : CommandError → String
  | unreadable path reason => s!"Failed to read {path}: {reason.message}"
  | malformedLimits path => s!"Failed to parse {path}: it gives no limits"
  | limit reason => reason.message
  | query reason => reason.message

/-- What the program prints and the status that it ends with. -/
structure Report where
  status : Nat
  output : String := ""
  errors : String := ""
  deriving DecidableEq, Repr, Inhabited

namespace Report

/-- Whole lines as one text. -/
def ofLines (lines : List String) : String := String.join (lines.map (· ++ "\n"))

/-! ## Commands -/

/-- The text of a file. -/
def source (files : String → FileContent) (path : String) : Except CommandError (List Char) :=
  (files path).read.mapError (.unreadable path)

/-- The limits that a file gives, or the defaults if there is no such file. -/
def limits (files : String → FileContent) (path : String) : Except CommandError Limits := do
  if files path = .missing then return {}
  let text ← source files path
  match Limits.ofToml text with
  | .ok limits => return limits
  | .error .malformed => throw (.malformedLimits path)
  | .error (.refused reason) => throw (.limit reason)

/-- The tree of a file. -/
def tree (files : String → FileContent) (limits : Limits) (path : String) :
    Except CommandError Tree := do
  (Tree.parseWithin limits (← source files path)).mapError .limit

/-- What there is to say about a tree, line by line. -/
def diagnostics (path : String) (t : Tree) : String :=
  ofLines (t.diagnostics.map fun d => s!"{path}:{d.toText}")

def ofParse (path : String) (asSexp : Bool) (t : Tree) : Report where
  status := if t.hasError then 1 else 0
  output := if asSexp then ofLines [t.sexp] else t.outlineText
  errors := diagnostics path t

def ofTokens (path : String) (source : List Char) : Report :=
  let stream := TokenStream.ofText source
  { status := if stream.errors.isEmpty then 0 else 1
    output := ofLines (stream.toList.map fun token =>
      s!"{token.point.toText} {token.kind.name} {Text.quoted (token.span.slice source)}")
    errors := ofLines (stream.errors.map fun e => s!"{path}: {e.toText}") }

def ofQuery (path : String) (q : Query) (t : Tree) : Report where
  status := 0
  output := ofLines ((q.capturesIn t).filterMap fun c =>
    (t.node? c.node).map fun n =>
      s!"{(t.startPoint n).toText} {q.captureName c.number} {String.ofList (t.text n)}")
  errors := diagnostics path t

/-- Carries out a command. A query is read before the file that it is for. -/
def ofCommand (files : String → FileContent) (limits : Limits) :
    Command → Except CommandError Report
  | .parse path asSexp => return ofParse path asSexp (← tree files limits path)
  | .tokens path => do
    let text ← source files path
    (limits.checkInput (Text.byteLength text)).mapError .limit
    return ofTokens path text
  | .query path pattern => do
    let q ← (Query.ofText pattern.toList).mapError .query
    return ofQuery path q (← tree files limits path)

/-- Carries out a request; its limits come first. -/
def ofRequest (files : String → FileContent) (r : Request) : Report :=
  let report := do ofCommand files (← limits files r.limitsFile) r.command
  match report with
  | .ok report => report
  | .error e => { status := 1, errors := ofLines [s!"error: {e.message}"] }

/-! ## Command lines -/

def usage : String := ofLines [
  "Concrete syntax trees of Visual Basic sources",
  "",
  "Commands:",
  "  parse FILE [--sexp]   print the tree of a file",
  "  tokens FILE           print the tokens of a file",
  "  query FILE PATTERN    print what a query finds in a file",
  "",
  "Options:",
  "  --config FILE         read the limits from a file",
  "  --help                print this text"]

/-- The paths of the files that a command line names. -/
def paths (arguments : List String) : List String :=
  match Arguments.request? arguments with
  | .ok (some r) =>
    match r.command with
    | .parse file _ | .tokens file | .query file _ => [r.limitsFile, file]
  | _ => []

/-- The answer to a command line. -/
def ofArguments (files : String → FileContent) (arguments : List String) : Report :=
  match Arguments.request? arguments with
  | .ok (some r) => ofRequest files r
  | .ok none => { status := 0, output := usage }
  | .error e => { status := 2, errors := ofLines [s!"error: {e.message}"] }

theorem ofArguments_congr {files files' : String → FileContent} {arguments : List String}
    (h : ∀ path ∈ paths arguments, files path = files' path) :
    ofArguments files arguments = ofArguments files' arguments := by
  unfold paths at h
  unfold ofArguments
  split
  · next r found =>
    simp only [found] at h
    rcases r with ⟨limitsFile, command⟩
    cases command <;>
      simp only [List.mem_cons, List.not_mem_nil, or_false, forall_eq_or_imp, forall_eq] at h <;>
      simp [ofRequest, ofCommand, limits, tree, source, h.1, h.2]
  · rfl
  · rfl

end Report

end VisualBasic
