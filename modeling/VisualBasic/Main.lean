import VisualBasic.CommandLine.Report

/-!
# The program

Reads the files that the command line names and prints the report.
-/

namespace VisualBasic

/-- What is found under a path of the file system. -/
def FileContent.load (path : String) : IO FileContent := do
  try
    let bytes ← IO.FS.readBinFile path
    return match String.fromUTF8? bytes with
      | some content => .text content.toList
      | none => .binary
  catch
    | .noFileOrDirectory .. => return .missing
    -- What is there but has no content to read is taken for a directory.
    | _ => return .directory

end VisualBasic

def main (arguments : List String) : IO UInt32 := do
  let contents ← (VisualBasic.Report.paths arguments).mapM fun path => do
    return (path, ← VisualBasic.FileContent.load path)
  let report := VisualBasic.Report.ofArguments (fun path => (contents.lookup path).getD .missing)
    arguments
  IO.print report.output
  IO.eprint report.errors
  return report.status.toUInt32
