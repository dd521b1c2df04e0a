import SyscallTrace.Command.Run

/-!
# The command

Reads the files that the command line names, and writes the report of the run.
-/

open SyscallTrace SyscallTrace.Command

/-- Reads a file, and tells why if it cannot be read. -/
def readFileText (path : Text) : IO FileText := do
  try
    return FileText.ofBytes (← IO.FS.readBinFile (String.ofList path))
  catch
    | .noFileOrDirectory .. => return .error .notFound
    | .invalidArgument .. => return .error .nameTooLong
    | .inappropriateType _ code _ =>
      -- the number of the system error may come negated
      return .error (if code = 20 ∨ code = -20 then .notDirectory else .isDirectory)
    | _ => return .error .isDirectory

def main (args : List String) : IO UInt32 := do
  let request := Request.ofWords (args.map String.toList)
  let files ← request.paths.mapM fun path => do return (path, ← readFileText path)
  let report := run request fun path => (files.lookup path).getD (.error .notFound)
  IO.print (String.ofList (Text.unlines report.output))
  IO.eprint (String.ofList (Text.unlines report.errors))
  return UInt32.ofNat report.exit
