/-
The program: it looks at the files a run may read, runs, and prints.
-/
import IntCalculus.Command.Run

open IntCalculus

/-- What stands at a path, as far as an attempt to read it tells. -/
def entryAt (path : String) : IO Entry := do
  if path.toList.contains '\x00' then return .missing .holdsNul
  try
    let text ← IO.FS.readFile path
    return .file text
  catch
    | .inappropriateType _ code _ =>
      return if code = 21 then .directory else .missing .notDirectory
    | .invalidArgument _ code _ =>
      return .missing (if code = 36 then .nameTooLong else .notFound)
    | .permissionDenied _ _ _ => return .unreadable .denied
    | .userError _ => return .unreadable .notText
    | _ => return .missing .notFound

def main (arguments : List String) : IO UInt32 := do
  let environment ← ["SYMDIFF_CONFIG", "SYMDIFF_OVERFLOW", "SYMDIFF_LIKE_TERMS", "SYMDIFF_LOG_LEVEL",
    "SYMDIFF_DEBUG", "SYMDIFF_OUTPUT", "RUST_LOG"].filterMapM fun name => do
      let value ← IO.getEnv name
      return value.map fun text => (name, text)
  let directory ← IO.currentDir
  -- Where `HOME` says nothing, the users' records would, and these are not read here.
  let home := (← IO.getEnv "HOME").filter (· != "")
  let nothing : Files := fun _ => .missing .notFound
  let surroundings : Surroundings := ⟨environment, toString directory, home, nothing⟩
  let entries ← (Command.pathsRead surroundings arguments).mapM fun path => do
    return (path, ← entryAt path)
  let files : Files := fun path => (entries.lookup path).getD (.missing .notFound)
  let run := Command.run { surroundings with files := files } arguments
  for record in run.log do
    IO.eprintln ("[" ++ record.level.word ++ " " ++ Command.programName ++ "] " ++ record.message)
  IO.print run.stdout
  if let some page := run.help then
    IO.println page.about
    IO.print page.notes
  match run.failure with
  | some failure => IO.eprintln ("Error: " ++ Command.report failure)
  | none => if run.usageError then IO.eprintln "For more information, try '--help'."
  return run.exitCode.toUInt32
