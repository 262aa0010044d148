import JvmAssembler.Dump

/-!
# The program

Lists the constant pool of a class file, or with `--classes` the names of the classes it refers to.
-/

open JvmAssembler

def readContent? (path : String) : IO (Option Binary.Bytes) := do
  try
    return some (← IO.FS.readBinFile path).toList
  catch
    | .noFileOrDirectory .. => return none
    | error => throw error

def main (arguments : List String) : IO UInt32 := do
  let (flags, paths) := arguments.partition (· == "--classes")
  match paths with
  | [path] =>
    let outcome := Dump.run (if flags.isEmpty then .values else .classNames) (← readContent? path)
    IO.print outcome.stdout
    IO.eprint outcome.stderr
    return outcome.exitCode
  | _ =>
    IO.eprintln "usage: [--classes] INPUT"
    return 1
