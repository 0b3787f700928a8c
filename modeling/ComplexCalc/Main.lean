import ComplexCalc.Console.Run

/-! The command line: arguments and standard input in, the events of the run out. -/

namespace ComplexCalc.Console

def emit (event : Event) : IO Unit := do
  let stdout ← IO.getStdout
  stdout.putStr event.output
  stdout.flush
  IO.eprint event.errors

/-- Reads a line with its end; the result is empty only at the end of the input. -/
partial def readLine (stdin : IO.FS.Stream) (read : List UInt8) : IO (List UInt8) := do
  let bytes ← stdin.read 1
  match bytes.toList with
  | [] => return read.reverse
  | b :: _ => if b = 10 then return (b :: read).reverse else readLine stdin (b :: read)

partial def converse (o : Options) (s : Session) : IO Unit := do
  emit .prompt
  let bytes ← readLine (← IO.getStdin) []
  let (events, next) := answerLine o s (if bytes.isEmpty then none else decodeLine bytes)
  events.forM emit
  match next with
  | some s => converse o s
  | none => return

end ComplexCalc.Console

open ComplexCalc.Console in
def main (arguments : List String) : IO UInt32 := do
  match Options.ofArguments? arguments with
  | none =>
    IO.eprintln "usage: complexcalc [-d|--dump-tree] [-v|--verbose] [--] [INPUT]"
    return 2
  | some o =>
    match o.input with
    | some text =>
      let t := runBatch o text
      t.events.forM emit
      return UInt32.ofNat t.code
    | none =>
      converse o (.start o.verbose)
      return 0
