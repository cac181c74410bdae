import Tabletop.Console

/-!
# The program

Talks to the user on the standard channels, with random dice.
-/

namespace Tabletop

instance : Roller StdGen where
  one sides g := randNat g 1 sides
  many count sides := Roller.repeated (fun g => randNat g 1 sides) count

def Console.Printed.print (p : Console.Printed) : IO Unit := do
  let out ← IO.getStdout
  let err ← IO.getStderr
  err.putStr (String.ofList p.err)
  out.putStr (String.ofList p.out)
  out.flush

/-- Answers line after line until the input ends. -/
partial def converse (input : IO.FS.Stream) (s : Session StdGen) : IO Unit := do
  Console.Printed.print ⟨Console.prompt, []⟩
  let line ← input.getLine
  if line.isEmpty then return
  let (shown, s) := Console.take s line.toList
  shown.print
  converse input s

end Tabletop

def main : IO Unit := do
  let bytes ← IO.getRandomBytes 8
  let seed := bytes.foldl (fun n b => n * 256 + b.toNat) 0
  Tabletop.converse (← IO.getStdin) (.start {} (mkStdGen seed))
