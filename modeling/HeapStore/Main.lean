import HeapStore.Demo

/-!
# Command line

Prints the demonstration.
-/

/-- Runs the demonstration on an empty disk. -/
def main : IO UInt32 := do
  match (HeapStore.Demo.run .blank).1 with
  | .ok lines =>
    for line in lines do IO.println line
    return 0
  | .error cause =>
    IO.eprintln cause.message
    return 1
