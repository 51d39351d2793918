/-! # Example program

A counted loop, a forward branch, a jump and a closing loop on itself.
-/
namespace FetchStage.Assembly

def exampleProgram : String :=
  "# Simple loop with branches\n" ++
  "\n" ++
  "        addi x1, x0, 10      # loop counter\n" ++
  "        addi x2, x0, 0       # sum\n" ++
  "\n" ++
  "loop:\n" ++
  "        addi x2, x2, 1\n" ++
  "        addi x1, x1, -1\n" ++
  "        bne x1, x0, loop\n" ++
  "\n" ++
  "        addi x3, x0, 100\n" ++
  "        addi x4, x0, 50\n" ++
  "\n" ++
  "        blt x4, x3, taken\n" ++
  "        addi x5, x0, 1       # not-taken path\n" ++
  "        jal x0, end\n" ++
  "\n" ++
  "taken:\n" ++
  "        addi x5, x0, 2       # taken path\n" ++
  "\n" ++
  "end:\n" ++
  "        addi x6, x0, 0\n" ++
  "        beq x0, x0, end\n"

end FetchStage.Assembly
