import DocFerry.Model.Select

/-!
# `main.cpp`

`loop` as `main` calls it, with the count 0, and `main` up to its `getchar`. What is left in the map then is
not followed.
-/

namespace DocFerry

variable (E : Env)

/-- The `while` of `loop`, followed for as many rounds as `fuel` says. -/
def loopWhile (m : ℕ) : ℕ → Proc Unit
  | 0 => throw .outOfFuel
  | fuel + 1 => do
    if ((← get).maps m).size = 0 then return
    doSelect E m
    loopWhile m fuel

/-- `loop` -/
def loopCall (fuel count : ℕ) (p_handlers : Option ℕ) : Proc Unit := do
  let m := p_handlers.getD gHandlers
  if ((← get).maps m).size = 0 then return
  if count = 0 then loopWhile E m fuel
  else loop E p_handlers count

/-- `sock_handlers` -/
def sockHandlers : ℕ := 1

/-- `main` -/
def main (fuel : ℕ) : Proc Unit := do
  let srv ← TCPServer.new E none 7890 (some sockHandlers)
  loopCall E fuel 0 (some sockHandlers)
  srv.delete

end DocFerry
