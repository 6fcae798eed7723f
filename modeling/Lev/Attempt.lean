import Lev.Error

/-!
Computations on a state that may fail and keep what they did to the state when they do.
-/
namespace Lev

/-- From a state, a result or a fault, and the state afterwards in either case. -/
def Attempt (σ α : Type) : Type := σ → Except Fault α × σ

namespace Attempt
variable {σ α β : Type}

def pure (a : α) : Attempt σ α := fun state => (.ok a, state)

/-- Goes on with the result; a fault ends the computation in the state it was met in. -/
def bind (first : Attempt σ α) (next : α → Attempt σ β) : Attempt σ β := fun state =>
  match first state with
  | (.ok a, after) => next a after
  | (.error fault, after) => (.error fault, after)

instance : Monad (Attempt σ) where
  pure := Attempt.pure
  bind := Attempt.bind

/-- Fails. -/
def fail (fault : Fault) : Attempt σ α := fun state => (.error fault, state)

/-- Fails because of the program. -/
def reject (error : ProgramError) : Attempt σ α := fail (.program error)

/-- Looks at the state. -/
def read (view : σ → α) : Attempt σ α := fun state => (.ok (view state), state)

/-- Changes the state. -/
def modify (change : σ → σ) : Attempt σ Unit := fun state => (.ok (), change state)

/-- Changes the state and gives a result. -/
def update (change : σ → α × σ) : Attempt σ α := fun state =>
  let (a, after) := change state
  (.ok a, after)

/-- A result that does not depend on the state. -/
def ofExcept (result : Except Fault α) : Attempt σ α := fun state => (result, state)

end Attempt

end Lev
