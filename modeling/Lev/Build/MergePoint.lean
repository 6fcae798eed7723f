import Lev.Build.Frame

/-!
Merge points: the phis at the head of a loop. Each is opened with the edge from the block before the
loop and closed, once, with the edge from the latch. The latch carries what the body leaves the name
bound to, if it is represented as before, and the phi's own value otherwise.
-/
namespace Lev.MergePoint

/-- Opens merge points for those of the names that are bound. -/
def openAll (env : Environment) (preheader : Text) : List Text → Build (List MergePoint)
  | [] => pure []
  | name :: rest =>
    match env.lookup? name with
    | none => openAll env preheader rest
    | some binding => do
      let base ← Build.identifier name
      let phi ← Build.register base
      let type := binding.value.type
      Build.emit (.phi phi type [(binding.value, preheader)])
      let points ← openAll env preheader rest
      pure (⟨name, phi, type, binding.levity, preheader, none⟩ :: points)

/-- The line of the log about merge points that were opened in a block. -/
def openedLine (points : List MergePoint) (block : Text) : Text :=
  lit "lowering.loops: Opened " ++ Text.ofNat points.length ++ lit " merge point(s) in " ++ block ++
    lit ": " ++ Text.join (lit ", ") (points.map MergePoint.name)

/-- Opens the merge points of a loop whose condition reads the given names. -/
def openFor (reads : List Text) (env : Environment) (preheader : Text) : Build (List MergePoint) := do
  let points ← openAll env preheader (Text.sortDistinct reads)
  if points.isEmpty then pure points
  else do
    Build.note (openedLine points (← Build.currentBlock))
    pure points

/-- The environment in which the names of merge points stand for their phis. -/
def bindAll (env : Environment) (points : List MergePoint) : Environment :=
  points.foldl (fun env point => env.bind point.name point.value point.levity) env

/-- What the latch carries for a merge point. -/
def carried (point : MergePoint) (env : Environment) : Value :=
  match env.lookup? point.name with
  | some binding =>
    if binding.levity.sameKind point.levity && binding.value.type = point.type then binding.value
    else point.value
  | none => point.value

/-- Adds the edge from the latch to a function's phi. -/
def close (point : MergePoint) (fn : Function) (value : Value) (latch : Text) :
    Except Fault (MergePoint × Function) :=
  match point.latch with
  | some block => .error (.alreadyClosed point.name block)
  | none => .ok ({ point with latch := some latch }, fn.addIncoming point.phi (value, latch))

/-- Closes merge points with what an environment leaves to the latch. -/
def closeAll (env : Environment) (latch : Text) : List MergePoint → Build (List MergePoint)
  | [] => pure []
  | point :: rest => do
    let fn ← Attempt.read Frame.function
    let (closed, fn) ← Attempt.ofExcept (point.close fn (point.carried env) latch)
    Attempt.modify fun frame => { frame with function := fn }
    Build.note (lit "lowering.loops: Patched merge point " ++ point.name ++ lit " from " ++ latch)
    let points ← closeAll env latch rest
    pure (closed :: points)

end Lev.MergePoint
