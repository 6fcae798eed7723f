import Lev.Error

/-!
Which names the target can carry: those that are not empty, hold no NUL and have a UTF-8 encoding.
-/
namespace Lev.Identifier

/-- Why a name cannot be carried. -/
inductive Reason where
  | empty
  | nul
  | surrogate
  deriving DecidableEq

def Reason.message : Reason → Text
  | .empty => lit "name is empty"
  | .nul => lit "name contains a NUL character"
  | .surrogate => lit "not valid UTF-8 (surrogates not allowed)"

/-- The first reason why a name cannot be carried, if there is one. -/
def reason? (name : Text) : Option Reason :=
  if name.isEmpty then some .empty
  else if name.contains (.char (Char.ofNat 0)) then some .nul
  else if name.all CodePoint.isEncodable then none
  else some .surrogate

/-- The error about a name that cannot be carried. -/
def error? (name : Text) : Option ProgramError :=
  (reason? name).map fun reason => .badIdentifier (.text name) reason.message

/-- A value as a name: only texts can be names. -/
def ofJson : Json → Except ProgramError Text
  | .text name =>
    match error? name with
    | some error => .error error
    | none => .ok name
  | value => .error (.badIdentifier value Reason.empty.message)

end Lev.Identifier
