import Stepflow.Datum
import Stepflow.Failure

/-!
# Stepflow.Arguments — giving data to the parameters of a function

Arguments come in order or under the name of a parameter.  A name that no parameter has is told
first, then arguments in order that are too many, then a parameter that is left without one.
-/

namespace Stepflow

/-- A parameter of a function, and what it stands for if it is given nothing. -/
structure Parameter where
  name : String
  usual? : Option Datum

namespace Parameter

/-- A parameter that has to be given an argument. -/
def needed (name : String) : Parameter := ⟨name, none⟩

/-- A parameter that may be left out. -/
def optional (name : String) (usual : Datum) : Parameter := ⟨name, some usual⟩

/-- The arguments of parameters that none was given to in order. -/
def settle (function : String) (named : List (String × Datum)) :
    List Parameter → Except Failure (List Datum)
  | [] => .ok []
  | p :: rest =>
    match (named.lookup p.name).or p.usual? with
    | none => .error (.missingArgument function p.name)
    | some d => (settle function named rest).map (d :: ·)

/-- The argument of every parameter. -/
def bind (function : String) (parameters : List Parameter) (ordered : List Datum)
    (named : List (String × Datum)) : Except Failure (List Datum) :=
  match named.find? (fun e => !parameters.any (·.name == e.1)) with
  | some e => .error (.unexpectedArgument function e.1)
  | none =>
    if parameters.length < ordered.length then
      .error (.surplusArguments function (parameters.filter (·.usual?.isNone)).length
        parameters.length ordered.length)
    else (settle function named (parameters.drop ordered.length)).map (ordered ++ ·)

/-- The names and data of entries that are given by name. -/
def named : List (Datum × Datum) → Except Failure (List (String × Datum))
  | [] => .ok []
  | (.text k, d) :: rest => (named rest).map ((k, d) :: ·)
  | _ :: _ => .error (.outside .type "keywords must be strings")

end Parameter

end Stepflow
