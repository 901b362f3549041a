import PdiStack.Shell.CommandLine

/-!
# The environment of a session

A name is answered by the first tier that carries it: the names the session knows by
itself, the variables that were set in the session, and the base file.  The values of
the first tier and the base file are the system's and parameters here.
-/

namespace PdiStack.Environment

open StringOperations ShellParser CommandLine

def envNameMax : ℕ := 32

def envSessionMax : ℕ := 8

def derivedNames : List Text := [text "PWD", text "USER", text "UID", text "HOSTNAME"]

def isDerived (key : Text) : Bool := key ∈ derivedNames

def isValidName : Text → Bool
  | [] => false
  | first :: rest =>
    (isAlpha first || first = charUnderscore) && rest.length < envNameMax && rest.all isNameChar

/-- The variables of a session in the order in which they were first set. -/
abbrev Env := List (Text × Text)

def sessionIndexOf (env : Env) (key : Text) : Option ℕ := env.findIdx? fun entry => entry.1 = key

/-- `get`; a name that no tier carries is empty to whoever expands it. -/
def get (derivedValue : Text → Text) (baseValue : Text → Option Text) (env : Env) (key : Text) :
    Text :=
  if isDerived key then derivedValue key
  else ((env.lookup key).or (baseValue key)).getD []

def bind (env : Env) (key value : Text) : Env :=
  match sessionIndexOf env key with
  | some index => env.modify index fun _ => (key, value)
  | none => env ++ [(key, value)]

/-- Whether a session can take a variable: it has it already or has fewer than it may. -/
def hasRoom (env : Env) (key : Text) : Bool :=
  (sessionIndexOf env key).isSome || env.length < envSessionMax

def set (env : Env) (key value : Text) : ℤ × Env :=
  if isValidName key = false then (cmdErrorInval, env)
  else if isDerived key then (cmdErrorPerm, env)
  else if hasRoom env key then (pdiOk, bind env key value)
  else (cmdErrorFailed, env)

theorem set_of_hasRoom {env : Env} {key : Text} (hvalid : isValidName key = true)
    (hderived : isDerived key = false) (hroom : hasRoom env key = true) (value : Text) :
    (set env key value).2 = bind env key value := by
  rw [set, hvalid, if_neg (by decide), hderived, if_neg (by decide), if_pos hroom]

end PdiStack.Environment
