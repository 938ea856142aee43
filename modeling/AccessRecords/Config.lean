/-
Configuration: each setting comes from the command line if it is given there, else from the
environment, else from the defaults. A setting of the environment is not looked at, valid or not,
when the command line gives it.
-/
import AccessRecords.Table
import AccessRecords.Text.Blank
import AccessRecords.Text.Numeral

namespace AccessRecords

/-- The settings of the server. -/
structure Config where
  httpPort : Nat := 4466
  bind : String := "0.0.0.0"
  ns : String := "acl"
  seed : Option String := none
deriving DecidableEq, Repr, Inhabited

namespace Config

/-- Why there is no configuration. -/
inductive Problem where
  | invalidPort (source value : String)
  | missingValue (flag : String)
  | invalidNamespace (ns : String)
deriving DecidableEq, Repr, Inhabited

/-- The wording of a problem. -/
def Problem.message : Problem → String
  | .invalidPort source value => "invalid port '" ++ value ++ "' for " ++ source
  | .missingValue flag => "flag " ++ flag ++ " expects a value"
  | .invalidNamespace ns =>
    "namespace must be non-empty and must not start or end with '/': '" ++ ns ++ "'"

/-! ## Sources -/

/-- A setting's flag on the command line and its name in the environment. -/
structure Setting where
  flag : String
  variableName : String
deriving DecidableEq, Repr, Inhabited

/-- Where to listen for HTTP. -/
def httpPortSetting : Setting := ⟨"--http-port", "ACLSTORE_HTTP_PORT"⟩

/-- The address to listen on. -/
def bindSetting : Setting := ⟨"--bind", "ACLSTORE_BIND"⟩

/-- The namespace of the collections. -/
def namespaceSetting : Setting := ⟨"--namespace", "ACLSTORE_NAMESPACE"⟩

/-- The file that the store starts with. -/
def seedSetting : Setting := ⟨"--seed", "ACLSTORE_SEED"⟩

/-- Whether a text starts like a flag. -/
def looksLikeFlag (s : String) : Bool := ['-', '-'].isPrefixOf s.toList

/-- Whether a flag occurs on the command line. -/
def hasFlag (args : List String) (flag : String) : Bool := args.contains flag

/-- The argument after the first occurrence of a flag. It must be there and not look like a flag. -/
def argument? (flag : String) : List String → Except Problem (Option String)
  | [] => .ok none
  | arg :: rest =>
    if arg = flag then
      match rest with
      | value :: _ =>
        if looksLikeFlag value then .error (.missingValue flag) else .ok (some value)
      | [] => .error (.missingValue flag)
    else argument? flag rest

/-- The text of a setting and where it was found. -/
def lookUp (args : List String) (env : Table String String) (setting : Setting) :
    Except Problem (Option (String × String)) := do
  match ← argument? setting.flag args with
  | some value => return some (setting.flag, value)
  | none => return (env.get? setting.variableName).map (setting.variableName, ·)

/-! ## Resolution -/

/-- The number of 16 bits that a text writes, blanks around it ignored. -/
def readPort (source value : String) : Except Problem Nat :=
  match Text.readUInt16? (Text.trim value) with
  | some number => .ok number
  | none => .error (.invalidPort source value)

/-- Whether a namespace is not empty and neither starts nor ends with a slash. -/
def isNamespace (ns : String) : Bool :=
  !ns.isEmpty && ns.toList.head? != some '/' && ns.toList.getLast? != some '/'

/-- The configuration that a command line and an environment give. -/
def resolve (args : List String) (env : Table String String) : Except Problem Config := do
  let httpPort ← match ← lookUp args env httpPortSetting with
    | some (source, value) => readPort source value
    | none => pure ({} : Config).httpPort
  let bind ← lookUp args env bindSetting
  let ns ← lookUp args env namespaceSetting
  let ns := (ns.map (·.2)).getD ({} : Config).ns
  if !isNamespace ns then throw (.invalidNamespace ns)
  let seed ← lookUp args env seedSetting
  return {
    httpPort
    bind := (bind.map (·.2)).getD ({} : Config).bind
    ns
    seed := (seed.map (·.2)).filter fun path => !(Text.trim path).isEmpty }

/-- The address to listen on, with the number of the listener. -/
def listenAddress (c : Config) : String := c.bind ++ ":" ++ toString c.httpPort

end Config

end AccessRecords
