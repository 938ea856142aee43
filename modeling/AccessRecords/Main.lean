/-
The program: it prints the banner, answers a call for help, reports why it cannot start, or prepares
the store. It does not listen on a network address.
-/
import AccessRecords.CommandLine

namespace AccessRecords.Main

/-- The number of an error, which may have been negated. -/
def errorNumber (code : UInt32) : Nat := if code < 0x80000000 then code.toNat else (0 - code).toNat

/-- Why a file could not be read. -/
def reason : IO.Error → Unreadable
  | .noFileOrDirectory _ code details | .invalidArgument _ code details
  | .permissionDenied _ code details | .resourceExhausted _ code details
  | .inappropriateType _ code details | .noSuchThing _ code details
  | .otherError code details => .ofCode (errorNumber code) details
  | error => ⟨toString error, 5⟩

/-- The settings of the environment. -/
def environment : IO (Table String String) := do
  let settings := [Config.httpPortSetting, Config.bindSetting, Config.namespaceSetting,
    Config.seedSetting]
  let values ← settings.mapM fun setting => do
    return (← IO.getEnv setting.variableName).map (setting.variableName, ·)
  return .ofList (values.filterMap id)

/-- The contents of a file. -/
def contents (path : String) : IO (Except Unreadable (List UInt8)) := do
  try
    return .ok (← IO.FS.readBinFile path).toList
  catch error =>
    return .error (reason error)

/-- The outcome of a start. -/
def outcome (args : List String) : IO CommandLine.Outcome := do
  match CommandLine.configure args (← environment) with
  | .error outcome => return outcome
  | .ok config =>
    let file ← contents (config.seed.getD "")
    return CommandLine.start config fun _ => file

end AccessRecords.Main

/-- Runs the program. -/
def main (args : List String) : IO UInt32 := do
  let outcome ← AccessRecords.Main.outcome args
  IO.print outcome.stdout
  IO.eprint outcome.stderr
  return outcome.exitCode.toUInt32
