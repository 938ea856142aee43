/-
The command line: help, the failures that keep the server from starting, and the store that it
starts with.
-/
import AccessRecords.Config
import AccessRecords.Seed

namespace AccessRecords.CommandLine

/-! ## Texts -/

/-- What is printed first. -/
def banner : String :=
  "            _     _                 \n" ++
  "  __ _  ___| |___| |_ ___  _ __ ___ \n" ++
  " / _` |/ __| / __| __/ _ \\| '__/ _ \\\n" ++
  "| (_| | (__| \\__ \\ || (_) | | |  __/\n" ++
  " \\__,_|\\___|_|___/\\__\\___/|_|  \\___|\n"

/-- How to call the program. -/
def usage : String :=
  "aclstore server\n" ++
  "\n" ++
  "USAGE:\n" ++
  "  aclstore_server [--http-port N] [--bind ADDR] [--namespace NS] [--seed PATH]\n" ++
  "\n" ++
  "OPTIONS:\n" ++
  "  --http-port N     HTTP API port (env: ACLSTORE_HTTP_PORT, default 4466)\n" ++
  "  --bind ADDR       Listen address (env: ACLSTORE_BIND, default 0.0.0.0)\n" ++
  "  --namespace NS    Collection prefix for roles/policies " ++
  "(env: ACLSTORE_NAMESPACE, default acl)\n" ++
  "  --seed PATH       JSON file with roles and policies to preload (env: ACLSTORE_SEED)\n"

/-! ## Outcomes -/

/-- What a start of the program comes to. -/
inductive Outcome where
  | help
  | failed (context cause : String)
  | ready (config : Config) (store : Store)

namespace Outcome

/-- A text with every line after the first moved in by four blanks. -/
def indented (s : String) : String :=
  String.ofList (s.toList.flatMap fun c => if c = '\n' then ['\n', ' ', ' ', ' ', ' '] else [c])

/-- What is printed to the standard output. -/
def stdout : Outcome → String
  | .help => banner ++ usage ++ "\n"
  | _ => banner

/-- What is printed to the standard error output. -/
def stderr : Outcome → String
  | .failed context cause =>
    "Error: " ++ context ++ "\n\nCaused by:\n    " ++ indented cause ++ "\n"
  | _ => ""

/-- The exit code. -/
def exitCode : Outcome → UInt8
  | .failed _ _ => 1
  | _ => 0

end Outcome

/-! ## Starting -/

/-- Whether the arguments ask for help. -/
def wantsHelp (args : List String) : Bool :=
  Config.hasFlag args "--help" || Config.hasFlag args "-h"

/-- The configuration to start with, or what comes instead of a start. -/
def configure (args : List String) (env : Table String String) : Except Outcome Config :=
  if wantsHelp args then .error .help
  else (Config.resolve args env).mapError fun problem =>
    .failed "invalid server configuration" problem.message

/-- Starts with an empty store, into which the seed file of the configuration is loaded. -/
def start (config : Config) (readFile : String → Except Unreadable (List UInt8)) : Outcome :=
  match config.seed with
  | none => .ready config ∅
  | some path =>
    match (Store.load config.ns ⟨path, readFile path⟩).runOn ∅ with
    | (.ok _, store) => .ready config store
    | (.error f, _) => .failed ("failed to load seed file " ++ path) f.display

end AccessRecords.CommandLine
