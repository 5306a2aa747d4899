import Rehearsal.Run
import Rehearsal.Text.Blank
/-!
# Deployments

Where and how the program runs is told by variables of its environment.

* `Deployment.ofEnvironment`: only the mode must be told, everything else has a default. The
  variables are read in a fixed order; **the first fault decides**.
* `Deployment.shortcomings`: what is fine on a developer's machine and not in production.
-/

namespace Rehearsal

/-- What the program is run for. -/
inductive Mode where
  | development
  | production
deriving DecidableEq, Repr, Inhabited

namespace Mode

def name : Mode → String
  | .development => "development"
  | .production => "production"

/-- The mode of a name or of its abbreviation, in any case. -/
def parse? (s : String) : Option Mode :=
  let t := Text.lower s
  if t = "development" || t = "dev" then some .development
  else if t = "production" || t = "prod" then some .production
  else none

end Mode

/-- Where and how the program runs. -/
structure Deployment where
  mode : Mode
  workDir : Path
  /-- The runner. -/
  program : String
  /-- What the runner is always given. -/
  arguments : List String
  /-- Seconds for one use of the runner. -/
  timeout : Nat
  /-- The browser of a request that names none. -/
  browser : Browser
  /-- Hours for which a leftover workspace is kept. -/
  retention : Nat
  /-- Seconds between two sweeps. -/
  sweepInterval : Nat
deriving DecidableEq

/-- Why the variables do not tell of a deployment. -/
inductive DeploymentFault where
  | missing (name : String)
  | invalid (detail : String)
  | unfit (shortcomings : List String)
deriving DecidableEq, Repr

/-- The wording of a fault. -/
def DeploymentFault.message : DeploymentFault → String
  | .missing name => "Missing required environment variable: " ++ name
  | .invalid detail => "Invalid configuration value: " ++ detail
  | .unfit shortcomings =>
    "Production configuration validation failed:\n"
      ++ String.intercalate "\n" (shortcomings.map fun s => "  - " ++ s)

namespace Deployment

/-- A natural number of 64 bits: decimal digits, perhaps behind a plus sign. -/
def natural64? (s : String) : Option Nat :=
  let digits := match s.toList with
    | '+' :: rest => rest
    | cs => cs
  if digits.isEmpty || !digits.all Char.isDigit then none
  else
    let n := digits.foldl (fun n c => 10 * n + (c.toNat - '0'.toNat)) 0
    if n < 0x10000000000000000 then some n else none

/-- The value of each variable that is set. -/
abbrev Environment := String → Option String

/-- A number that is told by a variable. -/
def number (env : Environment) (name : String) (standard : Nat) :
    Except DeploymentFault Nat :=
  match env name with
  | none => .ok standard
  | some s =>
    match natural64? s with
    | some n => .ok n
    | none => .error (.invalid (name ++ " must be a valid number"))

/-- The mode that must be told. -/
def modeOf (env : Environment) : Except DeploymentFault Mode :=
  match env "RUST_ENV" with
  | none => .error (.missing "RUST_ENV")
  | some s =>
    match Mode.parse? s with
    | some m => .ok m
    | none => .error (.invalid "RUST_ENV must be 'development' or 'production'")

/-- The browser that is told by a variable. -/
def browserOf (env : Environment) : Except DeploymentFault Browser :=
  match Browser.parse? ((env "NCPW_DEFAULT_BROWSER").getD "chromium") with
  | some b => .ok b
  | none => .error (.invalid "NCPW_DEFAULT_BROWSER must be chromium, firefox or webkit")

/-- What stands against a use in production. -/
def shortcomings (d : Deployment) : List String :=
  (if d.workDir.isAbsolute then []
    else ["NCPW_WORK_DIR " ++ Error.quoted d.workDir.text
      ++ " is relative. Set an absolute workspace directory."])
  ++ (if d.timeout = 0 then ["NCPW_RUNNER_TIMEOUT_SECS is 0. Set a positive runner timeout."]
    else [])

/-- A deployment that is fit for its mode. -/
def fit (d : Deployment) : Except DeploymentFault Deployment :=
  if d.mode = .production && !d.shortcomings.isEmpty then .error (.unfit d.shortcomings)
  else .ok d

/-- The deployment that an environment tells of. -/
def ofEnvironment (env : Environment) : Except DeploymentFault Deployment := do
  let mode ← modeOf env
  let timeout ← number env "NCPW_RUNNER_TIMEOUT_SECS" 1800
  let browser ← browserOf env
  let retention ← number env "NCPW_WORKSPACE_RETENTION_HOURS" 24
  let sweepInterval ← number env "NCPW_CLEANUP_INTERVAL_SECS" 3600
  fit {
    mode := mode
    workDir := ⟨(env "NCPW_WORK_DIR").getD "./temp"⟩
    program := (env "NCPW_RUNNER_PROGRAM").getD "npx"
    arguments := Text.words ((env "NCPW_RUNNER_ARGS").getD "playwright test")
    timeout := timeout
    browser := browser
    retention := retention
    sweepInterval := sweepInterval }

/-- How runs are carried out. -/
def runSettings (d : Deployment) : RunSettings := ⟨d.workDir, d.timeout * 1000, .standard⟩

end Deployment

end Rehearsal
