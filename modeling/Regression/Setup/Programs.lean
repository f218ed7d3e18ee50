import Regression.Setup.Basic

namespace Regression.Setup

def compilerPath (s : Setup) : Path :=
  match s.settings.compiler with
  | some p => s.cwd / p.text
  | none => s.layout.home / "bin" / s.toolchain.hostBinSubdirectory / "chpl"

/-- The compiler, the options of tests and how they are launched. -/
def programs (s : Setup) (execopts : String) : Arranging Unit := do
  let o := s.settings
  let compiler := s.compilerPath
  if !(← getThe Machine).isExecutable compiler then
    throw (.fatal (.noCompiler compiler))
  note ("[compiler: \"" ++ compiler.text ++ "\"]")
  modify fun c => { c with compiler }
  note ("[compopts: \"" ++ o.compoptsValue ++ "\"]")
  provide "COMPOPTS" o.compoptsValue
  note ("[execopts: \"" ++ execopts ++ "\"]")
  provide "EXECOPTS" execopts
  let launchCmd := o.launchCmd.getD ""
  note ("[launchcmd: \"" ++ launchCmd ++ "\"]")
  provide "LAUNCHCMD" ((← get).environment.expand launchCmd)

/-- The toolchain's configuration as tests see it. -/
def configuration (s : Setup) : Arranging Unit := do
  let t := s.toolchain
  note ("[comm: \"" ++ t.comm ++ "\"]")
  provide "CHPL_COMM" t.comm
  provide "CHPL_GASNET_SEGMENT" t.commSegment
  provide "CHPL_LAUNCHER" t.launcher
  note ("[networkAtomics: \"" ++ t.networkAtomics ++ "\"]")
  provide "CHPL_NETWORK_ATOMICS" t.networkAtomics
  note ("[localeModel: \"" ++ t.localeModel ++ "\"]")
  provide "CHPL_LOCALE_MODEL" t.localeModel
  provide "CHPL_LLVM" t.llvm
  provide "CHPL_TASKS" t.tasks

/-- Launchers that pass standard input on to the program. -/
def stdinLaunchers : List String := ["none", "amudprun", "slurm-srun"]

/-- What the launcher can do, unless the environment says. -/
def launching (launcher : String) : Arranging Unit := do
  if !stdinLaunchers.contains launcher && !(← filled "CHPL_NO_STDIN_REDIRECT") &&
      !(← filled "CHPL_TEST_FORCE_STDIN_REDIRECT") then
    say "[Info: assuming stdin redirection is not supported, skipping tests with stdin]"
    provide "CHPL_NO_STDIN_REDIRECT" "true"
  if !(← filled "CHPL_LAUNCHER_TIMEOUT") && !(← filled "CHPL_TEST_DONT_SET_LAUNCHER_TIMEOUT") then
    if Text.contains launcher "slurm" then
      provide "CHPL_LAUNCHER_TIMEOUT" "slurm"
    if Text.contains launcher "pbs" || Text.contains launcher "qsub" then
      provide "CHPL_LAUNCHER_TIMEOUT" "pbs"

def locales (s : Setup) : Arranging Unit := do
  let o := s.settings
  let comm := s.toolchain.comm
  let count := if o.numLocales = 0 ∧ comm ≠ "none" then 1 else o.numLocales
  if count = 0 then
    note "[numlocales: \"(default)\"]"
  else
    note ("[numlocales: \"" ++ toString count ++ "\"]")
  provide "NUMLOCALES" (toString count)
  if o.maxLocales = 0 then
    note "[max_locales: \"(default)\"]"
  else
    note ("[max_locales: \"" ++ toString o.maxLocales ++ "\"]")
    provide "CHPL_TEST_MAX_LOCALES" (toString o.maxLocales)
  if o.multilocaleOnly then
    if comm ≠ "none" then
      provide "CHPL_TEST_MULTILOCALE_ONLY" "true"
    else
      note "[Warning: Ignoring --multilocale-only for CHPL_COMM=none]"

/-- Scripts for all tests, each of which must be executable, seen from the starting directory. -/
def systemScripts (cwd : Path) (role : ScriptRole) : List Path → Job (List Path)
  | [] => return []
  | script :: rest => do
    let p := cwd / script.text
    if !(← get).isExecutable p then
      throw (.fatal (.noScript role script))
    note ("[system-wide " ++ role.text ++ ": " ++ p.text ++ "]")
    return p :: (← systemScripts cwd role rest)

def joinPaths (ps : List Path) : String := String.intercalate "," (ps.map (·.text))

/-- Scripts that a configuration needs by itself. -/
def automaticPrediffs (t : Toolchain) : List String :=
  [(Text.contains t.launcher "slurm", "prediff-for-slurm"),
    (Text.contains t.launcher "lsf-", "prediff-for-lsf"),
    (Text.contains t.commSubstrate "ucx", "prediff-for-ucx"),
    (t.hostPlatform == "darwin", "prediff-for-debug")].filterMap fun (applies, name) =>
      if applies then some name else none

def addScript (ps : List Path) (p : Path) : List Path :=
  if ps.any p.same then ps else ps ++ [p]

def systemWide (s : Setup) : Arranging Unit := do
  let o := s.settings
  if !o.preexec.isEmpty then
    let scripts ← systemScripts s.cwd .preexec o.preexec
    provide "CHPL_SYSTEM_PREEXEC" (joinPaths scripts)
  let asked ← systemScripts s.cwd .prediff o.prediff
  let all := ((automaticPrediffs s.toolchain).map s.layout.testUtil).foldl addScript asked
  if !all.isEmpty then
    provide "CHPL_SYSTEM_PREDIFF" (joinPaths all)

def executables (s : Setup) (execopts : String) : Arranging Unit := do
  s.programs execopts
  s.configuration
  launching s.toolchain.launcher
  s.locales
  s.systemWide

end Regression.Setup
