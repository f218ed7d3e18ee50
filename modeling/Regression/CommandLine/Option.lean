import Regression.Settings

namespace Regression.CommandLine

/-- The options of the command line. -/
inductive Opt where
  | execopts
  | compiler
  | launchcmd
  | compopts
  | logfile
  | memleaks
  | memleakslog
  | valgrind
  | valgrindexe
  | syspreexec
  | sysprediff
  | futures
  | futuresonly
  | futuresskipif
  | futuresMode
  | cleanOnly
  | norecurse
  | performance
  | perflabel
  | performanceDescription
  | performanceConfigs
  | compperformance
  | compperformanceDescription
  | numtrials
  | genGraphs
  | nodisplaygraphrange
  | graphsgendefault
  | startdate
  | gengraphopts
  | compOnly
  | numlocales
  | maxLocales
  | multilocaleOnly
  | nostdinredirect
  | stdinredirect
  | launchertimeout
  | noChplHomeWarn
  | progress
  | testRoot
  | junitXml
  | junitXmlFile
  | junitRemovePrefix
  | respectSkipifs
  | respectNotests
  | help
  | version
  deriving DecidableEq, Repr

namespace Opt

def all : List Opt :=
  [execopts, compiler, launchcmd, compopts, logfile, memleaks, memleakslog, valgrind, valgrindexe,
    syspreexec, sysprediff, futures, futuresonly, futuresskipif, futuresMode, cleanOnly, norecurse,
    performance, perflabel, performanceDescription, performanceConfigs, compperformance,
    compperformanceDescription, numtrials, genGraphs, nodisplaygraphrange, graphsgendefault,
    startdate, gengraphopts, compOnly, numlocales, maxLocales, multilocaleOnly, nostdinredirect,
    stdinredirect, launchertimeout, noChplHomeWarn, progress, testRoot, junitXml, junitXmlFile,
    junitRemovePrefix, respectSkipifs, respectNotests, help, version]

/-- The name under which messages speak of an option. -/
def name : Opt → String
  | execopts => "execopts"
  | compiler => "compiler"
  | launchcmd => "launchcmd"
  | compopts => "compopts"
  | logfile => "logfile"
  | memleaks => "memleaks"
  | memleakslog => "memleakslog"
  | valgrind => "valgrind"
  | valgrindexe => "valgrindexe"
  | syspreexec => "syspreexec"
  | sysprediff => "sysprediff"
  | futures => "futures"
  | futuresonly => "futuresonly"
  | futuresskipif => "futuresskipif"
  | futuresMode => "futures-mode"
  | cleanOnly => "clean-only"
  | norecurse => "norecurse"
  | performance => "performance"
  | perflabel => "perflabel"
  | performanceDescription => "performance-description"
  | performanceConfigs => "performance-configs"
  | compperformance => "compperformance"
  | compperformanceDescription => "compperformance-description"
  | numtrials => "numtrials"
  | genGraphs => "gen-graphs"
  | nodisplaygraphrange => "nodisplaygraphrange"
  | graphsgendefault => "graphsgendefault"
  | startdate => "startdate"
  | gengraphopts => "gengraphopts"
  | compOnly => "comp-only"
  | numlocales => "numlocales"
  | maxLocales => "max-locales"
  | multilocaleOnly => "multilocale-only"
  | nostdinredirect => "nostdinredirect"
  | stdinredirect => "stdinredirect"
  | launchertimeout => "launchertimeout"
  | noChplHomeWarn => "no-chpl-home-warn"
  | progress => "progress"
  | testRoot => "test-root"
  | junitXml => "junit-xml"
  | junitXmlFile => "junit-xml-file"
  | junitRemovePrefix => "junit-remove-prefix"
  | respectSkipifs => "respect-skipifs"
  | respectNotests => "respect-notests"
  | help => "help"
  | version => "version"

def aliases : Opt → List String
  | memleaks => ["memLeaks"]
  | memleakslog => ["memLeaksLog"]
  | futuresonly => ["futures-only"]
  | futuresskipif => ["futures-skipif"]
  | cleanOnly => ["cleanonly"]
  | norecurse => ["no-recurse"]
  | numtrials => ["num-trials"]
  | genGraphs => ["generate-graphs"]
  | graphsgendefault => ["graphs-gen-default"]
  | gengraphopts => ["genGraphOpts"]
  | _ => []

def names (o : Opt) : List String := o.name :: o.aliases

def ofName? (s : String) : Option Opt := all.find? fun o => s ∈ o.names

/-- What an option's value is read as. A switch has none. -/
inductive Kind where
  | switch
  | text
  | path
  | count
  | futuresMode
  | graphReduction
  deriving DecidableEq, Repr

def kind : Opt → Kind
  | execopts | launchcmd | compopts | perflabel | performanceDescription | performanceConfigs
  | compperformanceDescription | startdate | gengraphopts | launchertimeout
  | junitRemovePrefix => .text
  | compiler | logfile | memleakslog | syspreexec | sysprediff | testRoot | junitXmlFile => .path
  | numtrials | numlocales | maxLocales => .count
  | futuresMode => .futuresMode
  | graphsgendefault => .graphReduction
  | memleaks | valgrind | valgrindexe | futures | futuresonly | futuresskipif | cleanOnly
  | norecurse | performance | compperformance | genGraphs | nodisplaygraphrange | compOnly
  | multilocaleOnly | nostdinredirect | stdinredirect | noChplHomeWarn | progress | junitXml
  | respectSkipifs | respectNotests | help | version => .switch

def takesValue (o : Opt) : Bool := o.kind != .switch

/-- Options that gather a list; all others may be given once. -/
def repeats : Opt → Bool
  | execopts | compopts | syspreexec | sysprediff => true
  | _ => false

/-- Options whose value may look like an option. -/
def takesHyphens : Opt → Bool
  | execopts | compopts | gengraphopts => true
  | _ => false

/-- The name that messages give to the value. -/
def placeholder (o : Opt) : String :=
  match o with
  | execopts | compopts => "OPTS"
  | futuresMode => "MODE"
  | performanceConfigs => "CONFIGS"
  | graphsgendefault => "avg|min|max|med"
  | startdate => "MM/DD/YY"
  | junitXmlFile => "FILE"
  | junitRemovePrefix => "PREFIX"
  | performanceDescription => "PERFORMANCE_DESCRIPTION"
  | compperformanceDescription => "COMPPERFORMANCE_DESCRIPTION"
  | maxLocales => "MAX_LOCALES"
  | testRoot => "TEST_ROOT"
  | _ => String.ofList (o.name.toList.map Char.toUpper)

/-- An option as messages show it. -/
def shown (o : Opt) : String :=
  if o.takesValue then "--" ++ o.name ++ " <" ++ o.placeholder ++ ">" else "--" ++ o.name

end Opt

end Regression.CommandLine
