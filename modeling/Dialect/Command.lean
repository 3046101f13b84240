import Dialect.Build
import Dialect.Config
import Dialect.Grammar.Writing
import Dialect.Parsing.Program
import Dialect.Text.Affix

/-!
# The command line

`build` compiles an entry file and all it imports, `grammar` prints the grammar a build would use.
-/

namespace Dialect

structure Arguments where
  entry : Option Path := none
  config : Option Path := none
  outDir : Option Path := none
  grammar : Option Path := none
  /-- Print what is generated. -/
  print : Bool := false
  deriving DecidableEq, Repr

inductive Command where
  | build (arguments : Arguments)
  | grammar (arguments : Arguments)
  deriving DecidableEq, Repr

/-- How a command ended, and the file system it left behind. -/
structure Outcome where
  exitCode : Nat
  output : String := ""
  errors : String := ""
  files : FileSystem

namespace Command

/-! ## Reading arguments -/

inductive Value where
  | config
  | outDir
  | grammar

def Arguments.setValue (a : Arguments) (v : Value) (path : Path) : Arguments :=
  match v with
  | .config => { a with config := some path }
  | .outDir => { a with outDir := some path }
  | .grammar => { a with grammar := some path }

def valueOf (builds : Bool) : List (Value × String × String) :=
  [(.config, "--config", "-c"), (.grammar, "--grammar", "-g")] ++
    if builds then [(.outDir, "--out-dir", "-o")] else []

/-- The option an argument names, and its value if it holds one. -/
def option? (builds : Bool) (arg : String) : Option (Value × Option String) :=
  (valueOf builds).findSome? fun (value, long, short) =>
    if arg = long || arg = short then some (value, none)
    else
      match Text.stripStart? (long.toList ++ ['=']) arg.toList,
        Text.stripStart? short.toList arg.toList with
      | some text, _ => some (value, some (String.ofList text))
      | none, some ('=' :: text) => some (value, some (String.ofList text))
      | none, some text => some (value, some (String.ofList text))
      | none, none => none

def unexpected (arg : String) : String :=
  "unexpected argument '" ++ arg ++ "' found"

/-- A word that is no option is the entry of a build. -/
def positional (builds : Bool) (a : Arguments) (arg : String) : Except String Arguments :=
  if builds && a.entry.isNone then .ok { a with entry := some ⟨arg⟩ } else .error (unexpected arg)

def positionals (builds : Bool) (a : Arguments) (args : List String) : Except String Arguments :=
  args.foldlM (positional builds) a

def isVerbosity (arg : String) : Bool :=
  arg = "--verbose" ||
    match arg.toList with
    | '-' :: c :: cs => (c :: cs).all (· = 'v')
    | _ => false

/-- Reads the arguments behind the name of a command; `pending` waits for its value. -/
def readArguments (builds : Bool) : Option Value → Arguments → List String → Except String Arguments
  | none, a, [] => .ok a
  | some _, _, [] => .error "a value is required"
  | some v, a, arg :: args => readArguments builds none (Arguments.setValue a v ⟨arg⟩) args
  | none, a, arg :: args =>
    if arg = "--" then positionals builds a args
    else if isVerbosity arg then readArguments builds none a args
    else if builds && arg = "--print" then readArguments builds none { a with print := true } args
    else
      match option? builds arg with
      | some (v, some text) => readArguments builds none (Arguments.setValue a v ⟨text⟩) args
      | some (v, none) => readArguments builds (some v) a args
      | none =>
        if arg.toList.head? = some '-' && arg ≠ "-" then .error (unexpected arg)
        else do readArguments builds none (← positional builds a arg) args

def parse (args : List String) : Except String Command :=
  match args.dropWhile isVerbosity with
  | "build" :: args => (readArguments true none {} args).map .build
  | "grammar" :: args => (readArguments false none {} args).map .grammar
  | arg :: _ => .error ("unrecognized subcommand '" ++ arg ++ "'")
  | [] => .error "a subcommand is required"

/-! ## Running -/

def usage : String :=
  "usage: apy build [ENTRY] [--config FILE] [--out-dir DIR] [--grammar FILE]\n"

/-- All that a build needs. -/
structure Plan where
  project : Project
  entry : Path
  outDir : Path

/-- Arguments come before the configuration. -/
def plan (fs : FileSystem) (a : Arguments) : Except ConfigError Plan := do
  let config ← Config.load fs a.config
  let grammar ← config.selectGrammar fs a.grammar
  match a.entry.or config.entry with
  | none => .error .noEntry
  | some entry =>
    let outDir := (a.outDir.or config.outDir).getD Config.defaultOutDir
    return ⟨⟨grammar, config.baseUrl, config.aliases⟩, entry, outDir⟩

def printed (r : UnitReport) : String :=
  "# " ++ r.source.text ++ "\n" ++ r.generated

def failure (fs : FileSystem) (exitCode : Nat) (message rest : String) : Outcome :=
  { exitCode := exitCode, errors := "error: " ++ message ++ "\n" ++ rest, files := fs }

def runBuild (fs : FileSystem) (a : Arguments) : Outcome :=
  match plan fs a with
  | .error error => failure fs 2 error.message usage
  | .ok p =>
    match p.project.build Tree.parser fs p.entry p.outDir with
    | (.error (.load error), files) => failure files 2 error.message usage
    | (.error error, files) => failure files 1 error.message ""
    | (.ok reports, files) =>
      let diagnostics := reports.flatMap (·.diagnostics)
      { exitCode := if reports.any (·.failed) then 1 else 0
        output := if a.print then String.join (reports.map printed) else ""
        errors := String.join (diagnostics.map fun d => d.render ++ "\n")
        files := files }

def runGrammar (fs : FileSystem) (a : Arguments) : Outcome :=
  match (Config.load fs a.config).bind fun config => config.selectGrammar fs a.grammar with
  | .error error => failure fs 2 error.message ""
  | .ok g => { exitCode := 0, output := g.toJson.pretty ++ "\n", files := fs }

def run (fs : FileSystem) (args : List String) : Outcome :=
  match parse args with
  | .ok (.build a) => runBuild fs a
  | .ok (.grammar a) => runGrammar fs a
  | .error message => failure fs 2 message usage

end Command

end Dialect
