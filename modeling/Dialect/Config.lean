import Dialect.Grammar.Reading
import Dialect.Json.Normal
import Dialect.Resolution

/-!
# Project configuration

A JSON file names the entry, the output directory, the grammar and the aliases of a project.
Relative paths are taken from the directory of the file.
-/

namespace Dialect

inductive GrammarSource where
  | path (path : Path)
  /-- A grammar inside the configuration, in normal form. -/
  | inline (value : Json)

structure Config where
  entry : Option Path := none
  outDir : Option Path := none
  grammar : Option GrammarSource := none
  baseUrl : Option Path := none
  aliases : List (String × List String) := []

inductive ConfigError where
  | configUnreadable (path : Path) (error : FileError)
  | configInvalid (path : Path) (fault : Fault)
  | grammarUnreadable (path : Path) (error : FileError)
  | grammarInvalid (path : Path) (error : GrammarError)
  | inlineGrammarInvalid (error : GrammarError)
  | noEntry
  deriving DecidableEq, Repr

def Fault.message : Fault → String
  | .ended => "the document ends too early"
  | .malformed => "the document is malformed"
  | .mismatch => "unexpected value"

namespace ConfigError

/-- What was being done. -/
def context : ConfigError → String
  | .configUnreadable path _ => "failed to read config " ++ path.text
  | .configInvalid path _ => "invalid config " ++ path.text
  | .grammarUnreadable path _ => "failed to read grammar " ++ path.text
  | .grammarInvalid path _ => "invalid grammar " ++ path.text
  | .inlineGrammarInvalid _ => "invalid inline grammar"
  | .noEntry => "no entry file given (pass ENTRY or set \x60entry\x60 in apyconfig.json)"

def cause : ConfigError → Option String
  | .configUnreadable _ error | .grammarUnreadable _ error => some error.message
  | .configInvalid _ fault => some fault.message
  | .grammarInvalid _ error | .inlineGrammarInvalid error => some error.message
  | .noEntry => none

def message (e : ConfigError) : String :=
  match e.cause with
  | some cause => e.context ++ ": " ++ cause
  | none => e.context

end ConfigError

namespace Config

open Json (RecordField stringField optionalField)

def fileName : String := "apyconfig.json"

/-- Used when neither the command line nor the configuration names an output directory. -/
def defaultOutDir : Path := ⟨"dist"⟩

/-- A string is the path of a grammar file, anything else the grammar itself, which stands one level
deep in the configuration. -/
def asGrammarSource : Json → Except Fault GrammarSource
  | .string text => .ok (.path ⟨text⟩)
  | j => Json.finish (j.firstFault (Json.nestingLimit - 1)) (.inline j.normal)

/-- Puts an alias into its place; one that is already there takes the new targets. -/
def insertAlias (pattern : String) (targets : List String) :
    List (String × List String) → List (String × List String)
  | [] => [(pattern, targets)]
  | (p, ts) :: rest =>
    if p = pattern then (p, targets) :: rest else (p, ts) :: insertAlias pattern targets rest

def aliasMembers : List JsonMember → List (String × List String) →
    Except Fault (List (String × List String))
  | [], table => .ok table
  | .mk key value :: ms, table => do
    let pattern ← key
    let targets ← Json.asStrings value
    aliasMembers ms (insertAlias pattern targets table)

def asAliases : Json → Except Fault (List (String × List String))
  | .object members fault => do Json.finish fault (← aliasMembers members [])
  | j => .error j.unexpected

def fields : List (RecordField Config) :=
  [stringField "entry" fun v s => { s with entry := some ⟨v⟩ },
   stringField "outDir" fun v s => { s with outDir := some ⟨v⟩ },
   optionalField "grammar" asGrammarSource (fun v s => { s with grammar := some v }) [],
   stringField "baseUrl" fun v s => { s with baseUrl := some ⟨v⟩ },
   { name := "paths", set := fun j s => (asAliases j).map fun v => { s with aliases := v } }]

def ofText (text : String) : Except Fault Config := do
  let document := Json.parse text.toList
  Json.finish document.trailing (← Json.readRecord fields {} document.value)

/-- The configuration with its paths taken from a directory. -/
def relativeTo (root : Path) (c : Config) : Config :=
  let place (p : Path) : Path := root.join p.text
  { c with
    entry := c.entry.map place
    outDir := c.outDir.map place
    baseUrl := c.baseUrl.map place
    grammar := c.grammar.map fun
      | .path p => .path (place p)
      | .inline value => .inline value }

def loadFile (fs : FileSystem) (path : Path) : Except ConfigError Config :=
  match fs.read path with
  | .error error => .error (.configUnreadable path error)
  | .ok text =>
    match ofText text with
    | .error fault => .error (.configInvalid path fault)
    | .ok config => .ok (config.relativeTo (path.parent?.getD ⟨""⟩))

/-- The given configuration file, or the one in the working directory if there is one. -/
def load (fs : FileSystem) (path : Option Path) : Except ConfigError Config :=
  match path with
  | some path => loadFile fs path
  | none =>
    let candidate := fs.workingDirectory.toPath.join fileName
    if fs.isFile candidate then loadFile fs candidate else .ok {}

def loadGrammar (fs : FileSystem) (path : Path) : Except ConfigError Grammar :=
  match fs.read path with
  | .error error => .error (.grammarUnreadable path error)
  | .ok text =>
    match Grammar.ofText text with
    | .error error => .error (.grammarInvalid path error)
    | .ok g => .ok g

/-- The grammar of the given file, or else of the configuration, or else Python's. -/
def selectGrammar (c : Config) (fs : FileSystem) (path : Option Path) :
    Except ConfigError Grammar :=
  match path, c.grammar with
  | some path, _ => loadGrammar fs path
  | none, some (.path path) => loadGrammar fs path
  | none, some (.inline value) =>
    match Grammar.ofJson value with
    | .error error => .error (.inlineGrammarInvalid error)
    | .ok g => .ok g
  | none, none => .ok .python

end Config

end Dialect
