import MuxRuntime.Foundations.AssocList
import MuxRuntime.Foundations.Loop
import MuxRuntime.Cli.Handles

/-!
# Parsing a command line

The arguments are read from left to right: long options, clusters of short ones, positionals, and a
subcommand, whose parser reads all that is left. Then options that were not given are filled in,
values are normalized by callbacks, and the relations between options are checked. A parse works on
the tree of parsers as it is at the beginning.
-/

namespace MuxRuntime.Cli

open Session (Meets)

/-! ## Trees of parsers -/

mutual

/-- A parser with its subcommands. -/
inductive ParserTree where
  | node (entry : ParserEntry) (children : Subcommands)

/-- The subcommands of a parser; one that is not in the table is missing. -/
inductive Subcommands where
  | nil
  | cons (name : Text) (child : ParserTree) (rest : Subcommands)
  | missing (name : Text) (rest : Subcommands)

end

def ParserTree.entry : ParserTree → ParserEntry
  | .node entry _ => entry

def ParserTree.children : ParserTree → Subcommands
  | .node _ children => children

/-- The first subcommand of that name, which may be missing. -/
def Subcommands.find : Subcommands → Text → Option (Option ParserTree)
  | .nil, _ => none
  | .cons name child rest, arg => if name = arg then some (some child) else rest.find arg
  | .missing name rest, arg => if name = arg then some none else rest.find arg

def subcommandsOf (tree : Nat → Option ParserTree) : List (Text × Nat) → Subcommands
  | [] => .nil
  | (name, id) :: rest =>
    match tree id with
    | some child => .cons name child (subcommandsOf tree rest)
    | none => .missing name (subcommandsOf tree rest)

def parserTree (parsers : Registry ParserEntry) : Nat → Nat → Option ParserTree
  | 0, _ => none
  | fuel + 1, id =>
    (parsers id).map fun entry =>
      .node entry (subcommandsOf (parserTree parsers fuel) entry.children)

/-- The tree of a registered parser. A subcommand has a greater number than its parent, so
that the counter bounds the depth. -/
def State.tree (s : State) (id : Nat) : Option ParserTree :=
  parserTree s.parsers s.nextId id

/-! ## Options of the command line -/

/-- The values of the options, by name. -/
abbrev Values := List (Text × List Text)

def pushValue (values : Values) (name value : Text) : Values :=
  AssocList.insert values name ((AssocList.lookup values name).getD [] ++ [value])

def recordOption (values : Values) (option : OptionSpec) (displayName : String) (value : Text) :
    Except String Values :=
  if !option.multiple && AssocList.contains values option.name then
    .error ("option '" ++ displayName ++ "' was provided more than once")
  else .ok (pushValue values option.name value)

def nextOptionValue (rest : List Text) (error : String) : Except String Text :=
  match rest with
  | [] => .error error
  | value :: _ => .ok value

def flagValue : Text := ['t', 'r', 'u', 'e']

/-- The value of a long option, and whether the next argument was taken for it. -/
def longOptionValue (option : OptionSpec) (inline : Option Text) (rest : List Text) (name : Text) :
    Except String (Text × Bool) :=
  match option.takesValue, inline with
  | true, some value => .ok (value, false)
  | true, none => do
    let value ← nextOptionValue rest ("option '--" ++ String.ofList name ++ "' requires a value")
    return (value, true)
  | false, some _ => .error ("option '--" ++ String.ofList name ++ "' does not take a value")
  | false, none => .ok (flagValue, false)

def parseLongOption (entry : ParserEntry) (arg : Text) (rest : List Text) (values : Values) :
    Except String (Values × Bool) := do
  let name := (splitInline (arg.drop 2)).1
  let inline := (splitInline (arg.drop 2)).2
  let option ← findLongOption entry name
  let (value, taken) ← longOptionValue option inline rest name
  let values ← recordOption values option ("--" ++ String.ofList name) value
  return (values, taken)

def shortOptionValue (takesValue : Bool) (chars : List Char) (rest : List Text) (short : Char) :
    Except String (Text × Bool) :=
  if !takesValue then .ok (flagValue, false)
  else if chars.isEmpty then do
    let value ← nextOptionValue rest ("option '-" ++ String.ofList [short] ++ "' requires a value")
    return (value, true)
  else .ok (chars, false)

/-- A cluster of short options. A flag that is not the last one is pushed as it is; only the
last option of the cluster is recorded with the check. -/
def parseShortOptions (entry : ParserEntry) (rest : List Text) :
    List Char → Values → Except String (Values × Bool)
  | [], values => .ok (values, false)
  | short :: chars, values => do
    let option ← findShortOption entry short
    let (value, taken) ← shortOptionValue option.takesValue chars rest short
    if !option.takesValue && !chars.isEmpty then
      parseShortOptions entry rest chars (pushValue values option.name value)
    else
      -- an option with a value has taken the rest of the cluster
      let values ← recordOption values option ("-" ++ String.ofList [short]) value
      return (values, taken)

/-- An argument that is read as options, before the end of options. -/
def parseOption (entry : ParserEntry) (endOptions : Bool) (arg : Text) (rest : List Text)
    (values : Values) : Option (Except String (Values × Bool)) :=
  if !endOptions && ['-', '-'].isPrefixOf arg && decide (2 < arg.length) then
    some (parseLongOption entry arg rest values)
  else if !endOptions && ['-'].isPrefixOf arg && decide (1 < arg.length) then
    some (parseShortOptions entry rest (arg.drop 1) values)
  else none

/-! ## The argument list -/

/-- What a successful parse returns; the help text is left out. -/
inductive Matches where
  | mk (values : Values) (positionals : List Text) (subcommand : Option Text)
      (subcommandMatches : Option Matches)

def Matches.values : Matches → Values
  | .mk values _ _ _ => values

def Matches.positionals : Matches → List Text
  | .mk _ positionals _ _ => positionals

def Matches.subcommand : Matches → Option Text
  | .mk _ _ subcommand _ => subcommand

def Matches.subcommandMatches : Matches → Option Matches
  | .mk _ _ _ subcommandMatches => subcommandMatches

/-- What was read so far. -/
structure ParseState where
  values : Values
  positionals : List Text
  subcommand : Option Text
  subcommandMatches : Option Matches

def ParseState.default : ParseState := ⟨[], [], none, none⟩

variable {σ : Type}

/-- What a parse asks of the outside: environment variables, the expansion of response files,
and the callbacks that normalize values. -/
structure Host (σ : Type) where
  env : Text → Option Text
  expandResponseFiles : List Text → EStateM String σ (List Text)
  applyOptionParser : Nat → Text → EStateM String σ Text

/-- The parser of a subcommand, when the argument names one. -/
abbrev ChildParser (σ : Type) := Text → Option (List Text → EStateM String σ Matches)

/-- A subcommand can only come before the first positional. -/
def childFor (child : ChildParser σ) (state : ParseState) (arg : Text) :
    Option (List Text → EStateM String σ Matches) :=
  if state.subcommand.isNone && state.positionals.isEmpty then child arg else none

/-- The loop over the arguments. An argument that was taken as the value of the option before
it is passed over. -/
def parseArgumentList (entry : ParserEntry) (child : ChildParser σ) :
    (taken endOptions : Bool) → List Text → ParseState → EStateM String σ ParseState
  | _, _, [], state => pure state
  | taken, endOptions, arg :: rest, state =>
    if taken then parseArgumentList entry child false endOptions rest state
    else if !endOptions && arg == ['-', '-'] then
      parseArgumentList entry child false true rest state
    else
      match parseOption entry endOptions arg rest state.values with
      | some parsed => do
        let (values, taken) ← Session.ofExcept parsed
        parseArgumentList entry child taken endOptions rest { state with values := values }
      | none =>
        match childFor child state arg with
        | some parse => do
          let matched ← parse rest
          return { state with subcommand := some arg, subcommandMatches := some matched }
        | none =>
          parseArgumentList entry child false endOptions rest
            { state with positionals := state.positionals ++ [arg] }

/-! ## Defaults, callbacks and relations -/

def applyDefault (env : Text → Option Text) (values : Values) (option : OptionSpec) :
    Except String Values :=
  if AssocList.contains values option.name then .ok values
  else
    match option.env.bind env with
    | some value => .ok (AssocList.insert values option.name [value])
    | none =>
      match option.default with
      | some value => .ok (AssocList.insert values option.name [value])
      | none =>
        if option.required then
          .error ("missing required option '--" ++ String.ofList option.name ++ "'")
        else .ok values

def applyOptionDefaults (env : Text → Option Text) (entry : ParserEntry) (values : Values) :
    Except String Values :=
  entry.options.foldlM (applyDefault env) values

/-- The callback of an option on one raw value, with the option named in its errors. -/
def normalizeValue (host : Host σ) (option : OptionSpec) (callback : Nat) (raw : Text) :
    EStateM String σ Text := fun s =>
  match host.applyOptionParser callback raw s with
  | .ok value s' => .ok value s'
  | .error e s' => .error ("invalid value for '--" ++ String.ofList option.name ++ "': " ++ e) s'

def normalizeOptionValues (host : Host σ) (values : Values) (option : OptionSpec) :
    EStateM String σ Values :=
  match option.parser, AssocList.lookup values option.name with
  | some callback, some raws => do
    let normalized ← raws.mapM (normalizeValue host option callback)
    return AssocList.insert values option.name normalized
  | _, _ => pure values

def normalizeOptions (host : Host σ) (entry : ParserEntry) (values : Values) :
    EStateM String σ Values :=
  entry.options.foldlM (normalizeOptionValues host) values

def validateConflicts (option : OptionSpec) (values : Values) : Except String Unit :=
  option.conflicts.forM fun conflicting =>
    if AssocList.contains values conflicting then
      .error ("option '--" ++ String.ofList option.name ++ "' conflicts with '--" ++
        String.ofList conflicting ++ "'")
    else .ok ()

def validateRequirements (option : OptionSpec) (values : Values) : Except String Unit :=
  option.requires.forM fun required =>
    if AssocList.contains values required then .ok ()
    else
      .error ("option '--" ++ String.ofList option.name ++ "' requires '--" ++
        String.ofList required ++ "'")

def validateOptionRelationships (entry : ParserEntry) (values : Values) : Except String Unit :=
  entry.options.forM fun option =>
    if AssocList.contains values option.name then do
      validateConflicts option values
      validateRequirements option values
    else .ok ()

def validatePositionals (entry : ParserEntry) (positionals : List Text) : Except String Unit :=
  entry.positionals.zipIdx.forM fun declared =>
    if declared.1.2 && (positionals[declared.2]?).isNone then
      .error ("missing required positional '" ++ String.ofList declared.1.1 ++ "'")
    else .ok ()

/-! ## The parse -/

def expandArguments (host : Host σ) (entry : ParserEntry) (args : List Text) :
    EStateM String σ (List Text) :=
  if entry.responseFiles then host.expandResponseFiles args else pure args

/-- What follows the arguments, for one parser. -/
def finishParse (host : Host σ) (entry : ParserEntry) (state : ParseState) :
    EStateM String σ Matches := do
  let values ← Session.ofExcept (applyOptionDefaults host.env entry state.values)
  let values ← normalizeOptions host entry values
  Session.ofExcept (validateOptionRelationships entry values)
  Session.ofExcept (validatePositionals entry state.positionals)
  return .mk values state.positionals state.subcommand state.subcommandMatches

mutual

/-- One parser, then its subcommand. -/
def parseArgs (host : Host σ) : ParserTree → List Text → EStateM String σ Matches
  | .node entry children, args => do
    let args ← expandArguments host entry args
    let state ← parseArgumentList entry (childParser host children) false false args
      ParseState.default
    finishParse host entry state

def childParser (host : Host σ) : Subcommands → ChildParser σ
  | .nil, _ => none
  | .cons name child rest, arg =>
    if name = arg then some (parseArgs host child) else childParser host rest arg
  | .missing name rest, arg =>
    if name = arg then
      some fun _ => throw ("CLI subcommand '" ++ String.ofList name ++ "' is unavailable")
    else childParser host rest arg

end

end MuxRuntime.Cli
