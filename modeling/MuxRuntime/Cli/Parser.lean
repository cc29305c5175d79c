import Mathlib

/-!
# Command-line parsers and the calls that build them

A parser is a table of options and positionals with a list of subcommands. It is built by
calls that change one part of it; a call first checks its own arguments, then looks at the
parser, and fails without a change when a check does.
-/

namespace MuxRuntime.Cli

open List

abbrev Text := List Char

/-! ## Parsers -/

/-- A declared option. -/
structure OptionSpec where
  name : Text
  short : Option Char
  takesValue : Bool
  required : Bool
  env : Option Text
  default : Option Text
  multiple : Bool
  conflicts : List Text
  requires : List Text
  aliases : List Text
  group : Option Text
  /-- The address of the closure that normalizes a raw value. -/
  parser : Option Nat
deriving DecidableEq, Repr

/-- A parser. -/
structure ParserEntry where
  program : Text
  about : Text
  version : Option Text
  options : List OptionSpec
  positionals : List (Text × Bool)
  children : List (Text × Nat)
  responseFiles : Bool
  names : Nat
deriving DecidableEq, Repr

/-- The derived default, with no option and a count of zero. -/
def ParserEntry.default : ParserEntry where
  program := []
  about := []
  version := none
  options := []
  positionals := []
  children := []
  responseFiles := false
  names := 0

/-- The names under which the long form finds an option. -/
def OptionSpec.longNames (option : OptionSpec) : List Text :=
  option.name :: option.aliases

def ParserEntry.longNames (entry : ParserEntry) : List Text :=
  entry.options.flatMap OptionSpec.longNames

lemma ParserEntry.longNames_eq_flatten (entry : ParserEntry) :
    entry.longNames = (entry.options.map OptionSpec.longNames).flatten :=
  flatMap_def

/-! ## The building calls -/

/-- A change of one parser, made under the lock of the table. -/
abbrev Mutation := ParserEntry → Except String ParserEntry

/-- A text argument of a call; `none` stands for null and for values of other types. -/
def text (value : Option Text) (label : String) : Except String Text :=
  match value with
  | some value => .ok value
  | none => .error (label ++ " must be a string")

lemma eq_some_of_text {value : Option Text} {label : String} {t : Text}
    (h : text value label = .ok t) : value = some t := by
  cases value with
  | none => cases h
  | some value =>
    cases h
    rfl

def validName (name : Text) : Bool :=
  !name.isEmpty && name.all fun c => c.isAlphanum || c == '-' || c == '_'

def setProgram (name : Option Text) : Except String Mutation := do
  let name ← text name "program name"
  if name.isEmpty then throw "program name must not be empty"
  return fun entry => .ok { entry with program := name }

def setAbout (about : Option Text) : Except String Mutation := do
  let about ← text about "about text"
  return fun entry => .ok { entry with about := about }

def setVersion (version : Option Text) : Except String Mutation := do
  let version ← text version "version"
  return fun entry => .ok { entry with version := some version }

def setResponseFiles (enabled : Bool) : Except String Mutation :=
  .ok fun entry => .ok { entry with responseFiles := enabled }

/-- The short form of an option: none, or one ASCII letter or digit. -/
def shortName : Text → Except String (Option Char)
  | [] => .ok none
  | c :: rest =>
    if !c.isAlphanum || !rest.isEmpty then
      .error "short option must be one ASCII letter or digit"
    else .ok (some c)

def pushOption (option : OptionSpec) : Mutation := fun entry =>
  if entry.options.any fun known =>
      known.name == option.name || (known.short == option.short && option.short.isSome) then
    .error "duplicate CLI option"
  else .ok { entry with options := entry.options ++ [option] }

def addOption (name short : Option Text) (takesValue required : Bool) : Except String Mutation := do
  let name ← text name "option name"
  let short ← text short "short option"
  if !validName name then
    throw "option name must contain only letters, digits, '-' or '_' and must not be empty"
  let short ← shortName short
  return pushOption
    { name, short, takesValue, required, env := none, default := none, multiple := false,
      conflicts := [], requires := [], aliases := [], group := none, parser := none }

/-- Change the first option of that name. -/
def updateNamed (name : Text) (f : OptionSpec → OptionSpec) :
    List OptionSpec → Option (List OptionSpec)
  | [] => none
  | option :: rest =>
    if option.name = name then some (f option :: rest)
    else (updateNamed name f rest).map (option :: ·)

/-- What the calls that configure an option have in common. -/
def updateOption (name : Text) (f : OptionSpec → OptionSpec) : Mutation := fun entry =>
  match updateNamed name f entry.options with
  | some options => .ok { entry with options := options }
  | none => .error "unknown CLI option"

def setOptionParser (name : Option Text) (callback : Option Nat) : Except String Mutation := do
  let name ← text name "option name"
  match callback with
  | none => throw "option parser callback must not be null"
  | some callback => return updateOption name fun option => { option with parser := some callback }

/-- An empty text takes the setting away. -/
def nonEmpty (value : Text) : Option Text :=
  if value.isEmpty then none else some value

def setOptionEnv (name env : Option Text) : Except String Mutation := do
  let name ← text name "option name"
  let env ← text env "environment name"
  return updateOption name fun option => { option with env := nonEmpty env }

def setOptionDefault (name default : Option Text) : Except String Mutation := do
  let name ← text name "option name"
  let default ← text default "default value"
  return updateOption name fun option => { option with default := nonEmpty default }

def setOptionMultiple (name : Option Text) (multiple : Bool) : Except String Mutation := do
  let name ← text name "option name"
  return updateOption name fun option => { option with multiple := multiple }

def ParserEntry.declares (entry : ParserEntry) (name : Text) : Bool :=
  entry.options.any fun option => option.name == name

/-- One more name of a list, unless it is there. -/
def pushNew (names : List Text) (name : Text) : List Text :=
  if name ∈ names then names else names ++ [name]

/-- A relation between two declared options. -/
def relateOptions (name other : Text) (unknown : String) (f : OptionSpec → OptionSpec) :
    Mutation := fun entry =>
  if !entry.declares name then .error "unknown CLI option"
  else if !entry.declares other then .error unknown
  else updateOption name f entry

def setOptionConflicts (name other : Option Text) : Except String Mutation := do
  let name ← text name "option name"
  let other ← text other "conflicting option name"
  if name = other then throw "an option cannot conflict with itself"
  return relateOptions name other "unknown conflicting CLI option" fun option =>
    { option with conflicts := pushNew option.conflicts other }

def setOptionRequires (name required : Option Text) : Except String Mutation := do
  let name ← text name "option name"
  let required ← text required "required option name"
  if name = required then throw "an option cannot require itself"
  return relateOptions name required "unknown required CLI option" fun option =>
    { option with requires := pushNew option.requires required }

def pushAlias (name aliasName : Text) : Mutation := fun entry =>
  if !entry.declares name then .error "unknown CLI option"
  else if entry.options.any fun option =>
      option.name == aliasName || option.aliases.contains aliasName then
    .error "duplicate CLI option alias"
  else
    updateOption name (fun option => { option with aliases := option.aliases ++ [aliasName] }) entry

def setOptionAlias (name aliasName : Option Text) : Except String Mutation := do
  let name ← text name "option name"
  let aliasName ← text aliasName "option alias"
  if !validName aliasName then
    throw "option alias must contain only letters, digits, '-' or '_' and must not be empty"
  return pushAlias name aliasName

def setOptionGroup (name group : Option Text) : Except String Mutation := do
  let name ← text name "option name"
  let group ← text group "option group"
  if group.isEmpty then throw "option group must not be empty"
  return updateOption name fun option => { option with group := some group }

def addPositional (name : Option Text) (required : Bool) : Except String Mutation := do
  let name ← text name "positional name"
  return fun entry =>
    if entry.positionals.any fun known => known.1 == name then
      .error "duplicate positional argument"
    else .ok { entry with positionals := entry.positionals ++ [(name, required)] }

/-- The calls that change one parser, with their arguments. -/
inductive Setter where
  | program (name : Option Text)
  | about (about : Option Text)
  | version (version : Option Text)
  | responseFiles (enabled : Bool)
  | option (name short : Option Text) (takesValue required : Bool)
  | optionParser (name : Option Text) (callback : Option Nat)
  | optionEnv (name env : Option Text)
  | optionDefault (name default : Option Text)
  | optionMultiple (name : Option Text) (multiple : Bool)
  | optionConflicts (name other : Option Text)
  | optionRequires (name required : Option Text)
  | optionAlias (name aliasName : Option Text)
  | optionGroup (name group : Option Text)
  | positional (name : Option Text) (required : Bool)
deriving DecidableEq, Repr

def Setter.mutation : Setter → Except String Mutation
  | .program name => setProgram name
  | .about value => setAbout value
  | .version value => setVersion value
  | .responseFiles enabled => setResponseFiles enabled
  | .option name short takesValue required => addOption name short takesValue required
  | .optionParser name callback => setOptionParser name callback
  | .optionEnv name env => setOptionEnv name env
  | .optionDefault name default => setOptionDefault name default
  | .optionMultiple name multiple => setOptionMultiple name multiple
  | .optionConflicts name other => setOptionConflicts name other
  | .optionRequires name required => setOptionRequires name required
  | .optionAlias name aliasName => setOptionAlias name aliasName
  | .optionGroup name group => setOptionGroup name group
  | .positional name required => addPositional name required

/-! ## Finding options -/

def findLongOption (entry : ParserEntry) (name : Text) : Except String OptionSpec :=
  match entry.options.find? fun option => option.name == name || option.aliases.contains name with
  | some option => .ok option
  | none => .error ("unknown option '--" ++ String.ofList name ++ "'")

def findShortOption (entry : ParserEntry) (short : Char) : Except String OptionSpec :=
  match entry.options.find? fun option => option.short == some short with
  | some option => .ok option
  | none => .error ("unknown option '-" ++ String.ofList [short] ++ "'")

/-- The name and the inline value of a long option, without its two dashes. -/
def splitInline (raw : Text) : Text × Option Text :=
  match raw.span (· ≠ '=') with
  | (name, _ :: value) => (name, some value)
  | (name, []) => (name, none)

/-- The option that an argument with two dashes names. -/
def longOption (entry : ParserEntry) (arg : Text) : Except String OptionSpec :=
  findLongOption entry (splitInline (arg.drop 2)).1

variable {option : OptionSpec} {name : Text}

lemma matches_iff :
    (option.name == name || option.aliases.contains name) = true ↔ name ∈ option.longNames := by
  rw [Bool.or_eq_true, beq_iff_eq, contains_iff_mem, OptionSpec.longNames, mem_cons, eq_comm]

variable {entry : ParserEntry}

lemma findLongOption_eq_ok (h : findLongOption entry name = .ok option) :
    option ∈ entry.options ∧ name ∈ option.longNames := by
  unfold findLongOption at h
  split at h
  · rename_i found hfind
    cases h
    exact ⟨mem_of_find?_eq_some hfind, matches_iff.mp (by simpa using List.find?_some hfind)⟩
  · cases h

/-- Two options that share a name are one, when all names are distinct. -/
lemma eq_of_mem_longNames {options : List OptionSpec}
    (hnd : (options.flatMap OptionSpec.longNames).Nodup) {a b : OptionSpec} (ha : a ∈ options)
    (hb : b ∈ options) (hna : name ∈ a.longNames) (hnb : name ∈ b.longNames) : a = b := by
  by_contra hne
  have hpair := (nodup_flatMap.mp hnd).2
  rcases pairwise_iff_getElem.mp hpair with hpair
  rcases List.getElem_of_mem ha with ⟨i, hi, rfl⟩
  rcases List.getElem_of_mem hb with ⟨j, hj, rfl⟩
  rcases lt_trichotomy i j with hlt | heq | hgt
  · exact hpair i j hi hj hlt hna hnb
  · subst heq
    exact hne rfl
  · exact hpair j i hj hi hgt hnb hna

/-- With distinct names and aliases, a long name finds the option that declares it. -/
theorem findLongOption_eq_ok_iff (hnd : entry.longNames.Nodup) :
    findLongOption entry name = .ok option ↔ option ∈ entry.options ∧ name ∈ option.longNames := by
  constructor
  · exact findLongOption_eq_ok
  rintro ⟨hmem, hname⟩
  unfold findLongOption
  split
  · rename_i found hfind
    have hfound : name ∈ found.longNames := matches_iff.mp (by simpa using List.find?_some hfind)
    rw [eq_of_mem_longNames hnd (mem_of_find?_eq_some hfind) hmem hfound hname]
  · rename_i hfind
    exact absurd (matches_iff.mpr hname) (by simpa using List.find?_eq_none.mp hfind option hmem)

lemma splitInline_of_notMem {raw : Text} (h : '=' ∉ raw) : splitInline raw = (raw, none) := by
  have hspan : raw.span (· ≠ '=') = (raw, []) := by
    have hall : ∀ c ∈ raw, (decide (c ≠ '=')) = true := by
      intro c hc
      apply decide_eq_true
      rintro rfl
      exact h hc
    rw [span_eq_takeWhile_dropWhile, dropWhile_eq_nil_iff.mpr hall, takeWhile_eq_self_iff.mpr hall]
  unfold splitInline
  rw [hspan]

lemma notMem_of_validName (h : validName name = true) : '=' ∉ name := by
  intro hmem
  unfold validName at h
  rw [Bool.and_eq_true, all_eq_true] at h
  exact absurd (h.2 '=' hmem) (by decide)

/-! ## What a call changes -/

/-- The name of the option that a call declares. -/
def Setter.declared : Setter → Option Text
  | .option name _ _ _ => name
  | _ => none

/-- The names and aliases, option by option, after a successful call that declares an option
of the given name or none. -/
inductive NamesStep (entry entry' : ParserEntry) : Option Text → Prop
  | same (h : entry'.options.map OptionSpec.longNames = entry.options.map OptionSpec.longNames) :
      NamesStep entry entry' none
  | option (name : Text) (hvalid : validName name = true)
      (hnew : ∀ option ∈ entry.options, option.name ≠ name)
      (h : entry'.options.map OptionSpec.longNames =
        entry.options.map OptionSpec.longNames ++ [[name]]) :
      NamesStep entry entry' (some name)
  | aliasName (name : Text) (before after : List (List Text)) (names : List Text)
      (hvalid : validName name = true) (hnew : name ∉ entry.longNames)
      (hold : entry.options.map OptionSpec.longNames = before ++ names :: after)
      (h : entry'.options.map OptionSpec.longNames = before ++ (names ++ [name]) :: after) :
      NamesStep entry entry' none

/-- What every successful change does: a step of the names, and nothing to the subcommands
and the count. -/
structure Changes (declared : Option Text) (entry entry' : ParserEntry) : Prop where
  step : NamesStep entry entry' declared
  children : entry'.children = entry.children
  names : entry'.names = entry.names

variable {f : OptionSpec → OptionSpec}

lemma updateNamed_eq_some {options options' : List OptionSpec}
    (h : updateNamed name f options = some options') :
    ∃ before option after, options = before ++ option :: after ∧ option.name = name ∧
      options' = before ++ f option :: after := by
  induction options generalizing options' with
  | nil => cases h
  | cons option rest ih => ?_
  unfold updateNamed at h
  split at h
  · rename_i hname
    cases h
    exact ⟨[], option, rest, rfl, hname, rfl⟩
  · rcases Option.map_eq_some_iff.mp h with ⟨rest', hrest, rfl⟩
    rcases ih hrest with ⟨before, found, after, rfl, hname, rfl⟩
    exact ⟨option :: before, found, after, rfl, hname, rfl⟩

variable {entry' : ParserEntry}

lemma updateOption_eq_ok (h : updateOption name f entry = .ok entry') :
    ∃ before option after, entry.options = before ++ option :: after ∧ option.name = name ∧
      entry' = { entry with options := before ++ f option :: after } := by
  unfold updateOption at h
  split at h
  · rename_i options hoptions
    cases h
    rcases updateNamed_eq_some hoptions with ⟨before, option, after, hold, hname, rfl⟩
    exact ⟨before, option, after, hold, hname, rfl⟩
  · cases h

/-- A setting of an option that is not one of its names. -/
lemma updateOption_changes (hf : ∀ option, (f option).longNames = option.longNames)
    (h : updateOption name f entry = .ok entry') : Changes none entry entry' := by
  rcases updateOption_eq_ok h with ⟨before, option, after, hold, -, rfl⟩
  refine ⟨.same ?_, rfl, rfl⟩
  rw [hold]
  simp only [map_append, map_cons, hf]

lemma relateOptions_changes {other : Text} {unknown : String}
    (hf : ∀ option, (f option).longNames = option.longNames)
    (h : relateOptions name other unknown f entry = .ok entry') : Changes none entry entry' := by
  unfold relateOptions at h
  split at h
  · cases h
  · split at h
    · cases h
    · exact updateOption_changes hf h

lemma pushOption_changes (hvalid : validName option.name = true)
    (haliases : option.aliases = []) (h : pushOption option entry = .ok entry') :
    Changes (some option.name) entry entry' := by
  unfold pushOption at h
  split at h
  · cases h
  rename_i hnew
  cases h
  refine ⟨.option option.name hvalid ?_ ?_, rfl, rfl⟩
  · intro known hknown hname
    apply hnew
    rw [any_eq_true]
    exact ⟨known, hknown, by rw [hname, beq_self_eq_true, Bool.true_or]⟩
  · rw [map_append, map_singleton, OptionSpec.longNames, haliases]

lemma pushAlias_changes {aliasName : Text} (hvalid : validName aliasName = true)
    (h : pushAlias name aliasName entry = .ok entry') : Changes none entry entry' := by
  unfold pushAlias at h
  split at h
  · cases h
  split at h
  · cases h
  rename_i hnew
  rcases updateOption_eq_ok h with ⟨before, option, after, hold, -, rfl⟩
  refine ⟨.aliasName aliasName (before.map OptionSpec.longNames)
    (after.map OptionSpec.longNames) option.longNames hvalid ?_ ?_ ?_, rfl, rfl⟩
  · intro hmem
    apply hnew
    rcases mem_flatMap.mp hmem with ⟨known, hknown, hname⟩
    rw [any_eq_true]
    exact ⟨known, hknown, matches_iff.mpr hname⟩
  · rw [hold, map_append, map_cons]
  · rw [map_append, map_cons]
    rfl

/-- A call whose change, when there is one, is as in `Changes`. -/
def Sound (declared : Option Text) (call : Except String Mutation) : Prop :=
  ∀ f, call = .ok f → ∀ entry entry', f entry = .ok entry' → Changes declared entry entry'

variable {declared : Option Text}

lemma Sound.pure {f : Mutation}
    (h : ∀ entry entry', f entry = .ok entry' → Changes declared entry entry') :
    Sound declared (.ok f) := by
  intro g hg
  cases hg
  exact h

lemma Sound.error {message : String} : Sound declared (.error message) := nofun

lemma Sound.bind {α : Type} {x : Except String α} {g : α → Except String Mutation}
    (h : ∀ a, x = .ok a → Sound declared (g a)) : Sound declared (x >>= g) := by
  cases x with
  | error e => exact Sound.error
  | ok a => exact h a rfl

/-- A call that sets one field of an option other than its names. -/
lemma Sound.update (hf : ∀ option, (f option).longNames = option.longNames) :
    Sound none (.ok (updateOption name f)) :=
  .pure fun _ _ => updateOption_changes hf

/-- Every successful call of the builder, whatever its arguments. -/
theorem Setter.sound (setter : Setter) : Sound setter.declared setter.mutation := by
  cases setter with
  | program name =>
    apply Sound.bind
    intro name _
    split
    · exact Sound.error
    · apply Sound.pure
      rintro entry _ ⟨⟩
      exact ⟨.same rfl, rfl, rfl⟩
  | about value | version value =>
    apply Sound.bind
    intro text _
    apply Sound.pure
    rintro entry _ ⟨⟩
    exact ⟨.same rfl, rfl, rfl⟩
  | responseFiles enabled =>
    apply Sound.pure
    rintro entry _ ⟨⟩
    exact ⟨.same rfl, rfl, rfl⟩
  | option name short takesValue required =>
    apply Sound.bind
    intro given hgiven
    apply Sound.bind
    intro short _
    split
    · exact Sound.error
    rename_i hvalid
    apply Sound.bind
    intro short _
    apply Sound.pure
    intro entry entry'
    rw [eq_some_of_text hgiven]
    exact pushOption_changes (by simpa using hvalid) rfl
  | optionParser name callback =>
    apply Sound.bind
    intro name _
    cases callback with
    | none => exact Sound.error
    | some callback => exact Sound.update fun _ => rfl
  | optionEnv name value | optionDefault name value =>
    apply Sound.bind
    intro name _
    apply Sound.bind
    intro value _
    exact Sound.update fun _ => rfl
  | optionMultiple name multiple =>
    apply Sound.bind
    intro name _
    exact Sound.update fun _ => rfl
  | optionConflicts name other | optionRequires name other =>
    apply Sound.bind
    intro name _
    apply Sound.bind
    intro other _
    split
    · exact Sound.error
    · exact Sound.pure fun _ _ => relateOptions_changes fun _ => rfl
  | optionAlias name aliasName =>
    apply Sound.bind
    intro name _
    apply Sound.bind
    intro aliasName _
    split
    · exact Sound.error
    · rename_i hvalid
      exact Sound.pure fun _ _ => pushAlias_changes (by simpa using hvalid)
  | optionGroup name group =>
    apply Sound.bind
    intro name _
    apply Sound.bind
    intro group _
    split
    · exact Sound.error
    · exact Sound.update fun _ => rfl
  | positional name required => ?_
  apply Sound.bind
  intro name _
  apply Sound.pure
  intro entry entry' h
  split at h
  · cases h
  · cases h
    exact ⟨.same rfl, rfl, rfl⟩

end MuxRuntime.Cli
