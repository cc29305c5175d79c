import MuxRuntime.Cli.Filling
import MuxRuntime.Cli.Names

/-!
# What a parse promises

A parse that succeeds goes down a path of the tree of parsers: at each parser the arguments
that are left are read, and a subcommand hands the rest to its own parser.
-/

namespace MuxRuntime.Cli

open Registry List

open AssocList (lookup)

variable {σ : Type} {host : Host σ}

/-! ## Statements about all parsers of a tree -/

mutual

def ParserTree.All (P : ParserEntry → Prop) : ParserTree → Prop
  | .node entry children => P entry ∧ children.All P

def Subcommands.All (P : ParserEntry → Prop) : Subcommands → Prop
  | .nil => True
  | .cons _ child rest => child.All P ∧ rest.All P
  | .missing _ rest => rest.All P

end

variable {name : Text}

lemma Subcommands.All.find {P : ParserEntry → Prop} {child : ParserTree} :
    {children : Subcommands} → children.All P → children.find name = some (some child) → child.All P
  | .nil, _, h => by cases h
  | .cons other tree rest, hall, h => by
    unfold Subcommands.find at h
    split at h
    · cases h
      exact hall.1
    · exact Subcommands.All.find hall.2 h
  | .missing other rest, hall, h => by
    unfold Subcommands.find at h
    split at h
    · cases h
    · have hrest : rest.All P := hall
      exact Subcommands.All.find hrest h

/-- What holds of all registered parsers holds of all parsers of a tree. -/
lemma parserTree_all {P : ParserEntry → Prop} {parsers : Registry ParserEntry}
    (h : ∀ id entry, parsers id = some entry → P entry) (fuel id : Nat) (tree : ParserTree)
    (htree : parserTree parsers fuel id = some tree) : tree.All P := by
  induction fuel generalizing id tree with
  | zero => cases htree
  | succ fuel ih => ?_
  rcases Option.map_eq_some_iff.mp htree with ⟨entry, hentry, rfl⟩
  refine ⟨h id entry hentry, ?_⟩
  induction entry.children with
  | nil => trivial
  | cons child rest ihrest =>
    unfold subcommandsOf
    cases hchild : parserTree parsers fuel child.2 with
    | some tree => exact ⟨ih child.2 tree hchild, ihrest⟩
    | none => exact ihrest

/-! ## The path of a parse -/

def Subcommands.has (children : Subcommands) (name : Text) : Bool :=
  (children.find name).isSome

lemma isSome_childParser (host : Host σ) (name : Text) :
    (children : Subcommands) → (childParser host children name).isSome = children.has name
  | .nil => rfl
  | .cons other child rest => by
    unfold childParser Subcommands.has Subcommands.find
    split
    · rfl
    · exact isSome_childParser host name rest
  | .missing other rest => by
    unfold childParser Subcommands.has Subcommands.find
    split
    · rfl
    · exact isSome_childParser host name rest

variable {args : List Text} {s : σ} {matched : Matches}

/-- The parser of a subcommand that succeeds is the one of a parser of the tree. -/
lemma childParser_eq_some {parse : List Text → EStateM String σ Matches} {s' : σ}
    (hparse : parse args s = .ok matched s') :
    (children : Subcommands) → childParser host children name = some parse →
      ∃ child, children.find name = some (some child) ∧ parse = parseArgs host child
  | .nil, h => by cases h
  | .cons other child rest, h => by
    unfold childParser at h
    unfold Subcommands.find
    split at h
    · rename_i hname
      cases h
      exact ⟨child, if_pos hname, rfl⟩
    · rename_i hname
      rw [if_neg hname]
      exact childParser_eq_some hparse rest h
  | .missing other rest, h => by
    unfold childParser at h
    unfold Subcommands.find
    split at h
    · cases h
      cases hparse
    · rename_i hname
      rw [if_neg hname]
      exact childParser_eq_some hparse rest h

/-- A successful parse, level by level. -/
inductive Parsed (host : Host σ) : ParserTree → List Text → σ → Matches → Prop
  | leaf {entry : ParserEntry} {children : Subcommands} {args args' : List Text} {s s₁ s₂ s₃ : σ}
      {items : List Item} {state : ParseState} {matched : Matches}
      (hexpand : expandArguments host entry args s = .ok args' s₁)
      (hread : ListRead entry (childParser host children) false false args' ParseState.default s₁
        state s₂ items)
      (hsub : subcommand items = none)
      (hfinish : finishParse host entry state s₂ = .ok matched s₃) :
      Parsed host (.node entry children) args s matched
  | branch {entry : ParserEntry} {children : Subcommands} {args args' rest : List Text}
      {s s₁ s₂ s₃ : σ} {items : List Item} {state : ParseState} {matched below : Matches}
      {name : Text} {child : ParserTree}
      (hexpand : expandArguments host entry args s = .ok args' s₁)
      (hread : ListRead entry (childParser host children) false false args' ParseState.default s₁
        state s₂ items)
      (hsub : subcommand items = some (name, rest))
      (hchild : children.find name = some (some child))
      (hname : state.subcommand = some name) (hmatched : state.subcommandMatches = some below)
      (hfinish : finishParse host entry state s₂ = .ok matched s₃)
      (hbelow : Parsed host child rest s₁ below) :
      Parsed host (.node entry children) args s matched

mutual

lemma parseArgs_parsed (host : Host σ) :
    (tree : ParserTree) → ∀ args s matched s', parseArgs host tree args s = .ok matched s' →
      Parsed host tree args s matched
  | .node entry children, args, s, matched, s', h => by
    unfold parseArgs at h
    rcases Session.bind_eq_ok h with ⟨args', s₁, hexpand, h⟩
    rcases Session.bind_eq_ok h with ⟨state, s₂, hlist, hfinish⟩
    rcases parseArgumentList_reads ⟨rfl, rfl⟩ hlist with ⟨items, hread⟩
    rcases hsub : subcommand items with _ | found
    · exact .leaf hexpand hread hsub hfinish
    rcases found with ⟨name, rest⟩
    have hsubcommand := hread.subcommand
    rw [hsub] at hsubcommand
    rcases hsubcommand with ⟨parse, below, hparser, hparse, hname, hmatched⟩
    rcases childParser_eq_some hparse children hparser with ⟨child, hchild, rfl⟩
    exact .branch hexpand hread hsub hchild hname hmatched hfinish
      (parsed_children host children name child hchild rest s₁ below s₂ hparse)

lemma parsed_children (host : Host σ) :
    (children : Subcommands) → ∀ name child, children.find name = some (some child) →
      ∀ args s matched s', parseArgs host child args s = .ok matched s' →
        Parsed host child args s matched
  | .nil, _, _, hfind, _, _, _, _, _ => by cases hfind
  | .cons other tree rest, name, child, hfind, args, s, matched, s', h => by
    unfold Subcommands.find at hfind
    split at hfind
    · cases hfind
      exact parseArgs_parsed host tree args s matched s' h
    · exact parsed_children host rest name child hfind args s matched s' h
  | .missing other rest, name, child, hfind, args, s, matched, s', h => by
    unfold Subcommands.find at hfind
    split at hfind
    · cases hfind
    · exact parsed_children host rest name child hfind args s matched s' h

end

/-! ## Options that may not be repeated -/

/-- The parsers on the path of a result, each with its values. -/
inductive Level : ParserTree → Matches → ParserEntry → Values → Prop
  | here {tree : ParserTree} {matched : Matches} : Level tree matched tree.entry matched.values
  | inside {tree child : ParserTree} {matched inner : Matches} {name : Text} {entry : ParserEntry}
      {values : Values} (hname : matched.subcommand = some name)
      (hmatched : matched.subcommandMatches = some inner)
      (hchild : tree.children.find name = some (some child))
      (h : Level child inner entry values) : Level tree matched entry values

/-- The parsers on the path of a command line, each with what it reads. -/
inductive Line (host : Host σ) : ParserTree → List Text → σ → ParserEntry → List Item → Prop
  | here {tree : ParserTree} {args args' : List Text} {s s' : σ} {items : List Item}
      (hexpand : expandArguments host tree.entry args s = .ok args' s')
      (hread : readArguments tree.entry tree.children.has false false true args' = some items) :
      Line host tree args s tree.entry items
  | inside {tree child : ParserTree} {args args' rest : List Text} {s s' : σ}
      {items inner : List Item} {name : Text} {entry : ParserEntry}
      (hexpand : expandArguments host tree.entry args s = .ok args' s')
      (hread : readArguments tree.entry tree.children.has false false true args' = some items)
      (hsub : subcommand items = some (name, rest))
      (hchild : tree.children.find name = some (some child))
      (h : Line host child rest s' entry inner) : Line host tree args s entry inner

/-- Every option that may not be repeated has at most one value. -/
def AtMostOnce (entry : ParserEntry) (values : Values) : Prop :=
  ∀ option ∈ entry.options, option.multiple = false →
    ∀ vs, lookup values option.name = some vs → vs.length ≤ 1

/-- No flag before the last place of a cluster repeats an option that may not be repeated. -/
def NoEarlyRepeat (items : List Item) : Prop :=
  (occurrences items).Pairwise fun p o => p.option.name = o.option.name →
    o.option.multiple = true ∨ o.early = false

variable {options : List OptionSpec}

lemma eq_of_name_eq (hnd : OptionNames options) {a b : OptionSpec} (ha : a ∈ options)
    (hb : b ∈ options) (heq : a.name = b.name) : a = b :=
  inj_on_of_nodup_map hnd ha hb heq

variable {entry : ParserEntry} {os : List Occurrence}

/-- How many values an option has: as many as are given, or one from elsewhere. -/
lemma Filled.length_le_one_iff {values : Values} (h : Filled host entry os values)
    {option : OptionSpec} (hoption : option ∈ entry.options) :
    (∀ vs, lookup values option.name = some vs → vs.length ≤ 1) ↔
      (given os option.name).length ≤ 1 := by
  have hsource := h.source option hoption
  unfold rawValues at hsource
  by_cases hgiven : given os option.name = []
  · rw [if_pos hgiven] at hsource
    rw [hgiven]
    refine ⟨fun _ => Nat.zero_le 1, fun _ vs hvs => ?_⟩
    rw [hvs] at hsource
    unfold fallback at hsource
    cases hvalue : (option.env.bind host.env).or option.default with
    | none =>
      rw [hvalue] at hsource
      cases hsource
    | some value =>
      rw [hvalue] at hsource
      cases hsource with
      | some hnormalizes => exact le_of_eq hnormalizes.length_eq
  · rw [if_neg hgiven] at hsource
    cases hvs : lookup values option.name with
    | none =>
      rw [hvs] at hsource
      cases hsource
    | some vs => ?_
    rw [hvs] at hsource
    cases hsource with
    | some hnormalizes =>
      rw [← hnormalizes.length_eq]
      exact ⟨fun hall => hall vs rfl, fun hle ws hws => by cases hws; exact hle⟩

/-- Occurrences of one name are repetitions of one option. -/
lemma given_length_iff (hnd : OptionNames options) (hos : ∀ o ∈ os, o.option ∈ options) :
    (∀ option ∈ options, option.multiple = false → (given os option.name).length ≤ 1) ↔
      os.Pairwise fun p o => p.option.name = o.option.name → o.option.multiple = true := by
  constructor
  · intro h
    rw [pairwise_iff_forall_sublist]
    intro p o hsub heq
    by_contra hmultiple
    have hmem : o ∈ os := hsub.subset (mem_cons_of_mem _ mem_cons_self)
    have hlength := h o.option (hos o hmem) (Bool.not_eq_true _ |>.mp hmultiple)
    have hfilter : [p, o].filter (fun q => q.option.name == o.option.name) = [p, o] := by
      rw [filter_cons_of_pos (by exact beq_iff_eq.mpr heq),
        filter_cons_of_pos (by exact beq_self_eq_true _), filter_nil]
    have htwo := (hsub.filter fun q => q.option.name == o.option.name).length_le
    rw [hfilter] at htwo
    unfold given at hlength
    rw [length_map] at hlength
    have htoo : 2 ≤ 1 := le_trans htwo hlength
    omega
  · intro h option hoption hmultiple
    unfold given
    have hfiltered := h.filter fun o => o.option.name == option.name
    have hall : ∀ o ∈ os.filter (fun o => o.option.name == option.name), o.option = option := by
      intro o ho
      have hname := beq_iff_eq.mp (mem_filter.mp ho).2
      exact eq_of_name_eq hnd (hos o (mem_filter.mp ho).1) hoption hname
    generalize os.filter (fun o => o.option.name == option.name) = same at hfiltered hall
    rcases same with _ | ⟨p, _ | ⟨o, tail⟩⟩
    · exact Nat.zero_le 1
    · exact le_refl 1
    have hp := hall p mem_cons_self
    have ho := hall o (mem_cons_of_mem _ mem_cons_self)
    have hrepeat := (pairwise_cons.mp hfiltered).1 o mem_cons_self (by rw [hp, ho])
    rw [ho, hmultiple] at hrepeat
    cases hrepeat

variable {items : List Item}

lemma atMostOnce_iff (hnd : OptionNames entry.options) {values : Values}
    (h : Filled host entry (occurrences items) values)
    (hos : ∀ o ∈ occurrences items, o.option ∈ entry.options)
    (hadmitted : Admitted [] (occurrences items)) :
    AtMostOnce entry values ↔ NoEarlyRepeat items := by
  have hgiven := forall₂_congr fun option (hoption : option ∈ entry.options) =>
    imp_congr_right fun _ : option.multiple = false => h.length_le_one_iff hoption
  rw [AtMostOnce, hgiven, given_length_iff hnd hos]
  have hchecked := (admitted_iff.mp hadmitted).2
  constructor
  · intro hpair
    exact hpair.imp fun himp heq => Or.inl (himp heq)
  intro hpair
  apply (hpair.and hchecked).imp
  rintro p o ⟨hearly, hcheck⟩ heq
  rcases hearly heq with hmultiple | hlast
  · exact hmultiple
  rcases hcheck heq with hearly | hmultiple
  · rw [hlast] at hearly
    cases hearly
  · exact hmultiple

/-- What one level of a successful parse knows. -/
lemma ListRead.level {children : Subcommands} {s₁ s₂ s₃ : σ} {state : ParseState}
    (hnd : OptionNames entry.options)
    (hread : ListRead entry (childParser host children) false false args ParseState.default s₁
      state s₂ items) (hfinish : finishParse host entry state s₂ = .ok matched s₃) :
    readArguments entry children.has false false true args = some items ∧
      Filled host entry (occurrences items) matched.values ∧
        (AtMostOnce entry matched.values ↔ NoEarlyRepeat items) := by
  have hitems : readArguments entry children.has false false true args = some items := by
    have hhas : children.has = fun arg => (childParser host children arg).isSome := by
      funext arg
      exact (isSome_childParser host arg children).symm
    rw [hhas]
    exact hread.read
  have hfilled := (finishParse_filled hnd hread.values hfinish).1
  exact ⟨hitems, hfilled, atMostOnce_iff hnd hfilled (occurrences_mem hitems) hread.admitted⟩

lemma Parsed.atMostOnce_iff {tree : ParserTree} (h : Parsed host tree args s matched)
    (hall : tree.All fun entry => OptionNames entry.options) :
    (∀ entry values, Level tree matched entry values → AtMostOnce entry values) ↔
      ∀ entry items, Line host tree args s entry items → NoEarlyRepeat items := by
  induction h with
  | @leaf entry children args args' s s₁ s₂ s₃ items state matched hexpand hread hsub hfinish =>
    rcases hread.level hall.1 hfinish with ⟨hitems, hfilled, hiff⟩
    have hfinal := finishParse_filled hall.1 hread.values hfinish
    have hnone : matched.subcommand = none := by
      have hsubcommand := hread.subcommand
      rw [hsub] at hsubcommand
      rw [hfinal.2.2.1]
      exact hsubcommand.1
    constructor
    · intro hlevels entry' items' hline
      cases hline with
      | here hexpand' hread' =>
        cases hexpand.symm.trans hexpand'
        cases hitems.symm.trans hread'
        exact hiff.mp (hlevels entry matched.values .here)
      | inside hexpand' hread' hsub' =>
        cases hexpand.symm.trans hexpand'
        cases hitems.symm.trans hread'
        cases hsub.symm.trans hsub'
    · intro hlines entry' values hlevel
      cases hlevel with
      | here => exact hiff.mpr (hlines entry items (.here hexpand hitems))
      | inside hname => cases hnone.symm.trans hname
  | @branch entry children args args' rest s s₁ s₂ s₃ items state matched inner name child hexpand
      hread hsub hchild hname hmatched hfinish hbelow ih => ?_
  rcases hread.level hall.1 hfinish with ⟨hitems, hfilled, hiff⟩
  have hfinal := finishParse_filled hall.1 hread.values hfinish
  have ih := ih (Subcommands.All.find hall.2 hchild)
  have hname' : matched.subcommand = some name := hfinal.2.2.1.trans hname
  have hmatched' : matched.subcommandMatches = some inner := hfinal.2.2.2.1.trans hmatched
  constructor
  · intro hlevels entry' items' hline
    cases hline with
    | here hexpand' hread' =>
      cases hexpand.symm.trans hexpand'
      cases hitems.symm.trans hread'
      exact hiff.mp (hlevels entry matched.values .here)
    | inside hexpand' hread' hsub' hchild' hline' => ?_
    cases hexpand.symm.trans hexpand'
    cases hitems.symm.trans hread'
    cases hsub.symm.trans hsub'
    cases hchild.symm.trans hchild'
    apply ih.mp _ entry' items' hline'
    intro e values hlevel
    exact hlevels e values (.inside hname' hmatched' hchild hlevel)
  · intro hlines entry' values hlevel
    cases hlevel with
    | here => exact hiff.mpr (hlines entry items (.here hexpand hitems))
    | inside hname'' hmatched'' hchild' hlevel' => ?_
    cases hname'.symm.trans hname''
    cases hmatched'.symm.trans hmatched''
    cases hchild.symm.trans hchild'
    apply ih.mpr _ entry' values hlevel'
    intro e lineItems hline
    exact hlines e lineItems (.inside hexpand hitems hsub hchild hline)

/-! ## The names of declared options -/

lemma map_name_eq (options : List OptionSpec) :
    options.map OptionSpec.name = (options.map OptionSpec.longNames).map fun names => names.headD [] := by
  rw [map_map]
  rfl

lemma NamesStep.optionNames {entry' : ParserEntry} {declared : Option Text}
    (hstep : NamesStep entry entry' declared) (h : OptionNames entry.options) :
    OptionNames entry'.options := by
  unfold OptionNames at h ⊢
  cases hstep with
  | same heq => rwa [map_name_eq, heq, ← map_name_eq]
  | option name hvalid hnew heq =>
    rw [map_name_eq, heq, map_append, ← map_name_eq]
    apply List.Nodup.append h (nodup_singleton name)
    intro other hother hsingle
    rcases mem_map.mp hother with ⟨option, hoption, rfl⟩
    exact hnew option hoption (mem_singleton.mp hsingle)
  | aliasName name before after names hvalid hnew hold heq => ?_
  have hmem : names ∈ entry.options.map OptionSpec.longNames := by
    rw [hold]
    exact mem_append_right _ mem_cons_self
  rcases mem_map.mp hmem with ⟨option, _, rfl⟩
  rw [map_name_eq, hold] at h
  rw [map_name_eq, heq]
  simpa only [map_append, map_cons, OptionSpec.longNames, cons_append, headD_cons] using h

lemma Effect.optionNames {s s' : State} {call : Call} (he : Effect s call s')
    (h : ∀ id entry, s.parsers id = some entry → OptionNames entry.options) :
    ∀ id entry, s'.parsers id = some entry → OptionNames entry.options := by
  have hempty : OptionNames [] := nodup_nil
  cases he with
  | failed => exact h
  | wasted => exact h
  | created => exact forall_insert h hempty
  | added object parentId parent name about hparent =>
    exact forall_insert (P := fun _ (entry : ParserEntry) => OptionNames entry.options)
      (forall_insert h (h parentId parent hparent)) hempty
  | configured object id setter f entry entry' hhandle hentry hf hentry' =>
    exact forall_insert h
      ((setter.sound f hf entry entry' hentry').step.optionNames (h id entry hentry))
  | copied object id entry hobject hentry => exact forall_insert h (h id entry hentry)
  | copiedStale => exact h
  | dropped object id hobject =>
    intro j entry hentry
    rcases releaseParserReference_lowered _ _ _ j entry hentry with ⟨names, hold⟩
    have hnames := h j _ hold
    exact hnames

/-- Whatever the calls, the options of a parser have distinct names. -/
lemma run_optionNames (calls : List Call) :
    ∀ id entry, (run calls).parsers id = some entry → OptionNames entry.options :=
  Machine.run_keeps
    (I := fun s : State => ∀ id entry, s.parsers id = some entry → OptionNames entry.options)
    (fun s call h => (step_effect s call).optionNames h) nofun

/-- After any calls, and on any arguments on which the parser then succeeds: every option that
may not be repeated has at most one value, at each parser of the result, if and only if at no
parser of the command line a cluster of short options repeats such an option before its last
place. -/
theorem option_given_once_iff (host : Host σ) (calls : List Call) (id : Nat) (tree : ParserTree)
    (htree : (run calls).tree id = some tree) (args : List Text) (s s' : σ) (matched : Matches)
    (hparse : parseArgs host tree args s = .ok matched s') :
    (∀ entry values, Level tree matched entry values → AtMostOnce entry values) ↔
      ∀ entry items, Line host tree args s entry items → NoEarlyRepeat items :=
  (parseArgs_parsed host tree args s matched s' hparse).atMostOnce_iff
    (parserTree_all (run_optionNames calls) _ id tree htree)

/-- A flag `v` and an option `x`, declared on a new parser. -/
def flagCalls : List Call :=
  [.new, .configure 0 (.option (some ['v']) (some ['v']) false false),
    .configure 0 (.option (some ['x']) (some ['x']) false false)]

/-- A host without environment, response files and callbacks. -/
def quietHost : Host Unit where
  env := fun _ => none
  expandResponseFiles := fun args => pure args
  applyOptionParser := fun _ raw => pure raw

def flag (c : Char) : OptionSpec where
  name := [c]
  short := some c
  takesValue := false
  required := false
  env := none
  default := none
  multiple := false
  conflicts := []
  requires := []
  aliases := []
  group := none
  parser := none

def flagTree : ParserTree :=
  .node { ParserEntry.default with options := [flag 'v', flag 'x'] } .nil

theorem option_given_once_flags :
    (∀ entry values, Level flagTree (.mk [(['v'], [flagValue]), (['x'], [flagValue])] [] none none)
        entry values → AtMostOnce entry values) ↔
      ∀ entry items, Line quietHost flagTree [['-', 'v', 'x']] () entry items →
        NoEarlyRepeat items :=
  option_given_once_iff quietHost flagCalls 1 flagTree rfl [['-', 'v', 'x']] () () _ rfl

/-- The cluster `-vvx` is accepted, with two values for a flag that may not be repeated. -/
theorem cluster_repeats_flag : (run flagCalls).tree 1 = some flagTree ∧
      ∃ matched, parseArgs quietHost flagTree [['-', 'v', 'v', 'x']] () = .ok matched () ∧
        lookup matched.values ['v'] = some [flagValue, flagValue] ∧ (flag 'v').multiple = false ∧
          ¬ AtMostOnce flagTree.entry matched.values := by
  refine ⟨rfl, _, rfl, rfl, rfl, ?_⟩
  intro h
  have hle := h (flag 'v') mem_cons_self rfl [flagValue, flagValue] rfl
  exact absurd hle (by decide)

/-! ## The contract of a parse -/

/-- What a parse promises for the items that one parser reads. -/
structure LevelContract (host : Host σ) (entry : ParserEntry) (items : List Item)
    (matched : Matches) : Prop where
  /-- Every required option has a value. -/
  required : ∀ option ∈ entry.options, option.required = true →
    ∃ value values, lookup matched.values option.name = some (value :: values)
  /-- Values come from the command line, the environment or the default, in that order. -/
  source : ∀ option ∈ entry.options, Option.Rel (Normalizes host option)
    (rawValues host.env (occurrences items) option) (lookup matched.values option.name)
  /-- An option that is present has what it requires and nothing that it conflicts with. -/
  related : ∀ option ∈ entry.options, (lookup matched.values option.name).isSome = true →
    (∀ other ∈ option.requires, (lookup matched.values other).isSome = true) ∧
      ∀ other ∈ option.conflicts, lookup matched.values other = none
  /-- There are no values but those of options. -/
  declared : ∀ name, name ∉ entry.options.map OptionSpec.name → lookup matched.values name = none
  /-- The required positionals are there. -/
  present : ∀ i name, entry.positionals[i]? = some (name, true) → i < matched.positionals.length
  /-- The positionals are the arguments read as such. -/
  positionals : matched.positionals = positionals items

/-- The arguments are read as items, the promises hold for them, and a subcommand has parsed
what is left under the same promises. -/
inductive Contract (host : Host σ) : ParserTree → List Text → Matches → Prop
  | leaf {entry : ParserEntry} {children : Subcommands} {args : List Text} {items : List Item}
      {matched : Matches}
      (hread : readArguments entry children.has false false true args = some items)
      (hwords : items.flatMap Item.words = args) (hlevel : LevelContract host entry items matched)
      (hsub : subcommand items = none) (hname : matched.subcommand = none)
      (hmatched : matched.subcommandMatches = none) : Contract host (.node entry children) args matched
  | branch {entry : ParserEntry} {children : Subcommands} {args rest : List Text}
      {items : List Item} {matched inner : Matches} {name : Text} {child : ParserTree}
      (hread : readArguments entry children.has false false true args = some items)
      (hwords : items.flatMap Item.words = args) (hlevel : LevelContract host entry items matched)
      (hsub : subcommand items = some (name, rest)) (hname : matched.subcommand = some name)
      (hmatched : matched.subcommandMatches = some inner)
      (hchild : children.find name = some (some child)) (h : Contract host child rest inner) :
      Contract host (.node entry children) args matched

/-- Names and aliases are distinct, and response files are not expanded. -/
def Plain (entry : ParserEntry) : Prop :=
  entry.longNames.Nodup ∧ entry.responseFiles = false

lemma Plain.optionNames (h : Plain entry) : OptionNames entry.options := by
  have hpair := (nodup_flatMap.mp h.1).2
  unfold OptionNames
  rw [nodup_iff_pairwise_ne, pairwise_map]
  apply hpair.imp
  intro a b hdisjoint heq
  exact hdisjoint mem_cons_self (heq ▸ mem_cons_self)

lemma given_eq_nil (hos : ∀ o ∈ os, o.option ∈ options)
    (hname : name ∉ options.map OptionSpec.name) : given os name = [] := by
  unfold given
  rw [map_eq_nil_iff, filter_eq_nil_iff]
  intro o ho heq
  exact hname (beq_iff_eq.mp heq ▸ mem_map_of_mem (hos o ho))

lemma rawValues_ne_nil {env : Text → Option Text} {option : OptionSpec} {raws : List Text}
    (h : rawValues env os option = some raws) : raws ≠ [] := by
  unfold rawValues at h
  split at h
  · rcases Option.map_eq_some_iff.mp h with ⟨value, _, rfl⟩
    exact cons_ne_nil _ _
  · rename_i hgiven
    cases h
    exact hgiven

lemma Filled.levelContract (h : Filled host entry (occurrences items) matched.values)
    (hos : ∀ o ∈ occurrences items, o.option ∈ entry.options)
    (hpositionals : matched.positionals = positionals items)
    (hvalid : validatePositionals entry matched.positionals = .ok ()) :
    LevelContract host entry items matched := by
  constructor
  · intro option hoption hrequired
    have hsome := h.required option hoption hrequired
    have hsource := h.source option hoption
    cases hvalues : lookup matched.values option.name with
    | none =>
      rw [hvalues] at hsome
      cases hsome
    | some vs => ?_
    rw [hvalues] at hsource
    cases vs with
    | cons value values => exact ⟨value, values, rfl⟩
    | nil => ?_
    cases hraws : rawValues host.env (occurrences items) option with
    | none =>
      rw [hraws] at hsource
      cases hsource
    | some raws => ?_
    rw [hraws] at hsource
    cases hsource with
    | some hnormalizes =>
      have hlength : raws.length = 0 := hnormalizes.length_eq.symm
      exact absurd (length_eq_zero_iff.mp hlength) (rawValues_ne_nil hraws)
  · exact h.source
  · exact h.related
  · intro name hname
    rw [h.others name hname, lookup_giveAll_nil, if_pos (given_eq_nil hos hname)]
  · exact validatePositionals_eq_ok hvalid
  · exact hpositionals

lemma expandArguments_plain (h : Plain entry) {args' : List Text} {s' : σ}
    (hexpand : expandArguments host entry args s = .ok args' s') : args' = args := by
  unfold expandArguments at hexpand
  rw [h.2] at hexpand
  cases hexpand
  rfl

/-- Every successful parse with a tree of parsers that have distinct names and aliases and do
not expand response files keeps the contract. -/
theorem parse_meets_contract (host : Host σ) (tree : ParserTree) (hplain : tree.All Plain)
    (args : List Text) (s s' : σ) (matched : Matches)
    (hparse : parseArgs host tree args s = .ok matched s') : Contract host tree args matched := by
  have hparsed := parseArgs_parsed host tree args s matched s' hparse
  clear hparse
  induction hparsed with
  | @leaf entry children args args' s s₁ s₂ s₃ items state matched hexpand hread hsub hfinish =>
    cases expandArguments_plain hplain.1 hexpand
    have hnd := hplain.1.optionNames
    rcases hread.level hnd hfinish with ⟨hitems, hfilled, -⟩
    rcases finishParse_filled hnd hread.values hfinish with
      ⟨-, hpositionals, hname, hmatched, hvalid⟩
    have hsubcommand := hread.subcommand
    rw [hsub] at hsubcommand
    rw [← hpositionals] at hvalid
    exact .leaf hitems (words_readArguments hitems)
      (hfilled.levelContract (occurrences_mem hitems) (hpositionals.trans hread.positionals) hvalid)
      hsub (hname.trans hsubcommand.1) (hmatched.trans hsubcommand.2.1)
  | @branch entry children args args' rest s s₁ s₂ s₃ items state matched inner name child hexpand
      hread hsub hchild hname hmatched hfinish hbelow ih =>
      cases expandArguments_plain hplain.1 hexpand
      have hnd := hplain.1.optionNames
      rcases hread.level hnd hfinish with ⟨hitems, hfilled, -⟩
      rcases finishParse_filled hnd hread.values hfinish with
        ⟨-, hpositionals, hname', hmatched', hvalid⟩
      rw [← hpositionals] at hvalid
      exact .branch hitems (words_readArguments hitems)
        (hfilled.levelContract (occurrences_mem hitems) (hpositionals.trans hread.positionals) hvalid)
        hsub (hname'.trans hname) (hmatched'.trans hmatched) hchild
        (ih (Subcommands.All.find hplain.2 hchild))

def nameOption : OptionSpec :=
  { flag 'n' with takesValue := true, required := true, aliases := [['m']], env := some ['N'] }

/-- A tool with an option that has an alias and an environment variable, and a subcommand with
a flag. -/
def toolTree : ParserTree :=
  .node
    { ParserEntry.default with
      options := [nameOption]
      children := [(['r'], 2)] }
    (.cons ['r'] (.node { ParserEntry.default with options := [flag 'q'] } .nil) .nil)

theorem tool_meets_contract :
    Contract quietHost toolTree [['-', '-', 'm'], ['5'], ['r'], ['-', 'q'], ['-', '-'], ['-', 'q']]
      (.mk [(['n'], [['5']])] [] (some ['r']) (some
        (.mk [(['q'], [flagValue])] [['-', 'q']] none none))) :=
  parse_meets_contract quietHost toolTree
    ⟨⟨by decide, rfl⟩, ⟨⟨by decide, rfl⟩, trivial⟩, trivial⟩ _ () () _ rfl

end MuxRuntime.Cli
