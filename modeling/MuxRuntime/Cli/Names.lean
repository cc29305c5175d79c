import MuxRuntime.Cli.Handles

/-!
# The names of options

The name of a new option is compared with the names of the others, an alias with their
names and aliases. A new name is not compared with the aliases: an option that takes over
an alias is then found under it or not, depending on which of the two comes first.
-/

namespace MuxRuntime.Cli

open Registry List

/-- The long names of a parser: each is there once, belongs to one option, and finds it when
it is given with its two dashes. -/
structure Resolves (entry : ParserEntry) : Prop where
  distinct : entry.longNames.Nodup
  unique : ∀ name option, findLongOption entry name = .ok option →
    ∀ other ∈ entry.options, name ∈ other.longNames → other = option
  reachable : ∀ option ∈ entry.options, ∀ name ∈ option.longNames,
    longOption entry ('-' :: '-' :: name) = .ok option

/-- What the calls keep: names are distinct, and well formed. -/
structure Named (entry : ParserEntry) : Prop where
  distinct : entry.longNames.Nodup
  valid : ∀ name ∈ entry.longNames, validName name = true

variable {entry : ParserEntry}

lemma Named.resolves (h : Named entry) : Resolves entry := by
  constructor
  · exact h.distinct
  · intro name option hfind other hother hname
    have hfound := findLongOption_eq_ok hfind
    exact eq_of_mem_longNames h.distinct hother hfound.1 hname hfound.2
  · intro option hoption name hname
    have hvalid : validName name = true := h.valid name (mem_flatMap.mpr ⟨option, hoption, hname⟩)
    show findLongOption entry (splitInline name).1 = .ok option
    rw [splitInline_of_notMem (notMem_of_validName hvalid)]
    exact (findLongOption_eq_ok_iff h.distinct).mpr ⟨hoption, hname⟩

variable {entry' : ParserEntry}

lemma named_of_options (h : Named entry)
    (heq : entry'.options.map OptionSpec.longNames = entry.options.map OptionSpec.longNames) :
    Named entry' := by
  have hnames : entry'.longNames = entry.longNames := by
    rw [ParserEntry.longNames_eq_flatten, heq, ← ParserEntry.longNames_eq_flatten]
  exact ⟨hnames ▸ h.distinct, hnames ▸ h.valid⟩

variable {name : Text}

/-- One more name keeps the names distinct when it was not there, wherever it is put. -/
lemma Named.perm_cons (h : Named entry) (hvalid : validName name = true)
    (hnew : name ∉ entry.longNames) (hperm : entry'.longNames.Perm (name :: entry.longNames)) :
    Named entry' := by
  constructor
  · rw [hperm.nodup_iff]
    exact nodup_cons.mpr ⟨hnew, h.distinct⟩
  · intro other hother
    rcases mem_cons.mp (hperm.mem_iff.mp hother) with rfl | hold
    · exact hvalid
    · exact h.valid other hold

lemma longNames_of_declared (heq : entry'.options.map OptionSpec.longNames =
      entry.options.map OptionSpec.longNames ++ [[name]]) :
    entry'.longNames = entry.longNames ++ [name] := by
  rw [ParserEntry.longNames_eq_flatten, heq, flatten_append, flatten_singleton,
    ← ParserEntry.longNames_eq_flatten]

lemma longNames_of_alias {before after : List (List Text)} {names : List Text}
    (hold : entry.options.map OptionSpec.longNames = before ++ names :: after)
    (heq : entry'.options.map OptionSpec.longNames = before ++ (names ++ [name]) :: after) :
    entry'.longNames.Perm (name :: entry.longNames) := by
  rw [ParserEntry.longNames_eq_flatten, ParserEntry.longNames_eq_flatten, heq, hold]
  simp only [flatten_append, flatten_cons, append_assoc]
  have hnames : (names ++ ([name] ++ after.flatten)).Perm (name :: (names ++ after.flatten)) :=
    perm_middle
  exact (hnames.append_left before.flatten).trans perm_middle

lemma NamesStep.named {declared : Option Text} (hstep : NamesStep entry entry' declared)
    (h : Named entry)
    (hfresh : ∀ name, declared = some name → ∀ option ∈ entry.options, name ∉ option.aliases) :
    Named entry' := by
  cases hstep with
  | same heq => exact named_of_options h heq
  | option name hvalid hnew heq =>
    have hnotMem : name ∉ entry.longNames := by
      intro hmem
      rcases mem_flatMap.mp hmem with ⟨option, hoption, hname⟩
      rcases mem_cons.mp hname with rfl | halias
      · exact hnew option hoption rfl
      · exact hfresh name rfl option hoption halias
    apply h.perm_cons hvalid hnotMem
    rw [longNames_of_declared heq]
    exact perm_append_singleton name entry.longNames
  | aliasName name before after names hvalid hnew hold heq =>
    exact h.perm_cons hvalid hnew (longNames_of_alias hold heq)

/-! ## Runs -/

/-- The call succeeds on the parser. -/
def Setter.Accepted (setter : Setter) (entry : ParserEntry) : Prop :=
  ∃ f entry', setter.mutation = .ok f ∧ f entry = .ok entry'

/-- The call does not declare an option under an alias of its parser. -/
def FreshName (s : State) : Call → Prop
  | .configure object setter => ∀ name, setter.declared = some name → ∀ id entry,
      handle s object = .ok id → s.parsers id = some entry → setter.Accepted entry →
        ∀ option ∈ entry.options, name ∉ option.aliases
  | _ => True

def AllNamed (s : State) : Prop :=
  ∀ id entry, s.parsers id = some entry → Named entry

lemma named_of_no_option (h : entry.options = []) : Named entry := by
  have hnames : entry.longNames = [] := by
    unfold ParserEntry.longNames
    rw [h, flatMap_nil]
  constructor
  · rw [hnames]
    exact nodup_nil
  · rw [hnames]
    exact nofun

lemma Effect.allNamed {s s' : State} {call : Call} (he : Effect s call s') (h : AllNamed s)
    (hfresh : FreshName s call) : AllNamed s' := by
  cases he with
  | failed => exact h
  | wasted => exact h
  | created => exact forall_insert h (named_of_no_option rfl)
  | added object parentId parent name about hparent =>
    have hchild : Named (subcommandEntry name about) := named_of_no_option rfl
    apply forall_insert (P := fun _ entry => Named entry) _ hchild
    exact forall_insert h (named_of_options (h parentId parent hparent) rfl)
  | configured object id setter f entry entry' hhandle hentry hf hentry' =>
    apply forall_insert h
    apply (setter.sound f hf entry entry' hentry').step.named (h id entry hentry)
    intro name hname
    exact hfresh name hname id entry hhandle hentry ⟨f, entry', hf, hentry'⟩
  | copied object id entry hobject hentry =>
    exact forall_insert h (named_of_options (h id entry hentry) rfl)
  | copiedStale => exact h
  | dropped object id hobject =>
    intro j entry hentry
    rcases releaseParserReference_lowered _ _ _ j entry hentry with ⟨names, hold⟩
    exact named_of_options (h j _ hold) rfl

/-- An option declared under an alias leaves a name that stands twice. -/
lemma freshName_of_distinct {s : State} {call : Call}
    (h : ∀ id entry, (step s call).parsers id = some entry → Resolves entry) : FreshName s call := by
  cases call with
  | configure object setter =>
    rintro name hname id entry hhandle hentry ⟨f, entry', hf, hentry'⟩ option hoption halias
    have hafter : (step s (.configure object setter)).parsers id = some entry' := by
      rw [step_configure hf hhandle hentry hentry']
      exact insert_self
    have hdistinct := (h id entry' hafter).distinct
    have hstep := (setter.sound f hf entry entry' hentry').step
    rw [hname] at hstep
    cases hstep with
    | option _ _ _ heq =>
      rw [longNames_of_declared heq, nodup_append] at hdistinct
      exact hdistinct.2.2 name
        (mem_flatMap.mpr ⟨option, hoption, mem_cons_of_mem _ halias⟩) name
        (mem_singleton_self name) rfl
  | _ => trivial

/-- In a run of any calls the names and aliases of every parser are distinct after each call,
each of them finds one option and each declared option is found, if and only if no call of
the run declares an option under a name that its parser has as an alias. -/
theorem names_stay_distinct_iff (calls : List Call) : Machine.Always step
        (fun s call => ∀ id entry, (step s call).parsers id = some entry → Resolves entry)
        State.initial calls ↔
      Machine.Always step FreshName State.initial calls := by
  apply Machine.always_iff (I := AllNamed)
  · intro s call h hfresh
    exact (step_effect s call).allNamed h hfresh
  · exact nofun
  · intro s call h
    constructor
    · exact freshName_of_distinct
    · intro hfresh id entry hentry
      exact ((step_effect s call).allNamed h hfresh id entry hentry).resolves

/-- An option `a` with the alias `b`, and then an option `b`. -/
def declaredAlias : List Call :=
  [.new, .configure 0 (.option (some ['a']) (some []) false false),
    .configure 0 (.optionAlias (some ['a']) (some ['b'])),
    .configure 0 (.option (some ['b']) (some []) false false)]

/-- All four calls succeed; the parser then has two options, and the name of the second
finds the first. -/
theorem declared_alias_is_lost :
    ∃ entry a b, (run declaredAlias).parsers 1 = some entry ∧ entry.options = [a, b] ∧
      b.name = ['b'] ∧ longOption entry ['-', '-', 'b'] = .ok a ∧ a ≠ b ∧
        ¬ entry.longNames.Nodup := by
  refine ⟨_, _, _, rfl, rfl, rfl, rfl, ?_, ?_⟩
  · decide
  · decide

end MuxRuntime.Cli
