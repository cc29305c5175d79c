import MuxRuntime.Cli.Reading

/-!
# The values of the options

Given values are kept by name in their order. After that options without a value get one from the
environment or from their default, the callbacks normalize what there is, and the relations between
the options are checked.
-/

namespace MuxRuntime.Cli

open List Loop Session

open AssocList (lookup)

/-! ## Given values -/

/-- The values that are given for a name. -/
def given (os : List Occurrence) (name : Text) : List Text :=
  (os.filter fun o => o.option.name == name).map Occurrence.value

lemma given_cons (o : Occurrence) (os : List Occurrence) (name : Text) :
    given (o :: os) name = (if o.option.name = name then [o.value] else []) ++ given os name := by
  unfold given
  rw [filter_cons]
  by_cases h : o.option.name = name
  · rw [if_pos (beq_iff_eq.mpr h), if_pos h]
    rfl
  · rw [if_neg (fun heq => h (beq_iff_eq.mp heq)), if_neg h]
    rfl

lemma lookup_give_self (values : Values) (o : Occurrence) : lookup (give values o) o.option.name =
      some ((lookup values o.option.name).getD [] ++ [o.value]) :=
  AssocList.lookup_insert_self

variable {values : Values}

lemma lookup_give_of_ne {o : Occurrence} {name : Text} (h : name ≠ o.option.name) :
    lookup (give values o) name = lookup values name :=
  AssocList.lookup_insert_of_ne h

/-- The values of an option are those of its occurrences. -/
theorem lookup_giveAll (values : Values) (os : List Occurrence) (name : Text) :
    lookup (giveAll values os) name = if given os name = [] then lookup values name
      else some ((lookup values name).getD [] ++ given os name) := by
  induction os generalizing values with
  | nil => rfl
  | cons o os ih => ?_
  have hcons : giveAll values (o :: os) = giveAll (give values o) os := rfl
  rw [hcons, ih, given_cons]
  by_cases h : o.option.name = name
  · subst h
    have hne : [o.value] ++ given os o.option.name ≠ [] := cons_ne_nil _ _
    rw [lookup_give_self, if_pos rfl, if_neg hne]
    split
    · rename_i hnil
      rw [hnil, append_nil]
    · rw [Option.getD_some, append_assoc]
  · rw [lookup_give_of_ne (Ne.symm h), if_neg h, nil_append]

/-- From the beginning: the values of a name, or none when it is not given. -/
lemma lookup_giveAll_nil (os : List Occurrence) (name : Text) :
    lookup (giveAll [] os) name = if given os name = [] then none else some (given os name) := by
  rw [lookup_giveAll]
  rfl

lemma contains_give {o : Occurrence} {name : Text} :
    AssocList.contains (give values o) name = false ↔
      name ≠ o.option.name ∧ AssocList.contains values name = false := by
  rw [← AssocList.isSome_lookup, ← AssocList.isSome_lookup]
  by_cases h : name = o.option.name
  · subst h
    rw [lookup_give_self]
    exact ⟨nofun, fun hne => absurd rfl hne.1⟩
  · rw [lookup_give_of_ne h]
    exact ⟨fun hnone => ⟨h, hnone⟩, fun hnone => hnone.2⟩

/-- A checked occurrence is not a repetition, an unchecked one may be. -/
theorem admitted_iff {os : List Occurrence} : Admitted values os ↔
      (∀ o ∈ os, o.early = true ∨ o.option.multiple = true ∨
        AssocList.contains values o.option.name = false) ∧
      os.Pairwise fun p o => p.option.name = o.option.name →
        o.early = true ∨ o.option.multiple = true := by
  induction os generalizing values with
  | nil => exact ⟨fun _ => ⟨forall_mem_nil _, List.Pairwise.nil⟩, fun _ => trivial⟩
  | cons o os ih => ?_
  have hlater : ∀ p : Occurrence, (p.early = true ∨ p.option.multiple = true ∨
      p.option.name ≠ o.option.name ∧ AssocList.contains values p.option.name = false) ↔
    (p.early = true ∨ p.option.multiple = true ∨ AssocList.contains values p.option.name = false) ∧
    (o.option.name = p.option.name → p.early = true ∨ p.option.multiple = true) := by
    intro p
    rw [ne_comm]
    tauto
  rw [Admitted, ih, forall_mem_cons, pairwise_cons]
  simp only [contains_give, hlater, forall₂_and, and_assoc]

/-! ## Defaults -/

/-- The value of an option that is not given. -/
def fallback (env : Text → Option Text) (option : OptionSpec) : Option (List Text) :=
  ((option.env.bind env).or option.default).map fun value => [value]

/-- The names of the options are distinct. -/
def OptionNames (options : List OptionSpec) : Prop :=
  (options.map OptionSpec.name).Nodup

variable {values' : Values} {option : OptionSpec}

lemma applyDefault_eq_ok {env : Text → Option Text}
    (h : applyDefault env values option = .ok values') :
    lookup values' option.name = (lookup values option.name).or (fallback env option) ∧
      (∀ name, name ≠ option.name → lookup values' name = lookup values name) ∧
        (option.required = true → (lookup values' option.name).isSome = true) := by
  unfold applyDefault at h
  split at h
  · rename_i hcontains
    cases h
    rw [← AssocList.isSome_lookup] at hcontains
    rcases Option.isSome_iff_exists.mp hcontains with ⟨old, hold⟩
    rw [hold]
    exact ⟨rfl, fun _ _ => rfl, fun _ => rfl⟩
  rename_i habsent
  have hnone : lookup values option.name = none :=
    AssocList.lookup_eq_none_of_contains (Bool.not_eq_true _ |>.mp habsent)
  unfold fallback
  rw [hnone, Option.none_or]
  cases henv : option.env.bind env with
  | some value =>
    rw [henv] at h
    cases h
    rw [AssocList.lookup_insert_self]
    exact ⟨rfl, fun name hne => AssocList.lookup_insert_of_ne hne, fun _ => rfl⟩
  | none => ?_
  rw [henv] at h
  cases hdefault : option.default with
  | some value =>
    rw [hdefault] at h
    cases h
    rw [AssocList.lookup_insert_self]
    exact ⟨rfl, fun name hne => AssocList.lookup_insert_of_ne hne, fun _ => rfl⟩
  | none => ?_
  rw [hdefault] at h
  change (if option.required = true then _ else _) = _ at h
  split at h
  · cases h
  · rename_i hrequired
    cases h
    exact ⟨hnone, fun _ _ => rfl, fun hreq => absurd hreq hrequired⟩

lemma foldlM_applyDefault {env : Text → Option Text} {options : List OptionSpec}
    (hnd : OptionNames options) (h : options.foldlM (applyDefault env) values = .ok values') :
    (∀ option ∈ options,
      lookup values' option.name = (lookup values option.name).or (fallback env option) ∧
        (option.required = true → (lookup values' option.name).isSome = true)) ∧
      ∀ name, name ∉ options.map OptionSpec.name → lookup values' name = lookup values name := by
  induction options generalizing values with
  | nil =>
    cases h
    exact ⟨forall_mem_nil _, fun _ _ => rfl⟩
  | cons option rest ih => ?_
  rcases bind_eq_ok h with ⟨values₁, hfirst, hrest⟩
  rcases nodup_cons.mp hnd with ⟨hnotMem, hnd'⟩
  rcases applyDefault_eq_ok hfirst with ⟨hself, hother, hrequired⟩
  rcases ih hnd' hrest with ⟨hall, hkept⟩
  constructor
  · rw [forall_mem_cons]
    constructor
    · rw [hkept option.name hnotMem]
      exact ⟨hself, hrequired⟩
    · intro later hlater
      have hne : later.name ≠ option.name := by
        intro heq
        exact hnotMem (heq ▸ mem_map_of_mem hlater)
      rw [← hother later.name hne]
      exact hall later hlater
  · intro name hname
    rw [map_cons, mem_cons, not_or] at hname
    rw [hkept name hname.2, hother name hname.1]

/-! ## Callbacks -/

section Hosted

variable {σ : Type} {host : Host σ}

/-- What the callback of an option makes of its raw values, one by one; without a callback
they stay. -/
def Normalizes (host : Host σ) (option : OptionSpec) (raws values : List Text) : Prop :=
  match option.parser with
  | none => values = raws
  | some callback => List.Forall₂
      (fun raw value => ∃ s s', host.applyOptionParser callback raw s = .ok value s') raws values

lemma Normalizes.length_eq {raws values : List Text} (h : Normalizes host option raws values) :
    values.length = raws.length := by
  unfold Normalizes at h
  split at h
  · rw [h]
  · exact h.length_eq.symm

variable {s s' : σ}

lemma mapM_normalizeValue {callback : Nat} {raws values : List Text}
    (h : raws.mapM (normalizeValue host option callback) s = .ok values s') :
    List.Forall₂ (fun raw value => ∃ s s', host.applyOptionParser callback raw s = .ok value s')
      raws values := by
  induction raws generalizing values s with
  | nil =>
    cases h
    exact List.Forall₂.nil
  | cons raw raws ih => ?_
  rw [mapM_cons] at h
  rcases bind_eq_ok h with ⟨value, s₁, hvalue, h⟩
  rcases bind_eq_ok h with ⟨rest, s₂, hrest, h⟩
  cases h
  apply List.Forall₂.cons
  · unfold normalizeValue at hvalue
    split at hvalue
    · rename_i heq
      cases hvalue
      exact ⟨s, s₁, heq⟩
    · cases hvalue
  · exact ih hrest

lemma normalizeOptionValues_eq_ok
    (h : normalizeOptionValues host values option s = .ok values' s') :
    Option.Rel (Normalizes host option) (lookup values option.name) (lookup values' option.name) ∧
      ∀ name, name ≠ option.name → lookup values' name = lookup values name := by
  unfold normalizeOptionValues at h
  cases hparser : option.parser with
  | none =>
    rw [hparser] at h
    cases h
    refine ⟨?_, fun _ _ => rfl⟩
    rcases lookup values option.name with _ | raws
    · exact Option.Rel.none
    apply Option.Rel.some
    unfold Normalizes
    rw [hparser]
  | some callback => ?_
  rw [hparser] at h
  cases hlookup : lookup values option.name with
  | none =>
    rw [hlookup] at h
    cases h
    rw [hlookup]
    exact ⟨Option.Rel.none, fun _ _ => rfl⟩
  | some raws => ?_
  rw [hlookup] at h
  rcases bind_eq_ok h with ⟨normalized, s₁, hmap, h⟩
  cases h
  rw [AssocList.lookup_insert_self]
  constructor
  · apply Option.Rel.some
    unfold Normalizes
    rw [hparser]
    exact mapM_normalizeValue hmap
  · exact fun name hne => AssocList.lookup_insert_of_ne hne

lemma foldlM_normalize {options : List OptionSpec} (hnd : OptionNames options)
    (h : options.foldlM (normalizeOptionValues host) values s = .ok values' s') :
    (∀ option ∈ options, Option.Rel (Normalizes host option) (lookup values option.name)
      (lookup values' option.name)) ∧
      ∀ name, name ∉ options.map OptionSpec.name → lookup values' name = lookup values name := by
  induction options generalizing values s with
  | nil =>
    cases h
    exact ⟨forall_mem_nil _, fun _ _ => rfl⟩
  | cons option rest ih => ?_
  rcases bind_eq_ok h with ⟨values₁, s₁, hfirst, hrest⟩
  rcases nodup_cons.mp hnd with ⟨hnotMem, hnd'⟩
  rcases normalizeOptionValues_eq_ok hfirst with ⟨hself, hother⟩
  rcases ih hnd' hrest with ⟨hall, hkept⟩
  constructor
  · rw [forall_mem_cons]
    constructor
    · rw [hkept option.name hnotMem]
      exact hself
    · intro later hlater
      have hne : later.name ≠ option.name := by
        intro heq
        exact hnotMem (heq ▸ mem_map_of_mem hlater)
      rw [← hother later.name hne]
      exact hall later hlater
  · intro name hname
    rw [map_cons, mem_cons, not_or] at hname
    rw [hkept name hname.2, hother name hname.1]

/-! ## The end of a parse -/

/-- The raw values of an option: from the command line if it occurs there, otherwise from its
environment variable, otherwise from its default. -/
def rawValues (env : Text → Option Text) (os : List Occurrence) (option : OptionSpec) :
    Option (List Text) :=
  if given os option.name = [] then fallback env option else some (given os option.name)

/-- The values that a parse returns for the occurrences of its command line. -/
structure Filled (host : Host σ) (entry : ParserEntry) (os : List Occurrence) (values : Values) :
    Prop where
  source : ∀ option ∈ entry.options,
    Option.Rel (Normalizes host option) (rawValues host.env os option) (lookup values option.name)
  required : ∀ option ∈ entry.options, option.required = true →
    (lookup values option.name).isSome = true
  related : ∀ option ∈ entry.options, (lookup values option.name).isSome = true →
    (∀ other ∈ option.requires, (lookup values other).isSome = true) ∧
      ∀ other ∈ option.conflicts, lookup values other = none
  others : ∀ name, name ∉ entry.options.map OptionSpec.name →
    lookup values name = lookup (giveAll [] os) name

lemma isSome_of_rel {α β : Type} {r : α → β → Prop} {a : Option α} {b : Option β}
    (h : Option.Rel r a b) : b.isSome = a.isSome := by
  cases h with
  | some _ => rfl
  | none => rfl

variable {entry : ParserEntry}

lemma validateOptionRelationships_eq_ok (h : validateOptionRelationships entry values = .ok ())
    (hoption : option ∈ entry.options) (hpresent : (lookup values option.name).isSome = true) :
    (∀ other ∈ option.requires, (lookup values other).isSome = true) ∧
      ∀ other ∈ option.conflicts, lookup values other = none := by
  have hchecks := forM_eq_ok.mp h option hoption
  rw [AssocList.isSome_lookup] at hpresent
  rw [if_pos hpresent] at hchecks
  rcases bind_eq_ok hchecks with ⟨_, hconflicts, hrequires⟩
  constructor
  · intro other hother
    have hcheck := forM_eq_ok.mp hrequires other hother
    split at hcheck
    · rename_i hcontains
      rw [AssocList.isSome_lookup]
      exact hcontains
    · cases hcheck
  · intro other hother
    have hcheck := forM_eq_ok.mp hconflicts other hother
    split at hcheck
    · cases hcheck
    · rename_i hcontains
      exact AssocList.lookup_eq_none_of_contains (Bool.not_eq_true _ |>.mp hcontains)

lemma validatePositionals_eq_ok {positionals : List Text}
    (h : validatePositionals entry positionals = .ok ()) (i : Nat) (name : Text)
    (hi : entry.positionals[i]? = some (name, true)) : i < positionals.length := by
  have hmem : ((name, true), i) ∈ entry.positionals.zipIdx := by
    rw [mem_zipIdx_iff_getElem?]
    exact hi
  have hcheck := forM_eq_ok.mp h _ hmem
  split at hcheck
  · cases hcheck
  · rename_i hpresent
    simpa using hpresent

/-- The values that a parse returns, option by option. -/
theorem finishParse_filled (hnd : OptionNames entry.options) {state : ParseState}
    {os : List Occurrence} (hvalues : state.values = giveAll [] os) {matched : Matches}
    (h : finishParse host entry state s = .ok matched s') :
    Filled host entry os matched.values ∧ matched.positionals = state.positionals ∧
      matched.subcommand = state.subcommand ∧ matched.subcommandMatches = state.subcommandMatches ∧
          validatePositionals entry state.positionals = .ok () := by
  rcases bind_eq_ok h with ⟨defaulted, s₁, hfirst, h⟩
  rcases bind_eq_ok h with ⟨values, s₂, hnormalize, h⟩
  rcases bind_eq_ok h with ⟨_, s₃, hthird, h⟩
  rcases bind_eq_ok h with ⟨_, s₄, hfourth, h⟩
  cases h
  have hdefaults := (ofExcept_eq_ok hfirst).1
  have hrelations := (ofExcept_eq_ok hthird).1
  have hpositionals := (ofExcept_eq_ok hfourth).1
  rcases foldlM_applyDefault hnd hdefaults with ⟨hdefaulted, hdefaultedOthers⟩
  rcases foldlM_normalize hnd hnormalize with ⟨hnormalized, hnormalizedOthers⟩
  refine ⟨⟨?_, ?_, ?_, ?_⟩, rfl, rfl, rfl, hpositionals⟩
  · intro option hoption
    have hraw : lookup defaulted option.name = rawValues host.env os option := by
      rw [(hdefaulted option hoption).1, hvalues, lookup_giveAll_nil, rawValues]
      split <;> rfl
    rw [← hraw]
    exact hnormalized option hoption
  · intro option hoption hrequired
    have hsome := (hdefaulted option hoption).2 hrequired
    have hrel := hnormalized option hoption
    exact (isSome_of_rel hrel).trans hsome
  · intro option hoption
    exact validateOptionRelationships_eq_ok hrelations hoption
  · intro name hname
    rw [← hvalues, ← hdefaultedOthers name hname]
    exact hnormalizedOthers name hname

end Hosted

end MuxRuntime.Cli
