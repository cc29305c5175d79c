import MuxRuntime.Cli.Matching

/-!
# What a command line says

A list of arguments is read by itself, without recording anything: an argument is the mark
that ends the options, an option or a cluster of them, the value of the option before it, a
positional, or a subcommand to which all that follows belongs. The parser reads these items.
-/

namespace MuxRuntime.Cli

open List Loop

open Session (Meets)

/-! ## Items -/

/-- An option that is given with a value. -/
structure Occurrence where
  option : OptionSpec
  value : Text
  /-- It stands before the last place of a cluster of short options. -/
  early : Bool
deriving DecidableEq

inductive Item where
  | mark
  | options (occurrences : List Occurrence) (word : Text)
  /-- The value of the option before it. -/
  | value (word : Text)
  | positional (word : Text)
  | subcommand (name : Text) (rest : List Text)
deriving DecidableEq

/-- The arguments of an item. -/
def Item.words : Item → List Text
  | .mark => [['-', '-']]
  | .options _ word | .value word | .positional word => [word]
  | .subcommand name rest => name :: rest

def Item.occurrences : Item → List Occurrence
  | .options occurrences _ => occurrences
  | _ => []

def Item.positional? : Item → Option Text
  | .positional word => some word
  | _ => none

def Item.subcommand? : Item → Option (Text × List Text)
  | .subcommand name rest => some (name, rest)
  | _ => none

def occurrences (items : List Item) : List Occurrence :=
  items.flatMap Item.occurrences

lemma occurrences_cons (item : Item) (items : List Item) :
    occurrences (item :: items) = item.occurrences ++ occurrences items :=
  flatMap_cons

def positionals (items : List Item) : List Text :=
  items.filterMap Item.positional?

def subcommand (items : List Item) : Option (Text × List Text) :=
  items.findSome? Item.subcommand?

/-! ## Reading -/

/-- A long option; the Boolean says whether the next argument is its value. -/
def readLong (entry : ParserEntry) (raw : Text) (next : Option Text) : Option (Occurrence × Bool) :=
  match (findLongOption entry (splitInline raw).1).toOption with
  | none => none
  | some option =>
    match option.takesValue, (splitInline raw).2, next with
    | true, some value, _ => some (⟨option, value, false⟩, false)
    | true, none, some value => some (⟨option, value, false⟩, true)
    | true, none, none => none
    | false, some _, _ => none
    | false, none, _ => some (⟨option, flagValue, false⟩, false)

/-- The short options of a cluster. -/
def readCluster (entry : ParserEntry) (next : Option Text) :
    List Char → Option (List Occurrence × Bool)
  | [] => some ([], false)
  | short :: chars =>
    match (findShortOption entry short).toOption with
    | none => none
    | some option =>
      if option.takesValue then
        if chars.isEmpty then next.map fun value => ([⟨option, value, false⟩], true)
        else some ([⟨option, chars, false⟩], false)
      else
        (readCluster entry next chars).map fun read =>
          (⟨option, flagValue, !chars.isEmpty⟩ :: read.1, read.2)

/-- A word that is not read as options: no dash in front, or nothing after it. -/
def isWord (arg : Text) : Bool :=
  !(['-'].isPrefixOf arg && decide (1 < arg.length))

/-- The options that an argument gives. -/
def readOption (entry : ParserEntry) (arg : Text) (next : Option Text) :
    Option (List Occurrence × Bool) :=
  if ['-', '-'].isPrefixOf arg then
    (readLong entry (arg.drop 2) next).map fun read => ([read.1], read.2)
  else readCluster entry next (arg.drop 1)

/-- The items of an argument list: `taken` when the first argument is the value of an option,
`ended` after the mark, `first` before the first positional. -/
def readArguments (entry : ParserEntry) (isChild : Text → Bool) :
    (taken ended first : Bool) → List Text → Option (List Item)
  | _, _, _, [] => some []
  | taken, ended, first, arg :: rest =>
    if taken then (readArguments entry isChild false ended first rest).map (.value arg :: ·)
    else if ended || isWord arg then
      if first && isChild arg then some [.subcommand arg rest]
      else (readArguments entry isChild false ended false rest).map (.positional arg :: ·)
    else if arg == ['-', '-'] then
      (readArguments entry isChild false true first rest).map (.mark :: ·)
    else
      match readOption entry arg rest.head? with
      | none => none
      | some (given, taken) =>
        (readArguments entry isChild taken ended first rest).map (.options given arg :: ·)

variable {taken : Bool} {args : List Text} {entry : ParserEntry} {isChild : Text → Bool}
  {ended first : Bool} {items : List Item}

/-! ## The options of the items -/

variable {next : Option Text}

lemma readLong_mem {raw : Text} {o : Occurrence}
    (h : readLong entry raw next = some (o, taken)) : o.option ∈ entry.options := by
  unfold readLong at h
  split at h
  · cases h
  rename_i option hfind
  have hmem := (findLongOption_eq_ok (toOption_eq_some_iff.mp hfind)).1
  split at h
  all_goals
    cases h
    try exact hmem

variable {option : OptionSpec}

lemma findShortOption_eq_ok {short : Char}
    (h : findShortOption entry short = .ok option) : option ∈ entry.options := by
  unfold findShortOption at h
  split at h
  · rename_i found hfind
    cases h
    exact mem_of_find?_eq_some hfind
  · cases h

lemma readCluster_mem {chars : List Char} {os : List Occurrence}
    (h : readCluster entry next chars = some (os, taken)) : ∀ o ∈ os, o.option ∈ entry.options := by
  induction chars generalizing os taken with
  | nil =>
    cases h
    exact forall_mem_nil _
  | cons short chars ih => ?_
  unfold readCluster at h
  split at h
  · cases h
  rename_i option hfind
  have hmem := findShortOption_eq_ok (toOption_eq_some_iff.mp hfind)
  split at h
  · split at h
    · rcases Option.map_eq_some_iff.mp h with ⟨value, _, heq⟩
      cases heq
      exact forall_mem_singleton.mpr hmem
    · cases h
      exact forall_mem_singleton.mpr hmem
  · rcases Option.map_eq_some_iff.mp h with ⟨read, hread, heq⟩
    cases heq
    exact forall_mem_cons.mpr ⟨hmem, ih hread⟩

lemma readOption_mem {arg : Text} {os : List Occurrence}
    (h : readOption entry arg next = some (os, taken)) : ∀ o ∈ os, o.option ∈ entry.options := by
  unfold readOption at h
  split at h
  · rcases Option.map_eq_some_iff.mp h with ⟨read, hread, heq⟩
    cases heq
    exact forall_mem_singleton.mpr (readLong_mem hread)
  · exact readCluster_mem h

/-- The first argument is a subcommand, with everything after it, or an item of its own. -/
lemma readArguments_cons_cases {arg : Text} {rest : List Text}
    (h : readArguments entry isChild taken ended first (arg :: rest) = some items) :
    items = [.subcommand arg rest] ∨ ∃ item taken ended first, item.words = [arg] ∧
      (∀ o ∈ item.occurrences, o.option ∈ entry.options) ∧
      (readArguments entry isChild taken ended first rest).map (item :: ·) = some items := by
  unfold readArguments at h
  split_ifs at h with htaken hword hchild hmark
  · exact .inr ⟨_, _, _, _, rfl, forall_mem_nil _, h⟩
  · exact .inl (Option.some.inj h).symm
  · exact .inr ⟨_, _, _, _, rfl, forall_mem_nil _, h⟩
  · exact .inr ⟨_, _, _, _, by rw [beq_iff_eq.mp hmark]; rfl, forall_mem_nil _, h⟩
  · split at h
    · cases h
    · rename_i hread
      exact .inr ⟨_, _, _, _, rfl, readOption_mem hread, h⟩

/-- The items are the arguments, in their order, with nothing left out. -/
theorem words_readArguments (h : readArguments entry isChild taken ended first args = some items) :
    items.flatMap Item.words = args := by
  induction args generalizing taken ended first items with
  | nil =>
    cases h
    rfl
  | cons arg rest ih => ?_
  rcases readArguments_cons_cases h with rfl | ⟨item, _, _, _, hwords, -, h⟩
  · simp [Item.words]
  · rcases Option.map_eq_some_iff.mp h with ⟨tail, htail, rfl⟩
    rw [flatMap_cons, hwords, ih htail]
    rfl

/-- Only declared options occur. -/
lemma occurrences_mem (h : readArguments entry isChild taken ended first args = some items) :
    ∀ o ∈ occurrences items, o.option ∈ entry.options := by
  induction args generalizing taken ended first items with
  | nil =>
    cases h
    exact forall_mem_nil _
  | cons arg rest ih => ?_
  rcases readArguments_cons_cases h with rfl | ⟨item, _, _, _, -, hmem, h⟩
  · exact forall_mem_nil _
  · rcases Option.map_eq_some_iff.mp h with ⟨tail, htail, rfl⟩
    rw [occurrences_cons, forall_mem_append]
    exact ⟨hmem, ih htail⟩

/-! ## Recording -/

/-- Record one occurrence. -/
def give (values : Values) (o : Occurrence) : Values :=
  pushValue values o.option.name o.value

def giveAll (values : Values) (given : List Occurrence) : Values :=
  given.foldl give values

/-- Every occurrence that is recorded with a check is the first of its option, unless the
option may be repeated. -/
def Admitted (values : Values) : List Occurrence → Prop
  | [] => True
  | o :: given =>
    (o.early = true ∨ o.option.multiple = true ∨
      AssocList.contains values o.option.name = false) ∧ Admitted (give values o) given

variable {values : Values}

lemma admitted_append {given more : List Occurrence} :
    Admitted values (given ++ more) ↔ Admitted values given ∧ Admitted (giveAll values given) more := by
  induction given generalizing values with
  | nil => exact ⟨fun h => ⟨trivial, h⟩, fun h => h.2⟩
  | cons o given ih =>
    rw [cons_append, Admitted, Admitted, ih, and_assoc]
    rfl

variable {values' : Values}

lemma recordOption_eq_ok {displayName : String} {value : Text}
    (h : recordOption values option displayName value = .ok values') :
    (option.multiple = true ∨ AssocList.contains values option.name = false) ∧
      values' = pushValue values option.name value := by
  unfold recordOption at h
  split at h
  · cases h
  rename_i hcheck
  cases h
  refine ⟨?_, rfl⟩
  cases hmultiple : option.multiple with
  | true => exact Or.inl rfl
  | false =>
    rw [hmultiple] at hcheck
    exact Or.inr (by simpa using hcheck)

lemma longOptionValue_eq_ok {inline : Option Text} {rest : List Text} {name value : Text}
    (h : longOptionValue option inline rest name = .ok (value, taken)) :
    (option.takesValue = true ∧ inline = some value ∧ taken = false) ∨
      (option.takesValue = true ∧ inline = none ∧ rest.head? = some value ∧ taken = true) ∨
        (option.takesValue = false ∧ inline = none ∧ value = flagValue ∧ taken = false) := by
  unfold longOptionValue at h
  cases htakes : option.takesValue with
  | true =>
    rw [htakes] at h
    cases inline with
    | some given =>
      cases h
      exact Or.inl ⟨rfl, rfl, rfl⟩
    | none => ?_
    cases rest with
    | nil => cases h
    | cons next rest =>
      cases h
      exact Or.inr (Or.inl ⟨rfl, rfl, rfl, rfl⟩)
  | false => ?_
  rw [htakes] at h
  cases inline with
  | some given => cases h
  | none =>
    cases h
    exact Or.inr (Or.inr ⟨rfl, rfl, rfl, rfl⟩)

lemma parseLongOption_reads {arg : Text} {rest : List Text}
    (h : parseLongOption entry arg rest values = .ok (values', taken)) :
    ∃ o, readLong entry (arg.drop 2) rest.head? = some (o, taken) ∧ Admitted values [o] ∧
      values' = give values o := by
  rcases bind_eq_ok h with ⟨option, hoption, h⟩
  rcases bind_eq_ok h with ⟨⟨value, took⟩, hvalue, h⟩
  rcases bind_eq_ok h with ⟨recorded, hrecorded, h⟩
  cases h
  rcases recordOption_eq_ok hrecorded with ⟨hcheck, rfl⟩
  refine ⟨⟨option, value, false⟩, ?_, ⟨Or.inr hcheck, trivial⟩, rfl⟩
  unfold readLong
  rw [toOption_eq_some_iff.mpr hoption]
  rcases longOptionValue_eq_ok hvalue with ⟨htakes, hinline, rfl⟩ | ⟨htakes, hinline, hhead, rfl⟩ |
    ⟨htakes, hinline, rfl, rfl⟩
  · simp only [htakes, hinline]
  · simp only [htakes, hinline, hhead]
  · simp only [htakes, hinline]

lemma parseShortOptions_reads {rest : List Text} {chars : List Char}
    (h : parseShortOptions entry rest chars values = .ok (values', taken)) :
    ∃ given, readCluster entry rest.head? chars = some (given, taken) ∧ Admitted values given ∧
      values' = giveAll values given := by
  induction chars generalizing values with
  | nil =>
    cases h
    exact ⟨[], rfl, trivial, rfl⟩
  | cons short chars ih => ?_
  rcases bind_eq_ok h with ⟨option, hoption, h⟩
  rcases bind_eq_ok h with ⟨⟨value, took⟩, hvalue, h⟩
  unfold readCluster
  rw [toOption_eq_some_iff.mpr hoption]
  cases htakes : option.takesValue with
  | true =>
    -- the option takes what is left of the cluster, or the next argument
    rw [htakes] at hvalue h
    rcases bind_eq_ok h with ⟨recorded, hrecorded, h⟩
    cases h
    rcases recordOption_eq_ok hrecorded with ⟨hcheck, rfl⟩
    refine ⟨[⟨option, value, false⟩], ?_, ⟨Or.inr hcheck, trivial⟩, rfl⟩
    cases chars with
    | nil =>
      cases rest with
      | nil => cases hvalue
      | cons next rest =>
        cases hvalue
        simp [htakes]
    | cons c chars =>
      cases hvalue
      simp [htakes]
  | false => ?_
  rw [htakes] at hvalue h
  cases hvalue
  cases chars with
  | nil =>
    rcases bind_eq_ok h with ⟨recorded, hrecorded, h⟩
    cases h
    rcases recordOption_eq_ok hrecorded with ⟨hcheck, rfl⟩
    refine ⟨[⟨option, flagValue, false⟩], ?_, ⟨Or.inr hcheck, trivial⟩, rfl⟩
    simp [htakes, readCluster]
  | cons c chars =>
    rcases ih h with ⟨given, hread, hadmitted, rfl⟩
    refine ⟨⟨option, flagValue, true⟩ :: given, ?_, ⟨Or.inl rfl, hadmitted⟩, rfl⟩
    simp [htakes, hread]

lemma isPrefixOf_single {arg : Text} (h : ['-', '-'].isPrefixOf arg = true) :
    ['-'].isPrefixOf arg = true := by
  rw [List.isPrefixOf_iff_prefix] at h ⊢
  exact (prefix_append ['-'] ['-']).trans h

/-- Two dashes and nothing else are the mark. -/
lemma two_lt_length {arg : Text} (h : ['-', '-'].isPrefixOf arg = true) (hmark : arg ≠ ['-', '-']) :
    2 < arg.length := by
  rcases List.isPrefixOf_iff_prefix.mp h with ⟨tail, rfl⟩
  cases tail with
  | nil => exact absurd rfl hmark
  | cons c tail => simp

/-- An argument that is parsed as options is not a word, and its options are recorded. -/
lemma parseOption_reads {ended : Bool} {arg : Text} {rest : List Text}
    (hmark : ¬ (ended = false ∧ arg = ['-', '-']))
    (h : parseOption entry ended arg rest values = some (.ok (values', taken))) :
    (ended || isWord arg) = false ∧ arg ≠ ['-', '-'] ∧
      ∃ given, readOption entry arg rest.head? = some (given, taken) ∧ Admitted values given ∧
        values' = giveAll values given := by
  unfold parseOption at h
  unfold isWord readOption
  split at h
  · rename_i hlong
    simp only [Bool.and_eq_true, Bool.not_eq_true', decide_eq_true_eq] at hlong
    rcases hlong with ⟨⟨rfl, hdashes⟩, hlength⟩
    rcases parseLongOption_reads (Option.some.inj h) with ⟨o, hread, hadmitted, rfl⟩
    have hone : 1 < arg.length := by omega
    refine ⟨by simp [isPrefixOf_single hdashes, hone], fun heq => hmark ⟨rfl, heq⟩, [o], ?_,
      hadmitted, rfl⟩
    rw [if_pos hdashes, hread]
    rfl
  · rename_i hlong
    split at h
    · rename_i hshort
      simp only [Bool.and_eq_true, Bool.not_eq_true', decide_eq_true_eq] at hshort
      rcases hshort with ⟨⟨rfl, hdash⟩, hlength⟩
      have hne : arg ≠ ['-', '-'] := fun heq => hmark ⟨rfl, heq⟩
      have hdashes : ¬ ['-', '-'].isPrefixOf arg = true := by
        intro hdashes
        apply hlong
        simp [hdashes, two_lt_length hdashes hne]
      rcases parseShortOptions_reads (Option.some.inj h) with ⟨given, hread, hadmitted, rfl⟩
      refine ⟨by simp [hdash, hlength], hne, given, ?_, hadmitted, rfl⟩
      rw [if_neg hdashes]
      exact hread
    · cases h

lemma parseOption_eq_none {ended : Bool} {arg : Text} {rest : List Text}
    (h : parseOption entry ended arg rest values = none) : (ended || isWord arg) = true := by
  unfold parseOption at h
  split at h
  · cases h
  split at h
  · cases h
  rename_i hshort
  unfold isWord
  cases ended with
  | true => rfl
  | false =>
    rw [Bool.not_false, Bool.true_and] at hshort
    rw [Bool.false_or, Bool.not_eq_true _ |>.mp hshort]
    rfl

/-! ## The argument list -/

section Lists

variable {σ : Type} {entry : ParserEntry} {child : ChildParser σ}

/-- What the loop over the arguments has done with the subcommand. -/
def SubcommandRead (child : ChildParser σ) (s : σ) (state' : ParseState) (s' : σ) :
    Option (Text × List Text) → Prop
  | none => state'.subcommand = none ∧ state'.subcommandMatches = none ∧ s' = s
  | some (name, rest) => ∃ parse matched, child name = some parse ∧ parse rest s = .ok matched s' ∧
      state'.subcommand = some name ∧ state'.subcommandMatches = some matched

/-- The loop over the arguments has read the items, from one state to another. -/
structure ListRead (entry : ParserEntry) (child : ChildParser σ) (taken ended : Bool)
    (args : List Text) (state : ParseState) (s : σ) (state' : ParseState) (s' : σ)
    (items : List Item) : Prop where
  read : readArguments entry (fun arg => (child arg).isSome) taken ended state.positionals.isEmpty
    args = some items
  values : state'.values = giveAll state.values (occurrences items)
  admitted : Admitted state.values (occurrences items)
  positionals : state'.positionals = state.positionals ++ positionals items
  subcommand : SubcommandRead child s state' s' (subcommand items)

/-- No subcommand has been found so far. -/
def ParseState.Open (state : ParseState) : Prop :=
  state.subcommand = none ∧ state.subcommandMatches = none

variable {state state' : ParseState} {s s' : σ} {items : List Item} {rest : List Text} {arg : Text}
  {ended : Bool}

lemma ListRead.value (h : ListRead entry child false ended rest state s state' s' items) :
    ListRead entry child true ended (arg :: rest) state s state' s' (.value arg :: items) := by
  refine ⟨?_, h.values, h.admitted, h.positionals, h.subcommand⟩
  unfold readArguments
  rw [if_pos rfl, h.read]
  rfl

lemma ListRead.mark (h : ListRead entry child false true rest state s state' s' items) :
    ListRead entry child false false (['-', '-'] :: rest) state s state' s' (.mark :: items) := by
  refine ⟨?_, h.values, h.admitted, h.positionals, h.subcommand⟩
  unfold readArguments
  rw [if_neg Bool.false_ne_true, if_neg (by decide), if_pos (beq_self_eq_true _), h.read]
  rfl

lemma ListRead.options {given : List Occurrence} (hword : (ended || isWord arg) = false)
    (hmark : arg ≠ ['-', '-']) (hread : readOption entry arg rest.head? = some (given, taken))
    (hadmitted : Admitted state.values given) (hvalues : values = giveAll state.values given)
    (h : ListRead entry child taken ended rest { state with values := values } s state' s' items) :
    ListRead entry child false ended (arg :: rest) state s state' s'
      (.options given arg :: items) := by
  subst hvalues
  have hoccurrences : occurrences (.options given arg :: items) = given ++ occurrences items := rfl
  refine ⟨?_, ?_, ?_, h.positionals, h.subcommand⟩
  · unfold readArguments
    rw [if_neg Bool.false_ne_true, if_neg (by rw [hword]; exact Bool.false_ne_true),
      if_neg (fun heq => hmark (beq_iff_eq.mp heq)), hread]
    exact congrArg (Option.map _) h.read
  · rw [hoccurrences, h.values]
    exact (foldl_append ..).symm
  · rw [hoccurrences, admitted_append]
    exact ⟨hadmitted, h.admitted⟩

lemma ListRead.positional (hword : (ended || isWord arg) = true)
    (hchild : (state.positionals.isEmpty && (child arg).isSome) = false)
    (h : ListRead entry child false ended rest
      { state with positionals := state.positionals ++ [arg] } s state' s' items) :
    ListRead entry child false ended (arg :: rest) state s state' s' (.positional arg :: items) := by
  refine ⟨?_, h.values, h.admitted, ?_, h.subcommand⟩
  · have hempty : (state.positionals ++ [arg]).isEmpty = false := by cases state.positionals <;> rfl
    have hread := h.read
    simp only [hempty] at hread
    unfold readArguments
    rw [if_neg Bool.false_ne_true, if_pos hword,
      if_neg (by rw [hchild]; exact Bool.false_ne_true), hread]
    rfl
  · rw [h.positionals, append_assoc]
    rfl

lemma childFor_eq_none (hopen : state.Open) (h : childFor child state arg = none) :
    (state.positionals.isEmpty && (child arg).isSome) = false := by
  unfold childFor at h
  rw [hopen.1] at h
  cases hempty : state.positionals.isEmpty with
  | false => rfl
  | true =>
    rw [hempty] at h
    change child arg = none at h
    rw [h]
    rfl

/-- The subcommand takes all that follows it. -/
lemma ListRead.subcommandItem {parse : List Text → EStateM String σ Matches} {matched : Matches}
    (hword : (ended || isWord arg) = true) (hchild : childFor child state arg = some parse)
    (hparse : parse rest s = .ok matched s') :
    ListRead entry child false ended (arg :: rest) state s
      { state with subcommand := some arg, subcommandMatches := some matched } s'
      [.subcommand arg rest] := by
  unfold childFor at hchild
  split at hchild
  · rename_i hfirst
    rw [Bool.and_eq_true] at hfirst
    refine ⟨?_, rfl, trivial, (append_nil _).symm, parse, matched, hchild, hparse, rfl, rfl⟩
    unfold readArguments
    rw [if_neg Bool.false_ne_true, if_pos hword, if_pos (by rw [hfirst.2, hchild]; rfl)]
  · cases hchild

/-- An argument list that is parsed has items, its values are those given in them, and an option
that is recorded with a check was not given before. -/
theorem parseArgumentList_reads (hopen : state.Open)
    (h : parseArgumentList entry child taken ended args state s = .ok state' s') :
    ∃ items, ListRead entry child taken ended args state s state' s' items := by
  induction args generalizing taken ended state with
  | nil =>
    cases h
    exact ⟨[], rfl, rfl, trivial, (append_nil _).symm, hopen.1, hopen.2, rfl⟩
  | cons arg rest ih => ?_
  unfold parseArgumentList at h
  split at h
  · rename_i htaken
    subst htaken
    rcases ih hopen h with ⟨items, hread⟩
    exact ⟨.value arg :: items, hread.value⟩
  rename_i htaken
  rw [Bool.not_eq_true] at htaken
  subst htaken
  split at h
  · rename_i hmark
    simp only [Bool.and_eq_true, Bool.not_eq_true', beq_iff_eq] at hmark
    rcases hmark with ⟨rfl, rfl⟩
    rcases ih hopen h with ⟨items, hread⟩
    exact ⟨.mark :: items, hread.mark⟩
  rename_i hmark
  have hmark' : ¬ (ended = false ∧ arg = ['-', '-']) := by
    rintro ⟨rfl, rfl⟩
    exact hmark rfl
  cases hparsed : parseOption entry ended arg rest state.values with
  | some parsed =>
    rw [hparsed] at h
    rcases parsed with _ | result
    · cases h
    rcases parseOption_reads hmark' hparsed with
      ⟨hword, hne, given, hread, hadmitted, hvalues⟩
    have hopen' : ParseState.Open { state with values := result.1 } := hopen
    rcases ih hopen' h with ⟨items, hitems⟩
    exact ⟨.options given arg :: items, hitems.options hword hne hread hadmitted hvalues⟩
  | none => ?_
  rw [hparsed] at h
  have hword := parseOption_eq_none hparsed
  cases hchild : childFor child state arg with
  | some parse =>
    rw [hchild] at h
    rcases Session.bind_eq_ok h with ⟨matched, s₁, hmatched, h⟩
    cases h
    exact ⟨[.subcommand arg rest], ListRead.subcommandItem hword hchild hmatched⟩
  | none => ?_
  rw [hchild] at h
  have hopen' : ParseState.Open
      { state with positionals := state.positionals ++ [arg] } := hopen
  rcases ih hopen' h with ⟨items, hitems⟩
  exact ⟨.positional arg :: items, hitems.positional hword (childFor_eq_none hopen hchild)⟩

end Lists

end MuxRuntime.Cli
