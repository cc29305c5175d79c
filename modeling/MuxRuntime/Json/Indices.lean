import MuxRuntime.Json.Documents

/-!
# Tokens that address array items

Which reference tokens the pointer functions accept at an array. The integer parser
of the standard library takes a plus sign before the digits, and the check of the
spelling does not look for one, so that besides the array indices of RFC 6901 the
functions accept numerals with a sign.
-/

namespace MuxRuntime

open JsonTree Value

/-! ## The parser and the check of the spelling -/

/-- A number written with a plus sign. -/
def SignedNumeral (token : String) (n : Nat) : Prop :=
  ∃ digits, token.toList = '+' :: digits ∧ digits ≠ [] ∧
    (∀ c ∈ digits, c.isDigit = true) ∧ Str.value 10 digits = n

lemma SignedNumeral.not_isIndex {token : String} {n : Nat} (h : SignedNumeral token n) :
    ¬ IsIndex token := by
  obtain ⟨digits, hlist, -⟩ := h
  intro hindex
  have hplus := hindex.digits.2.1 '+' (by simp [hlist])
  exact absurd hplus (by decide)

lemma notCanonical_eq_false_iff {token : String} : notCanonical token = false ↔
      token.toList ≠ [] ∧ (token.toList.head? = some '0' → token.toList = ['0']) := by
  obtain ⟨chars, rfl⟩ : ∃ chars, token = String.ofList chars :=
    ⟨token.toList, String.ofList_toList.symm⟩
  rw [notCanonical, String.toList_ofList]
  rcases chars with _ | ⟨c, rest⟩
  · simp
  have hsize : 1 < (String.ofList ('0' :: rest)).utf8ByteSize ↔ rest ≠ [] := by
    rw [String.ofList_cons, String.utf8ByteSize_append, String.utf8ByteSize_singleton,
      ← not_iff_not]
    have hone : Char.utf8Size '0' = 1 := by decide
    rw [hone, not_lt, not_not, ← String.ofList_eq_empty_iff, ← String.utf8ByteSize_eq_zero_iff]
    omega
  have hne : (String.ofList (c :: rest)).isEmpty = false := by simp
  rw [hne, Bool.false_or]
  by_cases hc : c = '0'
  · subst hc
    rw [Bool.and_eq_false_iff, decide_eq_false_iff_not, hsize]
    simp
  · simp [hc]

/-- Reading an index accepts array indices and numerals with a sign. -/
theorem readIndex_iff {token : String} {n : Nat} :
    notCanonical token = false ∧ Str.fromStrRadix usizeMax 10 token.toList = some n ↔
      (arrayIndex token = some n ∨ SignedNumeral token n) ∧ n ≤ usizeMax := by
  rw [notCanonical_eq_false_iff, Str.fromStrRadix_eq_some_iff (by omega), arrayIndex_eq_some_iff]
  constructor
  · rintro ⟨⟨-, hzero⟩, digits, hspelling, hne, hdigits, rfl, hmax⟩
    refine ⟨?_, hmax⟩
    have hdecimal : ∀ c ∈ digits, c.isDigit = true := fun c hc =>
      (Str.isDigit_ten c).symm.trans (hdigits c hc)
    rcases hspelling with rfl | hsign
    · exact .inl ⟨isIndex_of_digits hne hdecimal hzero, rfl⟩
    · exact .inr ⟨digits, hsign, hne, hdecimal, rfl⟩
  · rintro ⟨⟨hindex, rfl⟩ | ⟨digits, hlist, hne, hdigits, rfl⟩, hmax⟩
    · obtain ⟨hne, hdigits, hzero⟩ := hindex.digits
      exact ⟨⟨hne, hzero⟩, token.toList, .inl rfl, hne,
        fun c hc => (Str.isDigit_ten c).trans (hdigits c hc), rfl, hmax⟩
    · rw [hlist]
      exact ⟨⟨by simp, by simp⟩, digits, .inr rfl, hne,
        fun c hc => (Str.isDigit_ten c).trans (hdigits c hc), rfl, hmax⟩

lemma readIndex_dash (n : Nat) : ¬ (arrayIndex "-" = some n ∨ SignedNumeral "-" n) := by
  rintro (hindex | ⟨digits, hlist, -⟩)
  · cases hindex
  · cases hlist

/-! ## Places in an array -/

lemma pointerIndex_eq_some_iff {token : String} {length : Nat} {allowAppend : Bool}
    {i : Fin length} : pointerIndex token length allowAppend = .ok (some i) ↔
      (arrayIndex token = some i.val ∨ SignedNumeral token i.val) ∧ i.val ≤ usizeMax := by
  unfold pointerIndex
  by_cases happend : (allowAppend && token == "-") = true
  · have htoken : token = "-" := by
      rw [Bool.and_eq_true, beq_iff_eq] at happend
      exact happend.2
    rw [if_pos happend, htoken]
    simp [readIndex_dash]
  rw [if_neg happend, ← readIndex_iff]
  cases hspelled : notCanonical token with
  | true => simp
  | false => ?_
  rcases hparsed : Str.fromStrRadix usizeMax 10 token.toList with _ | index
  · simp
  by_cases hlt : index < length
  · simp [hlt, Fin.ext_iff]
  · have hne : index ≠ i.val := fun h => hlt (h ▸ i.isLt)
    simp [hlt, hne]

lemma pointerIndex_eq_none_iff {token : String} {length : Nat} {allowAppend : Bool} :
    pointerIndex token length allowAppend = .ok none ↔ allowAppend = true ∧ token = "-" := by
  unfold pointerIndex
  by_cases happend : (allowAppend && token == "-") = true
  · rw [if_pos happend]
    simpa using happend
  rw [if_neg happend]
  simp only [Bool.and_eq_true, beq_iff_eq] at happend
  simp only [happend, iff_false]
  split
  · simp
  · split
    · simp
    · split <;> simp

lemma insertIndex_eq_some_iff {token : String} {length i : Nat} :
    insertIndex token length = .ok (some i) ↔
      (arrayIndex token = some i ∨ SignedNumeral token i) ∧ i ≤ usizeMax ∧ i ≤ length := by
  unfold insertIndex
  by_cases hdash : token = "-"
  · subst hdash
    simp [readIndex_dash]
  rw [if_neg (by simpa using hdash), ← and_assoc, ← readIndex_iff]
  rcases hparsed : Str.fromStrRadix usizeMax 10 token.toList with _ | index
  · simp
  cases hspelled : notCanonical token with
  | true => simp
  | false => ?_
  simp only [Bool.false_eq_true, if_false, true_and, Option.some.injEq]
  by_cases hle : length < index
  · simp only [hle, if_true]
    constructor
    · intro h
      cases h
    · rintro ⟨rfl, hi⟩
      omega
  · simp only [hle, if_false, Except.ok.injEq, Option.some.injEq]
    constructor
    · rintro rfl
      exact ⟨rfl, by omega⟩
    · exact fun h => h.1

lemma insertIndex_eq_none_iff {token : String} {length : Nat} :
    insertIndex token length = .ok none ↔ token = "-" := by
  unfold insertIndex
  by_cases hdash : token = "-"
  · simp [hdash]
  rw [if_neg (by simpa using hdash)]
  simp only [hdash, iff_false]
  split
  · simp
  · split
    · simp
    · split <;> simp

/-! ## The four operations -/

/-- The operations that walk along a pointer. -/
inductive PointerOp where
  | get
  | set
  | add
  | remove
deriving DecidableEq

namespace PointerOp

/-- The value after the operation, or the value found. -/
def run (env : Runtime) (op : PointerOp) (argument value : Value) (tokens : List String) :
    Except String Value :=
  match op with
  | get => pointerGet env value tokens
  | set => pointerSet env value tokens argument
  | add => pointerAdd env value tokens argument
  | remove => (pointerRemove env value tokens).map Prod.snd

/-- The place that a token addresses in an array of the given length, where `last`
says whether the token ends the path; `none` stands for the place after the last
item. -/
def position (op : PointerOp) (token : String) (length : Nat) (last : Bool) :
    Except String (Option Nat) :=
  if op = add ∧ last = true then insertIndex token length
  else (pointerIndex token length (op == set && last)).map (Option.map Fin.val)

/-- Whether the operation can append at this place of the path. -/
def appends (op : PointerOp) (last : Bool) : Bool :=
  last && (op == set || op == add)

/-- The number of places with an index. -/
def places (op : PointerOp) (length : Nat) (last : Bool) : Nat :=
  if op = add ∧ last = true then length + 1 else length

/-- The token addresses a place. -/
def Accepts (op : PointerOp) (token : String) (length : Nat) (last : Bool) : Prop :=
  ∃ place, op.position token length last = .ok place

/-- The token is a numeral with a sign that addresses a place. -/
def AcceptsSign (op : PointerOp) (token : String) (length : Nat) (last : Bool) : Prop :=
  ∃ n, SignedNumeral token n ∧ n ≤ usizeMax ∧ n < op.places length last

variable {op : PointerOp} {token : String} {length : Nat} {last : Bool}

/-- The tokens that address a place. -/
theorem position_eq_some_iff {i : Nat} : op.position token length last = .ok (some i) ↔
      (arrayIndex token = some i ∨ SignedNumeral token i) ∧ i ≤ usizeMax ∧
        i < op.places length last := by
  unfold position places
  by_cases hadd : op = add ∧ last = true
  · rw [if_pos hadd, if_pos hadd, insertIndex_eq_some_iff, Nat.lt_succ_iff]
  rw [if_neg hadd, if_neg hadd, ← and_assoc]
  constructor
  · intro h
    rcases hindex : pointerIndex token length (op == set && last) with _ | place
    · simp [hindex, Except.map] at h
    simp only [hindex, Except.map, Except.ok.injEq, Option.map_eq_some_iff] at h
    obtain ⟨j, rfl, rfl⟩ := h
    exact ⟨pointerIndex_eq_some_iff.mp hindex, j.isLt⟩
  · rintro ⟨hread, hlt⟩
    have hindex : pointerIndex token length (op == set && last) = .ok (some ⟨i, hlt⟩) :=
      pointerIndex_eq_some_iff.mpr hread
    rw [hindex]
    rfl

lemma position_eq_none_iff :
    op.position token length last = .ok none ↔ op.appends last = true ∧ token = "-" := by
  unfold position appends
  by_cases hadd : op = add ∧ last = true
  · rw [if_pos hadd, insertIndex_eq_none_iff, hadd.1, hadd.2]
    simp
  have hset : (op == set && last) = (last && (op == set || op == add)) := by
    cases op <;> cases last <;> simp_all
  have hnone : pointerIndex token length (op == set && last) = .ok none ↔
      (op == set && last) = true ∧ token = "-" := pointerIndex_eq_none_iff
  rw [if_neg hadd, ← hset, ← hnone]
  cases pointerIndex token length (op == set && last) with
  | error e => simp [Except.map]
  | ok place => cases place <;> simp [Except.map]

lemma accepts_iff : op.Accepts token length last ↔
      (∃ i, (arrayIndex token = some i ∨ SignedNumeral token i) ∧ i ≤ usizeMax ∧
        i < op.places length last) ∨ (op.appends last = true ∧ token = "-") := by
  constructor
  · rintro ⟨_ | i, hplace⟩
    · exact .inr (position_eq_none_iff.mp hplace)
    · exact .inl ⟨i, position_eq_some_iff.mp hplace⟩
  · rintro (⟨i, hi⟩ | hdash)
    · exact ⟨some i, position_eq_some_iff.mpr hi⟩
    · exact ⟨none, position_eq_none_iff.mpr hdash⟩

end PointerOp

/-! ## Whole walks -/

variable (env : Runtime)

/-- The value that a token leads to on the way along a pointer. -/
def stepChild : Value → String → Option Value
  | .map s entries, token => mapGet env (eq env) s entries (.string token)
  | .list items, token =>
    match pointerIndex token items.length false with
    | .ok (some i) => some (items.get i)
    | _ => none
  | _, _ => none

/-- The value with another child under a token. -/
def putChild (value : Value) (token : String) (child : Value) : Value :=
  match value with
  | .map s entries => .map s (mapInsert env s entries (.string token) child)
  | .list items =>
    match pointerIndex token items.length false with
    | .ok (some i) => .list (items.set i child)
    | _ => value
  | _ => value

/-- What an operation makes of its result for a child. -/
def PointerOp.rebuild (op : PointerOp) (value : Value) (token : String) (child : Value) : Value :=
  if op = get then child else putChild env value token child

variable {env}

lemma rebuild_get (value : Value) (token : String) :
    PointerOp.get.rebuild env value token = id := (rfl)

lemma rebuild_of_ne {op : PointerOp} (hop : op ≠ .get) (value : Value) (token : String) :
    op.rebuild env value token = putChild env value token := by
  ext1 child
  exact if_neg hop

/-- Before the last token an operation goes on in the child and puts the result
back. -/
lemma run_cons (op : PointerOp) (argument value : Value) (token next : String)
    (rest : List String) : (op.run env argument value (token :: next :: rest)).toOption =
      (stepChild env value token).bind (fun child =>
        (op.run env argument child (next :: rest)).toOption.map (op.rebuild env value token)) := by
  cases value with
  | map s entries =>
    cases hget : mapGet env (eq env) s entries (.string token) with
    | none =>
      cases op <;>
        simp [PointerOp.run, stepChild, hget, pointerGet, pointerSet, pointerAdd,
          pointerRemove, Except.map, Except.toOption]
    | some child => ?_
    simp only [stepChild, hget, Option.bind_some]
    cases op with
    | get => simp [PointerOp.run, pointerGet, hget, rebuild_get]
    | set =>
      cases hrun : pointerSet env child (next :: rest) argument <;>
        simp [PointerOp.run, pointerSet, hget, hrun, rebuild_of_ne, putChild, Except.toOption]
    | add =>
      cases hrun : pointerAdd env child (next :: rest) argument <;>
        simp [PointerOp.run, pointerAdd, hget, hrun, rebuild_of_ne, putChild, Except.toOption]
    | remove =>
      cases hrun : pointerRemove env child (next :: rest) <;>
        simp [PointerOp.run, pointerRemove, hget, hrun, rebuild_of_ne, putChild,
          Except.map, Except.toOption]
  | list items =>
    cases hindex : pointerIndex token items.length false with
    | error e =>
      cases op <;>
        simp [PointerOp.run, stepChild, hindex, pointerGet, pointerSet, pointerAdd,
          pointerRemove, Except.map, Except.toOption]
    | ok place => ?_
    rcases place with _ | i
    · simp [pointerIndex_eq_none_iff] at hindex
    simp only [stepChild, hindex, Option.bind_some]
    cases op with
    | get => simp [PointerOp.run, pointerGet, hindex, rebuild_get]
    | set =>
      cases hrun : pointerSet env (items.get i) (next :: rest) argument <;>
        simp [-List.get_eq_getElem, PointerOp.run, pointerSet, hindex, hrun,
          rebuild_of_ne, putChild, Except.toOption]
    | add =>
      cases hrun : pointerAdd env (items.get i) (next :: rest) argument <;>
        simp [-List.get_eq_getElem, PointerOp.run, pointerAdd, hindex, hrun,
          rebuild_of_ne, putChild, Except.toOption]
    | remove =>
      cases hrun : pointerRemove env (items.get i) (next :: rest) <;>
        simp [-List.get_eq_getElem, PointerOp.run, pointerRemove, hindex, hrun,
          rebuild_of_ne, putChild, Except.map, Except.toOption]
  | _ =>
    cases op <;>
      simp [PointerOp.run, stepChild, pointerGet, pointerSet, pointerAdd, pointerRemove,
        Except.map, Except.toOption]

/-- Along the walk through a value, the token is applied to an array of the given
length. -/
inductive Applied (env : Runtime) : Value → List String → String → Nat → Bool → Prop
  | here {items : List Value} {token : String} {rest : List String} :
      Applied env (.list items) (token :: rest) token items.length rest.isEmpty
  | later {value child : Value} {step next token : String} {rest : List String} {length : Nat}
      {last : Bool} (hstep : stepChild env value step = some child)
      (hrest : Applied env child (next :: rest) token length last) :
      Applied env value (step :: next :: rest) token length last

/-- At an array an operation starts by looking for the place its token addresses. -/
lemma accepts_of_run {op : PointerOp} {argument result : Value} {items : List Value}
    {token : String} {rest : List String}
    (h : (op.run env argument (.list items) (token :: rest)).toOption = some result) :
    op.Accepts token items.length rest.isEmpty := by
  unfold PointerOp.Accepts PointerOp.position
  by_cases hadd : op = .add ∧ rest.isEmpty = true
  · obtain ⟨rfl, hlast⟩ := hadd
    obtain rfl := List.isEmpty_iff.mp hlast
    cases hindex : insertIndex token items.length with
    | error e =>
      simp [PointerOp.run, pointerAdd, insertItem, hindex, Except.map, Except.toOption] at h
    | ok place => exact ⟨place, by simp⟩
  rw [if_neg hadd]
  cases hindex : pointerIndex token items.length (op == .set && rest.isEmpty) with
  | ok place => exact ⟨place.map Fin.val, rfl⟩
  | error e => ?_
  cases op with
  | get =>
    have hread : pointerIndex token items.length false = .error e := hindex
    simp [PointerOp.run, pointerGet, hread, Except.toOption] at h
  | set =>
    have hwrite : pointerIndex token items.length rest.isEmpty = .error e := hindex
    simp [PointerOp.run, pointerSet, hwrite, Except.toOption] at h
  | add =>
    cases rest with
    | nil => exact absurd ⟨rfl, rfl⟩ hadd
    | cons next rest =>
      have hread : pointerIndex token items.length false = .error e := hindex
      simp [PointerOp.run, pointerAdd, hread, Except.toOption] at h
  | remove =>
    have hread : pointerIndex token items.length false = .error e := hindex
    simp [PointerOp.run, pointerRemove, hread, Except.map, Except.toOption] at h

/-- In a successful walk every token was accepted at the array it was applied to. -/
theorem accepted_of_run {op : PointerOp} {argument value result : Value} {tokens : List String}
    {token : String} {length : Nat} {last : Bool}
    (happlied : Applied env value tokens token length last)
    (h : (op.run env argument value tokens).toOption = some result) :
    op.Accepts token length last := by
  induction happlied generalizing result with
  | here => exact accepts_of_run h
  | later hstep hrest ih =>
    rw [run_cons, hstep, Option.bind_some] at h
    obtain ⟨inner, hinner, -⟩ := Option.map_eq_some_iff.mp h
    exact ih hinner

/-- A token that is accepted at an array is an array index, or a dash where appending
is allowed, exactly when it is not a numeral with a sign. Tokens without a sign
address different items. -/
theorem index_tokens_canonical_iff (op : PointerOp) (argument value : Value)
    (tokens : List String) (token : String) (length : Nat) (last : Bool) :
    (∀ result, op.run env argument value tokens = .ok result →
      Applied env value tokens token length last → op.Accepts token length last) ∧
    ((op.Accepts token length last → IsIndex token ∨ (token = "-" ∧ op.appends last = true)) ↔
      ¬ op.AcceptsSign token length last) ∧
    ∀ (op' : PointerOp) (token' : String) (last' : Bool) (i : Nat),
      ¬ op.AcceptsSign token length last → ¬ op'.AcceptsSign token' length last' →
        op.position token length last = .ok (some i) →
          op'.position token' length last' = .ok (some i) → token = token' := by
  have hindexOf : ∀ {op : PointerOp} {token : String} {last : Bool} {i : Nat},
      ¬ op.AcceptsSign token length last → op.position token length last = .ok (some i) →
        arrayIndex token = some i := by
    intro op token last i hsign hplace
    obtain ⟨hindex | hsigned, hmax, hlt⟩ := PointerOp.position_eq_some_iff.mp hplace
    · exact hindex
    · exact absurd ⟨i, hsigned, hmax, hlt⟩ hsign
  refine ⟨?_, ⟨?_, ?_⟩, ?_⟩
  · intro result hrun happlied
    exact accepted_of_run happlied (by rw [hrun]; rfl)
  · rintro hcanonical ⟨n, hsigned, hbounds⟩
    rcases hcanonical (PointerOp.accepts_iff.mpr (.inl ⟨n, .inr hsigned, hbounds⟩)) with
      hindex | ⟨rfl, -⟩
    · exact hsigned.not_isIndex hindex
    · exact readIndex_dash n (.inr hsigned)
  · intro hsign haccepts
    rcases PointerOp.accepts_iff.mp haccepts with ⟨i, hread⟩ | ⟨hlast, hdash⟩
    · have hindex := hindexOf hsign (PointerOp.position_eq_some_iff.mpr hread)
      exact .inl (arrayIndex_eq_some_iff.mp hindex).1
    · exact .inr ⟨hdash, hlast⟩
  · intro op' token' last' i hsign hsign' hplace hplace'
    exact arrayIndex_inj (hindexOf hsign hplace) (hindexOf hsign' hplace')

/-- Both `+1` and `1` read the second item of a list. -/
theorem signed_token_is_accepted :
    let items := Value.list [.int 10, .int 20]
    pointerGet sampleJsonRuntime items ["+1"] = .ok (.int 20) ∧
      pointerGet sampleJsonRuntime items ["1"] = .ok (.int 20) ∧ ¬ IsIndex "+1" := by
  refine ⟨rfl, rfl, ?_⟩
  exact SignedNumeral.not_isIndex ⟨['1'], rfl, by simp, List.all_eq_true.mp rfl, rfl⟩

end MuxRuntime
