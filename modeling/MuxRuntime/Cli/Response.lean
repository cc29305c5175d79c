import MuxRuntime.Cli.Parser
import MuxRuntime.Foundations.Str

/-!
# Response files

A response file is split into arguments by a state machine with quotes, escapes and
comments.
-/

namespace MuxRuntime.Cli

open List

open Str (isWhitespace)

/-! ## Tokens -/

/-- What the tokenizer has read. -/
structure Tokenizer where
  tokens : List Text
  current : Text
  quote : Option Char
  escaped : Bool
  comment : Bool

/-- A backslash is an escape before these characters and at the end of the file. -/
def escapes : Option Char → Bool
  | none => true
  | some next => isWhitespace next || next == '\\' || next == '\'' || next == '"' || next == '#'

/-- The token that was read, if there is one. -/
def Tokenizer.push (t : Tokenizer) : Tokenizer :=
  if t.current = [] then t else { t with tokens := t.tokens ++ [t.current], current := [] }

/-- One character, with the one that follows it. -/
def Tokenizer.step (t : Tokenizer) (c : Char) (next : Option Char) : Tokenizer :=
  if t.comment then if c = '\n' then { t with comment := false } else t
  else if t.escaped then { t with current := t.current ++ [c], escaped := false }
  -- in quotes and outside of them
  else if c = '\\' then
    if escapes next then { t with escaped := true } else { t with current := t.current ++ ['\\'] }
  else
    match t.quote with
    | some active =>
      if c = active then { t with quote := none } else { t with current := t.current ++ [c] }
    | none =>
      if c = '\'' ∨ c = '"' then { t with quote := some c }
      else if c = '#' ∧ t.current = [] then { t with comment := true }
      else if isWhitespace c then t.push
      else { t with current := t.current ++ [c] }

def Tokenizer.read (t : Tokenizer) : Text → Tokenizer
  | [] => t
  | c :: rest => (t.step c rest.head?).read rest

/-- Between two tokens. -/
def Tokenizer.after (tokens : List Text) : Tokenizer := ⟨tokens, [], none, false, false⟩

def tokenizeResponseFile (source : Text) : Except String (List Text) :=
  let t := (Tokenizer.after []).read source
  if t.escaped then .error "response file ends with an escape"
  else if t.quote.isSome then .error "response file has an unterminated quote"
  else .ok t.push.tokens

/-- An argument in double quotes, with escapes. -/
def quoted (arg : Text) : Text :=
  '"' :: (arg.flatMap (fun c => if c = '\\' ∨ c = '"' then ['\\', c] else [c]) ++ ['"'])

/-- The texts with these arguments in quotes and white space between them. -/
inductive Writes : List Text → Text → Prop
  | nil : Writes [] []
  | one (arg : Text) : Writes [arg] (quoted arg)
  | cons {arg space rest : Text} {args : List Text} (hspace : space ≠ [])
      (hwhite : ∀ c ∈ space, isWhitespace c) (hrest : Writes args rest) :
      Writes (arg :: args) (quoted arg ++ (space ++ rest))

variable {tokens args : List Text} {current text rest : Text}

lemma read_escaped (arg : Text) : Tokenizer.read ⟨tokens, current, some '"', false, false⟩
      (arg.flatMap (fun c => if c = '\\' ∨ c = '"' then ['\\', c] else [c]) ++ '"' :: rest) =
    Tokenizer.read ⟨tokens, current ++ arg, none, false, false⟩ rest := by
  induction arg generalizing current with
  | nil => simp [Tokenizer.read, Tokenizer.step]
  | cons c arg ih => ?_
  rw [flatMap_cons, append_assoc]
  by_cases hc : c = '\\' ∨ c = '"'
  · have hescapes : escapes (some c) = true := by rcases hc with rfl | rfl <;> rfl
    rw [if_pos hc]
    simp [Tokenizer.read, Tokenizer.step, hescapes, ih]
  · rw [if_neg hc]
    rw [not_or] at hc
    simp [Tokenizer.read, Tokenizer.step, hc.1, hc.2, ih]

lemma read_quoted (arg : Text) : (Tokenizer.after tokens).read (quoted arg ++ rest) =
    Tokenizer.read ⟨tokens, arg, none, false, false⟩ rest := by
  simp [quoted, Tokenizer.after, Tokenizer.read, Tokenizer.step, read_escaped]

/-- A token without characters is none. -/
lemma push_eq : Tokenizer.push ⟨tokens, current, none, false, false⟩ =
    Tokenizer.after (tokens ++ [current].filter (· ≠ [])) := by
  by_cases hcurrent : current = [] <;> simp [Tokenizer.push, Tokenizer.after, hcurrent]

lemma step_space {c : Char} (hc : isWhitespace c) (next : Option Char) :
    Tokenizer.step ⟨tokens, current, none, false, false⟩ c next =
      Tokenizer.push ⟨tokens, current, none, false, false⟩ := by
  have hne : c ≠ '\\' ∧ c ≠ '\'' ∧ c ≠ '"' ∧ c ≠ '#' := by
    refine ⟨?_, ?_, ?_, ?_⟩ <;> rintro rfl <;> revert hc <;> decide
  simp [Tokenizer.step, hne, hc]

lemma read_spaces {space : Text} (hwhite : ∀ c ∈ space, isWhitespace c) :
    (Tokenizer.after tokens).read (space ++ rest) = (Tokenizer.after tokens).read rest := by
  induction space with
  | nil => rfl
  | cons c space ih => ?_
  rw [forall_mem_cons] at hwhite
  rw [cons_append, Tokenizer.read]
  unfold Tokenizer.after at ih ⊢
  rw [step_space hwhite.1]
  exact ih hwhite.2

lemma read_writes (h : Writes args text) : ((Tokenizer.after tokens).read text).push =
    Tokenizer.after (tokens ++ args.filter (· ≠ [])) := by
  induction h generalizing tokens with
  | nil => simp [Tokenizer.read, Tokenizer.push, Tokenizer.after]
  | one arg =>
    rw [← append_nil (quoted arg), read_quoted]
    exact push_eq
  | @cons arg space rest args hspace hwhite hrest ih => ?_
  rw [read_quoted]
  rcases space with _ | ⟨c, space⟩
  · exact absurd rfl hspace
  rw [forall_mem_cons] at hwhite
  rw [cons_append, Tokenizer.read, step_space hwhite.1, push_eq, read_spaces hwhite.2, ih,
    append_assoc, ← filter_append, singleton_append]

lemma push_modes (t : Tokenizer) : t.push.escaped = t.escaped ∧ t.push.quote = t.quote := by
  unfold Tokenizer.push
  split_ifs <;> exact ⟨rfl, rfl⟩

/-- Quoted arguments are read back exactly if none of them is empty. -/
theorem tokenizeResponseFile_quoted_iff (h : Writes args text) :
    tokenizeResponseFile text = .ok args ↔ [] ∉ args := by
  have hread : ((Tokenizer.after []).read text).push = _ := read_writes h
  have hmodes := push_modes ((Tokenizer.after []).read text)
  rw [hread] at hmodes
  have hresult : tokenizeResponseFile text = .ok (args.filter (· ≠ [])) := by
    rw [tokenizeResponseFile]
    rw [← hmodes.1, ← hmodes.2, hread]
    rfl
  rw [hresult, Except.ok.injEq, filter_eq_self]
  simp only [ne_eq, decide_not, Bool.not_eq_true', decide_eq_false_iff_not]
  constructor
  · intro hall hmem
    exact hall [] hmem rfl
  · intro hnot a ha hempty
    exact hnot (hempty ▸ ha)

/-- Two arguments, of which the first has a blank. -/
theorem tokenizeResponseFile_quoted_hash :
    tokenizeResponseFile ['"', '#', ' ', '"', '\n', '"', 'b', '"'] = .ok [['#', ' '], ['b']] := by
  have hwrites : Writes [['#', ' '], ['b']] ['"', '#', ' ', '"', '\n', '"', 'b', '"'] :=
    .cons (cons_ne_nil '\n' []) (forall_mem_singleton.mpr rfl) (.one ['b'])
  exact (tokenizeResponseFile_quoted_iff hwrites).mpr (by simp)

/-- An empty argument in quotes is dropped. -/
theorem tokenizeResponseFile_drops_empty :
    Writes [[]] ['"', '"'] ∧ tokenizeResponseFile ['"', '"'] = .ok [] :=
  ⟨.one [], rfl⟩

end MuxRuntime.Cli
