import MuxRuntime.Foundations.Machine
import MuxRuntime.Foundations.Registry
import MuxRuntime.Foundations.Session
import MuxRuntime.Cli.Parser

/-!
# The table of parsers and its handles

Parsers live in one table under numbers drawn from a counter. Copying and dropping the
objects that store such a number count references up and down, and a parser whose count
comes to zero is taken out together with the references that it holds on its
subcommands.
-/

namespace MuxRuntime.Cli

open Session (Meets)

/-- The table, the counter, and the live objects with the number that each of them stores. -/
structure State where
  parsers : Registry ParserEntry
  nextId : Nat
  objects : Registry Nat
  nextObject : Nat

def State.initial : State where
  parsers := fun _ => none
  nextId := 1
  objects := fun _ => none
  nextObject := 0

/-! ## The calls -/

def handle (s : State) (object : Nat) : Except String Nat :=
  match s.objects object with
  | none => .error "expected CliParser value"
  | some id => if 0 < id then .ok id else .error "CliParser value is invalid"

def takeId : EStateM String State Nat := do
  let s ← get
  set { s with nextId := s.nextId + 1 }
  return s.nextId

/-- A new object that stores the number. -/
def ownedObject (id : Nat) : EStateM String State Nat := do
  let s ← get
  set { s with objects := s.objects.insert s.nextObject id, nextObject := s.nextObject + 1 }
  return s.nextObject

def setParser (id : Nat) (entry : ParserEntry) : EStateM String State Unit :=
  modify fun s => { s with parsers := s.parsers.insert id entry }

def parserNew : EStateM String State Nat := do
  let id ← takeId
  setParser id ParserEntry.default
  ownedObject id

def mutateParser (object : Nat) (f : Mutation) : EStateM String State Unit := do
  let s ← get
  let id ← Session.ofExcept (handle s object)
  match s.parsers id with
  | some entry => setParser id (← Session.ofExcept (f entry))
  | none => throw "CliParser is closed"

def ParserEntry.hasChild (entry : ParserEntry) (name : Text) : Bool :=
  entry.children.any fun child => child.1 == name

/-- A subcommand starts with one reference of its parent and one of the handle. -/
def subcommandEntry (name about : Text) : ParserEntry where
  program := name
  about := about
  version := none
  options := []
  positionals := []
  children := []
  responseFiles := false
  names := 2

def addSubcommand (object : Nat) (name about : Option Text) : EStateM String State Nat := do
  let parentId ← Session.ofExcept (handle (← get) object)
  let name ← Session.ofExcept (text name "subcommand name")
  let about ← Session.ofExcept (text about "subcommand about")
  if !validName name then
    throw "subcommand name must contain only letters, digits, '-' or '_' and must not be empty"
  -- the number is drawn before the parent is looked at
  let childId ← takeId
  match (← get).parsers parentId with
  | none => throw "CliParser is closed"
  | some parent =>
    if parent.hasChild name then throw "duplicate CLI subcommand"
    setParser parentId { parent with children := parent.children ++ [(name, childId)] }
    setParser childId (subcommandEntry name about)
    ownedObject childId

/-- Take one reference away, and with the last one the parser and its references. -/
def releaseParserReference : Nat → Registry ParserEntry → Nat → Registry ParserEntry
  | 0, parsers, _ => parsers
  | fuel + 1, parsers, id =>
    match parsers id with
    | none => parsers
    | some entry =>
      if entry.names - 1 = 0 then
        entry.children.foldl (fun parsers child => releaseParserReference fuel parsers child.2)
          (parsers.remove id)
      else parsers.insert id { entry with names := entry.names - 1 }

/-- A copy of an object stores the same number, or zero when the parser is gone. -/
def copyParser (object : Nat) : EStateM String State Nat := do
  let s ← get
  match s.objects object with
  | none => throw "expected CliParser value"
  | some id =>
    match s.parsers id with
    | some entry =>
      setParser id { entry with names := entry.names + 1 }
      ownedObject id
    | none => ownedObject 0

/-- The end of an object. -/
def dropParser (object : Nat) : EStateM String State Unit := do
  let s ← get
  match s.objects object with
  | none => throw "expected CliParser value"
  | some id =>
    set { s with
      objects := s.objects.remove object
      parsers := releaseParserReference s.nextId s.parsers id }

/-- The calls on parsers. -/
inductive Call where
  | new
  | addSubcommand (object : Nat) (name about : Option Text)
  | configure (object : Nat) (setter : Setter)
  | copy (object : Nat)
  | drop (object : Nat)
deriving DecidableEq, Repr

/-- One call; those that return a handle return its object. -/
def Call.exec : Call → EStateM String State (Option Nat)
  | .new => some <$> parserNew
  | .addSubcommand object name about => some <$> Cli.addSubcommand object name about
  | .configure object setter => do
    let f ← Session.ofExcept setter.mutation
    mutateParser object f
    return none
  | .copy object => some <$> copyParser object
  | .drop object => do
    dropParser object
    return none

/-- The state after a call, be it successful or not. -/
def step (s : State) (call : Call) : State :=
  match call.exec s with
  | .ok _ s' => s'
  | .error _ s' => s'

abbrev run (calls : List Call) : State :=
  Machine.run step State.initial calls

/-! ## What a call does -/

/-- The effect of a call on the state. -/
inductive Effect (s : State) : Call → State → Prop
  | failed (call : Call) (hcall : call ≠ .new) : Effect s call s
  | wasted (object : Nat) (name about : Option Text) :
      Effect s (.addSubcommand object name about) { s with nextId := s.nextId + 1 }
  | created : Effect s .new
      { parsers := s.parsers.insert s.nextId ParserEntry.default
        nextId := s.nextId + 1
        objects := s.objects.insert s.nextObject s.nextId
        nextObject := s.nextObject + 1 }
  | added (object parentId : Nat) (parent : ParserEntry) (name about : Text)
      (hparent : s.parsers parentId = some parent) :
      Effect s (.addSubcommand object (some name) (some about))
        { parsers := (s.parsers.insert parentId
            { parent with children := parent.children ++ [(name, s.nextId)] }).insert s.nextId
              (subcommandEntry name about)
          nextId := s.nextId + 1
          objects := s.objects.insert s.nextObject s.nextId
          nextObject := s.nextObject + 1 }
  | configured (object id : Nat) (setter : Setter) (f : Mutation) (entry entry' : ParserEntry)
      (hhandle : handle s object = .ok id) (hentry : s.parsers id = some entry)
      (hf : setter.mutation = .ok f) (hentry' : f entry = .ok entry') :
      Effect s (.configure object setter) { s with parsers := s.parsers.insert id entry' }
  | copied (object id : Nat) (entry : ParserEntry) (hobject : s.objects object = some id)
      (hentry : s.parsers id = some entry) :
      Effect s (.copy object)
        { s with
          parsers := s.parsers.insert id { entry with names := entry.names + 1 }
          objects := s.objects.insert s.nextObject id
          nextObject := s.nextObject + 1 }
  | copiedStale (object id : Nat) (hobject : s.objects object = some id)
      (hentry : s.parsers id = none) :
      Effect s (.copy object)
        { s with objects := s.objects.insert s.nextObject 0, nextObject := s.nextObject + 1 }
  | dropped (object id : Nat) (hobject : s.objects object = some id) : Effect s (.drop object)
        { s with
          objects := s.objects.remove object
          parsers := releaseParserReference s.nextId s.parsers id }

variable {s : State}

lemma step_of_meets {call : Call} {P : State → Prop}
    (h : Meets call.exec s (fun _ => P) (fun _ => P)) : P (step s call) := by
  unfold step
  split
  · rename_i hexec
    exact h.ok hexec
  · rename_i hexec
    exact h.error hexec

variable {id : Nat} {entry : ParserEntry}

/-- A configuring call that passes its checks. -/
lemma step_configure {object : Nat} {setter : Setter} {f : Mutation} {entry' : ParserEntry}
    (hf : setter.mutation = .ok f) (hhandle : handle s object = .ok id)
    (hentry : s.parsers id = some entry) (h : f entry = .ok entry') :
    step s (.configure object setter) = { s with parsers := s.parsers.insert id entry' } := by
  refine step_of_meets (P := fun s' => s' = _) ?_
  apply Meets.ofExcept_bind
  · intro g hg
    cases hf.symm.trans hg
    apply Meets.bind (Q := fun _ s' => s' = { s with parsers := s.parsers.insert id entry' })
    · apply Meets.get_bind
      apply Meets.ofExcept_bind
      · intro id' hid'
        cases hhandle.symm.trans hid'
        rw [hentry]
        apply Meets.ofExcept_bind
        · intro e he
          cases h.symm.trans he
          exact rfl
        · intro e he
          cases h.symm.trans he
      · intro e he
        cases hhandle.symm.trans he
    · intro _ s' hs'
      exact hs'
  · intro e he
    cases hf.symm.trans he

lemma configure_effect (s : State) (object : Nat) (setter : Setter) :
    Meets (Call.configure object setter).exec s (fun _ => Effect s (.configure object setter))
      (fun _ => Effect s (.configure object setter)) := by
  apply Meets.ofExcept_bind
  · intro f hf
    apply Meets.bind (Q := fun _ => Effect s (.configure object setter))
    · apply Meets.get_bind
      apply Meets.ofExcept_bind
      · intro id hhandle
        split
        · rename_i entry hentry
          apply Meets.ofExcept_bind
          · intro entry' hentry'
            exact .configured object id setter f entry entry' hhandle hentry hf hentry'
          · intro _ _
            exact .failed _ nofun
        · exact .failed _ nofun
      · intro _ _
        exact .failed _ nofun
    · intro _ s' hs'
      exact hs'
  · intro _ _
    exact .failed _ nofun

lemma addSubcommand_effect (s : State) (object : Nat) (name about : Option Text) :
    Meets (addSubcommand object name about) s (fun _ => Effect s (.addSubcommand object name about))
      (fun _ => Effect s (.addSubcommand object name about)) := by
  apply Meets.get_bind
  apply Meets.ofExcept_bind
  · intro parentId _
    apply Meets.ofExcept_bind
    · intro given hname
      apply Meets.ofExcept_bind
      · intro summary habout
        cases eq_some_of_text hname
        cases eq_some_of_text habout
        split
        · exact .failed _ nofun
        -- the number is drawn, whatever follows
        show Meets (match s.parsers parentId with
          | none => throw "CliParser is closed"
          | some parent => do
            if parent.hasChild given then throw "duplicate CLI subcommand"
            setParser parentId { parent with children := parent.children ++ [(given, s.nextId)] }
            setParser s.nextId (subcommandEntry given summary)
            ownedObject s.nextId) { s with nextId := s.nextId + 1 } _ _
        split
        · exact .wasted _ _ _
        rename_i parent hparent
        split
        · exact .wasted _ _ _
        · exact .added object parentId parent given summary hparent
      · intro _ _
        exact .failed _ nofun
    · intro _ _
      exact .failed _ nofun
  · intro _ _
    exact .failed _ nofun

lemma copyParser_effect (s : State) (object : Nat) :
    Meets (copyParser object) s (fun _ => Effect s (.copy object))
      (fun _ => Effect s (.copy object)) := by
  apply Meets.get_bind
  split
  · exact .failed _ nofun
  rename_i id hobject
  split
  · rename_i entry hentry
    exact .copied object id entry hobject hentry
  · rename_i hentry
    exact .copiedStale object id hobject hentry

lemma dropParser_effect (s : State) (object : Nat) :
    Meets (dropParser object) s (fun _ => Effect s (.drop object))
      (fun _ => Effect s (.drop object)) := by
  apply Meets.get_bind
  split
  · exact .failed _ nofun
  · rename_i id hobject
    exact .dropped object id hobject

/-- Everything that a call can do to the table and the objects. -/
theorem step_effect (s : State) (call : Call) : Effect s call (step s call) := by
  apply step_of_meets
  cases call with
  | new => exact .created
  | addSubcommand object name about =>
    exact Meets.bind (addSubcommand_effect s object name about) fun _ _ h => h
  | configure object setter => exact configure_effect s object setter
  | copy object => exact Meets.bind (copyParser_effect s object) fun _ _ h => h
  | drop object => exact Meets.bind (dropParser_effect s object) fun _ _ h => h

/-! ## The release of a reference -/

variable {parsers : Registry ParserEntry}

lemma releaseParserReference_of_none (h : parsers id = none) (fuel : Nat) :
    releaseParserReference fuel parsers id = parsers := by
  cases fuel with
  | zero => rfl
  | succ fuel =>
    unfold releaseParserReference
    rw [h]

/-- Every parser of the second table is one of the first, up to its count. -/
def Lowered (parsers parsers' : Registry ParserEntry) : Prop :=
  ∀ id entry, parsers' id = some entry → ∃ names, parsers id = some { entry with names := names }

lemma Lowered.refl (parsers : Registry ParserEntry) : Lowered parsers parsers :=
  fun _ entry h => ⟨entry.names, h⟩

lemma Lowered.trans {p q r : Registry ParserEntry} (hpq : Lowered p q) (hqr : Lowered q r) :
    Lowered p r := by
  intro id entry h
  rcases hqr id entry h with ⟨names, hq⟩
  have hp := hpq id _ hq
  exact hp

lemma lowered_remove (parsers : Registry ParserEntry) (id : Nat) :
    Lowered parsers (parsers.remove id) := by
  intro j entry h
  exact ⟨entry.names, (Registry.remove_eq_some_iff.mp h).2⟩

lemma lowered_insert (h : parsers id = some entry) (names : Nat) :
    Lowered parsers (parsers.insert id { entry with names := names }) := by
  intro j entry' hj
  rcases Registry.insert_eq_some_iff.mp hj with ⟨rfl, rfl⟩ | ⟨_, hj⟩
  · exact ⟨entry.names, h⟩
  · exact ⟨entry'.names, hj⟩

/-- A loop over a list whose body only takes away. -/
lemma lowered_foldl {α : Type} {f : Registry ParserEntry → α → Registry ParserEntry}
    (hf : ∀ parsers a, Lowered parsers (f parsers a)) (l : List α) (parsers : Registry ParserEntry) :
    Lowered parsers (l.foldl f parsers) := by
  induction l generalizing parsers with
  | nil => exact Lowered.refl parsers
  | cons a rest ih => exact (hf parsers a).trans (ih (f parsers a))

lemma releaseParserReference_lowered (fuel : Nat) (parsers : Registry ParserEntry) (id : Nat) :
    Lowered parsers (releaseParserReference fuel parsers id) := by
  induction fuel generalizing parsers id with
  | zero => exact Lowered.refl parsers
  | succ fuel ih => ?_
  unfold releaseParserReference
  split
  · exact Lowered.refl parsers
  rename_i entry hentry
  split
  · exact (lowered_remove parsers id).trans
      (lowered_foldl (fun parsers child => ih parsers child.2) entry.children _)
  · exact lowered_insert hentry _

/-- All numbers are below the counter, and a subcommand has a greater one than its parent. -/
structure Ordered (parsers : Registry ParserEntry) (n : Nat) : Prop where
  below : parsers.Below n
  child : ∀ id entry, parsers id = some entry → ∀ child ∈ entry.children, id < child.2 ∧ child.2 < n

variable {n : Nat}

lemma Ordered.lower {parsers' : Registry ParserEntry} (h : Ordered parsers n)
    (hlow : Lowered parsers parsers') : Ordered parsers' n := by
  constructor
  · intro id entry hentry
    rcases hlow id entry hentry with ⟨names, hold⟩
    exact h.below id _ hold
  · intro id entry hentry
    rcases hlow id entry hentry with ⟨names, hold⟩
    have hchild := h.child id _ hold
    exact hchild

lemma Ordered.mono {m : Nat} (h : Ordered parsers n) (hnm : n ≤ m) : Ordered parsers m := by
  constructor
  · exact h.below.mono hnm
  · intro id entry hentry child hchild
    have hold := h.child id entry hentry child hchild
    exact ⟨hold.1, by omega⟩

lemma Ordered.insert (h : Ordered parsers n) (hid : id < n)
    (hentry : ∀ child ∈ entry.children, id < child.2 ∧ child.2 < n) :
    Ordered (parsers.insert id entry) n := by
  constructor
  · exact h.below.insert hid
  · intro j entry' hj
    rcases Registry.insert_eq_some_iff.mp hj with ⟨rfl, rfl⟩ | ⟨_, hj⟩
    · exact hentry
    · exact h.child j entry' hj

lemma State.ordered_initial : Ordered State.initial.parsers State.initial.nextId := ⟨nofun, nofun⟩

end MuxRuntime.Cli
