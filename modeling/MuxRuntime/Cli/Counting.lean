import MuxRuntime.Cli.Handles

/-!
# The references of a parser

A parser is referred to by the objects that store its number and by its parent. The count of a
subcommand starts at two and follows its referrers. The count of another parser starts at zero
although there is a handle, so that it is taken out with the last handle but one.
-/

namespace MuxRuntime.Cli

open List Registry

/-! ## Referrers -/

def ParserEntry.holds (id : Nat) (entry : ParserEntry) : Bool :=
  entry.children.any fun child => child.2 == id

/-- How many registered parsers have it as a subcommand. -/
def parents (parsers : Registry ParserEntry) (n id : Nat) : Nat :=
  parsers.count (ParserEntry.holds id) n

/-- A live object refers to the parser whose number it stores; zero is no number. -/
def refersTo (id stored : Nat) : Bool :=
  stored == id && decide (0 < stored)

def State.handles (s : State) (id : Nat) : Nat :=
  s.objects.count (refersTo id) s.nextObject

def State.referrers (s : State) (id : Nat) : Nat :=
  parents s.parsers s.nextId id + s.handles id

/-- A parser with `k` referrers is registered, with the count `k`, exactly when there are
any. -/
def Counts (registered : Option ParserEntry) (k : Nat) : Prop :=
  match registered with
  | some entry => entry.names = k ∧ 0 < k
  | none => k = 0

def Accounted (s : State) (id : Nat) : Prop :=
  Counts (s.parsers id) (s.referrers id)

/-- Some call of the run makes the parser as one that is not a subcommand. -/
def CreatedByNew (calls : List Call) (id : Nat) : Prop :=
  ∃ before after, calls = before ++ .new :: after ∧ (run before).nextId = id

/-! ## The balance of the table -/

/-- The counts of all parsers but those of `R`, when `refs` gives the references that do not
come from a parent. -/
structure Balanced (R : Nat → Prop) (parsers : Registry ParserEntry) (n : Nat)
    (refs : Nat → Nat) : Prop where
  ordered : Ordered parsers n
  once : ∀ id entry, parsers id = some entry → (entry.children.map Prod.snd).Nodup
  subcommand : ∀ id entry, parsers id = some entry → ∀ child ∈ entry.children, ¬ R child.2
  account : ∀ id, ¬ R id → Counts (parsers id) (parents parsers n id + refs id)

variable {R : Nat → Prop} {parsers : Registry ParserEntry} {n : Nat} {refs refs' : Nat → Nat}

variable {entry : ParserEntry}

lemma weight_holds (hnd : (entry.children.map Prod.snd).Nodup) (id : Nat) :
    Registry.weight (ParserEntry.holds id) (some entry) = (entry.children.map Prod.snd).count id := by
  have hmem : entry.holds id = true ↔ id ∈ entry.children.map Prod.snd := by
    simp [ParserEntry.holds]
  unfold Registry.weight
  rw [Option.any_some]
  by_cases h : id ∈ entry.children.map Prod.snd
  · rw [count_eq_one_of_mem hnd h, if_pos (hmem.mpr h)]
  · rw [count_eq_zero_of_not_mem h, if_neg (fun hany => h (hmem.mp hany))]

variable {id : Nat} {entry' : ParserEntry}

/-- A change of a parser that leaves its subcommands. -/
lemma parents_insert (hn : id < n) (hentry : parsers id = some entry)
    (hchildren : entry'.children = entry.children) (j : Nat) :
    parents (parsers.insert id entry') n j = parents parsers n j := by
  have hcount := count_insert (r := parsers) (p := ParserEntry.holds j) (v := entry') hn
  have hweight : Registry.weight (ParserEntry.holds j) (some entry') =
      Registry.weight (ParserEntry.holds j) (parsers id) := by
    have hholds : entry'.holds j = entry.holds j := by
      unfold ParserEntry.holds
      rw [hchildren]
    rw [hentry]
    unfold Registry.weight
    rw [Option.any_some, Option.any_some, hholds]
  unfold parents
  omega

/-- With a parser go its references on its subcommands. -/
lemma parents_remove (hn : id < n) (hentry : parsers id = some entry)
    (hnd : (entry.children.map Prod.snd).Nodup) (j : Nat) :
    parents (parsers.remove id) n j + (entry.children.map Prod.snd).count j = parents parsers n j := by
  have hcount := count_remove (r := parsers) (p := ParserEntry.holds j) hn
  rw [hentry, weight_holds hnd] at hcount
  exact hcount

lemma Balanced.congr (h : Balanced R parsers n refs) (heq : ∀ id, ¬ R id → refs' id = refs id) :
    Balanced R parsers n refs' :=
  { h with account := fun id hid => by rw [heq id hid]; exact h.account id hid }

/-- A new count of one parser, with the reference that goes with it. -/
lemma Balanced.insert (h : Balanced R parsers n refs) (hentry : parsers id = some entry)
    (hchildren : entry'.children = entry.children)
    (hid : ¬ R id → Counts (some entry') (parents parsers n id + refs' id))
    (hrefs : ∀ j, ¬ R j → j ≠ id → refs' j = refs j) :
    Balanced R (parsers.insert id entry') n refs' := by
  have hn : id < n := h.ordered.below id entry hentry
  constructor
  · apply h.ordered.insert hn
    rw [hchildren]
    exact h.ordered.child id entry hentry
  · intro j other hj
    rcases insert_eq_some_iff.mp hj with ⟨_, rfl⟩ | ⟨_, hj⟩
    · rw [hchildren]
      exact h.once id entry hentry
    · exact h.once j other hj
  · intro j other hj
    rcases insert_eq_some_iff.mp hj with ⟨_, rfl⟩ | ⟨_, hj⟩
    · rw [hchildren]
      exact h.subcommand id entry hentry
    · exact h.subcommand j other hj
  intro j hj
  rw [parents_insert hn hentry hchildren]
  by_cases hji : j = id
  · subst hji
    rw [insert_self]
    exact hid hj
  · rw [insert_of_ne hji, hrefs j hj hji]
    exact h.account j hj

/-- Taking a parser out turns the references on its subcommands into loose ones. -/
lemma Balanced.remove (h : Balanced R parsers n refs) (hentry : parsers id = some entry)
    (hid : ¬ R id → parents parsers n id + refs' id = 0)
    (hrefs : ∀ j, ¬ R j → j ≠ id → refs' j = refs j) : Balanced R (parsers.remove id) n
      (fun j => refs' j + (entry.children.map Prod.snd).count j) := by
  have hn : id < n := h.ordered.below id entry hentry
  constructor
  · exact h.ordered.lower (lowered_remove parsers id)
  · intro j other hj
    exact h.once j other (remove_eq_some_iff.mp hj).2
  · intro j other hj
    exact h.subcommand j other (remove_eq_some_iff.mp hj).2
  intro j hj
  have hparents := parents_remove hn hentry (h.once id entry hentry) j
  by_cases hji : j = id
  · subst hji
    rw [remove_self]
    have hzero := hid hj
    show _ = 0
    omega
  rw [remove_of_ne hji, hrefs j hj hji]
  have haccount := h.account j hj
  rw [← hparents] at haccount
  rw [show parents (parsers.remove id) n j + (refs j + (entry.children.map Prod.snd).count j) =
    parents (parsers.remove id) n j + (entry.children.map Prod.snd).count j + refs j by omega]
  exact haccount

/-! ## The release of a reference -/

/-- One loose reference more. -/
def withReference (refs : Nat → Nat) (id : Nat) : Nat → Nat :=
  fun j => refs j + if j = id then 1 else 0

variable {fuel : Nat}

/-- Releasing the loose references of a list, when each of them can be released. -/
lemma balanced_foldl (children : List (Text × Nat)) (parsers : Registry ParserEntry)
    (hrelease : ∀ parsers refs child, child ∈ children →
      Balanced R parsers n (withReference refs child.2) →
        Balanced R (releaseParserReference fuel parsers child.2) n refs)
    (h : Balanced R parsers n (fun j => refs j + (children.map Prod.snd).count j)) :
    Balanced R (children.foldl (fun parsers child => releaseParserReference fuel parsers child.2)
      parsers) n refs := by
  induction children generalizing parsers with
  | nil => exact h.congr fun _ _ => rfl
  | cons child rest ih => ?_
  apply ih
  · intro parsers refs other hother
    exact hrelease parsers refs other (mem_cons_of_mem _ hother)
  · apply hrelease _ _ child mem_cons_self
    apply h.congr
    intro j _
    simp only [withReference, map_cons, count_cons, beq_iff_eq, eq_comm (a := child.2)]
    omega

lemma releaseParserReference_balanced (hid : ¬ R id) (hfuel : n ≤ id + fuel)
    (h : Balanced R parsers n (withReference refs id)) :
    Balanced R (releaseParserReference fuel parsers id) n refs := by
  induction fuel generalizing parsers id refs with
  | zero =>
    -- beyond the counter nothing is registered, and nothing can be referred to
    have hnone : parsers id = none := h.ordered.below.eq_none hfuel
    have haccount := h.account id hid
    rw [hnone] at haccount
    simp only [Counts, withReference, if_true] at haccount
    omega
  | succ fuel ih => ?_
  have haccount := h.account id hid
  simp only [withReference, if_true] at haccount
  have hother : ∀ j, ¬ R j → j ≠ id → refs j = withReference refs id j := by
    intro j _ hj
    simp only [withReference, if_neg hj, Nat.add_zero]
  unfold releaseParserReference
  split
  · rename_i hnone
    rw [hnone] at haccount
    simp only [Counts] at haccount
    omega
  rename_i entry hentry
  rw [hentry] at haccount
  have hnames : entry.names = parents parsers n id + refs id + 1 := haccount.1
  split
  · apply balanced_foldl
    · intro parsers refs child hchild hbalanced
      have hgreater := (h.ordered.child id entry hentry child hchild).1
      exact ih (h.subcommand id entry hentry child hchild) (by omega) hbalanced
    · exact h.remove hentry (fun _ => by omega) hother
  apply Balanced.insert h hentry
  · rfl
  · intro _
    constructor
    · show entry.names - 1 = _
      omega
    · omega
  · exact hother

/-- A parser of `R` can be released without a reference, since its count is not followed. -/
lemma releaseParserReference_root (hid : R id) (hfuel : n ≤ id + fuel)
    (h : Balanced R parsers n refs) :
    Balanced R (releaseParserReference fuel parsers id) n refs := by
  rcases fuel with _ | fuel
  · exact h
  unfold releaseParserReference
  split
  · exact h
  rename_i entry hentry
  split
  · apply balanced_foldl
    · intro parsers refs child hchild hbalanced
      have hgreater := (h.ordered.child id entry hentry child hchild).1
      exact releaseParserReference_balanced (h.subcommand id entry hentry child hchild)
        (by omega) hbalanced
    · exact h.remove hentry (fun hnot => absurd hid hnot) fun _ _ _ => rfl
  · apply Balanced.insert h hentry
    · rfl
    · exact fun hnot => absurd hid hnot
    · exact fun _ _ _ => rfl

/-! ## New parsers -/

/-- A parser that comes with no subcommands refers to nothing. -/
lemma parents_push (hbelow : parsers.Below n) (hchildren : entry.children = []) (j : Nat) :
    parents (parsers.insert n entry) (n + 1) j = parents parsers n j := by
  unfold parents
  rw [count_push hbelow]
  have hholds : entry.holds j = false := by
    unfold ParserEntry.holds
    rw [hchildren]
    rfl
  unfold Registry.weight
  rw [Option.any_some, hholds]
  rfl

/-- Nothing refers to a number that has not been drawn. -/
lemma Balanced.fresh (h : Balanced R parsers n refs) (hn : ¬ R n) :
    parents parsers n n + refs n = 0 := by
  have haccount := h.account n hn
  rw [h.ordered.below.eq_none (le_refl n)] at haccount
  exact haccount

lemma Balanced.new (h : Balanced R parsers n refs)
    (hrefs : ∀ j, ¬ R j → j ≠ n → refs' j = refs j) :
    Balanced (fun id => R id ∨ id = n) (parsers.insert n ParserEntry.default) (n + 1) refs' := by
  constructor
  · exact (h.ordered.mono (Nat.le_succ n)).insert (Nat.lt_succ_self n) nofun
  · intro id entry hid
    rcases insert_eq_some_iff.mp hid with ⟨_, rfl⟩ | ⟨_, hid⟩
    · exact nodup_nil
    · exact h.once id entry hid
  · intro id entry hid child hchild
    rcases insert_eq_some_iff.mp hid with ⟨_, rfl⟩ | ⟨_, hid⟩
    · cases hchild
    rintro (hroot | heq)
    · exact h.subcommand id entry hid child hchild hroot
    · have hless := (h.ordered.child id entry hid child hchild).2
      omega
  · intro j hj
    have hjn : j ≠ n := fun heq => hj (Or.inr heq)
    have hroot : ¬ R j := fun hroot => hj (Or.inl hroot)
    rw [insert_of_ne hjn, parents_push h.ordered.below rfl, hrefs j hroot hjn]
    exact h.account j hroot

variable {parentId : Nat} {parent : ParserEntry}

section

variable (h : Balanced R parsers n refs) (hparent : parsers parentId = some parent) (name : Text)

include h hparent

/-- The number of a new subcommand is not among the others of its parent. -/
lemma Balanced.nodup_addChild :
    ((parent.children ++ [(name, n)]).map Prod.snd).Nodup := by
  rw [map_append, map_singleton]
  apply List.Nodup.append (h.once parentId parent hparent) (nodup_singleton n)
  intro child hchild hsingle
  rcases mem_map.mp hchild with ⟨pair, hpair, rfl⟩
  have hless := (h.ordered.child parentId parent hparent pair hpair).2
  rw [mem_singleton.mp hsingle] at hless
  exact lt_irrefl n hless

lemma parents_addChild (j : Nat) :
    parents (parsers.insert parentId { parent with children := parent.children ++ [(name, n)] }) n j =
      parents parsers n j + if j = n then 1 else 0 := by
  have hcount := count_insert (r := parsers) (p := ParserEntry.holds j)
    (v := { parent with children := parent.children ++ [(name, n)] })
    (h.ordered.below parentId parent hparent)
  rw [hparent, weight_holds (h.once parentId parent hparent),
    weight_holds (h.nodup_addChild hparent name), map_append, count_append] at hcount
  have hsingle : ([(name, n)].map Prod.snd).count j = if j = n then 1 else 0 := by
    rw [map_singleton, count_singleton]
    by_cases hj : j = n
    · rw [if_pos (beq_iff_eq.mpr hj.symm), if_pos hj]
    · rw [if_neg (fun heq => hj (beq_iff_eq.mp heq).symm), if_neg hj]
  unfold parents
  omega

end

/-- A subcommand comes with two referrers, its parent and its handle. -/
lemma Balanced.addChild (h : Balanced R parsers n refs) (hn : ¬ R n)
    (hparent : parsers parentId = some parent) (name about : Text)
    (hrefs : ∀ j, refs' j = withReference refs n j) : Balanced R ((parsers.insert parentId
      { parent with children := parent.children ++ [(name, n)] }).insert n
        (subcommandEntry name about)) (n + 1) refs' := by
  have hbelow : parentId < n := h.ordered.below parentId parent hparent
  have hfresh := h.fresh hn
  constructor
  · apply Ordered.insert _ (Nat.lt_succ_self n) (fun child hchild => by cases hchild)
    apply (h.ordered.mono (Nat.le_succ n)).insert (by omega)
    intro child hchild
    rcases mem_append.mp hchild with hold | hnew
    · have hold := h.ordered.child parentId parent hparent child hold
      exact ⟨hold.1, by omega⟩
    · rw [mem_singleton.mp hnew]
      exact ⟨hbelow, Nat.lt_succ_self n⟩
  · intro id entry hid
    rcases insert_eq_some_iff.mp hid with ⟨_, rfl⟩ | ⟨_, hid⟩
    · exact nodup_nil
    · rcases insert_eq_some_iff.mp hid with ⟨_, rfl⟩ | ⟨_, hid⟩
      · exact h.nodup_addChild hparent name
      · exact h.once id entry hid
  · intro id entry hid child hchild
    rcases insert_eq_some_iff.mp hid with ⟨_, rfl⟩ | ⟨_, hid⟩
    · cases hchild
    rcases insert_eq_some_iff.mp hid with ⟨_, rfl⟩ | ⟨_, hid⟩
    · rcases mem_append.mp hchild with hold | hnew
      · exact h.subcommand parentId parent hparent child hold
      · rw [mem_singleton.mp hnew]
        exact hn
    · exact h.subcommand id entry hid child hchild
  · intro j hj
    rw [parents_push (h.ordered.below.insert hbelow) rfl, parents_addChild h hparent, hrefs j]
    unfold withReference
    by_cases hjn : j = n
    · subst hjn
      rw [insert_self, if_pos rfl]
      constructor
      · show 2 = _
        omega
      · omega
    · rw [insert_of_ne hjn, if_neg hjn]
      have haccount := h.account j hj
      by_cases hjp : j = parentId
      · subst hjp
        rw [insert_self]
        rw [hparent] at haccount
        exact haccount
      · rw [insert_of_ne hjp]
        exact haccount

/-! ## Runs -/

/-- What the calls keep, when the parsers of `R` are those that are not subcommands. -/
structure Kept (R : Nat → Prop) (s : State) : Prop where
  balanced : Balanced R s.parsers s.nextId s.handles
  positive : ∀ id entry, s.parsers id = some entry → 0 < id
  counter : 0 < s.nextId
  objects : s.objects.Below s.nextObject
  stored : ∀ object id, s.objects object = some id → id < s.nextId
  roots : ∀ id, R id → id < s.nextId

lemma weight_refersTo (hid : 0 < id) (j : Nat) :
    Registry.weight (refersTo j) (some id) = if j = id then 1 else 0 := by
  simp only [Registry.weight, Option.any_some, refersTo, hid, decide_true, Bool.and_true, beq_iff_eq,
    eq_comm (a := id)]

lemma weight_refersTo_zero (j : Nat) : Registry.weight (refersTo j) (some 0) = 0 := by
  simp [Registry.weight, refersTo]

/-- The handles after one more object. -/
lemma handles_push {s : State} (hobjects : s.objects.Below s.nextObject) (hid : 0 < id)
    (parsers : Registry ParserEntry) (nextId : Nat) (j : Nat) :
    State.handles ⟨parsers, nextId, s.objects.insert s.nextObject id, s.nextObject + 1⟩ j =
      withReference s.handles id j := by
  unfold State.handles withReference
  rw [count_push hobjects, weight_refersTo hid]

lemma handles_push_zero {s : State} (hobjects : s.objects.Below s.nextObject)
    (parsers : Registry ParserEntry) (nextId : Nat) (j : Nat) :
    State.handles ⟨parsers, nextId, s.objects.insert s.nextObject 0, s.nextObject + 1⟩ j =
      s.handles j := by
  unfold State.handles
  rw [count_push hobjects, weight_refersTo_zero, Nat.add_zero]

variable {object : Nat}

/-- The handles before an object is dropped. -/
lemma handles_drop {s : State} (hobjects : s.objects.Below s.nextObject)
    (hobject : s.objects object = some id) (hid : 0 < id) (parsers : Registry ParserEntry)
    (nextId : Nat) (j : Nat) : s.handles j =
      withReference (State.handles ⟨parsers, nextId, s.objects.remove object, s.nextObject⟩) id j := by
  have hcount := count_remove (r := s.objects) (p := refersTo j) (hobjects object id hobject)
  rw [hobject, weight_refersTo hid] at hcount
  exact hcount.symm

lemma handles_drop_zero {s : State} (hobjects : s.objects.Below s.nextObject)
    (hobject : s.objects object = some 0) (parsers : Registry ParserEntry) (nextId : Nat)
    (j : Nat) :
    State.handles ⟨parsers, nextId, s.objects.remove object, s.nextObject⟩ j = s.handles j := by
  have hcount := count_remove (r := s.objects) (p := refersTo j) (hobjects object 0 hobject)
  rw [hobject, weight_refersTo_zero] at hcount
  exact hcount

/-- The parsers that are not subcommands, after a call. -/
def rootsAfter (R : Nat → Prop) (s : State) (call : Call) : Nat → Prop :=
  fun id => R id ∨ (call = .new ∧ id = s.nextId)

lemma Kept.next {s s' : State} {call : Call} (hcall : call ≠ .new) (h : Kept R s') :
    Kept (rootsAfter R s call) s' := by
  have heq : rootsAfter R s call = R := by
    funext id
    simp only [rootsAfter, hcall, false_and, or_false]
  rw [heq]
  exact h

lemma rootsAfter_new {s : State} : rootsAfter R s .new = fun id => R id ∨ id = s.nextId := by
  funext id
  simp only [rootsAfter, true_and]

section Steps

variable {s : State}

section

variable (h : Kept R s)

include h

lemma Kept.configured (hentry : s.parsers id = some entry)
    (hchildren : entry'.children = entry.children) (hnames : entry'.names = entry.names) :
    Kept R { s with parsers := s.parsers.insert id entry' } := by
  refine ⟨?_, forall_insert h.positive (h.positive id entry hentry), h.counter, h.objects,
    h.stored, h.roots⟩
  apply h.balanced.insert hentry hchildren
  · intro hid
    have haccount := h.balanced.account id hid
    rw [hentry] at haccount
    show entry'.names = _ ∧ _
    rw [hnames]
    exact haccount
  · exact fun _ _ _ => rfl

lemma Kept.copied (hobject : s.objects object = some id) (hentry : s.parsers id = some entry) :
    Kept R
      { s with
        parsers := s.parsers.insert id { entry with names := entry.names + 1 }
        objects := s.objects.insert s.nextObject id
        nextObject := s.nextObject + 1 } := by
  have hid : 0 < id := h.positive id entry hentry
  refine ⟨?_, forall_insert h.positive hid, h.counter,
    (h.objects.mono (Nat.le_succ _)).insert (Nat.lt_succ_self _),
    forall_insert h.stored (h.stored object id hobject), h.roots⟩
  apply Balanced.insert h.balanced hentry
  · rfl
  · intro hroot
    have haccount := h.balanced.account id hroot
    rw [hentry] at haccount
    rw [handles_push h.objects hid, withReference, if_pos rfl]
    have hnames : entry.names = _ := haccount.1
    constructor
    · show entry.names + 1 = _
      omega
    · omega
  · intro j _ hj
    rw [handles_push h.objects hid, withReference, if_neg hj, Nat.add_zero]

lemma Kept.copiedStale : Kept R
      { s with objects := s.objects.insert s.nextObject 0, nextObject := s.nextObject + 1 } := by
  refine ⟨?_, h.positive, h.counter, (h.objects.mono (Nat.le_succ _)).insert (Nat.lt_succ_self _),
    forall_insert h.stored h.counter, h.roots⟩
  exact h.balanced.congr fun j _ => handles_push_zero h.objects _ _ j

lemma Kept.dropped (hobject : s.objects object = some id) : Kept R
      { s with
        objects := s.objects.remove object
        parsers := releaseParserReference s.nextId s.parsers id } := by
  have hlow := releaseParserReference_lowered s.nextId s.parsers id
  have hfuel : s.nextId ≤ id + s.nextId := by omega
  refine ⟨?_, ?_, h.counter, h.objects.remove, ?_, h.roots⟩
  · by_cases hid : 0 < id
    · by_cases hroot : R id
      · apply releaseParserReference_root hroot hfuel
        apply h.balanced.congr
        intro j hj
        have hne : j ≠ id := fun heq => hj (heq ▸ hroot)
        rw [handles_drop h.objects hobject hid, withReference, if_neg hne, Nat.add_zero]
      · apply releaseParserReference_balanced hroot hfuel
        apply h.balanced.congr
        intro j _
        rw [handles_drop h.objects hobject hid]
    · -- a copy of a parser that was gone stores zero, and zero is not registered
      obtain rfl : id = 0 := by omega
      have hnone : s.parsers 0 = none := by
        cases hzero : s.parsers 0 with
        | none => rfl
        | some entry => exact absurd (h.positive 0 entry hzero) (lt_irrefl 0)
      rw [releaseParserReference_of_none hnone]
      exact h.balanced.congr fun j _ => handles_drop_zero h.objects hobject _ _ j
  · intro j entry hj
    rcases hlow j entry hj with ⟨names, hold⟩
    exact h.positive j _ hold
  · intro other j hother
    exact h.stored other j (remove_eq_some_iff.mp hother).2

lemma Kept.created : Kept (fun id => R id ∨ id = s.nextId)
      { parsers := s.parsers.insert s.nextId ParserEntry.default
        nextId := s.nextId + 1
        objects := s.objects.insert s.nextObject s.nextId
        nextObject := s.nextObject + 1 } := by
  refine ⟨?_, forall_insert h.positive h.counter, Nat.succ_pos _,
    (h.objects.mono (Nat.le_succ _)).insert (Nat.lt_succ_self _),
    forall_insert (fun o id hid => Nat.lt_succ_of_lt (h.stored o id hid)) (Nat.lt_succ_self _), ?_⟩
  · apply h.balanced.new
    intro j _ hj
    rw [handles_push h.objects h.counter, withReference, if_neg hj, Nat.add_zero]
  · rintro id (hroot | rfl)
    · exact Nat.lt_succ_of_lt (h.roots id hroot)
    · exact Nat.lt_succ_self _

lemma Kept.added (hparent : s.parsers parentId = some parent) (name about : Text) : Kept R
      { parsers := (s.parsers.insert parentId
          { parent with children := parent.children ++ [(name, s.nextId)] }).insert s.nextId
            (subcommandEntry name about)
        nextId := s.nextId + 1
        objects := s.objects.insert s.nextObject s.nextId
        nextObject := s.nextObject + 1 } := by
  have hroot : ¬ R s.nextId := fun hroot => absurd (h.roots _ hroot) (lt_irrefl _)
  refine ⟨?_, ?_, Nat.succ_pos _, (h.objects.mono (Nat.le_succ _)).insert (Nat.lt_succ_self _),
    forall_insert (fun o id hid => Nat.lt_succ_of_lt (h.stored o id hid)) (Nat.lt_succ_self _),
    fun id hid => Nat.lt_succ_of_lt (h.roots id hid)⟩
  · apply h.balanced.addChild hroot hparent
    intro j
    exact handles_push h.objects h.counter _ _ j
  · exact forall_insert (P := fun id _ => 0 < id)
      (forall_insert h.positive (h.positive parentId parent hparent)) h.counter

lemma Kept.wasted : Kept R { s with nextId := s.nextId + 1 } := by
  have hordered := h.balanced.ordered
  refine ⟨⟨hordered.mono (Nat.le_succ _), h.balanced.once, h.balanced.subcommand, ?_⟩, h.positive,
    Nat.succ_pos _, h.objects, fun o id hid => Nat.lt_succ_of_lt (h.stored o id hid),
    fun id hid => Nat.lt_succ_of_lt (h.roots id hid)⟩
  intro id hid
  have hparents : parents s.parsers (s.nextId + 1) id = parents s.parsers s.nextId id :=
    count_eq_of_le hordered.below (Nat.le_succ _)
  rw [hparents]
  exact h.balanced.account id hid

end

end Steps

lemma Effect.kept {s s' : State} {call : Call} (he : Effect s call s') (h : Kept R s) :
    Kept (rootsAfter R s call) s' := by
  cases he with
  | failed _ hcall => exact .next hcall h
  | wasted => exact .next nofun h.wasted
  | created =>
    rw [rootsAfter_new]
    exact h.created
  | added object parentId parent name about hparent =>
    exact .next nofun (h.added hparent name about)
  | configured object id setter f entry entry' hhandle hentry hf hentry' =>
    have hchanges := setter.sound f hf entry entry' hentry'
    exact .next nofun (h.configured hentry hchanges.children hchanges.names)
  | copied object id entry hobject hentry => exact .next nofun (h.copied hobject hentry)
  | copiedStale => exact .next nofun h.copiedStale
  | dropped object id hobject => exact .next nofun (h.dropped hobject)

variable (calls : List Call)

lemma run_append (call : Call) : run (calls ++ [call]) = step (run calls) call := foldl_append ..

/-- The last call of a run may make one more parser that is not a subcommand. -/
lemma createdByNew_append (call : Call) :
    CreatedByNew (calls ++ [call]) = rootsAfter (CreatedByNew calls) (run calls) call := by
  funext id
  apply propext
  constructor
  · rintro ⟨before, after, heq, hid⟩
    rcases eq_nil_or_concat after with rfl | ⟨rest, last, rfl⟩
    · rcases append_inj' heq rfl with ⟨rfl, hcall⟩
      exact Or.inr ⟨head_eq_of_cons_eq hcall, hid.symm⟩
    · rw [concat_eq_append, ← cons_append, ← append_assoc] at heq
      rcases append_inj' heq rfl with ⟨rfl, -⟩
      exact Or.inl ⟨before, rest, rfl, hid⟩
  · rintro (⟨before, after, rfl, hid⟩ | ⟨rfl, rfl⟩)
    · exact ⟨before, after ++ [call], by rw [append_assoc, cons_append], hid⟩
    · exact ⟨calls, [], rfl, rfl⟩

lemma kept_initial : Kept (CreatedByNew []) State.initial := by
  have hnone : ∀ id, ¬ CreatedByNew [] id := by
    rintro id ⟨before, after, heq, -⟩
    exact absurd heq.symm (append_ne_nil_of_right_ne_nil before (cons_ne_nil _ _))
  refine ⟨⟨State.ordered_initial, nofun, nofun, ?_⟩, nofun, Nat.one_pos, nofun, nofun, ?_⟩
  · intro id _
    rfl
  · intro id hid
    exact absurd hid (hnone id)

lemma run_kept : Kept (CreatedByNew calls) (run calls) := by
  induction calls using List.reverseRecOn with
  | nil => exact kept_initial
  | append_singleton calls call ih =>
    rw [createdByNew_append, run_append]
    exact (step_effect (run calls) call).kept ih

/-- A parser that is not a subcommand is registered with the count zero and a handle. -/
lemma not_accounted_new : ¬ Accounted (run (calls ++ [.new])) (run calls).nextId := by
  intro h
  rw [run_append] at h
  have hentry : (step (run calls) .new).parsers (run calls).nextId = some ParserEntry.default :=
    insert_self
  unfold Accounted at h
  rw [hentry] at h
  exact absurd h.2 (by rw [← h.1]; exact lt_irrefl 0)

/-- In every state of a run of any calls, a parser is registered exactly while an object or a
registered parent refers to it, and its count is the number of these, if and only if no call
of the run made it as a parser that is not a subcommand. -/
theorem accounted_iff (calls : List Call) (id : Nat) :
    (∀ before after, calls = before ++ after → Accounted (run before) id) ↔
      ¬ CreatedByNew calls id := by
  constructor
  · rintro h ⟨before, after, rfl, rfl⟩
    apply not_accounted_new before
    exact h (before ++ [.new]) after (by rw [append_assoc]; rfl)
  · rintro hnew before after rfl
    apply (run_kept before).balanced.account id
    rintro ⟨first, rest, rfl, hid⟩
    exact hnew ⟨first, rest ++ after, by rw [append_assoc, cons_append], hid⟩

/-- A parser is made, its handle is copied, and the copy is dropped: the parser is gone, and
the handle that is left says that it is closed. -/
theorem copy_then_drop_unregisters : (run [.new, .copy 0, .drop 1]).parsers 1 = none ∧
      (run [.new, .copy 0, .drop 1]).objects 0 = some 1 ∧
        (run [.new, .copy 0, .drop 1]).referrers 1 = 1 := by
  refine ⟨rfl, rfl, ?_⟩
  decide

end MuxRuntime.Cli
