import Mathlib
import MuxRuntime.Foundations.Machine

/-!
# Interleaving

Threads share a state, and a step takes one thread from a point of its program to the
next. A proof outline has an assertion for the shared state and one for every point of
every thread. It is valid when a step keeps the shared assertion, ends at a point whose
assertion holds, and does not disturb the assertions at which other threads stand.
-/

namespace Interleaving

/-- The points and the inputs of each thread, and what a step does. -/
structure Program (θ σ : Type) where
  Phase : θ → Type
  Input : θ → Type
  move : (t : θ) → Input t → σ → Phase t → σ × Phase t

variable {θ σ : Type} (P : Program θ σ)

structure Config where
  shared : σ
  phase : (t : θ) → P.Phase t

/-- An input for a thread. -/
abbrev Event := (t : θ) × P.Input t

/-- The thread of the event moves. -/
def step [DecidableEq θ] (c : Config P) (e : Event P) : Config P where
  shared := (P.move e.1 e.2 c.shared (c.phase e.1)).1
  phase := Function.update c.phase e.1 (P.move e.1 e.2 c.shared (c.phase e.1)).2

variable {P} in
lemma step_eq [DecidableEq θ] {c : Config P} {t : θ} {i : P.Input t} {s : σ} {p : P.Phase t}
    (h : P.move t i c.shared (c.phase t) = (s, p)) :
    step P c ⟨t, i⟩ = { shared := s, phase := Function.update c.phase t p } := by
  unfold step
  rw [h]

/-- Assertions for the shared state and for the points of the threads. -/
structure Outline where
  shared : σ → Prop
  here : (t : θ) → P.Phase t → σ → Prop

variable {P}

namespace Outline

def Holds (o : Outline P) (c : Config P) : Prop :=
  o.shared c.shared ∧ ∀ t, o.here t (c.phase t) c.shared

def top : Outline P where
  shared := fun _ => True
  here := fun _ _ _ => True

def and (b o : Outline P) : Outline P where
  shared := fun s => b.shared s ∧ o.shared s
  here := fun t p s => b.here t p s ∧ o.here t p s

lemma and_holds {b o : Outline P} {c : Config P} : (b.and o).Holds c ↔ b.Holds c ∧ o.Holds c := by
  constructor
  · rintro ⟨hshared, hhere⟩
    exact ⟨⟨hshared.1, fun t => (hhere t).1⟩, hshared.2, fun t => (hhere t).2⟩
  · rintro ⟨hb, ho⟩
    exact ⟨⟨hb.1, ho.1⟩, fun t => ⟨hb.2 t, ho.2 t⟩⟩

/-- Events that are allowed keep the outline `o`, given the outline `b`. -/
structure Valid (Allowed : Event P → Prop) (b o : Outline P) : Prop where
  /-- The thread that moves. -/
  own : ∀ (t : θ) (i : P.Input t) (s : σ) (p : P.Phase t), Allowed ⟨t, i⟩ →
    b.shared s → b.here t p s → o.shared s → o.here t p s →
      o.shared (P.move t i s p).1 ∧ o.here t (P.move t i s p).2 (P.move t i s p).1
  /-- A thread that stands still. -/
  other : ∀ (t u : θ) (i : P.Input t) (s : σ) (p : P.Phase t) (q : P.Phase u), Allowed ⟨t, i⟩ →
    u ≠ t → b.shared s → b.here t p s → b.here u q s → o.shared s → o.here t p s →
      o.here u q s → o.here u q (P.move t i s p).1

namespace Valid

variable {Allowed : Event P → Prop} {b o : Outline P} {c : Config P}

/-- An outline may rest on another one. -/
theorem and (hb : Valid Allowed top b) (ho : Valid Allowed b o) : Valid Allowed top (b.and o) where
  own := by
    rintro t i s p hi - - ⟨hbs, hos⟩ ⟨hbp, hop⟩
    rcases hb.own t i s p hi trivial trivial hbs hbp with ⟨hbs', hbp'⟩
    rcases ho.own t i s p hi hbs hbp hos hop with ⟨hos', hop'⟩
    exact ⟨⟨hbs', hos'⟩, hbp', hop'⟩
  other := by
    rintro t u i s p q hi hne - - - ⟨hbs, hos⟩ ⟨hbp, hop⟩ ⟨hbq, hoq⟩
    exact ⟨hb.other t u i s p q hi hne trivial trivial trivial hbs hbp hbq,
      ho.other t u i s p q hi hne hbs hbp hbq hos hop hoq⟩

variable [DecidableEq θ]

lemma step {e : Event P} (h : Valid Allowed top o) (he : Allowed e) (hc : o.Holds c) :
    o.Holds (Interleaving.step P c e) := by
  rcases e with ⟨t, i⟩
  rcases hc with ⟨hshared, hhere⟩
  rcases h.own t i c.shared (c.phase t) he trivial trivial hshared (hhere t) with ⟨hs, hp⟩
  refine ⟨hs, fun u => ?_⟩
  by_cases hu : u = t
  · subst hu
    simpa [Interleaving.step] using hp
  · have hq := h.other t u i c.shared (c.phase t) (c.phase u) he hu trivial trivial trivial hshared
      (hhere t) (hhere u)
    simpa [Interleaving.step, hu] using hq

/-- The assertions of a valid outline hold along every interleaving. -/
theorem run {events : List (Event P)} (h : Valid Allowed top o) (hc : o.Holds c)
    (hall : ∀ e ∈ events, Allowed e) : o.Holds (Machine.run (Interleaving.step P) c events) := by
  induction events generalizing c with
  | nil => exact hc
  | cons e events ih =>
    exact ih (h.step (hall e List.mem_cons_self) hc) fun e' he' =>
      hall e' (List.mem_cons_of_mem e he')

end Valid

end Outline

/-! ## One thread at a time -/

/-- Several steps of one thread. -/
def chain {ι π : Type} (move : ι → σ → π → σ × π) (inputs : List ι) (s : σ) (p : π) : σ × π :=
  inputs.foldl (fun c i => move i c.1 c.2) (s, p)

/-- While one thread moves the others stand still. -/
lemma run_chain [DecidableEq θ] (t : θ) (inputs : List (P.Input t)) (c : Config P) :
    Machine.run (step P) c (inputs.map fun i => (⟨t, i⟩ : Event P)) =
      { shared := (chain (P.move t) inputs c.shared (c.phase t)).1
        phase := Function.update c.phase t (chain (P.move t) inputs c.shared (c.phase t)).2 } := by
  induction inputs generalizing c with
  | nil => simp [Machine.run, chain]
  | cons i inputs ih =>
    have hstep := ih (step P c ⟨t, i⟩)
    simp only [step, Function.update_self, Function.update_idem] at hstep
    exact hstep

/-! ## Waiting lists

The threads that wait for a condition and have not been notified. -/

section Waiting

variable {ι : Type} [DecidableEq ι]

/-- A thread waits no longer. -/
def rouse (waiting : List ι) (t : ι) : List ι :=
  waiting.filter (· ≠ t)

/-- Notify one of the waiting threads, if there are any; `pick` chooses which. -/
def notifyOne (waiting : List ι) (pick : Nat) : List ι :=
  match waiting[pick % waiting.length]? with
  | none => waiting
  | some t => rouse waiting t

lemma rouse_subset {waiting : List ι} {t : ι} : rouse waiting t ⊆ waiting :=
  List.filter_subset_self _

lemma notifyOne_subset {waiting : List ι} {pick : Nat} : notifyOne waiting pick ⊆ waiting := by
  unfold notifyOne
  split
  · exact List.Subset.refl _
  · exact rouse_subset

end Waiting

end Interleaving
