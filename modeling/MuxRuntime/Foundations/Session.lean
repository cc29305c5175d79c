import Mathlib

/-!
# Programs that fail with a state

A program of `EStateM ε σ` ends with a value or with an error, and leaves a state in
both cases. What it does is stated by two conditions on the end, one for values and
one for errors, and shown by the rules below.
-/

namespace Session

variable {ε σ α β : Type}

/-- From the state `s` the program ends with a value as in `Q` or an error as in `E`. -/
def Meets (m : EStateM ε σ α) (s : σ) (Q : α → σ → Prop) (E : ε → σ → Prop) : Prop :=
  match m s with
  | .ok a s' => Q a s'
  | .error e s' => E e s'

/-- The two conditions, on a result that was observed. -/
def Outcome (Q : α → σ → Prop) (E : ε → σ → Prop) : Except ε α → σ → Prop
  | .ok a, s => Q a s
  | .error e, s => E e s

/-- Run a program and return what it ends with, be it an error. -/
def observe (m : EStateM ε σ α) : EStateM ε σ (Except ε α) := fun s =>
  match m s with
  | .ok a s' => .ok (.ok a) s'
  | .error e s' => .ok (.error e) s'

/-- Go on with a result that needs no state. -/
def ofExcept (x : Except ε α) : EStateM ε σ α :=
  match x with
  | .ok a => pure a
  | .error e => throw e

variable {m : EStateM ε σ α} {s s' : σ} {Q Q' : α → σ → Prop} {E E' : ε → σ → Prop}

variable {a : α}

lemma Meets.ok (h : Meets m s Q E) (heq : m s = .ok a s') : Q a s' := by
  unfold Meets at h
  rw [heq] at h
  exact h

lemma Meets.error {e : ε} (h : Meets m s Q E) (heq : m s = .error e s') : E e s' := by
  unfold Meets at h
  rw [heq] at h
  exact h

lemma Meets.mono (h : Meets m s Q E) (hQ : ∀ a s', Q a s' → Q' a s')
    (hE : ∀ e s', E e s' → E' e s') : Meets m s Q' E' := by
  unfold Meets at h ⊢
  split
  · rename_i heq
    rw [heq] at h
    exact hQ _ _ h
  · rename_i heq
    rw [heq] at h
    exact hE _ _ h

lemma Meets.pure (h : Q a s) : Meets (pure a) s Q E := h

lemma Meets.throw {e : ε} (h : E e s) : Meets (throw e) s Q E := h

variable {f : α → EStateM ε σ β} {R : β → σ → Prop}

/-- The conditions of a sequence from those of its parts. -/
theorem Meets.bind (h : Meets m s Q E) (hf : ∀ a s', Q a s' → Meets (f a) s' R E) :
    Meets (m >>= f) s R E := by
  have hbind : (m >>= f) s = match m s with
      | .ok a s' => f a s'
      | .error e s' => .error e s' := rfl
  unfold Meets at h ⊢
  rw [hbind]
  cases heq : m s with
  | ok a s' =>
    rw [heq] at h
    exact hf a s' h
  | error e s' =>
    rw [heq] at h
    exact h

/-- A step whose failures are among those of the whole. -/
lemma Meets.andThen (h : Meets m s Q E) (hf : ∀ a s', Q a s' → Meets (f a) s' R E')
    (hE : ∀ e s', E e s' → E' e s') : Meets (m >>= f) s R E' :=
  (h.mono (fun _ _ h => h) hE).bind hf

/-- A sequence that ends with a value has passed its first part. -/
lemma bind_eq_ok {b : β} (h : (m >>= f) s = .ok b s') :
    ∃ a s₁, m s = .ok a s₁ ∧ f a s₁ = .ok b s' := by
  have hbind : (m >>= f) s = match m s with
      | .ok a s' => f a s'
      | .error e s' => .error e s' := rfl
  rw [hbind] at h
  cases hm : m s with
  | ok a s₁ =>
    rw [hm] at h
    exact ⟨a, s₁, rfl, h⟩
  | error e s₁ =>
    rw [hm] at h
    cases h

variable {x : Except ε α}

lemma ofExcept_eq_ok (h : ofExcept x s = .ok a s') : x = .ok a ∧ s' = s := by
  cases x with
  | ok b =>
    cases h
    exact ⟨rfl, rfl⟩
  | error e => cases h

/-- The conditions may speak of the end that the program has. -/
lemma Meets.ended (h : Meets m s Q E) :
    Meets m s (fun a s' => m s = .ok a s' ∧ Q a s') (fun e s' => m s = .error e s' ∧ E e s') := by
  unfold Meets at h ⊢
  cases heq : m s with
  | ok a s' | error e s' =>
    rw [heq] at h
    exact ⟨rfl, h⟩

/-- A program that cannot fail ends with a value. -/
lemma Meets.total (h : Meets m s Q E) (hE : ∀ e s', ¬ E e s') : ∃ a s', m s = .ok a s' ∧ Q a s' := by
  unfold Meets at h
  cases heq : m s with
  | ok a s' =>
    rw [heq] at h
    exact ⟨a, s', rfl, h⟩
  | error e s' =>
    rw [heq] at h
    exact absurd h (hE e s')

/-- Looking at the state. -/
lemma Meets.get_bind {f : σ → EStateM ε σ β} (h : Meets (f s) s R E) : Meets (get >>= f) s R E := h

lemma Meets.ofExcept (hok : ∀ a, x = .ok a → Q a s) (herror : ∀ e, x = .error e → E e s) :
    Meets (ofExcept x) s Q E := by
  cases x with
  | ok a => exact hok a rfl
  | error e => exact herror e rfl

/-- Going on with a result that needs no state. -/
lemma Meets.ofExcept_bind (hok : ∀ a, x = .ok a → Meets (f a) s R E)
    (herror : ∀ e, x = .error e → E e s) : Meets (Session.ofExcept x >>= f) s R E := by
  cases x with
  | ok a => exact hok a rfl
  | error e => exact herror e rfl

lemma Meets.observe (h : Meets m s Q E) : Meets (observe m) s (Outcome Q E) E' := by
  unfold Meets at h ⊢
  unfold Session.observe
  cases heq : m s with
  | ok a s' | error e s' =>
    rw [heq] at h
    exact h

/-- A loop over a list, with an invariant on the items that are done, the value so far
and the state. -/
theorem Meets.foldlM {f : β → α → EStateM ε σ β} {I : List α → β → σ → Prop} {b : β}
    {items : List α} (hstep : ∀ done x rest b s, items = done ++ x :: rest → I done b s →
      Meets (f b x) s (I (done ++ [x])) E)
    (h : I [] b s) : Meets (items.foldlM f b) s (I items) E := by
  -- the items that are left come after those that are done
  have hleft : ∀ rest done b s, items = done ++ rest → I done b s →
      Meets (rest.foldlM f b) s (I items) E := by
    intro rest
    induction rest with
    | nil =>
      intro done b s hitems hI
      rw [List.append_nil] at hitems
      subst hitems
      exact hI
    | cons x rest ih => ?_
    intro done b s hitems hI
    rw [List.foldlM_cons]
    apply Meets.bind (hstep done x rest b s hitems hI)
    intro b' s' hI'
    apply ih (done ++ [x]) b' s' _ hI'
    rw [hitems, List.append_assoc, List.singleton_append]
  exact hleft items [] b s rfl h

end Session
