import Mathlib

/-!
# Reading a text piece by piece

A text arrives in reads of at least one element and at most `k`. A reader reads
again while the buffer does not answer its question. When the answer depends
only on how much of the text is buffered, a run is determined by the positions
at which the reads end.
-/

namespace Reads

open List

/-- What one call of `read` brings. -/
structure Read (β : Type) (k : Nat) where
  data : List β
  nonempty : data ≠ []
  fits : data.length ≤ k

variable {α β ε : Type} {k : Nat}

/-- The text that the reads bring. -/
def delivered (reads : List (Read β k)) : List β :=
  reads.flatMap Read.data

@[simp]
lemma delivered_nil : delivered ([] : List (Read β k)) = [] := rfl

@[simp]
lemma delivered_cons (r : Read β k) (reads : List (Read β k)) :
    delivered (r :: reads) = r.data ++ delivered reads := rfl

@[simp]
lemma delivered_append (reads reads' : List (Read β k)) :
    delivered (reads ++ reads') = delivered reads ++ delivered reads' := by
  simp [delivered]

lemma Read.length_pos (r : Read β k) : 0 < r.data.length := length_pos_iff.mpr r.nonempty

/-- Read until the buffer answers. The buffer can be refused before a further
read, and the read can be refused when it is added to the buffer. -/
def readUntil (ready : List β → Option α) (refuse : List β → Option ε)
    (extend : List β → List β → Except ε (List β)) (closed : ε) :
    List β → List (Read β k) → Except ε (α × List β × List (Read β k))
  | buffer, [] =>
    match ready buffer with
    | some a => .ok (a, buffer, [])
    | none =>
      match refuse buffer with
      | some e => .error e
      | none => .error closed
  | buffer, r :: reads =>
    match ready buffer with
    | some a => .ok (a, buffer, r :: reads)
    | none =>
      match refuse buffer with
      | some e => .error e
      | none =>
        match extend buffer r.data with
        | .error e => .error e
        | .ok buffer' => readUntil ready refuse extend closed buffer' reads

/-- Take reads until `n` elements are buffered. -/
def fill (n : Nat) : List β → List (Read β k) → List β × List (Read β k)
  | buffer, [] => (buffer, [])
  | buffer, r :: reads =>
    if n ≤ buffer.length then (buffer, r :: reads) else fill n (buffer ++ r.data) reads

/-- Every read made before `stop` elements are there is allowed, and the reads
bring that many. `P m m'` speaks of a read that takes the count from `m` to `m'`. -/
def Allowed (P : Nat → Nat → Prop) (stop : Nat) : Nat → List (Read β k) → Prop
  | n, [] => stop ≤ n
  | n, r :: reads => stop ≤ n ∨ (P n (n + r.data.length) ∧ Allowed P stop (n + r.data.length) reads)

/-! ## Filling the buffer -/

variable {buffer : List β}

lemma fill_of_le {n : Nat} (h : n ≤ buffer.length) (reads : List (Read β k)) :
    fill n buffer reads = (buffer, reads) := by
  cases reads with
  | nil => rfl
  | cons r reads => simp [fill, h]

lemma fill_text (n : Nat) (buffer : List β) (reads : List (Read β k)) :
    (fill n buffer reads).1 ++ delivered (fill n buffer reads).2 = buffer ++ delivered reads := by
  induction reads generalizing buffer with
  | nil => rfl
  | cons r reads ih => ?_
  unfold fill
  split_ifs
  · rfl
  · rw [ih]
    simp

lemma fill_fill {n n' : Nat} (h : n ≤ n') (buffer : List β) (reads : List (Read β k)) :
    fill n' (fill n buffer reads).1 (fill n buffer reads).2 = fill n' buffer reads := by
  induction reads generalizing buffer with
  | nil => rfl
  | cons r reads ih => ?_
  by_cases hn : n ≤ buffer.length
  · rw [fill_of_le hn]
  · have hn' : ¬ n' ≤ buffer.length := by omega
    simp only [fill, hn, hn', if_false]
    exact ih _

/-- Filling goes past its aim by less than one read. -/
lemma fill_length_lt {n : Nat} (h : buffer.length < n) (reads : List (Read β k)) :
    (fill n buffer reads).1.length < n + k := by
  induction reads generalizing buffer with
  | nil =>
    have : buffer.length < n + k := by omega
    exact this
  | cons r reads ih => ?_
  have hfits := r.fits
  rw [fill, if_neg (by omega)]
  by_cases hn : n ≤ (buffer ++ r.data).length
  · rw [fill_of_le hn, length_append]
    omega
  · exact ih (by omega)

lemma le_fill_length {n : Nat} (buffer : List β) (reads : List (Read β k))
    (h : n ≤ (buffer ++ delivered reads).length) : n ≤ (fill n buffer reads).1.length := by
  induction reads generalizing buffer with
  | nil =>
    rw [delivered_nil, append_nil] at h
    exact h
  | cons r reads ih =>
    unfold fill
    split_ifs with hn
    · exact hn
    · exact ih _ (by simpa using h)

/-- Reads that end before the aim are all taken. -/
lemma fill_append {n : Nat} {reads : List (Read β k)}
    (h : (buffer ++ delivered reads).length < n) (reads' : List (Read β k)) :
    fill n buffer (reads ++ reads') = fill n (buffer ++ delivered reads) reads' := by
  induction reads generalizing buffer with
  | nil => rw [delivered_nil, append_nil, nil_append]
  | cons r reads ih => ?_
  rw [delivered_cons, ← append_assoc] at h ⊢
  have hshort : ¬ n ≤ buffer.length := by
    rw [length_append, length_append] at h
    omega
  rw [cons_append, fill, if_neg hshort]
  exact ih h

/-! ## Allowed reads -/

section Allowed

variable {P Q : Nat → Nat → Prop} {stop n : Nat} {reads : List (Read β k)}

lemma allowed_of_le (h : stop ≤ n) (reads : List (Read β k)) : Allowed P stop n reads := by
  cases reads with
  | nil => exact h
  | cons r reads => exact .inl h

lemma Allowed.stop_le (h : Allowed P stop n reads) : stop ≤ n + (delivered reads).length := by
  induction reads generalizing n with
  | nil => exact h
  | cons r reads ih => ?_
  rw [delivered_cons, length_append]
  rcases h with h | ⟨-, h⟩
  · omega
  · have hlater := ih h
    omega

/-- Only the reads made on the way to `stop` matter. -/
lemma Allowed.congr (hPQ : ∀ m m', n ≤ m → m < stop → (P m m' ↔ Q m m')) :
    Allowed P stop n reads ↔ Allowed Q stop n reads := by
  induction reads generalizing n with
  | nil => exact Iff.rfl
  | cons r reads ih =>
    by_cases hn : stop ≤ n
    · exact iff_of_true (.inl hn) (.inl hn)
    · have hlater := ih (fun m m' hm => hPQ m m' (by omega) : ∀ m m', n + r.data.length ≤ m → _)
      simp only [Allowed, hn, false_or, hlater, hPQ n _ (le_refl n) (by omega)]

/-- Waiting for a later position is waiting for an earlier one first. -/
theorem allowed_iff_fill {stop' : Nat} (h : stop ≤ stop') (buffer : List β) :
    Allowed P stop' buffer.length reads ↔ Allowed P stop buffer.length reads ∧
        Allowed P stop' (fill stop buffer reads).1.length (fill stop buffer reads).2 := by
  induction reads generalizing buffer with
  | nil =>
    simp only [Allowed, fill]
    constructor
    · intro hstop
      exact ⟨by omega, hstop⟩
    · exact fun hstop => hstop.2
  | cons r reads ih => ?_
  by_cases hn : stop ≤ buffer.length
  · rw [fill_of_le hn]
    exact ⟨fun hall => ⟨.inl hn, hall⟩, fun hall => hall.2⟩
  · have hn' : ¬ stop' ≤ buffer.length := by omega
    have hlater := ih (buffer ++ r.data)
    rw [length_append] at hlater
    simp only [Allowed, fill, hn, hn', if_false, false_or, hlater, and_assoc]

/-- Reads that are all allowed by their size lead to `stop` if there is enough text. -/
lemma allowed_of_forall (henough : stop ≤ n + (delivered reads).length)
    (hP : ∀ m m', n ≤ m → m < stop → m < m' → m' ≤ m + k → m' ≤ n + (delivered reads).length →
      P m m') : Allowed P stop n reads := by
  induction reads generalizing n with
  | nil => exact henough
  | cons r reads ih => ?_
  have hpos := r.length_pos
  have hfits := r.fits
  rw [delivered_cons, length_append] at henough hP
  by_cases hn : stop ≤ n
  · exact .inl hn
  refine .inr ⟨?_, ?_⟩
  · exact hP n _ (le_refl n) (by omega) (by omega) (by omega) (by omega)
  · apply ih (by omega)
    intro m m' hm hstop hless hread htotal
    exact hP m m' (by omega) hstop hless hread (by omega)

/-- Some read passes every position on the way. -/
lemma Allowed.crossing {t : Nat} (h : Allowed P stop n reads) (hn : n < t) (ht : t ≤ stop) :
    ∃ m m', P m m' ∧ m < t ∧ t ≤ m' ∧ m' ≤ m + k := by
  induction reads generalizing n with
  | nil =>
    have hstop : stop ≤ n := h
    omega
  | cons r reads ih => ?_
  have hfits := r.fits
  rcases h with h | ⟨hread, h⟩
  · omega
  · by_cases hpassed : t ≤ n + r.data.length
    · exact ⟨n, _, hread, hn, hpassed, by omega⟩
    · exact ih h (by omega)

/-- Reads that end before `stop` have been made when `stop` is reached. -/
lemma Allowed.of_append {reads' : List (Read β k)} (h : Allowed P stop n (reads ++ reads'))
    (hbefore : n + (delivered reads).length < stop) :
    Allowed P stop (n + (delivered reads).length) reads' := by
  induction reads generalizing n with
  | nil => simpa using h
  | cons r reads ih => ?_
  rw [delivered_cons, length_append] at hbefore ⊢
  rcases h with h | ⟨-, h⟩
  · omega
  · have hlater := ih h (by omega)
    rwa [Nat.add_assoc] at hlater

end Allowed

/-! ## The reading loop -/

variable {text : List β}

section Loop

variable {ready : List β → Option α} {refuse : List β → Option ε}
  {extend : List β → List β → Except ε (List β)} {closed : ε}

variable {a : α}

/-- The buffer is a prefix of the text, and answers as that prefix does. -/
lemma ready_buffer {rest : List β} {stop : Nat}
    (hready : ∀ n ≤ text.length, ready (text.take n) = if stop ≤ n then some a else none)
    (htext : buffer ++ rest = text) :
    ready buffer = if stop ≤ buffer.length then some a else none := by
  have hlength : buffer.length ≤ text.length := by
    rw [← htext, length_append]
    omega
  have hinit : text.take buffer.length = buffer := by rw [← htext, take_left]
  rw [← hready _ hlength, hinit]

/-- A loop whose answer `a` depends only on `stop` elements being buffered. -/
theorem readUntil_eq_ok_iff (calm roomy : Nat → Prop) {stop : Nat}
    (hready : ∀ n ≤ text.length, ready (text.take n) = if stop ≤ n then some a else none)
    (hrefuse : ∀ b, refuse b = none ↔ calm b.length)
    (hextend : ∀ b d b', extend b d = .ok b' ↔ b' = b ++ d ∧ roomy (b ++ d).length)
    {reads : List (Read β k)} (htext : buffer ++ delivered reads = text)
    {result : α × List β × List (Read β k)} :
    readUntil ready refuse extend closed buffer reads = .ok result ↔
      result = (a, fill stop buffer reads) ∧
        Allowed (fun m m' => calm m ∧ roomy m') stop buffer.length reads := by
  induction reads generalizing buffer with
  | nil =>
    unfold readUntil
    rw [ready_buffer hready htext]
    by_cases hstop : stop ≤ buffer.length
    · simp [hstop, fill, Allowed, eq_comm]
    · simp only [hstop, if_false, Allowed, and_false, iff_false]
      split <;> simp
  | cons r reads ih => ?_
  unfold readUntil
  rw [ready_buffer hready htext]
  by_cases hstop : stop ≤ buffer.length
  · simp [hstop, fill, Allowed, eq_comm]
  simp only [hstop, if_false, fill, Allowed, false_or]
  cases hcalm : refuse buffer with
  | some e =>
    have hnot : ¬ calm buffer.length := by
      rw [← hrefuse, hcalm]
      simp
    simp [hnot]
  | none => ?_
  have hyes : calm buffer.length := (hrefuse buffer).mp hcalm
  cases hroom : extend buffer r.data with
  | error e =>
    have hnot : ¬ roomy (buffer ++ r.data).length := by
      intro hroomy
      rw [(hextend _ _ _).mpr ⟨rfl, hroomy⟩] at hroom
      cases hroom
    rw [length_append] at hnot
    simp [hnot]
  | ok buffer' => ?_
  obtain ⟨rfl, hroomy⟩ := (hextend _ _ _).mp hroom
  have hlater := @ih (buffer ++ r.data) (by
    rw [← htext, delivered_cons, append_assoc])
  rw [length_append] at hroomy hlater
  simp only [hlater, hyes, hroomy, true_and]

/-- A loop that waits for `stop` elements and refuses nothing. -/
lemma readUntil_length_iff {short : List β → Prop} [DecidablePred short] (roomy : Nat → Prop)
    (stop : Nat) (hshort : ∀ b, short b ↔ b.length < stop)
    (hextend : ∀ b d b', extend b d = .ok b' ↔ b' = b ++ d ∧ roomy (b ++ d).length)
    (reads : List (Read β k)) (result : Unit × List β × List (Read β k)) :
    readUntil (fun b => if short b then none else some ()) (fun _ => none) extend closed buffer
        reads = .ok result ↔ result = ((), fill stop buffer reads) ∧
      Allowed (fun _ m' => True ∧ roomy m') stop buffer.length reads := by
  apply readUntil_eq_ok_iff (fun _ => True) roomy _ (by simp) hextend rfl
  intro n hn
  rw [if_congr (hshort _) rfl rfl, length_take, Nat.min_eq_left hn]
  by_cases hstop : stop ≤ n
  · rw [if_pos hstop, if_neg (not_lt.mpr hstop)]
  · rw [if_neg hstop, if_pos (not_le.mp hstop)]

/-- Whatever the loop answers, it has only moved text into the buffer. -/
lemma readUntil_eq_ok (hextend : ∀ b d b', extend b d = .ok b' → b' = b ++ d) {buffer' : List β}
    {reads reads' : List (Read β k)}
    (h : readUntil ready refuse extend closed buffer reads = .ok (a, buffer', reads')) :
    ready buffer' = some a ∧ buffer' ++ delivered reads' = buffer ++ delivered reads ∧
      buffer.length ≤ buffer'.length := by
  induction reads generalizing buffer with
  | nil =>
    unfold readUntil at h
    split at h
    · cases h
      exact ⟨by assumption, rfl, le_refl _⟩
    · split at h <;> cases h
  | cons r reads ih => ?_
  unfold readUntil at h
  split at h
  · cases h
    exact ⟨by assumption, rfl, le_refl _⟩
  split at h
  · cases h
  split at h
  · cases h
  rename_i hmore
  cases hextend _ _ _ hmore
  obtain ⟨hanswer, htext, hlength⟩ := ih h
  rw [length_append] at hlength
  refine ⟨hanswer, ?_, by omega⟩
  rw [htext, delivered_cons, append_assoc]

end Loop

/-! ## Choosing the reads -/

section Choosing

variable (hk : 0 < k)

/-- A read of a single element. -/
def single (b : β) : Read β k where
  data := [b]
  nonempty := cons_ne_nil b []
  fits := hk

/-- Reads of one element each. -/
def singles (text : List β) : List (Read β k) :=
  text.map (single hk)

@[simp]
lemma delivered_singles (text : List β) : delivered (singles hk text) = text := by
  induction text with
  | nil => rfl
  | cons b text ih =>
    change [b] ++ delivered (singles hk text) = b :: text
    rw [ih]
    rfl

/-- One read of a piece of text. -/
def piece (text : List β) (hne : text ≠ []) (hfits : text.length ≤ k) : Read β k :=
  ⟨text, hne, hfits⟩

include hk in
/-- Element by element up to `m`, then one read that ends at `m'`. -/
lemma exists_cut {m m' : Nat} (hless : m < m') (hread : m' ≤ m + k) (hm' : m' ≤ text.length) :
    ∃ (before after : List (Read β k)) (r : Read β k), delivered (before ++ r :: after) = text ∧
      (delivered before).length = m ∧ m + r.data.length = m' := by
  have hlength : ((text.drop m).take (m' - m)).length = m' - m := by
    rw [length_take, length_drop]
    omega
  refine ⟨singles hk (text.take m), singles hk (text.drop m'),
    piece ((text.drop m).take (m' - m)) (ne_nil_of_length_pos (by omega)) (by omega), ?_, ?_, ?_⟩
  · rw [delivered_append, delivered_cons, delivered_singles, delivered_singles]
    have hrest : text.drop m' = (text.drop m).drop (m' - m) := by
      rw [drop_drop]
      congr 1
      omega
    rw [hrest, piece, take_append_drop, take_append_drop]
  · rw [delivered_singles, length_take]
    omega
  · change m + ((text.drop m).take (m' - m)).length = m'
    omega

include hk in
/-- If every good position before `stop` has an allowed read to a good position,
the text can be delivered by allowed reads. -/
theorem exists_delivery {P : Nat → Nat → Prop} {Good : Nat → Prop} {stop n : Nat}
    (hstop : stop ≤ n + text.length) (hgood : Good n) (hstep : ∀ m, n ≤ m → m < stop → Good m →
      ∃ m', m < m' ∧ m' ≤ m + k ∧ m' ≤ n + text.length ∧ P m m' ∧ Good m') :
    ∃ reads : List (Read β k), delivered reads = text ∧ Allowed P stop n reads := by
  induction hlength : text.length using Nat.strong_induction_on generalizing n text with
  | _ remaining ih => ?_
  by_cases hn : stop ≤ n
  · exact ⟨singles hk text, delivered_singles hk text, allowed_of_le hn _⟩
  obtain ⟨m', hless, hread, htotal, hP, hgood'⟩ := hstep n (le_refl n) (by omega) hgood
  have htake : (text.take (m' - n)).length = m' - n := by
    rw [length_take]
    omega
  have hdrop : (text.drop (m' - n)).length = n + text.length - m' := by
    rw [length_drop]
    omega
  have hstep' : ∀ m, m' ≤ m → m < stop → Good m → ∃ m'', m < m'' ∧ m'' ≤ m + k ∧
      m'' ≤ m' + (text.drop (m' - n)).length ∧ P m m'' ∧ Good m'' := by
    intro m hm hmstop hgoodm
    obtain ⟨m'', hless', hread', htotal', hP'⟩ := hstep m (by omega) hmstop hgoodm
    exact ⟨m'', hless', hread', by omega, hP'⟩
  obtain ⟨reads, htext, hallowed⟩ := ih _ (by omega) (by omega) hgood' hstep' rfl
  refine ⟨piece (text.take (m' - n)) (ne_nil_of_length_pos (by omega)) (by omega) ::
    reads, ?_, .inr ?_⟩
  · rw [delivered_cons, htext]
    exact take_append_drop _ _
  · have hend : n + (text.take (m' - n)).length = m' := by omega
    rw [piece, hend]
    exact ⟨hP, hallowed⟩

end Choosing

end Reads
