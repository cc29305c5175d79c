import MuxRuntime.Sql.Registries

/-!
# Giving up transactions

Ending a transaction and letting go of its owner can end further transactions.
Whatever happens on the way only tidies up: no transaction appears, no
connection moves except back to where it was taken from, and a command is sent
only over a connection that a transaction held.
-/

namespace MuxRuntime
namespace Sql

open List Registry State

variable {env : Environment}

variable (env) in
/-- Commands change nothing but the log, all go over the one connection, and the first is
sent. -/
lemma issueAll_eq (c : SqlConnection) (cmds : List Command) (s : State) :
    ∃ failed sent, s.issueAll env c cmds = (failed, { s with log := s.log ++ sent }) ∧
      (∀ e ∈ sent, e.1 = c) ∧ (cmds ≠ [] → sent ≠ []) ∧
      (failed ≠ none → ∃ before, ∃ cmd ∈ cmds, sent = before ++ [(c, cmd)] ∧
        env.failure (s.log ++ sent) ≠ none) := by
  induction cmds generalizing s with
  | nil => exact ⟨none, [], by rw [append_nil]; rfl, by simp, by simp, by simp⟩
  | cons cmd rest ih => ?_
  rw [State.issueAll, State.issue]
  cases hfailure : env.failure (s.log ++ [(c, cmd)]) with
  | some failure =>
    exact ⟨some failure, [(c, cmd)], rfl, by simp, by simp,
      fun _ => ⟨[], cmd, by simp, rfl, by simp [hfailure]⟩⟩
  | none =>
    rcases ih { s with log := s.log ++ [(c, cmd)] } with ⟨failed, sent, heq, hsent, -, hfailed⟩
    refine ⟨failed, (c, cmd) :: sent, by simp [heq], by simpa using hsent, by simp, fun hne => ?_⟩
    rcases hfailed hne with ⟨before, cmd', hcmd, hlast, hfailure'⟩
    exact ⟨(c, cmd) :: before, cmd', by simp [hcmd], by simp [hlast], by simpa using hfailure'⟩

/-- What of a value is not changed by transactions. -/
def SharedValue.face (v : SharedValue) : Kind × Handle × Nat :=
  (v.kind, v.handle, v.program)

/-- A transaction holds the connection. -/
def State.Holds (s : State) (c : SqlConnection) : Prop :=
  ∃ t tx, s.transactions t = some tx ∧ tx.connection = some c

/-- What may happen while transactions are given up. -/
structure Tidies (s s' : State) : Prop where
  next : s'.next = s.next
  resultsets : s'.resultsets = s.resultsets
  connectionLeases : s'.connectionLeases = s.connectionLeases
  transactionLeases : s'.transactionLeases = s.transactionLeases
  values : ∀ k, (s'.values k).map SharedValue.face = (s.values k).map SharedValue.face
  transaction_of : ∀ t tx', s'.transactions t = some tx' →
    ∃ tx, s.transactions t = some tx ∧ tx' = { tx with connection := tx'.connection }
  held_of : ∀ c, s'.Holds c → s.Holds c
  connection_of : ∀ h c, s'.connections h = some c → s.connections h = some c ∨
    ∃ t tx, s.transactions t = some tx ∧ tx.connectionHandle = h ∧ tx.parent = none
  leased_connection : ∀ h, s.connectionHasResultsetLease h = true →
    (∃ c, s.connections h = some c) → ∃ c, s'.connections h = some c
  connection_pending : s.connectionClosePending ⊆ s'.connectionClosePending
  transaction_pending : ∀ t tx, t ∈ s.transactionClosePending → s'.transactions t = some tx →
    t ∈ s'.transactionClosePending
  log : ∃ sent, s'.log = s.log ++ sent ∧ ∀ e ∈ sent, s.Holds e.1

variable {t : Handle} {tx : SqlTransaction}

namespace Tidies

variable {s s' s'' : State} {c : SqlConnection}

lemma refl (s : State) : Tidies s s where
  next := rfl
  resultsets := rfl
  connectionLeases := rfl
  transactionLeases := rfl
  values := fun _ => rfl
  transaction_of := fun _ tx' h => ⟨tx', h, rfl⟩
  held_of := fun _ h => h
  connection_of := fun _ _ h => .inl h
  leased_connection := fun _ _ h => h
  connection_pending := subset_rfl
  transaction_pending := fun _ _ h _ => h
  log := ⟨[], by simp, by simp⟩

lemma leased_iff (h : Tidies s s') (k : Handle) :
    s'.connectionHasResultsetLease k = s.connectionHasResultsetLease k := by
  rw [connectionHasResultsetLease, connectionHasResultsetLease, h.connectionLeases]

lemma trans (h : Tidies s s') (h' : Tidies s' s'') : Tidies s s'' where
  next := h'.next.trans h.next
  resultsets := h'.resultsets.trans h.resultsets
  connectionLeases := h'.connectionLeases.trans h.connectionLeases
  transactionLeases := h'.transactionLeases.trans h.transactionLeases
  values := fun k => (h'.values k).trans (h.values k)
  transaction_of := by
    intro t tx'' ht
    obtain ⟨tx', ht', heq'⟩ := h'.transaction_of t tx'' ht
    obtain ⟨tx, ht, heq⟩ := h.transaction_of t tx' ht'
    refine ⟨tx, ht, ?_⟩
    rw [heq', heq]
  held_of := fun c hc => h.held_of c (h'.held_of c hc)
  connection_of := by
    intro k c hk
    rcases h'.connection_of k c hk with hk | ⟨t, tx', ht', hhandle, hparent⟩
    · exact h.connection_of k c hk
    · obtain ⟨tx, ht, heq⟩ := h.transaction_of t tx' ht'
      rw [heq] at hhandle hparent
      exact .inr ⟨t, tx, ht, hhandle, hparent⟩
  leased_connection := fun k hl hk =>
    h'.leased_connection k (by rwa [h.leased_iff]) (h.leased_connection k hl hk)
  connection_pending := h.connection_pending.trans h'.connection_pending
  transaction_pending := by
    intro t tx'' ht hin
    obtain ⟨tx', ht', -⟩ := h'.transaction_of t tx'' hin
    exact h'.transaction_pending t tx'' (h.transaction_pending t tx' ht ht') hin
  log := by
    obtain ⟨sent, hlog, hsent⟩ := h.log
    obtain ⟨sent', hlog', hsent'⟩ := h'.log
    refine ⟨sent ++ sent', by rw [hlog', hlog, append_assoc], ?_⟩
    intro e he
    rcases mem_append.mp he with he | he
    · exact hsent e he
    · exact h.held_of _ (hsent' e he)

/-! ## Single steps -/

/-- Commands are sent over a connection that a transaction held. -/
lemma sent (h : Tidies s s') (hc : s.Holds c) {sent : List (SqlConnection × Command)}
    (hsent : ∀ e ∈ sent, e.1 = c) : Tidies s { s' with log := s'.log ++ sent } := by
  obtain ⟨before, hlog, hbefore⟩ := h.log
  refine { h with log := ⟨before ++ sent, by rw [hlog, append_assoc], ?_⟩ }
  intro e he
  rcases mem_append.mp he with he | he
  · exact hbefore e he
  · exact hsent e he ▸ hc

/-- Transactions leave the registry. -/
lemma restrict (s : State) {r : Registry SqlTransaction} {pending : Finset Handle}
    (hsub : ∀ t tx, r t = some tx → s.transactions t = some tx)
    (hpending : ∀ t tx, t ∈ s.transactionClosePending → r t = some tx → t ∈ pending) :
    Tidies s { s with transactionClosePending := pending, transactions := r } :=
  { refl s with
    transaction_of := fun t tx' h => ⟨tx', hsub t tx' h, rfl⟩
    held_of := fun _ ⟨t, tx, h, hc⟩ => ⟨t, tx, hsub t tx h, hc⟩
    transaction_pending := hpending }

/-- The leased ones of the transactions that leave are to be closed. -/
lemma remove (s : State) (l : List Handle) (pending : Finset Handle) : Tidies s { s with
      transactionClosePending := s.transactionClosePending ∪ pending
      transactions := l.foldl Registry.remove s.transactions } :=
  restrict s (fun _ _ h => (foldl_remove_eq_some_iff.mp h).2)
    (fun _ _ h _ => Finset.mem_union_left _ h)

/-- One transaction is taken out, and no longer waits to be closed. -/
lemma take (s : State) (t : Handle) : Tidies s { s with
      transactionClosePending := s.transactionClosePending.erase t
      transactions := s.transactions.remove t } :=
  restrict s (fun _ _ h => (remove_eq_some_iff.mp h).2)
    (fun _ _ ht h => Finset.mem_erase.mpr ⟨(remove_eq_some_iff.mp h).1, ht⟩)

lemma take_pending (s : State) (t : Handle) :
    Tidies s { s with transactions := s.transactions.remove t } :=
  restrict s (fun _ _ h => (remove_eq_some_iff.mp h).2) (fun _ _ ht _ => ht)

/-- A connection that a transaction held goes back to where it was taken from. -/
lemma restore (h : Tidies s s') (ht : s.transactions t = some tx) (hc : tx.connection = some c) :
    Tidies s (s'.restoreTransactionConnection tx c) := by
  unfold restoreTransactionConnection
  split
  · split
    · rename_i ptx hptx
      refine { h with transaction_of := ?_, held_of := ?_, transaction_pending := ?_ }
      · intro k tx' hk
        rcases insert_eq_some_iff.mp hk with ⟨rfl, rfl⟩ | ⟨-, hk⟩
        · obtain ⟨tx₀, h₀, heq⟩ := h.transaction_of k ptx hptx
          refine ⟨tx₀, h₀, ?_⟩
          rw [heq]
        · exact h.transaction_of k tx' hk
      · rintro c' ⟨k, tx', hk, hc'⟩
        rcases insert_eq_some_iff.mp hk with ⟨rfl, rfl⟩ | ⟨-, hk⟩
        · cases hc'
          exact ⟨t, tx, ht, hc⟩
        · exact h.held_of c' ⟨k, tx', hk, hc'⟩
      · intro k tx' hmem hk
        rcases insert_eq_some_iff.mp hk with ⟨rfl, -⟩ | ⟨-, hk⟩
        · exact h.transaction_pending k ptx hmem hptx
        · exact h.transaction_pending k tx' hmem hk
    · exact h
  · rename_i hparent
    refine { h with connection_of := ?_, leased_connection := ?_ }
    · intro k c' hk
      rcases insert_eq_some_iff.mp hk with ⟨rfl, -⟩ | ⟨-, hk⟩
      · exact .inr ⟨t, tx, ht, rfl, hparent⟩
      · exact h.connection_of k c' hk
    · intro k hl hk
      by_cases heq : k = tx.connectionHandle
      · exact ⟨c, by rw [heq]; exact insert_self⟩
      · obtain ⟨c', hc'⟩ := h.leased_connection k hl hk
        exact ⟨c', by rw [← hc']; exact insert_of_ne heq⟩

/-- A finished transaction gives its connection back. -/
lemma finish (ht : s.transactions t = some tx) (hc : tx.connection = some c)
    {sent : List (SqlConnection × Command)} (hsent : ∀ e ∈ sent, e.1 = c) :
    Tidies s (({ s with transactions := s.transactions.remove t, log := s.log ++ sent } :
      State).restoreTransactionConnection tx c) :=
  restore ((take_pending s t).sent ⟨t, tx, ht, hc⟩ hsent) ht hc

/-- The references of transactions to a value change. -/
lemma setOwners (s : State) {k : Handle} {v : SharedValue} (hv : s.values k = some v) (n : Nat) :
    Tidies s { s with values := s.values.insert k { v with owners := n } } := by
  refine { refl s with values := ?_ }
  intro j
  by_cases h : j = k
  · subst h
    simp [hv, SharedValue.face]
  · simp [h]

lemma removeConnection (s : State) {handle : Handle}
    (hleased : ¬s.connectionHasResultsetLease handle = true) :
    Tidies s { s with connections := s.connections.remove handle } := by
  refine { refl s with connection_of := ?_, leased_connection := ?_ }
  · exact fun k c hk => .inl (remove_eq_some_iff.mp hk).2
  · rintro k hl ⟨c, hc⟩
    refine ⟨c, remove_eq_some_iff.mpr ⟨?_, hc⟩⟩
    rintro rfl
    exact hleased hl

lemma dropConnection (s : State) (handle : Handle) : Tidies s (s.dropConnectionHandle handle) := by
  unfold dropConnectionHandle
  split_ifs with hzero hleased
  · exact refl s
  · exact { refl s with connection_pending := Finset.subset_insert handle _ }
  · exact removeConnection s hleased

end Tidies

/-! ## Whole operations -/

variable {dec : Handle → State → State} {s : State}

lemma Tidies.discardAll (hdec : ∀ o s, Tidies s (dec o s)) {removed : List SqlTransaction}
    (hremoved : ∀ tx ∈ removed, ∃ t, s.transactions t = some tx) {s' : State} (h : Tidies s s') :
    Tidies s (removed.foldl (discardTransaction env dec) s') := by
  induction removed generalizing s' with
  | nil => exact h
  | cons tx rest ih => ?_
  refine ih (fun tx' hmem => hremoved tx' (mem_cons_of_mem _ hmem)) ?_
  unfold discardTransaction
  split
  · rename_i c hc
    obtain ⟨t, ht⟩ := hremoved tx mem_cons_self
    exact (h.sent ⟨t, tx, ht, hc⟩ (by simp)).trans (hdec _ _)
  · exact h.trans (hdec _ _)

variable (env) in
lemma removeTransactionForConnection_tidies (hdec : ∀ o s, Tidies s (dec o s))
    (connection : Handle) (s : State) :
    Tidies s (removeTransactionForConnection env dec connection s) := by
  refine Tidies.discardAll hdec ?_ (Tidies.remove s _ _)
  intro tx hmem
  obtain ⟨t, -, ht⟩ := mem_filterMap.mp hmem
  exact ⟨t, ht⟩

lemma rollBackTaken_tidies (hdec : ∀ o s, Tidies s (dec o s)) (ht : s.transactions t = some tx)
    {s' : State} (h : Tidies s s') : Tidies s (rollBackTaken env dec tx s') := by
  refine Tidies.trans ?_ (hdec _ _)
  split
  · exact h
  rename_i c hc
  have hholds : s.Holds c := ⟨t, tx, ht, hc⟩
  obtain ⟨failed, sent, heq, hsent, -⟩ :=
    issueAll_eq env c (finishStatements c.backend tx.parent false) s'
  have hissued := h.sent hholds hsent
  rw [heq]
  cases failed with
  | none => exact hissued.restore ht hc
  | some failure =>
    exact (hissued.sent hholds (by simp)).trans (removeTransactionForConnection_tidies env hdec _ _)

variable (env) in
lemma finishDeferredTransaction_tidies (hdec : ∀ o s, Tidies s (dec o s)) (t : Handle)
    (s : State) : Tidies s (finishDeferredTransaction env dec t s) := by
  unfold finishDeferredTransaction
  split_ifs with hpending
  · have htake := Tidies.take s t
    dsimp only
    split
    · rename_i hnone
      rwa [remove_eq_self hnone] at htake
    · rename_i tx ht
      exact rollBackTaken_tidies hdec ht htake
  · exact Tidies.refl s

lemma dropTransactionHandle_tidies (hdec : ∀ o s, Tidies s (dec o s)) (t : Handle) (s : State) :
    Tidies s (dropTransactionHandle env dec t s) := by
  unfold dropTransactionHandle
  split_ifs with hzero hleased
  · exact Tidies.refl s
  · exact { Tidies.refl s with
      transaction_pending := fun _ _ h _ => Finset.mem_insert_of_mem h }
  have hfirst := finishDeferredTransaction_tidies env hdec t s
  dsimp only
  split
  · exact hfirst
  · rename_i tx ht
    exact hfirst.trans (rollBackTaken_tidies hdec ht (Tidies.take_pending _ t))

/-- Letting go of an owner tidies. -/
theorem rcDec_tidies (fuel : Nat) (owner : Handle) (s : State) :
    Tidies s (rcDec env fuel owner s) := by
  induction fuel generalizing owner s with
  | zero => exact Tidies.refl s
  | succ fuel ih => ?_
  unfold rcDec
  split
  · exact Tidies.refl s
  rename_i v hv
  have hfirst := Tidies.setOwners s hv (v.owners - 1)
  split_ifs
  · split
    · exact hfirst.trans (Tidies.dropConnection _ _)
    · exact hfirst.trans (dropTransactionHandle_tidies ih _ _)
    · exact hfirst
  · exact hfirst

variable (env) in
lemma muxRcDec_tidies (owner : Handle) (s : State) : Tidies s (muxRcDec env owner s) :=
  rcDec_tidies _ owner s

/-! ## The bound on the recursion -/

/-- The number of transactions. -/
def State.size (s : State) : Nat :=
  s.transactions.size s.next

/-- All transactions have been given a handle. -/
def State.Numbered (s : State) : Prop :=
  s.transactions.Below s.next

lemma Tidies.size_le {s' : State} (h : Tidies s s') : s'.size ≤ s.size := by
  unfold State.size
  rw [h.next]
  exact Registry.size_mono fun k v hk =>
    let ⟨tx, htx, _⟩ := h.transaction_of k v hk
    ⟨tx, htx⟩

lemma Tidies.numbered {s' : State} (h : Tidies s s') (hs : s.Numbered) : s'.Numbered := by
  intro k v hk
  rw [h.next]
  obtain ⟨tx, htx, -⟩ := h.transaction_of k v hk
  exact hs k tx htx

/-- Two ways of letting go do the same where few transactions are left. -/
def Agree (n : Nat) (dec dec' : Handle → State → State) : Prop :=
  ∀ o s, s.Numbered → s.size < n → dec o s = dec' o s

variable {dec' : Handle → State → State} {n : Nat}

lemma discardAll_congr (hdec : ∀ o s, Tidies s (dec o s)) (hagree : Agree n dec dec')
    (removed : List SqlTransaction) (hs : s.Numbered) (hn : s.size < n) :
    removed.foldl (discardTransaction env dec) s = removed.foldl (discardTransaction env dec') s := by
  induction removed generalizing s with
  | nil => rfl
  | cons tx rest ih => ?_
  have hstep : discardTransaction env dec s tx = discardTransaction env dec' s tx := by
    unfold discardTransaction
    split <;> exact hagree _ _ hs hn
  have hnumbered : (discardTransaction env dec s tx).Numbered ∧ (discardTransaction env dec s tx).size ≤ s.size := by
    unfold discardTransaction
    split <;> exact ⟨(hdec _ _).numbered hs, (hdec _ _).size_le⟩
  rw [foldl_cons, foldl_cons, ← hstep]
  exact ih hnumbered.1 (by omega)

variable (env) in
lemma removeTransactionForConnection_congr (hdec : ∀ o s, Tidies s (dec o s))
    (hagree : Agree n dec dec') (connection : Handle) (hs : s.Numbered) (hn : s.size < n) :
    removeTransactionForConnection env dec connection s =
      removeTransactionForConnection env dec' connection s := by
  have hremove := Tidies.remove s
    ((transactionsOf env s connection).filter fun t => !s.transactionHasResultsetLease t)
    ((transactionsOf env s connection).filter fun t => s.transactionHasResultsetLease t).toFinset
  exact discardAll_congr hdec hagree _ (hremove.numbered hs)
    (lt_of_le_of_lt hremove.size_le hn)

lemma restoreTransactionConnection_size (tx : SqlTransaction) (c : SqlConnection)
    (hs : s.Numbered) : (s.restoreTransactionConnection tx c).Numbered ∧
      (s.restoreTransactionConnection tx c).size ≤ s.size := by
  unfold restoreTransactionConnection
  split
  · split
    · rename_i parent _ _ ptx hptx
      refine ⟨hs.insert (hs _ _ hptx), Registry.size_mono fun k v hk => ?_⟩
      rcases insert_eq_some_iff.mp hk with ⟨rfl, -⟩ | ⟨-, hk⟩
      · exact ⟨ptx, hptx⟩
      · exact ⟨v, hk⟩
    · exact ⟨hs, le_refl _⟩
  · exact ⟨hs, le_refl _⟩

lemma rollBackTaken_congr (hdec : ∀ o s, Tidies s (dec o s)) (hagree : Agree n dec dec')
    (tx : SqlTransaction) (hs : s.Numbered) (hn : s.size < n) :
    rollBackTaken env dec tx s = rollBackTaken env dec' tx s := by
  unfold rollBackTaken
  split
  · exact hagree _ _ hs hn
  rename_i c hc
  obtain ⟨failed, sent, heq, -⟩ := issueAll_eq env c (finishStatements c.backend tx.parent false) s
  rw [heq]
  cases failed with
  | none =>
    obtain ⟨hnumbered, hsize⟩ := restoreTransactionConnection_size
      (s := { s with log := s.log ++ sent }) tx c hs
    exact hagree _ _ hnumbered (lt_of_le_of_lt hsize hn)
  | some failure => ?_
  have hremove := removeTransactionForConnection_tidies env hdec tx.connectionHandle
    (({ s with log := s.log ++ sent } : State).issue env c (rollbackStatement c.backend)).2
  have hcongr := removeTransactionForConnection_congr env hdec hagree
    tx.connectionHandle hs hn
    (s := (({ s with log := s.log ++ sent } : State).issue env c (rollbackStatement c.backend)).2)
  dsimp only
  rw [← hcongr]
  exact hagree _ _ (hremove.numbered hs) (lt_of_le_of_lt hremove.size_le hn)

lemma finishDeferredTransaction_congr (hdec : ∀ o s, Tidies s (dec o s))
    (hagree : Agree n dec dec') (t : Handle) (hs : s.Numbered) (hn : s.size ≤ n) :
    finishDeferredTransaction env dec t s = finishDeferredTransaction env dec' t s := by
  unfold finishDeferredTransaction
  split_ifs
  · dsimp only
    split
    · rfl
    · rename_i tx ht
      exact rollBackTaken_congr hdec hagree tx hs.remove
        (lt_of_lt_of_le (Registry.size_remove_lt (hs t tx ht) ht) hn)
  · rfl

variable (env) in
lemma dropTransactionHandle_congr (hdec : ∀ o s, Tidies s (dec o s))
    (hagree : Agree n dec dec') (t : Handle) (hs : s.Numbered) (hn : s.size ≤ n) :
    dropTransactionHandle env dec t s = dropTransactionHandle env dec' t s := by
  unfold dropTransactionHandle
  split_ifs
  · rfl
  · rfl
  have hfirst := finishDeferredTransaction_tidies env hdec t s
  dsimp only
  rw [← finishDeferredTransaction_congr hdec hagree t hs hn]
  split
  · rfl
  rename_i tx ht
  have hnumbered := hfirst.numbered hs
  exact rollBackTaken_congr hdec hagree tx hnumbered.remove
    (lt_of_lt_of_le (Registry.size_remove_lt (hnumbered t tx ht) ht) (hfirst.size_le.trans hn))

/-- With more fuel than transactions the fuel does not matter. -/
lemma rcDec_agree (n m : Nat) : Agree (min n m) (rcDec env n) (rcDec env m) := by
  induction n generalizing m with
  | zero => exact fun o s _ h => absurd h (by simp)
  | succ n ih => ?_
  rcases m with _ | m
  · exact fun o s _ h => absurd h (by simp)
  intro owner s hs hn
  unfold rcDec
  split
  · rfl
  rename_i v hv
  have hdrop := dropTransactionHandle_congr env (rcDec_tidies n) (ih m) v.handle
    (s := { s with values := s.values.insert owner { v with owners := v.owners - 1 } })
    hs (by simp only [State.size] at hn ⊢; omega)
  simp only [hdrop]

end Sql
end MuxRuntime
