import MuxRuntime.Sql.Outcomes

/-!
# Closing a connection

A connection that is closed while a result set is open goes on in the registries until
the last lease on it, or on one of its transactions, is released. A transaction that is
rolled back only later gives its connection back to the registry.
-/

namespace MuxRuntime
namespace Sql

open Registry State

variable {env : Environment} {s s' : State} {h k : Handle}

/-- The program has closed the connection. -/
def State.Closed (s : State) (h : Handle) : Prop :=
  ∃ v, s.values h = some v ∧ v.kind = .connection ∧ v.handle = 0

/-- The connection is closed, and so are the result sets on it and in its transactions. -/
structure Ended (s : State) (h : Handle) : Prop where
  closed : s.Closed h
  unleased : ¬s.Leased h
  unleasedIn : ∀ t tx, s.transactions t = some tx → tx.connectionHandle = h → ¬s.LeasedIn t

/-- Nothing of the connection is left in the registries, and nothing holds it. -/
structure Vacated (s : State) (h : Handle) : Prop where
  connections : s.connections h = none
  transactions : ∀ t tx, s.transactions t = some tx → tx.connectionHandle ≠ h
  connectionLeases : s.connectionLeases h = none
  transactionLeases : ∀ t n, s.transactionLeases t = some n →
    ∃ tx, s.transactions t = some tx ∧ tx.connectionHandle ≠ h
  connectionClosePending : h ∉ s.connectionClosePending
  unstored : ∀ j c, s.connections j = some c → c.id ≠ h
  unheld : ∀ c, s.Holds c → c.id ≠ h

/-- The call closes a connection under the lease of an outermost transaction, or in the
middle of a transaction under a lease of its own. -/
def ClosesUnderLease (s : State) (call : Call) : Prop :=
  ∃ v h t tx, call = .close v ∧ s.connectionHandle v = .ok h ∧ s.transactions t = some tx ∧
    tx.connectionHandle = h ∧ (s.Leased h ∨ tx.parent = none ∧ s.LeasedIn t)

/-! ## What is left of a closed connection -/

/-- What is left of a connection goes with the last lease on it. -/
structure Shut (h : Handle) (s : State) : Prop where
  connection : ∀ c, s.connections h = some c →
    s.connectionHasResultsetLease h = true ∧ h ∈ s.connectionClosePending
  transaction : ∀ t tx, s.transactions t = some tx → tx.connectionHandle = h →
    t ∈ s.transactionClosePending ∧ ∃ q name, tx.parent = some (q, name) ∧ s.transactions q = none

lemma Shut.congr (hs : Shut h s) (hconnections : s'.connections h = s.connections h)
    (hleases : s'.connectionLeases h = s.connectionLeases h)
    (hpending : s'.connectionClosePending = s.connectionClosePending)
    (htransactions : s'.transactions = s.transactions)
    (htxpending : s'.transactionClosePending = s.transactionClosePending) : Shut h s' where
  connection := by
    rw [hconnections, hpending, connectionHasResultsetLease, hleases]
    exact hs.connection
  transaction := by
    rw [htransactions, htxpending]
    exact hs.transaction

/-- The connection stays shut and does not come back. -/
structure Stays (h : Handle) (s s' : State) : Prop where
  shut : Shut h s'
  back : ∀ c, s'.connections h = some c → s.connections h = some c

lemma Shut.stays (hs : Shut h s) (hconnections : s'.connections h = s.connections h)
    (hleases : s'.connectionLeases h = s.connectionLeases h)
    (hpending : s'.connectionClosePending = s.connectionClosePending)
    (htransactions : s'.transactions = s.transactions)
    (htxpending : s'.transactionClosePending = s.transactionClosePending) : Stays h s s' where
  shut := hs.congr hconnections hleases hpending htransactions htxpending
  back := fun _ hc => hconnections ▸ hc

lemma Tidies.stays (ht : Tidies s s') (hs : Shut h s) : Stays h s s' := by
  -- only an outermost transaction gives its connection back to the registry
  have hback : ∀ c, s'.connections h = some c → s.connections h = some c := by
    intro c hc
    rcases ht.connection_of h c hc with hc | ⟨t, tx, htx, hsame, hroot⟩
    · exact hc
    · obtain ⟨-, q, name, hparent, -⟩ := hs.transaction t tx htx hsame
      rw [hroot] at hparent
      cases hparent
  refine ⟨⟨?_, ?_⟩, hback⟩
  · intro c hc
    obtain ⟨hleased, hpending⟩ := hs.connection c (hback c hc)
    exact ⟨(ht.leased_iff h).trans hleased, ht.connection_pending hpending⟩
  intro t tx' htx' hsame
  obtain ⟨tx, htx, heq⟩ := ht.transaction_of t tx' htx'
  rw [heq] at hsame ⊢
  obtain ⟨hpending, q, name, hparent, hnone⟩ := hs.transaction t tx htx hsame
  refine ⟨ht.transaction_pending t tx' hpending htx', q, name, hparent, ?_⟩
  rcases hq : s'.transactions q with _ | qtx
  · rfl
  obtain ⟨qtx', hq', -⟩ := ht.transaction_of q qtx hq
  rw [hnone] at hq'
  cases hq'

lemma releaseConnectionLease_stays (hs : Shut h s) (j : Handle) :
    Stays h s (s.releaseConnectionLease j) := by
  unfold releaseConnectionLease
  split
  · exact hs.stays rfl rfl rfl rfl rfl
  dsimp only
  by_cases hj : h = j
  · subst hj
    split_ifs with hlast hpending
    · exact ⟨⟨by simp, hs.transaction⟩, by simp⟩
    · refine ⟨⟨?_, hs.transaction⟩, fun c hc => hc⟩
      exact fun c hc => absurd (hs.connection c hc).2 hpending
    · refine ⟨⟨?_, hs.transaction⟩, fun c hc => hc⟩
      intro c hc
      refine ⟨?_, (hs.connection c hc).2⟩
      simpa [connectionHasResultsetLease] using Nat.pos_of_ne_zero hlast
  · split_ifs
    · refine ⟨⟨?_, hs.transaction⟩, ?_⟩
      · intro c hc
        obtain ⟨hleased, hpending⟩ := hs.connection c ((remove_of_ne hj).symm.trans hc)
        refine ⟨?_, Finset.mem_erase.mpr ⟨hj, hpending⟩⟩
        simpa only [connectionHasResultsetLease, remove_of_ne hj] using hleased
      · exact fun c hc => (remove_of_ne hj).symm.trans hc
    · exact hs.stays rfl (remove_of_ne hj) rfl rfl rfl
    · exact hs.stays rfl (insert_of_ne hj) rfl rfl rfl

/-! ## Every call -/

lemma closed_ne (hclosed : s.Closed k) (hopen : s.connectionHandle h = .ok h) : k ≠ h := by
  rintro rfl
  obtain ⟨v, hv, -, hzero⟩ := hclosed
  simp [connectionHandle, requireHandle, hv, hzero] at hopen

/-- A shut transaction is busy until it goes. -/
lemma Shut.busy (hw : Whole [] s) (hs : Shut h s) {t : Handle} {tx : SqlTransaction}
    (ht : s.transactions t = some tx) (hsame : tx.connectionHandle = h) :
    s.transactionHasResultsetLease t = true :=
  hw.transaction_pending t (hs.transaction t tx ht hsame).1

/-- Transactions of other connections do not touch what is left. -/
lemma Shut.others (hw : Whole [] s) (hs : Shut h s) (hnew : ∀ t tx, s'.transactions t = some tx →
      s.transactions t = some tx ∨ tx.connectionHandle ≠ h)
    (hnone : ∀ q, q < s.next → s.transactions q = none → s'.transactions q = none)
    (hconnections : s'.connections h = s.connections h)
    (hleases : s'.connectionLeases h = s.connectionLeases h)
    (hpending : s'.connectionClosePending = s.connectionClosePending)
    (htxpending : s'.transactionClosePending = s.transactionClosePending) : Stays h s s' := by
  refine ⟨⟨?_, ?_⟩, fun c hc => hconnections ▸ hc⟩
  · rw [hconnections, hpending, connectionHasResultsetLease, hleases]
    exact hs.connection
  intro t tx ht hsame
  rcases hnew t tx ht with ht | hne
  · obtain ⟨htp, q, name, hparent, hq⟩ := hs.transaction t tx ht hsame
    have hlt : q < t := (hw.nested t tx q name ht hparent).2.1
    have hbelow : t < s.next := hw.transactions_below t tx ht
    exact ⟨htxpending ▸ htp, q, name, hparent, hnone q (hlt.trans hbelow) hq⟩
  · exact absurd hsame hne

variable {call : Call}

/-- What is left of a closed connection only waits for leases. -/
theorem outcome_stays (hw : Whole [] s) (ho : Outcome env s call s') (hclosed : s.Closed k)
    (hs : Shut k s) : Stays k s s' := by
  have hbelow : k < s.next := by
    obtain ⟨v, hv, -⟩ := hclosed
    exact hw.values_below k v hv
  cases ho with
  | tidied hwhole hvalues ht hw' =>
    have hstays := ht.stays (hs.congr rfl rfl rfl rfl rfl)
    exact ⟨hstays.shut, hstays.back⟩
  | @closed h s' hcall hopen ht hw' =>
    obtain ⟨values, hvalues⟩ := writeHandle_frame h 0 s'
    have hstays := ht.stays hs
    rw [hvalues]
    exact ⟨hstays.shut.congr rfl rfl rfl rfl rfl, hstays.back⟩
  | connected backend => exact hs.stays (insert_of_ne (ne_of_lt hbelow)) rfl rfl rfl rfl
  | sent hn hc hsent | queriedIn ht hc hsent hconn | advanced hr hconn htx =>
    exact hs.stays rfl rfl rfl rfl rfl
  | queried hopen hc hsend hsent htx =>
    exact hs.stays rfl (insert_of_ne (closed_ne hclosed hopen)) rfl rfl rfl
  | @opened h c sent hopen hopens hidle hsend hsent =>
    have hne := closed_ne hclosed hopen
    refine hs.others hw ?_ ?_ (remove_of_ne hne) rfl rfl rfl
    · intro t tx ht
      rcases insert_eq_some_iff.mp ht with ⟨-, rfl⟩ | ⟨-, ht⟩
      · exact .inr (Ne.symm hne)
      · exact .inl ht
    · exact fun q hq hnone => (insert_of_ne (ne_of_lt hq)).trans hnone
  | @nested t tx c cmd name ht hc hfree =>
    have hne : tx.connectionHandle ≠ k := by
      intro hsame
      rw [hs.busy hw ht hsame] at hfree
      cases hfree
    refine hs.others hw ?_ ?_ rfl rfl rfl rfl
    · intro u utx hu
      rcases insert_eq_some_iff.mp hu with ⟨-, rfl⟩ | ⟨-, hu⟩
      · exact .inr hne
      · rcases insert_eq_some_iff.mp hu with ⟨-, rfl⟩ | ⟨-, hu⟩
        · exact .inr hne
        · exact .inl hu
    intro q hq hnone
    have hqt : q ≠ t := by
      rintro rfl
      rw [ht] at hnone
      cases hnone
    refine (insert_of_ne (ne_of_lt (hq.trans (Nat.lt_succ_self _)))).trans ?_
    exact (insert_of_ne hqt).trans hnone
  | @released r rs left values hr hleft hwhole hvalues => ?_
  rcases releaseResultsetLeases_cases env left hwhole hr with ⟨j, heq⟩ | ⟨leases, ht⟩
  · rw [heq]
    have hstays := releaseConnectionLease_stays
      (s := { s with values := values, resultsets := s.resultsets.set r left })
      (hs.congr rfl rfl rfl rfl rfl) j
    exact ⟨hstays.shut, hstays.back⟩
  · have hstays := ht.stays (hs.congr rfl rfl rfl rfl rfl)
    exact ⟨hstays.shut, hstays.back⟩

/-! ## The call that closes -/

lemma discardAll_shut (removed : List SqlTransaction) (hs : Shut h s) :
    Shut h (removed.foldl (discardTransaction env (muxRcDec env)) s) := by
  induction removed generalizing s with
  | nil => exact hs
  | cons tx rest ih => ?_
  refine ih ?_
  refine ((muxRcDec_tidies env _ _).stays ?_).shut
  split
  · exact hs.congr rfl rfl rfl rfl rfl
  · exact hs

lemma removeTransactionForConnection_shut (hw : Whole [] s)
    (hactive : s.connectionHasActiveTransaction h = true)
    (hinner : ∀ t tx, s.transactions t = some tx → tx.connectionHandle = h → s.LeasedIn t →
      tx.parent ≠ none) :
    Shut h (removeTransactionForConnection env (muxRcDec env) h s) := by
  refine discardAll_shut _ ⟨?_, ?_⟩
  · intro c hc
    obtain ⟨t, tx, ht, hsame⟩ := (hw.active_iff h).mp hactive
    exact absurd hsame (hw.idle h c t tx hc ht)
  intro t tx ht hsame
  obtain ⟨hkept, ht⟩ := foldl_remove_eq_some_iff.mp ht
  have hmem : t ∈ transactionsOf env s h := hw.mem_transactionsOf.mpr ⟨tx, ht, hsame⟩
  have hleased : s.transactionHasResultsetLease t = true := by
    by_contra hfree
    exact hkept (List.mem_filter.mpr ⟨hmem, by simpa using hfree⟩)
  refine ⟨Finset.mem_union_right _ (List.mem_toFinset.mpr (List.mem_filter.mpr ⟨hmem, hleased⟩)),
    ?_⟩
  rcases hparent : tx.parent with _ | parent
  · exact absurd hparent (hinner t tx ht hsame ((hw.transaction_leased_iff t).mp hleased))
  -- the parent has no connection of its own, so no result set can be open in it
  refine ⟨parent.1, parent.2, rfl, Option.eq_none_iff_forall_ne_some.mpr ?_⟩
  intro qtx hq
  obtain ⟨hqkept, hq⟩ := foldl_remove_eq_some_iff.mp hq
  obtain ⟨hqsame, hqnone⟩ := (hw.nested t tx parent.1 parent.2 ht hparent).2.2.2 qtx hq
  have hqfree : s.transactionHasResultsetLease parent.1 = false := by
    rw [Bool.eq_false_iff]
    intro hqleased
    obtain ⟨qtx', c, hq', hc⟩ := hw.leased_holds parent.1 hqleased
    rw [hq] at hq'
    cases hq'
    rw [hqnone] at hc
    cases hc
  refine hqkept (List.mem_filter.mpr ⟨?_, by rw [hqfree]; rfl⟩)
  exact hw.mem_transactionsOf.mpr ⟨qtx, hq, hqsame.trans hsame⟩

/-- Where no lease is in the way, closing a connection leaves only what waits for the
leases of inner transactions. -/
lemma connectionClose_shut (hw : Whole [] s) (hopen : s.connectionHandle h = .ok h)
    (hnot : ¬ClosesUnderLease s (.close h)) : Shut h (connectionClose env h h s) := by
  have hnone : s.Leased h → ∀ t tx, s.transactions t = some tx → tx.connectionHandle ≠ h := by
    intro hleased t tx ht hsame
    exact hnot ⟨h, h, t, tx, rfl, hopen, ht, hsame, .inl hleased⟩
  unfold connectionClose
  split_ifs with hleased hactive
  · obtain ⟨values, hvalues⟩ := writeHandle_frame h 0
      { s with connectionClosePending := insert h s.connectionClosePending }
    rw [hvalues]
    refine ⟨fun c hc => ⟨hleased, Finset.mem_insert_self h _⟩, ?_⟩
    intro t tx ht hsame
    exact absurd hsame (hnone ((hw.connection_leased_iff h).mp hleased) t tx ht)
  · obtain ⟨values, hvalues⟩ := writeHandle_frame h 0
      { removeTransactionForConnection env (muxRcDec env) h s with
        connections :=
          (removeTransactionForConnection env (muxRcDec env) h s).connections.remove h }
    rw [hvalues]
    refine ⟨by simp, (removeTransactionForConnection_shut hw hactive ?_).transaction⟩
    intro t tx ht hsame hin hroot
    exact hnot ⟨h, h, t, tx, rfl, hopen, ht, hsame, .inr ⟨hroot, hin⟩⟩
  · obtain ⟨values, hvalues⟩ := writeHandle_frame h 0
      { s with connections := s.connections.remove h }
    rw [hvalues]
    refine ⟨by simp, ?_⟩
    intro t tx ht hsame
    exact absurd ((hw.active_iff h).mpr ⟨t, tx, ht, hsame⟩) hactive

/-! ## Values -/

lemma closed_iff : s.Closed k ↔ (s.values k).map SharedValue.identity = some (.connection, 0) := by
  simp [State.Closed, SharedValue.identity]

lemma Closed.of_identity (hclosed : s'.Closed k)
    (hsame : (s'.values k).map SharedValue.identity = (s.values k).map SharedValue.identity) :
    s.Closed k :=
  closed_iff.mpr (hsame.symm.trans (closed_iff.mp hclosed))

/-- A new value is not a closed one. -/
lemma Closed.of_insert {n : Handle} {kind : Kind} (hn : 0 < n)
    (hvalues : s'.values = s.values.insert n { kind := kind, handle := n, program := 1, owners := 0 })
    (hclosed : s'.Closed k) : s.Closed k := by
  obtain ⟨v, hv, hkind, hzero⟩ := hclosed
  rw [hvalues] at hv
  rcases insert_eq_some_iff.mp hv with ⟨-, rfl⟩ | ⟨-, hv⟩
  · exact absurd hzero (Nat.ne_of_gt hn)
  · exact ⟨v, hv, hkind, hzero⟩

/-- Only the call that closes a connection makes its value a closed one. -/
lemma outcome_closed (hw : Whole [] s) (ho : Outcome env s call s') (hclosed : s'.Closed k) :
    s.Closed k ∨ call = .close k ∧ s.connectionHandle k = .ok k := by
  have hnext := hw.next_pos
  cases ho with
  | tidied hwhole hvalues ht hw' =>
    exact .inl (Closed.of_identity hclosed ((ht.identity k).trans (hvalues k)))
  | @closed h s₁ hcall hopen ht hw' =>
    by_cases hk : k = h
    · subst hk
      exact .inr ⟨hcall, hopen⟩
    · refine .inl (Closed.of_identity hclosed (Eq.trans ?_ (ht.identity k)))
      unfold writeHandle
      split
      · rfl
      · exact congrArg _ (insert_of_ne hk)
  | connected backend | queriedIn ht hc hsent hconn =>
    exact .inl (Closed.of_insert (s := s) hnext rfl hclosed)
  | sent hn hc hsent | advanced hr hconn htx => exact .inl hclosed
  | queried hopen hc hsend hsent htx => exact .inl (Closed.of_insert (s := s) hnext rfl hclosed)
  | @opened h c sent hopen hopens hidle hsend hsent =>
    have hold := Closed.of_insert (s := s.rcInc h) hnext rfl hclosed
    exact .inl (Closed.of_identity hold (rcInc_identity h s k))
  | @nested t tx c cmd name ht hc hfree =>
    have hold := Closed.of_insert (s := s.rcInc t) (Nat.succ_pos _) rfl hclosed
    exact .inl (Closed.of_identity hold (rcInc_identity t s k))
  | @released r rs left values hr hleft hwhole hvalues =>
    refine .inl (Closed.of_identity hclosed (Eq.trans ?_ (hvalues k)))
    rcases releaseResultsetLeases_cases env left hwhole hr with ⟨j, heq⟩ | ⟨leases, ht⟩
    · rw [heq, (releaseConnectionLease_frame j _).2.1]
    · exact ht.identity k

/-! ## Runs -/

/-- What every call keeps, unless it closes a connection under a lease. -/
structure Orderly (s : State) : Prop where
  whole : Whole [] s
  shut : ∀ h, s.Closed h → Shut h s

lemma Orderly.after (ho : Orderly s) (hnot : ¬ClosesUnderLease s call) :
    Orderly (s.after env call) where
  whole := after_whole ho.whole call
  shut := by
    intro h hclosed
    have houtcome := after_outcome env ho.whole call
    rcases outcome_closed ho.whole houtcome hclosed with hclosed | ⟨rfl, hopen⟩
    · exact (outcome_stays ho.whole houtcome hclosed (ho.shut h hclosed)).shut
    have hafter : s.after env (.close h) = connectionClose env h h s := by
      simp only [State.after, perform, hopen]
    rw [hafter]
    exact connectionClose_shut ho.whole hopen hnot

lemma initial_orderly : Orderly State.initial where
  whole := initial_whole
  shut := by
    rintro h ⟨v, hv, -⟩
    cases hv

lemma Orderly.vacated (ho : Orderly s) (hended : Ended s h) : Vacated s h := by
  have hs := ho.shut h hended.closed
  have hleased : ¬s.connectionHasResultsetLease h = true := fun hflag =>
    hended.unleased ((ho.whole.connection_leased_iff h).mp hflag)
  have hconnections : s.connections h = none := by
    cases hc : s.connections h with
    | none => rfl
    | some c => exact absurd (hs.connection c hc).1 hleased
  have htransactions : ∀ t tx, s.transactions t = some tx → tx.connectionHandle ≠ h := by
    intro t tx ht hsame
    exact hended.unleasedIn t tx ht hsame
      ((ho.whole.transaction_leased_iff t).mp (hs.busy ho.whole ht hsame))
  refine ⟨hconnections, htransactions, ?_, ?_, ?_, ?_, ?_⟩
  · refine Option.eq_none_iff_forall_ne_some.mpr fun n hn => hleased ?_
    have hpos := pos_of_leaseEntry ((ho.whole.connection_count h).symm.trans hn)
    simpa [connectionHasResultsetLease, hn] using hpos
  · intro t n hn
    have hpos := pos_of_leaseEntry ((ho.whole.transaction_count t).symm.trans hn)
    obtain ⟨tx, c, ht, -⟩ := ho.whole.leased_holds t
      (by simpa [transactionHasResultsetLease, hn] using hpos)
    exact ⟨tx, ht, htransactions t tx ht⟩
  · exact fun hpending => hleased (ho.whole.connection_pending h hpending)
  · intro j c hc
    rw [ho.whole.connection_id j c hc]
    rintro rfl
    rw [hconnections] at hc
    cases hc
  · rintro c ⟨t, tx, ht, hc⟩
    rw [ho.whole.transaction_id t tx c ht hc]
    exact htransactions t tx ht

/-- Along every run that closes no connection under a lease in the way, a connection that
is closed and has no open result set any more has left the registries, and a closed
connection never comes back into them. -/
theorem closed_connection_vacated (env : Environment) (calls : List Call)
    (hnot : Machine.Always (State.after env) (fun s call => ¬ClosesUnderLease s call)
      State.initial calls) :
    (∀ h, Ended (Machine.run (State.after env) State.initial calls) h →
      Vacated (Machine.run (State.after env) State.initial calls) h) ∧
    Machine.Always (State.after env) (fun s call => ∀ h, s.Closed h → s.connections h = none →
        (s.after env call).connections h = none) State.initial calls := by
  have hstep : ∀ s call, Orderly s → ¬ClosesUnderLease s call → Orderly (s.after env call) :=
    fun s call ho hnot => ho.after hnot
  constructor
  · intro h hended
    exact (Machine.run_invariant hstep initial_orderly hnot).vacated hended
  refine hnot.mono hstep initial_orderly ?_
  intro s call ho _ h hclosed hnone
  refine Option.eq_none_iff_forall_ne_some.mpr fun c hc => ?_
  have hstays := outcome_stays ho.whole (after_outcome env ho.whole call) hclosed (ho.shut h hclosed)
  rw [hstays.back c hc] at hnone
  cases hnone

/-- A connection that is closed while a query on it is open, and the query after it. -/
theorem deferred_close_vacated :
    let s := Machine.run (State.after calm) State.initial
      [.connect .sqlite, .query 1 [] 0, .close 1, .resultsetClose 2]
    Vacated s 1 := by
  intro s
  have hw : Whole [] s := Machine.run_keeps (fun s call h => after_whole h call) initial_whole
  refine (closed_connection_vacated calm
    [.connect .sqlite, .query 1 [] 0, .close 1, .resultsetClose 2] ?_).1 1 ⟨?_, ?_, ?_⟩
  · refine ⟨?_, ?_, ?_, ?_, trivial⟩
    · rintro ⟨v, h, t, tx, hcall, -⟩
      cases hcall
    · rintro ⟨v, h, t, tx, hcall, -⟩
      cases hcall
    · rintro ⟨v, h, t, tx, -, -, ht, -⟩
      cases ht
    · rintro ⟨v, h, t, tx, hcall, -⟩
      cases hcall
  · exact ⟨_, rfl, rfl, rfl⟩
  · rw [State.Leased, ← hw.connection_leased_iff 1]
    decide
  · rintro t tx ⟨⟩

/-- A transaction with an open query outlives the connection that is closed over it; when
the query is closed the transaction is rolled back and the connection is stored again. -/
theorem closed_connection_stored_again :
    let s := Machine.run (State.after calm) State.initial
      [.connect .sqlite, .beginTransaction 1, .transactionQuery 2 [] 0, .close 1,
        .resultsetClose 3, .release 2]
    Ended s 1 ∧ (∀ t, s.transactions t = none) ∧
      (s.values 2).map (fun v => (v.program, v.owners)) = some (0, 0) ∧
      s.connections 1 = some ⟨1, .sqlite⟩ ∧ ¬Vacated s 1 := by
  intro s
  have hw : Whole [] s := Machine.run_keeps (fun s call h => after_whole h call) initial_whole
  have hnone : ∀ t, s.transactions t = none := by
    intro t
    by_cases ht : t = 2
    · subst ht
      rfl
    · exact (remove_of_ne ht).trans (insert_of_ne ht)
  refine ⟨⟨⟨_, rfl, rfl, rfl⟩, ?_, ?_⟩, hnone, rfl, rfl, ?_⟩
  · rw [State.Leased, ← hw.connection_leased_iff 1]
    decide
  · intro t tx ht
    rw [hnone t] at ht
    cases ht
  · intro hvacated
    cases hvacated.connections

end Sql
end MuxRuntime
