import MuxRuntime.Sql.Calls

/-!
# What a call can do

The calls of a program differ in their checks and in their errors, but there are only
few things that they do to the registries. Whatever is to hold along every run is
shown for these.
-/

namespace MuxRuntime
namespace Sql

open State

variable {env : Environment} {s s' : State}

/-- A result set with a lease on the connection is open. -/
def State.Leased (s : State) (h : Handle) : Prop :=
  ∃ r rs, s.resultsets r = some rs ∧ rs.connectionLease = some h

/-- A result set with a lease on the transaction is open. -/
def State.LeasedIn (s : State) (t : Handle) : Prop :=
  ∃ r rs, s.resultsets r = some rs ∧ rs.transactionLease = some t

/-- What of a value only closing changes. -/
def SharedValue.identity (v : SharedValue) : Kind × Handle :=
  (v.kind, v.handle)

/-- The connection on which a call wants to send a command. -/
def Call.target (s : State) : Call → Option Handle
  | .execute v _ _ | .query v _ _ | .beginTransaction v | .beginTransactionWithOptions v _ _ _ =>
    (s.connectionHandle v).toOption
  | .transactionExecute v _ _ | .transactionQuery v _ _ | .beginNested v | .commit v
  | .rollback v =>
    (s.transactionHandle v).toOption.bind fun t =>
      (s.transactions t).map SqlTransaction.connectionHandle
  | _ => none

/-- The connection value and the options of a call that opens a transaction. -/
def Call.options : Call → Option (Handle × String × Bool × Bool)
  | .beginTransaction v => some (v, "default", false, false)
  | .beginTransactionWithOptions v (.string level) (.bool reads) (.bool defers) =>
    some (v, level, reads, defers)
  | _ => none

/-- The call opens a transaction on the connection, with options that its provider takes. -/
def State.Opens (s : State) (call : Call) (h : Handle) (c : SqlConnection) : Prop :=
  ∃ v level reads defers statements, call.options = some (v, level, reads, defers) ∧
    s.connectionHandle v = .ok h ∧ s.connections h = some c ∧
    beginStatements c.backend level reads defers = .ok statements

/-- The call opens a transaction on a leased connection, with options that its provider
takes. -/
def OpensUnderLease (s : State) (call : Call) : Prop :=
  ∃ h c, s.Opens call h c ∧ s.Leased h

/-- A command is sent over a connection that a transaction holds, or over the one that
the call is about; over a leased one only to open a transaction. -/
def Sendable (s : State) (call : Call) (c : SqlConnection) : Prop :=
  s.Holds c ∨ ∃ h, call.target s = some h ∧ s.connections h = some c ∧
    (s.Leased h → OpensUnderLease s call)

/-- The states a call can leave. -/
inductive Outcome (env : Environment) (s : State) (call : Call) : State → Prop
  /-- The call is refused, counts references or does no more than to tidy up. -/
  | tidied {values : Registry SharedValue} {s' : State}
      (hwhole : Whole [] { s with values := values })
      (hvalues : ∀ k, (values k).map SharedValue.identity = (s.values k).map SharedValue.identity)
      (ht : Tidies { s with values := values } s') (hw : Whole [] s') : Outcome env s call s'
  | closed {h : Handle} {s' : State} (hcall : call = .close h)
      (hopen : s.connectionHandle h = .ok h) (ht : Tidies s s')
      (hw : Whole [] (s'.writeHandle h 0)) : Outcome env s call (s'.writeHandle h 0)
  | connected (backend : SqlBackend) : Outcome env s call
        ((s.storeConnection { id := s.next, backend := backend }).createHandleValue s.next
          .connection)
  /-- Commands on a connection; a savepoint that fails has used up a handle. -/
  | sent {n : Handle} {c : SqlConnection} {sent : List (SqlConnection × Command)}
      (hn : s.next ≤ n) (hc : Sendable s call c) (hsent : ∀ e ∈ sent, e.1 = c) :
      Outcome env s call { s with next := n, log := s.log ++ sent }
  | queried {h : Handle} {c : SqlConnection} {sent : List (SqlConnection × Command)}
      {rs : SqlResultSet} (hopen : s.connectionHandle h = .ok h)
      (hc : s.connections h = some c) (hsend : Sendable s call c)
      (hsent : ∀ e ∈ sent, e.1 = c) (htx : rs.transactionLease = none) :
      Outcome env s call
        ((({ s with log := s.log ++ sent } : State).storeConnectionResultset rs
          h).createHandleValue s.next .resultset)
  | opened {h : Handle} {c : SqlConnection} {sent : List (SqlConnection × Command)}
      (hopen : s.connectionHandle h = .ok h) (hopens : s.Opens call h c)
      (hidle : s.connectionHasActiveTransaction h = false) (hsend : Sendable s call c)
      (hsent : ∀ e ∈ sent, e.1 = c) :
      Outcome env s call
        { (({ s with
            connections := s.connections.remove h, log := s.log ++ sent,
            next := s.next + 1 } : State).rcInc h).createHandleValue s.next .transaction with
          transactions := s.transactions.insert s.next
            { connectionHandle := h, connection := some c, active := true, parent := none,
              owner := h } }
  | queriedIn {t : Handle} {tx : SqlTransaction} {c : SqlConnection}
      {sent : List (SqlConnection × Command)} {rs : SqlResultSet}
      (ht : s.transactions t = some tx) (hc : tx.connection = some c)
      (hsent : ∀ e ∈ sent, e.1 = c) (hconn : rs.connectionLease = none) :
      Outcome env s call
        ((({ s with log := s.log ++ sent } : State).storeTransactionResultset rs
          t).createHandleValue s.next .resultset)
  | nested {t : Handle} {tx : SqlTransaction} {c : SqlConnection} {cmd : Command} {name : String}
      (ht : s.transactions t = some tx) (hc : tx.connection = some c)
      (hfree : s.transactionHasResultsetLease t = false) :
      Outcome env s call
        { (({ s with next := s.next + 1 + 1, log := s.log ++ [(c, cmd)] } : State).rcInc
            t).createHandleValue (s.next + 1) .transaction with
          transactions :=
            (s.transactions.insert t { tx with connection := none }).insert (s.next + 1)
              { connectionHandle := tx.connectionHandle, connection := some c, active := true,
                parent := some (t, name), owner := t } }
  /-- A result set has moved on. -/
  | advanced {r : Handle} {rs rs' : SqlResultSet} (hr : s.resultsets r = some rs)
      (hconn : rs'.connectionLease = rs.connectionLease)
      (htx : rs'.transactionLease = rs.transactionLease) :
      Outcome env s call { s with resultsets := s.resultsets.insert r rs' }
  /-- A result set is finished, by a call or with the last reference to it. -/
  | released {r : Handle} {rs : SqlResultSet} {left : Option SqlResultSet}
      {values : Registry SharedValue} (hr : s.resultsets r = some rs) (hleft : Unleased left)
      (hwhole : Whole [] { s with values := values })
      (hvalues : ∀ k, (values k).map SharedValue.identity = (s.values k).map SharedValue.identity) :
      Outcome env s call
        (releaseResultsetLeases env rs.connectionLease rs.transactionLease
          { s with values := values, resultsets := s.resultsets.set r left })

/-! ## Values -/

lemma insert_identity {values : Registry SharedValue} {j : Handle} {v : SharedValue}
    (v' : SharedValue) (hv : values j = some v) (hsame : v'.identity = v.identity) (k : Handle) :
    (values.insert j v' k).map SharedValue.identity = (values k).map SharedValue.identity := by
  by_cases hk : k = j
  · subst hk
    simp [hv, hsame]
  · rw [Registry.insert_of_ne hk]

lemma Tidies.identity (ht : Tidies s s') (k : Handle) :
    (s'.values k).map SharedValue.identity = (s.values k).map SharedValue.identity := by
  have hface := congrArg (Option.map fun f : Kind × Handle × Nat => (f.1, f.2.1)) (ht.values k)
  rw [Option.map_map, Option.map_map] at hface
  exact hface

lemma rcInc_identity (j : Handle) (s : State) (k : Handle) :
    ((s.rcInc j).values k).map SharedValue.identity = (s.values k).map SharedValue.identity := by
  unfold rcInc
  cases hv : s.values j with
  | none => rfl
  | some v => exact insert_identity { v with owners := v.owners + 1 } hv rfl k

/-! ## Releasing leases -/

lemma releaseConnectionLease_frame (k : Handle) (s : State) :
    (s.releaseConnectionLease k).resultsets = s.resultsets ∧
      (s.releaseConnectionLease k).values = s.values ∧
      (s.releaseConnectionLease k).log = s.log := by
  unfold releaseConnectionLease
  split
  · exact ⟨rfl, rfl, rfl⟩
  dsimp only
  split_ifs <;> exact ⟨rfl, rfl, rfl⟩

variable (env) in
lemma releaseTransactionLease_tidies (k : Handle) (s : State) :
    ∃ leases, Tidies { s with transactionLeases := leases } (releaseTransactionLease env k s) := by
  unfold releaseTransactionLease
  split
  · exact ⟨s.transactionLeases, Tidies.refl s⟩
  · split_ifs
    · exact ⟨_, finishDeferredTransaction_tidies env (muxRcDec_tidies env) _ _⟩
    · exact ⟨_, Tidies.refl _⟩

section Releasing

variable {debts : List Handle} {r : Handle} {rs : SqlResultSet} {left : Option SqlResultSet}

variable (env left) in
/-- The lease that is released is on a connection, or on a transaction; after the first
nothing is sent, and after the second only by tidying up. -/
lemma releaseResultsetLeases_cases (hw : Whole debts s) (hr : s.resultsets r = some rs) :
    (∃ k, releaseResultsetLeases env rs.connectionLease rs.transactionLease
        { s with resultsets := s.resultsets.set r left } =
          ({ s with resultsets := s.resultsets.set r left } : State).releaseConnectionLease k) ∨
      ∃ leases, Tidies { s with resultsets := s.resultsets.set r left, transactionLeases := leases }
        (releaseResultsetLeases env rs.connectionLease rs.transactionLease
          { s with resultsets := s.resultsets.set r left }) := by
  unfold releaseResultsetLeases
  cases hconn : rs.connectionLease with
  | some k =>
    have hnone : rs.transactionLease = none := by
      rcases hw.one_lease r rs hr with hnone | hnone
      · rw [hconn] at hnone
        cases hnone
      · exact hnone
    exact .inl ⟨k, by rw [hnone]⟩
  | none => ?_
  cases htx : rs.transactionLease with
  | none => exact .inr ⟨s.transactionLeases, Tidies.refl _⟩
  | some k =>
    exact .inr (releaseTransactionLease_tidies env k
      { s with resultsets := s.resultsets.set r left })

end Releasing

/-! ## The calls -/

section Calls

variable {call : Call} {h : Handle} {c : SqlConnection}

/-- Every outcome leaves the registries whole. -/
lemma Outcome.whole (hw : Whole [] s) (ho : Outcome env s call s') : Whole [] s' := by
  have hfresh : s.values s.next = none := hw.values_below.eq_none (le_refl _)
  cases ho with
  | tidied hwhole hvalues ht hw' | closed hcall hopen ht hw' => exact hw'
  | connected backend => exact hw.connect backend
  | sent hn hc hsent => exact (hw.drawHandles hn).setLog _
  | @queried h c sent rs hopen hc hsend hsent htx =>
    exact ((hw.setLog (s.log ++ sent)).storeConnectionResultset htx h).createValue
      (Nat.lt_succ_self _) hfresh .resultset
  | @opened h c sent hopen hopens hidle hsend hsent =>
    obtain ⟨-, -, -, -, -, -, -, hc, -⟩ := hopens
    refine hw.opened hc (hw.handle_eq hopen).2.2 ?_ sent
    intro t tx ht hsame
    rw [(hw.active_iff h).mpr ⟨t, tx, ht, hsame⟩] at hidle
    cases hidle
  | @queriedIn t tx c sent rs ht hc hsent hconn =>
    exact ((hw.setLog (s.log ++ sent)).storeTransactionResultset hconn
      ⟨tx, c, ht, hc⟩).createValue (Nat.lt_succ_self _) hfresh .resultset
  | nested ht hc hfree => exact hw.nest ht hc hfree _ _
  | advanced hr hconn htx => exact hw.advance hr ⟨hconn, htx⟩
  | released hr hleft hwhole hvalues => exact releaseResultsetLeases_whole env hwhole hr hleft

lemma sendable_of_holds {t : Handle} {tx : SqlTransaction} (ht : s.transactions t = some tx)
    (hc : tx.connection = some c) : Sendable s call c :=
  .inl ⟨t, tx, ht, hc⟩

lemma target_eq {v : Handle} (hv : s.connectionHandle v = .ok h)
    (htarget : call.target s = (s.connectionHandle v).toOption) : call.target s = some h := by
  rw [htarget, hv]
  rfl

variable (hw : Whole [] s)

include hw

lemma Outcome.of_tidies (ht : Tidies s s') (hw' : Whole [] s') : Outcome env s call s' :=
  .tidied hw (fun _ => rfl) ht hw'

lemma Outcome.refused : Outcome env s call s := .of_tidies hw (Tidies.refl s) hw

lemma Outcome.counted {value n : Handle} {v : SharedValue}
    (hv : s.values value = some v)
    (ht : Tidies { s with values := s.values.insert value { v with program := n } } s')
    (hw' : Whole [] s') : Outcome env s call s' :=
  .tidied (hw.setProgram hv n) (fun k => insert_identity { v with program := n } hv rfl k) ht hw'

lemma sendable_of_free (htarget : call.target s = some h)
    (hc : s.connections h = some c) (hfree : s.connectionHasResultsetLease h = false) :
    Sendable s call c := by
  refine .inr ⟨h, htarget, hc, ?_⟩
  intro hleased
  rw [(hw.connection_leased_iff h).mpr hleased] at hfree
  cases hfree

/-! ### Statements -/

variable {sql : List UInt8} {params : Nat}

lemma executeOnConnection_outcome (hc : Sendable s call c) :
    Outcome env s call (executeOnConnection env sql params c s).2 := by
  unfold executeOnConnection State.issue
  split
  · exact .refused hw
  split
  all_goals
    rename_i heq
    have hstate := congrArg Prod.snd heq
    rw [← hstate]
    exact .sent (le_refl _) hc (by simp)

lemma execute_outcome (htarget : call.target s = some h) :
    Outcome env s call (connectionExecute env h sql params s).2 := by
  unfold connectionExecute
  rcases withConnection_cases s h (executeOnConnection env sql params) with
    ⟨e, heq⟩ | ⟨c, hc, hfree, heq⟩
  · rw [heq]
    exact .refused hw
  · rw [heq]
    exact executeOnConnection_outcome hw (sendable_of_free hw htarget hc hfree)

variable (t : Handle)

lemma transactionExecute_outcome :
    Outcome env s call (transactionExecute env t sql params s).2 := by
  unfold transactionExecute
  rcases withTransactionConnection_cases hw.toSound t (executeOnConnection env sql params) with
    ⟨e, heq⟩ | ⟨tx, c, ht, hc, -, heq⟩
  · rw [heq]
    exact .refused hw
  · rw [heq]
    exact executeOnConnection_outcome hw (sendable_of_holds ht hc)

/-- A query may also leave a result set with a lease on the connection. -/
lemma query_outcome (htarget : call.target s = some h) (hopen : s.connectionHandle h = .ok h) :
    Outcome env s call (connectionQuery env h sql params s).2 := by
  unfold connectionQuery
  rcases withConnection_cases s h (queryStreaming env sql params) with
    ⟨e, heq⟩ | ⟨c, hc, hfree, heq⟩
  · rw [heq]
    exact .refused hw
  have hsend : Sendable s call c := sendable_of_free hw htarget hc hfree
  obtain ⟨result, sent, hquery, hsent, hnone⟩ := queryStreaming_eq env sql params c s
  rw [heq, hquery]
  cases result with
  | error e => exact .sent (le_refl _) hsend hsent
  | ok rs => exact .queried hopen hc hsend hsent (hnone rs rfl).2

lemma transactionQuery_outcome : Outcome env s call (transactionQuery env t sql params s).2 := by
  unfold transactionQuery
  rcases withTransactionConnection_cases hw.toSound t (queryStreaming env sql params) with
    ⟨e, heq⟩ | ⟨tx, c, ht, hc, -, heq⟩
  · rw [heq]
    exact .refused hw
  obtain ⟨result, sent, hquery, hsent, hnone⟩ := queryStreaming_eq env sql params c s
  rw [heq, hquery]
  cases result with
  | error e => exact .sent (le_refl _) (sendable_of_holds ht hc) hsent
  | ok rs => exact .queriedIn ht hc hsent (hnone rs rfl).1

/-! ### Transactions -/

section

variable (hopen : s.connectionHandle h = .ok h)

include hopen

lemma openTransaction_outcome {level : String} {reads defers : Bool}
    (hidle : s.connectionHasActiveTransaction h = false) (htarget : call.target s = some h)
    (hoptions : call.options = some (h, level, reads, defers)) :
    Outcome env s call (openTransaction env h h level reads defers s).2 := by
  rcases openTransaction_cases env h h level reads defers s with
    ⟨e, heq⟩ | ⟨c, statements, sent, hc, hbegin, hsent, -, hlast⟩
  · rw [heq]
    exact .refused hw
  have hopens : s.Opens call h c :=
    ⟨h, level, reads, defers, statements, hoptions, hopen, hc, hbegin⟩
  have hsend : Sendable s call c := .inr ⟨h, htarget, hc, fun hleased => ⟨h, c, hopens, hleased⟩⟩
  rcases hlast with ⟨e, heq⟩ | heq
  · rw [heq]
    exact .sent (le_refl _) hsend hsent
  · rw [heq]
    exact .opened hopen hopens hidle hsend hsent

lemma beginTransaction_outcome :
    Outcome env s (.beginTransaction h) (connectionBeginTransaction env h h s).2 := by
  unfold connectionBeginTransaction
  split_ifs with hactive
  · exact .refused hw
  · exact openTransaction_outcome hw hopen (by simpa using hactive) (target_eq hopen rfl) rfl

lemma beginTransactionWithOptions_outcome (isolation readOnly deferrable : Value) :
    Outcome env s (.beginTransactionWithOptions h isolation readOnly deferrable)
      (connectionBeginTransactionWithOptions env h h isolation readOnly deferrable s).2 := by
  rcases optionsOf_cases env h h isolation readOnly deferrable s with
    ⟨e, heq⟩ | ⟨level, reads, defers, rfl, rfl, rfl, hidle, heq⟩
  · rw [heq]
    exact .refused hw
  · rw [heq]
    exact openTransaction_outcome hw hopen hidle (target_eq hopen rfl) rfl

end

lemma beginNested_outcome : Outcome env s call (transactionBeginTransaction env t t s).2 := by
  rcases transactionBeginTransaction_cases env t t s with
    ⟨e, heq⟩ | ⟨tx, c, cmd, ht, hc, hfree, ⟨e, heq⟩ | heq⟩
  · rw [heq]
    exact .refused hw
  · rw [heq]
    exact .sent (Nat.le_succ _) (sendable_of_holds ht hc) (by simp)
  · rw [heq]
    exact .nested ht hc hfree

lemma finish_outcome (commit : Bool) : Outcome env s call (finishTransaction env t commit s).2 := by
  rcases finishTransaction_cases env t commit s with
    ⟨e, heq⟩ | ⟨tx, c, sent, ht, hc, hfree, hsent, ⟨e, heq⟩ | heq⟩
  · rw [heq]
    exact .refused hw
  · rw [heq]
    exact .sent (le_refl _) (sendable_of_holds ht hc) hsent
  · rw [heq]
    exact .of_tidies hw ((Tidies.finish ht hc hsent).trans (muxRcDec_tidies env _ _))
      (muxRcDec_whole _ _ _ ((hw.setLog (s.log ++ sent)).restore ht hc hfree))

/-! ### Result sets -/

lemma Outcome.finished {r : Handle} {rs rs' : SqlResultSet}
    (hr : s.resultsets r = some rs) (hleases : rs'.connectionLease = rs.connectionLease ∧
      rs'.transactionLease = rs.transactionLease) :
    Outcome env s call (closeResultset env r rs' s) := by
  rw [closeResultset, hleases.1, hleases.2]
  exact .released hr (Unleased.finished rs') hw (fun _ => rfl)

lemma resultsetClose_outcome (r : Handle) : Outcome env s call (resultsetClose env r s).2 := by
  unfold resultsetClose withResultset
  split
  · exact .refused hw
  · rename_i rs hr
    exact .finished hw hr ⟨rfl, rfl⟩

lemma resultsetRows_outcome (r : Handle) : Outcome env s call (resultsetRows env r s).2 := by
  unfold resultsetRows withResultset
  split
  · exact .refused hw
  rename_i rs hr
  have hleases := readRows_leases (remaining rs + 1) rs []
  dsimp only
  split_ifs
  · exact .refused hw
  split
  all_goals
    rename_i heq
    rw [heq] at hleases
    exact .finished hw hr hleases

lemma resultsetNext_outcome (r : Handle) : Outcome env s call (resultsetNext env r s).2 := by
  unfold resultsetNext withResultset
  split
  · exact .refused hw
  rename_i rs hr
  have hleases := resultsetNextRow_leases rs
  dsimp only
  split_ifs
  · exact .refused hw
  split
  · rename_i heq
    rw [heq] at hleases
    exact .finished hw hr hleases
  rename_i row rs' heq
  rw [heq] at hleases
  have hlast : (if row.isNone then { rs' with cursor := none } else rs').connectionLease =
      rs.connectionLease ∧ (if row.isNone then { rs' with cursor := none }
        else rs').transactionLease = rs.transactionLease := by
    split_ifs <;> exact hleases
  split_ifs at hlast ⊢
  all_goals first
    | exact .finished hw hr hlast
    | exact .advanced hr hlast.1 hlast.2

lemma resultsetNextBatch_outcome (r : Handle) (limit : Int) :
    Outcome env s call (resultsetNextBatch env r limit s).2 := by
  unfold resultsetNextBatch withResultset
  split
  · exact .refused hw
  rename_i rs hr
  have hleases := readRows_leases limit.toNat rs []
  dsimp only
  split_ifs
  · exact .refused hw
  split
  · rename_i heq
    rw [heq] at hleases
    exact .finished hw hr hleases
  · rename_i heq
    rw [heq] at hleases
    exact .finished hw hr hleases
  · rename_i heq
    rw [heq] at hleases
    exact .advanced hr hleases.1 hleases.2

/-! ### References of the program -/

lemma retain_outcome (v : Handle) : Outcome env s call (s.retain v) := by
  unfold State.retain
  split
  · exact .refused hw
  rename_i w hv
  split_ifs
  · exact .refused hw
  · exact .counted hw hv (Tidies.refl _) (hw.setProgram hv _)

lemma release_outcome (v : Handle) : Outcome env s call (release env v s) := by
  unfold State.release
  split
  · exact .refused hw
  rename_i w hv
  have hset := hw.setProgram hv (w.program - 1)
  split_ifs with hnone hlast
  · exact .refused hw
  · unfold destroy
    split
    · exact .counted hw hv (Tidies.dropConnection _ _) (dropConnectionHandle_whole hset _)
    · rename_i hkind
      have hfree := hset.unowned Registry.insert_self (Nat.add_eq_zero_iff.mp hlast).2
      exact .counted hw hv (dropTransactionHandle_tidies (muxRcDec_tidies env) _ _)
        (whole_discipline.dropTransactionHandle muxRcDec_whole hset
          ((hw.transaction_handle hv hkind).symm ▸ hfree))
    split_ifs
    · exact .counted hw hv (Tidies.refl _) hset
    unfold removeResultset
    dsimp only
    split
    · exact .counted hw hv (Tidies.refl _) hset
    rename_i rs hr
    exact .released hr (show Unleased none by simp [Unleased]) hset
      (fun k => insert_identity { w with program := w.program - 1 } hv rfl k)
  · exact .counted hw hv (Tidies.refl _) hset

end Calls

variable (env) in
/-- What the calls of a program can do. -/
theorem after_outcome (hw : Whole [] s) (call : Call) : Outcome env s call (s.after env call) := by
  have hconn : ∀ {v h}, s.connectionHandle v = .ok h → h = v := fun hv => (hw.handle_eq hv).1
  have hrefused : Outcome env s call s := .refused hw
  unfold State.after
  cases call with
  | connect backend => exact .connected backend
  | execute v sql params =>
    exact onHandle_elim hrefused fun h hv => execute_outcome hw (target_eq hv rfl)
  | query v sql params =>
    refine onHandle_elim hrefused fun h hv => ?_
    obtain rfl := hconn hv
    exact query_outcome hw (target_eq hv rfl) hv
  | beginTransaction v =>
    refine onHandle_elim hrefused fun h hv => ?_
    obtain rfl := hconn hv
    exact beginTransaction_outcome hw hv
  | beginTransactionWithOptions v isolation readOnly deferrable =>
    refine onHandle_elim hrefused fun h hv => ?_
    obtain rfl := hconn hv
    exact beginTransactionWithOptions_outcome hw hv isolation readOnly deferrable
  | close v =>
    simp only [perform]
    split
    · exact hrefused
    rename_i h hv
    obtain rfl := hconn hv
    have hclosed : Whole [] (connectionClose env h h s) := connectionClose_whole hw hv
    obtain ⟨s', ht, heq⟩ := connectionClose_tidies env h h s
    rw [heq] at hclosed ⊢
    exact .closed rfl hv ht hclosed
  | transactionExecute v sql params =>
    exact onHandle_elim hrefused fun t _ => transactionExecute_outcome hw t
  | transactionQuery v sql params =>
    exact onHandle_elim hrefused fun t _ => transactionQuery_outcome hw t
  | beginNested v =>
    refine onHandle_elim hrefused fun t hv => ?_
    obtain rfl := (hw.handle_eq hv).1
    exact beginNested_outcome hw t
  | commit v => exact onHandle_elim hrefused fun t _ => finish_outcome hw t true
  | rollback v => exact onHandle_elim hrefused fun t _ => finish_outcome hw t false
  | resultsetClose v => exact onHandle_elim hrefused fun r _ => resultsetClose_outcome hw r
  | resultsetRows v => exact onHandle_elim hrefused fun r _ => resultsetRows_outcome hw r
  | resultsetNext v => exact onHandle_elim hrefused fun r _ => resultsetNext_outcome hw r
  | resultsetNextBatch v limit =>
    exact onHandle_elim hrefused fun r _ => resultsetNextBatch_outcome hw r limit
  | retain v => exact retain_outcome hw v
  | release v => exact release_outcome hw v

/-- Every call keeps the registries whole. -/
theorem after_whole (h : Whole [] s) (call : Call) : Whole [] (s.after env call) :=
  (after_outcome env h call).whole h

lemma run_whole (env : Environment) (calls : List Call) :
    Whole [] (Machine.run (State.after env) State.initial calls) :=
  Machine.run_keeps (fun _ call h => after_whole h call) initial_whole

/-- After every sequence of calls the leases of connections and transactions count their open
result sets, of which each has one lease at most, and a close is put off only for a lease. -/
theorem leases_counted (env : Environment) (calls : List Call) :
    let s := Machine.run (State.after env) State.initial calls
    (∀ h, (s.connectionLeases h).getD 0 = s.openOn (·.connectionLease) h) ∧
      (∀ t, (s.transactionLeases t).getD 0 = s.openOn (·.transactionLease) t) ∧
      (∀ r rs, s.resultsets r = some rs → rs.connectionLease = none ∨ rs.transactionLease = none) ∧
      (∀ h ∈ s.connectionClosePending, s.Leased h) ∧
      ∀ t ∈ s.transactionClosePending, s.LeasedIn t := by
  intro s
  have h : Whole [] s := run_whole env calls
  refine ⟨fun k => ?_, fun t => ?_, h.one_lease, fun k hk => ?_, fun t ht => ?_⟩
  · rw [h.connection_count, getD_leaseEntry]
  · rw [h.transaction_count, getD_leaseEntry]
  · exact (h.connection_leased_iff k).mp (h.connection_pending k hk)
  · exact (h.transaction_leased_iff t).mp (h.transaction_pending t ht)

/-- After every sequence of calls the transactions of a connection are a stack: one that was
begun in another one is younger and the only one there, and a transaction is without its
connection exactly as long as one that was begun in it is open. -/
theorem transactions_stacked (env : Environment) (calls : List Call) :
    let s := Machine.run (State.after env) State.initial calls
    (∀ t tx, s.transactions t = some tx →
      (tx.connection = none ↔ ∃ u utx, s.transactions u = some utx ∧ utx.owner = t)) ∧
    ∀ t tx u utx, s.transactions t = some tx → s.transactions u = some utx → utx.owner = t →
      t < u ∧ utx.connectionHandle = tx.connectionHandle ∧
      ∀ u' utx', s.transactions u' = some utx' → utx'.owner = t → u' = u := by
  intro s
  have h : Whole [] s := run_whole env calls
  refine ⟨fun t tx ht => ⟨h.suspended t tx ht, ?_⟩, fun t tx u utx ht hu howner => ?_⟩
  · rintro ⟨u, utx, hu, howner⟩
    exact ((h.parent_of_owner hu howner (h.transaction_kind t tx ht)).2 tx ht).2
  · obtain ⟨hlt, hsame⟩ := h.parent_of_owner hu howner (h.transaction_kind t tx ht)
    refine ⟨hlt, (hsame tx ht).1.symm, fun u' utx' hu' howner' => ?_⟩
    exact h.owner_unique u' utx' u utx hu' hu (howner'.trans howner.symm)

/-- With any bound above the number of transactions letting go of an owner does the same, in
every state whose transactions have been given handles, as all have after any calls. -/
theorem muxRcDec_bound (env : Environment) :
    (∀ (n : Nat) (owner : Handle) (s : State), s.Numbered → s.size < n →
      rcDec env n owner s = muxRcDec env owner s) ∧
    ∀ calls, (Machine.run (State.after env) State.initial calls).Numbered := by
  refine ⟨fun n owner s hs hn => ?_, fun calls => (run_whole env calls).transactions_below⟩
  exact rcDec_agree n (s.size + 1) owner s hs (lt_min hn (Nat.lt_succ_self _))

/-- A transaction in another one, whose owner is let go of. -/
theorem muxRcDec_bound_nested :
    let s := Machine.run (State.after calm) State.initial
      [.connect .sqlite, .beginTransaction 1, .beginNested 2]
    s.size = 2 ∧ rcDec calm 100 2 s = muxRcDec calm 2 s := by
  intro s
  have hsize : s.size = 2 := by decide +kernel
  have h := muxRcDec_bound calm
  exact ⟨hsize, h.1 100 2 s (h.2 _) (by omega)⟩

end Sql
end MuxRuntime
