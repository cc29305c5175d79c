import MuxRuntime.Sql.Outcomes

/-!
# An open result set and its connection

A result set that was read from a connection holds a lease on it, and the calls
on that connection are to fail until the result set is finished. The statement
that opens a transaction is the exception: it is sent without a look at the
leases.
-/

namespace MuxRuntime
namespace Sql

open List Registry State

variable {env : Environment} {s s' : State}

/-- The commands a call sends. -/
def State.sent (env : Environment) (s : State) (call : Call) : List (SqlConnection × Command) :=
  (s.after env call).log.drop s.log.length

/-- The call leaves every leased connection alone, and fails where it is about one. -/
def Exclusive (env : Environment) (s : State) (call : Call) : Prop :=
  ∀ h, s.Leased h → (∀ e ∈ s.sent env call, e.1.id ≠ h) ∧
      (call.target s = some h → ∃ e, (s.perform env call).1 = .error e)

/-! ## Leased connections stay -/

/-- A leased connection is in the registry of connections. -/
def Kept (s : State) : Prop :=
  ∀ h, s.Leased h → ∃ c, s.connections h = some c

lemma Kept.congr (h : Kept s) (hresultsets : s'.resultsets = s.resultsets)
    (hconnections : s'.connections = s.connections) : Kept s' := by
  rintro k ⟨r, rs, hr, hlease⟩
  rw [hconnections]
  exact h k ⟨r, rs, hresultsets ▸ hr, hlease⟩

lemma Kept.tidies {debts : List Handle} (h : Kept s) (hs : Sound debts s) (ht : Tidies s s') :
    Kept s' := by
  rintro k ⟨r, rs, hr, hlease⟩
  have hleased : s.Leased k := ⟨r, rs, ht.resultsets ▸ hr, hlease⟩
  exact ht.leased_connection k ((hs.connection_leased_iff k).mpr hleased) (h k hleased)

variable {h : Handle}

lemma releaseConnectionLease_connections (k : Handle) (s : State)
    (hleased : (s.releaseConnectionLease k).connectionHasResultsetLease h = true) :
    (s.releaseConnectionLease k).connections h = s.connections h := by
  revert hleased
  unfold releaseConnectionLease
  split
  · exact fun _ => rfl
  dsimp only
  split_ifs
  · intro hleased
    refine remove_of_ne ?_
    rintro rfl
    simp [connectionHasResultsetLease] at hleased
  · exact fun _ => rfl
  · exact fun _ => rfl

section Releasing

variable {debts : List Handle} {r : Handle} {rs : SqlResultSet} {left : Option SqlResultSet}

lemma Leased.of_set (hleft : Unleased left)
    (hleased : ({ s with resultsets := s.resultsets.set r left } : State).Leased h) :
    s.Leased h := by
  obtain ⟨j, js, hj, hlease⟩ := hleased
  by_cases heq : j = r
  · subst heq
    have hnone := (hleft js (set_self.symm.trans hj)).1
    rw [hlease] at hnone
    cases hnone
  · exact ⟨j, js, (set_of_ne heq).symm.trans hj, hlease⟩

variable (env left) in
/-- Finishing a result set sends commands only for a transaction. -/
lemma releaseResultsetLeases_sends (hw : Whole debts s) (hr : s.resultsets r = some rs) :
    ∃ sent, (releaseResultsetLeases env rs.connectionLease rs.transactionLease
        { s with resultsets := s.resultsets.set r left }).log = s.log ++ sent ∧
      ∀ e ∈ sent, s.Holds e.1 := by
  rcases releaseResultsetLeases_cases env left hw hr with ⟨k, heq⟩ | ⟨leases, ht⟩
  · rw [heq, (releaseConnectionLease_frame k _).2.2]
    exact ⟨[], (append_nil _).symm, by simp⟩
  · exact ht.log

/-- Finishing a result set takes no leased connection away. -/
lemma releaseResultsetLeases_kept (hw : Whole debts s) (h : Kept s)
    (hr : s.resultsets r = some rs) (hleft : Unleased left) :
    Kept (releaseResultsetLeases env rs.connectionLease rs.transactionLease
      { s with resultsets := s.resultsets.set r left }) := by
  have hwhole := releaseResultsetLeases_whole env hw hr hleft
  intro j hj
  rcases releaseResultsetLeases_cases env left hw hr with ⟨k, heq⟩ | ⟨leases, ht⟩
  · have hflag := (hwhole.connection_leased_iff j).mpr hj
    rw [heq] at hflag hj ⊢
    rw [releaseConnectionLease_connections k _ hflag]
    obtain ⟨i, is, hi, hlease⟩ := hj
    rw [(releaseConnectionLease_frame k _).1] at hi
    exact h j (Leased.of_set hleft ⟨i, is, hi, hlease⟩)
  · obtain ⟨i, is, hi, hlease⟩ := hj
    rw [ht.resultsets] at hi
    have hleased : s.Leased j := Leased.of_set hleft ⟨i, is, hi, hlease⟩
    exact ht.leased_connection j ((hw.connection_leased_iff j).mpr hleased) (h j hleased)

end Releasing

/-! ## Commands -/

/-- Commands were sent, over connections with a property. -/
def Sends (s s' : State) (P : SqlConnection → Prop) : Prop :=
  ∃ sent, s'.log = s.log ++ sent ∧ ∀ e ∈ sent, P e.1

variable {P : SqlConnection → Prop}

lemma Sends.none (hlog : s'.log = s.log) : Sends s s' P := ⟨[], by rw [hlog, append_nil], by simp⟩

lemma Sends.mem (h : Sends s s' P) {e : SqlConnection × Command}
    (he : e ∈ s'.log.drop s.log.length) : P e.1 := by
  obtain ⟨sent, hlog, hsent⟩ := h
  rw [hlog, drop_left] at he
  exact hsent e he

/-! ## What calls send and keep -/

variable {call : Call} {c : SqlConnection}

lemma Sends.over {sent : List (SqlConnection × Command)} (hlog : s'.log = s.log ++ sent)
    (hsent : ∀ e ∈ sent, e.1 = c) (hc : Sendable s call c) : Sends s s' (Sendable s call) :=
  ⟨sent, hlog, fun e he => hsent e he ▸ hc⟩

/-- Commands go only over connections that the call may use. -/
theorem outcome_sends (h : Outcome env s call s') : Sends s s' (Sendable s call) := by
  cases h with
  | tidied hwhole hvalues ht hw' =>
    obtain ⟨sent, hlog, hsent⟩ := ht.log
    exact ⟨sent, hlog, fun e he => .inl (hsent e he)⟩
  | @closed h s' hcall hopen ht hw' =>
    obtain ⟨values, hvalues⟩ := writeHandle_frame h 0 s'
    obtain ⟨sent, hlog, hsent⟩ := ht.log
    exact ⟨sent, by rw [hvalues, hlog], fun e he => .inl (hsent e he)⟩
  | connected backend | advanced hr hconn htx => exact Sends.none rfl
  | sent hn hc hsent => exact Sends.over rfl hsent hc
  | queried hopen hc hsend hsent htx | opened hopen hopens hidle hsend hsent =>
    exact Sends.over rfl hsent hsend
  | queriedIn ht hc hsent hconn => exact Sends.over rfl hsent (sendable_of_holds ht hc)
  | nested ht hc hfree => exact Sends.over rfl (by simp) (sendable_of_holds ht hc)
  | @released r rs left values hr hleft hwhole hvalues =>
    obtain ⟨sent, hlog, hsent⟩ := releaseResultsetLeases_sends env left hwhole hr
    exact ⟨sent, hlog, fun e he => .inl (hsent e he)⟩

/-- No leased connection leaves the registry, if no transaction is opened on it. -/
theorem outcome_kept (hw : Whole [] s) (h : Outcome env s call s') (hk : Kept s)
    (hnot : ¬OpensUnderLease s call) : Kept s' := by
  cases h with
  | @tidied values s' hwhole hvalues ht hw' =>
    have hkept : Kept { s with values := values } := hk.congr rfl rfl
    exact hkept.tidies hwhole.toSound ht
  | @closed h s' hcall hopen ht hw' =>
    obtain ⟨values, hvalues⟩ := writeHandle_frame h 0 s'
    rw [hvalues]
    exact (hk.tidies hw.toSound ht).congr rfl rfl
  | connected backend =>
    intro k hleased
    obtain ⟨c, hc⟩ := hk k hleased
    refine ⟨c, insert_eq_some_iff.mpr (.inr ⟨?_, hc⟩)⟩
    exact ne_of_lt (hw.connections_below k c hc)
  | sent hn hc hsent | nested ht hc hfree => exact hk.congr rfl rfl
  | @queried h c sent rs hopen hc hsend hsent htx =>
    rintro j ⟨r, rs', hr, hlease⟩
    rcases insert_eq_some_iff.mp hr with ⟨rfl, rfl⟩ | ⟨-, hr⟩
    · cases hlease
      exact ⟨c, hc⟩
    · exact hk j ⟨r, rs', hr, hlease⟩
  | @opened h c sent hopen hopens hidle hsend hsent =>
    intro j hleased
    have hold : s.Leased j := hleased
    obtain ⟨c', hc'⟩ := hk j hold
    refine ⟨c', remove_eq_some_iff.mpr ⟨?_, hc'⟩⟩
    rintro rfl
    exact hnot ⟨j, c, hopens, hold⟩
  | queriedIn ht hc hsent hconn =>
    rintro j ⟨r, rs', hr, hlease⟩
    rcases insert_eq_some_iff.mp hr with ⟨rfl, rfl⟩ | ⟨-, hr⟩
    · rw [hconn] at hlease
      cases hlease
    · exact hk j ⟨r, rs', hr, hlease⟩
  | advanced hr hconn htx =>
    rintro j ⟨i, is, hi, hlease⟩
    rcases insert_eq_some_iff.mp hi with ⟨rfl, rfl⟩ | ⟨-, hi⟩
    · exact hk j ⟨_, _, hr, hconn.symm.trans hlease⟩
    · exact hk j ⟨i, is, hi, hlease⟩
  | released hr hleft hwhole hvalues =>
    exact releaseResultsetLeases_kept hwhole (hk.congr rfl rfl) hr hleft

/-! ## The statements that open a transaction -/

variable {level : String} {reads defers : Bool} {statements : List Command}

lemma beginStatements_ne_nil {backend : SqlBackend}
    (h : beginStatements backend level reads defers = .ok statements) : statements ≠ [] := by
  obtain ⟨isolation, -, h⟩ := Loop.bind_eq_ok h
  cases backend with
  | sqlite | postgres | mySql | sqlServer =>
    dsimp only at h
    split at h
    · cases h
    · cases h
      simp

lemma beginStatements_default (backend : SqlBackend) :
    ∃ statements, beginStatements backend "default" false false = .ok statements := by
  cases backend with
  | sqlite | postgres | mySql | sqlServer => exact ⟨_, rfl⟩

/-! ## Runs -/

/-- What every call keeps, unless it opens a transaction under a lease. -/
structure Guarded (s : State) : Prop where
  whole : Whole [] s
  kept : Kept s

lemma Guarded.after (h : Guarded s) (hnot : ¬OpensUnderLease s call) :
    Guarded (s.after env call) where
  whole := after_whole h.whole call
  kept := outcome_kept h.whole (after_outcome env h.whole call) h.kept hnot

lemma initial_guarded : Guarded State.initial where
  whole := initial_whole
  kept := by
    rintro h ⟨r, rs, hr, -⟩
    cases hr

variable {k : Handle}

/-- No transaction has a leased connection. -/
lemma Guarded.no_transaction (h : Guarded s) (hk : s.Leased k) {t : Handle}
    {tx : SqlTransaction} (ht : s.transactions t = some tx) : tx.connectionHandle ≠ k :=
  let ⟨c, hc⟩ := h.kept k hk
  h.whole.idle k c t tx hc ht

/-- Nothing is sent over a leased connection, but to open a transaction on it. -/
lemma Guarded.sent_ne (h : Guarded s) (hnot : ¬OpensUnderLease s call) (hk : s.Leased k)
    {e : SqlConnection × Command} (he : e ∈ s.sent env call) : e.1.id ≠ k := by
  rcases (outcome_sends (after_outcome env h.whole call)).mem he with
    ⟨t, tx, ht, hc⟩ | ⟨j, -, hc, hopens⟩
  · rw [h.whole.transaction_id t tx e.1 ht hc]
    exact h.no_transaction hk ht
  · rw [h.whole.connection_id j e.1 hc]
    rintro rfl
    exact hnot (hopens hk)

lemma withConnection_leased {α : Type} (hleased : s.connectionHasResultsetLease h = true)
    (op : SqlConnection → State → Except String α × State) :
    ∃ e, s.withConnection h op = (.error e, s) :=
  ⟨_, if_pos hleased⟩

/-- A call about a leased connection fails, unless it opens a transaction. -/
lemma Guarded.refused (h : Guarded s) (hnot : ¬OpensUnderLease s call) (hk : s.Leased k)
    (htarget : call.target s = some k) : ∃ e, (s.perform env call).1 = .error e := by
  have hflag : s.connectionHasResultsetLease k = true := (h.whole.connection_leased_iff k).mpr hk
  have hon : ∀ {v}, (s.connectionHandle v).toOption = some k → s.connectionHandle v = .ok k := by
    intro v hv
    cases hok : s.connectionHandle v with
    | error e => simp [hok, Except.toOption] at hv
    | ok j => simpa [hok, Except.toOption] using hv
  -- a transaction on the connection would have taken it out of the registry
  have hno : ∀ {v}, (s.transactionHandle v).toOption.bind (fun t =>
      (s.transactions t).map SqlTransaction.connectionHandle) ≠ some k := by
    intro v hv
    obtain ⟨t, -, hv⟩ := Option.bind_eq_some_iff.mp hv
    obtain ⟨tx, ht, hv⟩ := Option.map_eq_some_iff.mp hv
    exact h.no_transaction hk ht hv
  cases call with
  | execute v sql params =>
    obtain ⟨e, heq⟩ := withConnection_leased hflag (executeOnConnection env sql params)
    refine ⟨e, ?_⟩
    simp only [perform, onHandle, hon htarget, connectionExecute, heq]
  | query v sql params =>
    obtain ⟨e, heq⟩ := withConnection_leased hflag (queryStreaming env sql params)
    refine ⟨e, ?_⟩
    simp only [perform, onHandle, hon htarget, connectionQuery, heq]
  | beginTransaction v =>
    obtain ⟨c, hc⟩ := h.kept k hk
    obtain ⟨statements, hbegin⟩ := beginStatements_default c.backend
    exact absurd ⟨k, c, ⟨v, _, _, _, statements, rfl, hon htarget, hc, hbegin⟩, hk⟩ hnot
  | beginTransactionWithOptions v isolation readOnly deferrable =>
    simp only [perform, onHandle, hon htarget]
    rcases optionsOf_cases env v k isolation readOnly deferrable s with
      ⟨e, heq⟩ | ⟨level, reads, defers, rfl, rfl, rfl, -, heq⟩
    · exact ⟨e, congrArg Prod.fst heq⟩
    rw [heq]
    rcases openTransaction_cases env v k level reads defers s with
      ⟨e, heq⟩ | ⟨c, statements, sent, hc, hbegin, -⟩
    · exact ⟨e, congrArg Prod.fst heq⟩
    · exact absurd ⟨k, c, ⟨v, level, reads, defers, statements, rfl, hon htarget, hc, hbegin⟩,
        hk⟩ hnot
  | transactionExecute v sql params | transactionQuery v sql params | beginNested v | commit v
  | rollback v => exact absurd htarget hno
  | connect backend | close v | resultsetClose v | resultsetRows v | resultsetNext v
  | resultsetNextBatch v limit | retain v | release v => cases htarget

lemma Guarded.exclusive (h : Guarded s) (hnot : ¬OpensUnderLease s call) : Exclusive env s call :=
  fun _ hk => ⟨fun _ he => h.sent_ne hnot hk he, fun htarget => h.refused hnot hk htarget⟩

/-! ### Transactions that are opened under a lease -/

variable (env) in
/-- Opening a transaction sends a command over the connection, even where it fails. -/
lemma openTransaction_sends (v : Handle) (hc : s.connections h = some c)
    (hbegin : beginStatements c.backend level reads defers = .ok statements) :
    ∃ e ∈ (openTransaction env v h level reads defers s).2.log.drop s.log.length, e.1 = c := by
  obtain ⟨failed, sent, heq, hsent, hne, -⟩ := issueAll_eq env c statements
    { s with connections := s.connections.remove h }
  have hlog : (openTransaction env v h level reads defers s).2.log = s.log ++ sent := by
    simp only [openTransaction, hc, hbegin, heq]
    cases failed <;> rfl
  obtain ⟨e, he⟩ := exists_mem_of_ne_nil sent (hne (beginStatements_ne_nil hbegin))
  refine ⟨e, ?_, hsent e he⟩
  rw [hlog, drop_left]
  exact he

lemma not_exclusive_of_open {v : Handle} (h : Guarded s) (hk : s.Leased k)
    (hc : s.connections k = some c)
    (hbegin : beginStatements c.backend level reads defers = .ok statements)
    (hperform : s.perform env call = openTransaction env v k level reads defers s) :
    ¬Exclusive env s call := by
  intro hexclusive
  obtain ⟨e, he, hid⟩ := openTransaction_sends env v hc hbegin
  refine (hexclusive k hk).1 e ?_ ?_
  · rw [State.sent, State.after, hperform]
    exact he
  · rw [hid]
    exact h.whole.connection_id k c hc

/-- A transaction that is opened under a lease sends a command over the leased connection. -/
lemma Guarded.not_exclusive (h : Guarded s) (hopens : OpensUnderLease s call) :
    ¬Exclusive env s call := by
  -- there is no transaction on the connection yet, so the first check passes
  have hidle : ∀ {k}, s.Leased k → s.connectionHasActiveTransaction k = false := by
    intro k hk
    rw [Bool.eq_false_iff]
    intro hactive
    obtain ⟨t, tx, ht, hsame⟩ := (h.whole.active_iff k).mp hactive
    exact h.no_transaction hk ht hsame
  obtain ⟨k, c, ⟨v, level, reads, defers, statements, hoptions, hv, hc, hbegin⟩, hk⟩ := hopens
  refine not_exclusive_of_open h hk hc hbegin (v := v) ?_
  unfold Call.options at hoptions
  split at hoptions
  · cases hoptions
    simp [perform, onHandle, hv, connectionBeginTransaction, hidle hk]
  · cases hoptions
    simp [perform, onHandle, hv, connectionBeginTransactionWithOptions, valueToString, hidle hk]
  · cases hoptions

/-- In a run of any calls, every call leaves the leased connections alone, and fails where
it is about one, if and only if no call opens a transaction on a leased connection. -/
theorem exclusive_iff (env : Environment) (calls : List Call) :
    Machine.Always (State.after env) (Exclusive env) State.initial calls ↔
      Machine.Always (State.after env) (fun s call => ¬OpensUnderLease s call) State.initial
        calls := by
  refine Machine.always_iff (I := Guarded) ?_ initial_guarded ?_
  · exact fun s call h hnot => h.after hnot
  · intro s call h
    exact ⟨fun hexclusive hopens => h.not_exclusive hopens hexclusive, fun hnot => h.exclusive hnot⟩

/-- A query leaves a result set open, and the transaction is opened over it. -/
theorem begin_sent_under_lease :
    let s := Machine.run (State.after calm) State.initial [.connect .sqlite, .query 1 [] 0]
    s.Leased 1 ∧
      s.sent calm (.beginTransaction 1) = [(⟨1, .sqlite⟩, .control "BEGIN TRANSACTION")] ∧
      (s.perform calm (.beginTransaction 1)).1 = .ok (.value 3) ∧
      ¬Machine.Always (State.after calm) (Exclusive calm) State.initial
        [.connect .sqlite, .query 1 [] 0, .beginTransaction 1] := by
  intro s
  have hleased : s.Leased 1 := ⟨2, _, rfl, rfl⟩
  refine ⟨hleased, rfl, rfl, ?_⟩
  intro h
  exact (h.2.2.1 1 hleased).1 (⟨1, .sqlite⟩, .control "BEGIN TRANSACTION")
    (mem_singleton.mpr rfl) rfl

end Sql
end MuxRuntime
