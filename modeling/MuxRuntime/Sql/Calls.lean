import MuxRuntime.Sql.Ownership

/-!
# The steps of calls keep the registries whole

A call of the program draws handles, stores what it opened, moves connections and
releases leases. Each of these steps keeps the invariant of the registries.
-/

namespace MuxRuntime
namespace Sql

open Registry State

variable {env : Environment} {s : State} {debts : List Handle}

/-! ## Leases -/

variable {leases : Registry Nat}

section Leases

variable {r k : Handle} {rs : SqlResultSet} {left : Option SqlResultSet}

/-- A result set without leases, or none, is left under the handle. -/
def Unleased (left : Option SqlResultSet) : Prop :=
  ∀ rs, left = some rs → rs.connectionLease = none ∧ rs.transactionLease = none

variable (lease : SqlResultSet → Option Handle)

section

variable (h : Sound debts s)

include h

lemma one_lease_set (hleft : Unleased left) : ∀ j js, s.resultsets.set r left j = some js →
      js.connectionLease = none ∨ js.transactionLease = none := by
  intro j js hj
  by_cases heq : j = r
  · subst heq
    rw [set_self] at hj
    exact .inl (hleft js hj).1
  · rw [set_of_ne heq] at hj
    exact h.one_lease j js hj

variable (hr : s.resultsets r = some rs)

include hr

lemma openOn_set (hleft : ∀ rs, left = some rs → lease rs = none) (k : Handle) :
    ({ s with resultsets := s.resultsets.set r left } : State).openOn lease k +
      (if lease rs = some k then 1 else 0) = s.openOn lease k := by
  have hcount := count_set (r := s.resultsets) (v := left)
    (p := fun rs => lease rs == some k) (h.resultsets_below r rs hr)
  have hzero : Registry.weight (fun rs => lease rs == some k) left = 0 := by
    cases hl : left with
    | none => rfl
    | some rs' => simp [Registry.weight, hleft rs' hl]
  rw [hzero, hr] at hcount
  simpa [Registry.weight, openOn] using hcount

lemma openOn_set_of_none (hleft : ∀ rs, left = some rs → lease rs = none) (hnone : lease rs = none)
    (k : Handle) :
    ({ s with resultsets := s.resultsets.set r left } : State).openOn lease k = s.openOn lease k := by
  have hset := openOn_set lease h hr hleft k
  rwa [hnone, if_neg (by simp), Nat.add_zero] at hset

/-- The number of leases after one on `k` is released. -/
lemma leaseEntry_release {lease : SqlResultSet → Option Handle}
    (hleft : ∀ rs, left = some rs → lease rs = none) (hlease : lease rs = some k)
    (hcount : ∀ k, leases k = leaseEntry (s.openOn lease k)) (j : Handle) :
    leases.set k (leaseEntry (s.openOn lease k - 1)) j = leaseEntry
      (({ s with resultsets := s.resultsets.set r left } : State).openOn lease j) := by
  have hset := openOn_set lease h hr hleft j
  rw [hlease] at hset
  by_cases hj : j = k
  · subst hj
    rw [if_pos rfl] at hset
    rw [set_self, ← hset, Nat.add_sub_cancel]
  · rw [if_neg (fun heq => hj (Option.some.inj heq).symm), Nat.add_zero] at hset
    rw [set_of_ne hj, hcount, hset]

lemma resultsets_below_set : (s.resultsets.set r left).Below s.next := by
  intro j js hj
  by_cases heq : j = r
  · subst heq
    exact h.resultsets_below j rs hr
  · rw [set_of_ne heq] at hj
    exact h.resultsets_below j js hj

/-- The entry of a handle a result set has its lease on. -/
lemma leases_of_leased {lease : SqlResultSet → Option Handle} (hlease : lease rs = some k)
    (hcount : ∀ k, leases k = leaseEntry (s.openOn lease k)) : leases k = some (s.openOn lease k) := by
  have hset := @openOn_set _ _ _ _ none lease h hr nofun k
  rw [hlease, if_pos rfl] at hset
  rw [hcount, leaseEntry, if_neg (Nat.ne_of_gt (hset ▸ Nat.succ_pos _))]

end

/-- Leases that are left after one is released. -/
lemma leased_of_set {j n : Nat} (h : decide (0 < (leases j).getD 0) = true)
    (hmore : j = k → n ≠ 0) : decide (0 < ((leases.set k (leaseEntry n)) j).getD 0) = true := by
  by_cases heq : j = k
  · subst heq
    simp only [set_self, getD_leaseEntry, decide_eq_true_eq]
    exact Nat.pos_of_ne_zero (hmore rfl)
  · rwa [set_of_ne heq]

section

variable (h : Whole debts s) (hr : s.resultsets r = some rs) (hleft : Unleased left)

include h hr hleft

/-- A released lease is counted off, and connections may go with the last one. -/
lemma Whole.releaseConnection (hlease : rs.connectionLease = some k)
    (connections : Registry SqlConnection) (pending : Finset Handle)
    (hsub : ∀ j c, connections j = some c → s.connections j = some c)
    (hpending : ∀ j ∈ pending, j ∈ s.connectionClosePending ∧
      (j = k → s.openOn (·.connectionLease) k - 1 ≠ 0)) :
    Whole debts { s with
      resultsets := s.resultsets.set r left
      connectionLeases := s.connectionLeases.set k
        (leaseEntry (s.openOn (·.connectionLease) k - 1))
      connections := connections
      connectionClosePending := pending } := by
  have hnone : rs.transactionLease = none := (h.one_lease r rs hr).resolve_left (by simp [hlease])
  exact { h with
    connections_below := fun j c hj => h.connections_below j c (hsub j c hj)
    resultsets_below := resultsets_below_set h.toSound hr
    connection_kind := fun j c hj => h.connection_kind j c (hsub j c hj)
    connection_id := fun j c hj => h.connection_id j c (hsub j c hj)
    idle := fun j c t tx hj => h.idle j c t tx (hsub j c hj)
    connection_count := leaseEntry_release h.toSound hr (fun rs hl => (hleft rs hl).1) hlease
      h.connection_count
    transaction_count := fun t => (h.transaction_count t).trans
      (congrArg leaseEntry (openOn_set_of_none (·.transactionLease) h.toSound hr
        (fun rs hl => (hleft rs hl).2) hnone t).symm)
    one_lease := one_lease_set h.toSound hleft
    connection_pending := fun j hj =>
      leased_of_set (h.connection_pending j (hpending j hj).1) (hpending j hj).2 }

lemma releaseConnectionLease_whole (hlease : rs.connectionLease = some k) :
    Whole debts (({ s with resultsets := s.resultsets.set r left }).releaseConnectionLease k) := by
  unfold releaseConnectionLease
  simp only [leases_of_leased h.toSound hr hlease h.connection_count]
  split_ifs with hlast hpending
  · have := h.releaseConnection hr hleft hlease (s.connections.remove k)
      (s.connectionClosePending.erase k)
      (fun j c hj => (remove_eq_some_iff.mp hj).2)
      (fun j hj => ⟨Finset.mem_of_mem_erase hj, fun heq => absurd heq (Finset.ne_of_mem_erase hj)⟩)
    rwa [hlast] at this
  · have := h.releaseConnection hr hleft hlease s.connections
      s.connectionClosePending (fun _ _ hj => hj)
      (fun j hj => ⟨hj, fun heq => absurd (heq ▸ hj) hpending⟩)
    rwa [hlast] at this
  · have := h.releaseConnection hr hleft hlease s.connections
      s.connectionClosePending (fun _ _ hj => hj) (fun j hj => ⟨hj, fun _ => hlast⟩)
    rwa [leaseEntry, if_neg hlast] at this

lemma Whole.releaseTransaction (hlease : rs.transactionLease = some k) (pending : Finset Handle)
    (hpending : ∀ j ∈ pending, j ∈ s.transactionClosePending ∧
      (j = k → s.openOn (·.transactionLease) k - 1 ≠ 0)) :
    Whole debts { s with
      resultsets := s.resultsets.set r left
      transactionLeases := s.transactionLeases.set k
        (leaseEntry (s.openOn (·.transactionLease) k - 1))
      transactionClosePending := pending } := by
  have hnone : rs.connectionLease = none := (h.one_lease r rs hr).resolve_right (by simp [hlease])
  refine { h with
    resultsets_below := resultsets_below_set h.toSound hr
    transaction_count := leaseEntry_release h.toSound hr (fun rs hl => (hleft rs hl).2) hlease
      h.transaction_count
    connection_count := fun t => (h.connection_count t).trans
      (congrArg leaseEntry (openOn_set_of_none (·.connectionLease) h.toSound hr
        (fun rs hl => (hleft rs hl).1) hnone t).symm)
    one_lease := one_lease_set h.toSound hleft
    leased_holds := ?_
    transaction_pending := fun j hj =>
      leased_of_set (h.transaction_pending j (hpending j hj).1) (hpending j hj).2 }
  intro j hj
  refine h.leased_holds j ?_
  by_cases heq : j = k
  · exact heq ▸ (h.transaction_leased_iff k).mpr ⟨r, rs, hr, hlease⟩
  · unfold transactionHasResultsetLease at hj ⊢
    simpa only [set_of_ne heq] using hj

lemma releaseTransactionLease_whole (hlease : rs.transactionLease = some k) :
    Whole debts (releaseTransactionLease env k
      { s with resultsets := s.resultsets.set r left }) := by
  unfold releaseTransactionLease
  simp only [leases_of_leased h.toSound hr hlease h.transaction_count]
  split_ifs with hlast
  · refine finishDeferredTransaction_whole ?_ ?_ ?_
    · have := h.releaseTransaction hr hleft hlease (s.transactionClosePending.erase k)
        (fun j hj => ⟨Finset.mem_of_mem_erase hj,
          fun heq => absurd heq (Finset.ne_of_mem_erase hj)⟩)
      rwa [hlast] at this
    · simp [transactionHasResultsetLease]
    · intro tx ht
      obtain ⟨tx', c, ht', hc⟩ := h.leased_holds k
        ((h.transaction_leased_iff k).mpr ⟨r, rs, hr, hlease⟩)
      obtain rfl : tx' = tx := Option.some.inj (ht'.symm.trans ht)
      exact ⟨c, hc⟩
  · have := h.releaseTransaction hr hleft hlease s.transactionClosePending
      (fun j hj => ⟨hj, fun _ => hlast⟩)
    rwa [leaseEntry, if_neg hlast] at this

end

variable (env) in
/-- A result set is finished or dropped, and its lease released. -/
theorem releaseResultsetLeases_whole (h : Whole debts s) (hr : s.resultsets r = some rs)
    (hleft : Unleased left) :
    Whole debts (releaseResultsetLeases env rs.connectionLease rs.transactionLease
      { s with resultsets := s.resultsets.set r left }) := by
  cases hconn : rs.connectionLease with
  | some k =>
    rw [(h.one_lease r rs hr).resolve_left (by simp [hconn])]
    exact releaseConnectionLease_whole h hr hleft hconn
  | none => ?_
  cases htx : rs.transactionLease with
  | some k => exact releaseTransactionLease_whole h hr hleft htx
  | none => ?_
  exact { h with
    resultsets_below := resultsets_below_set h.toSound hr
    connection_count := fun k => (h.connection_count k).trans
      (congrArg leaseEntry (openOn_set_of_none (·.connectionLease) h.toSound hr
        (fun rs hl => (hleft rs hl).1) hconn k).symm)
    transaction_count := fun k => (h.transaction_count k).trans
      (congrArg leaseEntry (openOn_set_of_none (·.transactionLease) h.toSound hr
        (fun rs hl => (hleft rs hl).2) htx k).symm)
    one_lease := one_lease_set h.toSound hleft }

lemma Unleased.finished (rs : SqlResultSet) : Unleased (some (finishResultset rs)) := by
  rintro _ ⟨⟩
  exact ⟨rfl, rfl⟩

end Leases

/-! ## Opening -/

section Opening

variable {k : Handle}

section

variable (h : Whole debts s)

include h

lemma Whole.drawHandles {n : Handle} (hn : s.next ≤ n) : Whole debts { s with next := n } := by
  have hopen : ∀ lease k, ({ s with next := n } : State).openOn lease k = s.openOn lease k :=
    fun lease k => count_eq_of_le h.resultsets_below hn
  exact { h with
    next_pos := h.next_pos.trans_le hn
    connections_below := h.connections_below.mono hn
    transactions_below := h.transactions_below.mono hn
    resultsets_below := h.resultsets_below.mono hn
    values_below := h.values_below.mono hn
    connection_count := fun k => by rw [hopen]; exact h.connection_count k
    transaction_count := fun k => by rw [hopen]; exact h.transaction_count k }

lemma Whole.drawHandle : Whole debts { s with next := s.next + 1 } := h.drawHandles (Nat.le_succ _)

/-- A value for a handle that had none. -/
lemma Whole.createValue (hk : k < s.next) (hfresh : s.values k = none) (kind : Kind) :
    Whole debts (s.createHandleValue k kind) := by
  have hne : ∀ j κ, s.kind j = some κ → j ≠ k := by
    rintro j κ hj rfl
    simp [State.kind, hfresh] at hj
  have hkind : ∀ j κ, s.kind j = some κ → (s.createHandleValue k kind).kind j = some κ := by
    intro j κ hj
    rw [← hj]
    simp [State.kind, createHandleValue, hne j κ hj]
  refine { h with
    values_below := h.values_below.insert hk
    value_handle := forall_insert h.value_handle (.inl rfl)
    connection_kind := fun j c hj => hkind _ _ (h.connection_kind j c hj)
    transaction_kind := fun t tx ht => hkind _ _ (h.transaction_kind t tx ht)
    handle_kind := fun t tx ht => hkind _ _ (h.handle_kind t tx ht)
    nested := ?_
    owned := ?_ }
  · intro t tx p name ht hparent
    obtain ⟨howner, hlt, hp, hptx⟩ := h.nested t tx p name ht hparent
    exact ⟨howner, hlt, hkind _ _ hp, hptx⟩
  intro t tx ht
  obtain ⟨v, hv, hcount⟩ := h.owned t tx ht
  refine ⟨v, insert_eq_some_iff.mpr (.inr ⟨?_, hv⟩), hcount⟩
  rintro heq
  rw [heq, hfresh] at hv
  cases hv

lemma Whole.rcInc (k : Handle) : Whole debts (s.rcInc k) := by
  unfold State.rcInc
  cases hv : s.values k with
  | none => exact h
  | some v =>
    exact h.setValue hv rfl (.inl rfl) (fun hcount => Nat.lt_succ_of_lt hcount)
      (fun _ _ => le_refl _)

/-- A connection is put under a handle no transaction has. -/
lemma Whole.insertConnection {c : SqlConnection} (hid : c.id = k)
    (hkind : s.kind k = some .connection) (hbelow : k < s.next)
    (hidle : ∀ t tx, s.transactions t = some tx → tx.connectionHandle ≠ k) :
    Whole debts { s with connections := s.connections.insert k c } := by
  refine { h with
    connections_below := h.connections_below.insert hbelow
    connection_kind := forall_insert h.connection_kind hkind
    connection_id := forall_insert h.connection_id hid
    idle := ?_ }
  have := h.idle
  grind

end

/-- A transaction that takes over a connection is stored under a new handle. -/
lemma Sound.insertTransaction (h : Sound debts s) {x : SqlTransaction} {c : SqlConnection}
    (hkind : s.kind k = some .transaction) (hnew : ∀ t ttx, s.transactions t = some ttx → t < k)
    (hbelow : k < s.next) (hactive : x.active = true) (hc : x.connection = some c)
    (hid : c.id = x.connectionHandle)
    (hhandle : s.kind x.connectionHandle = some .connection)
    (hidle : s.connections x.connectionHandle = none)
    (hunique : ∀ t ttx c, s.transactions t = some ttx → ttx.connection = some c →
      ttx.connectionHandle ≠ x.connectionHandle)
    (hroot : x.parent = none → x.owner = x.connectionHandle)
    (hnested : ∀ p name, x.parent = some (p, name) → x.owner = p ∧ p < k ∧
      s.kind p = some .transaction ∧ ∀ ptx, s.transactions p = some ptx →
        ptx.connectionHandle = x.connectionHandle ∧ ptx.connection = none)
    (howner : ∀ t ttx, s.transactions t = some ttx → ttx.owner ≠ x.owner)
    (howned : ∃ v, s.values x.owner = some v ∧ debts.count x.owner < v.owners) :
    Sound debts { s with transactions := s.transactions.insert k x } := by
  refine { h with
    transactions_below := h.transactions_below.insert hbelow
    transaction_kind := forall_insert h.transaction_kind hkind
    transaction_id := ?_
    active := forall_insert h.active hactive
    idle := ?_, unique := ?_
    handle_kind := forall_insert h.handle_kind hhandle
    root := forall_insert h.root hroot
    nested := ?_, owner_unique := ?_
    owned := forall_insert h.owned howned
    leased_holds := ?_ }
  · have := h.transaction_id
    grind
  · have := h.idle
    grind
  · have := h.unique
    grind
  · have := h.nested
    grind [State.kind]
  · have := h.owner_unique
    grind
  · intro t hleased
    obtain ⟨ttx, c', ht, hc'⟩ := h.leased_holds t hleased
    exact ⟨ttx, c', insert_eq_some_iff.mpr (.inr ⟨ne_of_lt (hnew t ttx ht), ht⟩), hc'⟩

lemma openOn_storeResultset (h : Sound debts s) (rs : SqlResultSet)
    (lease : SqlResultSet → Option Handle) (k : Handle) :
    (s.storeResultset rs).openOn lease k =
      s.openOn lease k + (if lease rs = some k then 1 else 0) := by
  have hfresh : s.resultsets s.next = none := h.resultsets_below.eq_none (le_refl _)
  have hcount := count_insert (r := s.resultsets) (v := rs)
    (p := fun rs => lease rs == some k) (Nat.lt_succ_self s.next)
  rw [hfresh, count_eq_of_le h.resultsets_below (Nat.le_succ _)] at hcount
  simpa [Registry.weight, openOn, storeResultset] using hcount

lemma leaseEntry_store (lease : SqlResultSet → Option Handle) (h : Sound debts s)
    {rs : SqlResultSet} (hlease : lease rs = some k)
    (hcount : ∀ k, leases k = leaseEntry (s.openOn lease k)) (j : Handle) :
    leases.insert k ((leases k).getD 0 + 1) j =
      leaseEntry ((s.storeResultset rs).openOn lease j) := by
  rw [openOn_storeResultset h, hlease]
  by_cases hj : j = k
  · subst hj
    rw [insert_self, hcount, getD_leaseEntry, if_pos rfl, leaseEntry, if_neg (Nat.succ_ne_zero _)]
  · rw [insert_of_ne hj, hcount, if_neg (fun heq => hj (Option.some.inj heq).symm), Nat.add_zero]

lemma one_lease_store (h : Sound debts s) {rs : SqlResultSet}
    (hone : rs.connectionLease = none ∨ rs.transactionLease = none) :
    ∀ j js, s.resultsets.insert s.next rs j = some js →
      js.connectionLease = none ∨ js.transactionLease = none :=
  forall_insert h.one_lease hone

/-- Leases never go when one is added. -/
lemma leased_of_insert {j : Handle} (h : decide (0 < (leases j).getD 0) = true) :
    decide (0 < ((leases.insert k ((leases k).getD 0 + 1)) j).getD 0) = true := by
  by_cases hj : j = k
  · subst hj
    simp
  · rwa [insert_of_ne hj]

lemma Whole.storeConnectionResultset (h : Whole debts s) {rs : SqlResultSet}
    (hfree : rs.transactionLease = none) (k : Handle) :
    Whole debts (s.storeConnectionResultset rs k) := by
  have hdraw := h.drawHandle
  exact { hdraw with
    resultsets_below := hdraw.resultsets_below.insert (Nat.lt_succ_self _)
    connection_count := leaseEntry_store (·.connectionLease) h.toSound rfl h.connection_count
    transaction_count := fun t => (h.transaction_count t).trans (congrArg leaseEntry
      ((openOn_storeResultset h.toSound _ (·.transactionLease) t).trans (by simp [hfree])).symm)
    one_lease := one_lease_store h.toSound (.inr hfree)
    connection_pending := fun j hj => leased_of_insert (h.connection_pending j hj) }

lemma Whole.storeTransactionResultset (h : Whole debts s) {rs : SqlResultSet}
    (hfree : rs.connectionLease = none)
    (hholds : ∃ tx c, s.transactions k = some tx ∧ tx.connection = some c) :
    Whole debts (s.storeTransactionResultset rs k) := by
  have hdraw := h.drawHandle
  refine { hdraw with
    resultsets_below := hdraw.resultsets_below.insert (Nat.lt_succ_self _)
    transaction_count := leaseEntry_store (·.transactionLease) h.toSound rfl h.transaction_count
    connection_count := fun t => (h.connection_count t).trans (congrArg leaseEntry
      ((openOn_storeResultset h.toSound _ (·.connectionLease) t).trans (by simp [hfree])).symm)
    one_lease := one_lease_store h.toSound (.inl hfree)
    leased_holds := ?_
    transaction_pending := fun j hj => leased_of_insert (h.transaction_pending j hj) }
  intro j hj
  by_cases heq : j = k
  · exact heq ▸ hholds
  refine h.leased_holds j ?_
  unfold transactionHasResultsetLease at hj ⊢
  simpa only [State.storeTransactionResultset, State.storeResultset, insert_of_ne heq] using hj

end Opening

/-! ## Calls -/

variable {value handle : Handle}

/-- A value whose handle is accepted. -/
lemma requireHandle_eq_ok_iff {kind : Kind} {label : String} :
    s.requireHandle value kind label = .ok handle ↔
      ∃ v, s.values value = some v ∧ v.program ≠ 0 ∧ v.kind = kind ∧ v.handle ≠ 0 ∧
        v.handle = handle := by
  unfold requireHandle
  rcases hv : s.values value with _ | v
  · simp
  simp only [Option.some.injEq, exists_eq_left']
  split_ifs with hbad
  · simp only [Bool.or_eq_true, decide_eq_true_eq] at hbad
    tauto
  · simp only [Bool.or_eq_true, decide_eq_true_eq, not_or, not_not] at hbad
    simp only [Except.ok.injEq]
    tauto

/-- The handle in a value is the one it was created for. -/
lemma Sound.handle_eq (h : Sound debts s) {kind : Kind} {label : String}
    (hok : s.requireHandle value kind label = .ok handle) :
    handle = value ∧ handle ≠ 0 ∧ s.kind value = some kind := by
  obtain ⟨v, hv, -, hkind, hne, hhandle⟩ := requireHandle_eq_ok_iff.mp hok
  refine ⟨?_, hhandle ▸ hne, by simp [State.kind, hv, hkind]⟩
  rcases h.value_handle value v hv with heq | ⟨-, hzero⟩
  · rw [← hhandle, heq]
  · exact absurd hzero hne

lemma Sound.active_iff (h : Sound debts s) (handle : Handle) :
    s.connectionHasActiveTransaction handle = true ↔
      ∃ t tx, s.transactions t = some tx ∧ tx.connectionHandle = handle := by
  unfold connectionHasActiveTransaction
  simp only [List.any_eq_true, Registry.mem_keys h.transactions_below, Option.any_eq_true,
    Bool.and_eq_true, beq_iff_eq]
  constructor
  · rintro ⟨t, -, tx, ht, -, hsame⟩
    exact ⟨t, tx, ht, hsame⟩
  · rintro ⟨t, tx, ht, hsame⟩
    exact ⟨t, ⟨tx, ht⟩, tx, ht, h.active t tx ht, hsame⟩

variable (env) in
/-- A query leaves all but the log, and its result set has no lease yet. -/
lemma queryStreaming_eq (sql : List UInt8) (params : Nat) (c : SqlConnection) (s : State) :
    ∃ result sent, queryStreaming env sql params c s = (result, { s with log := s.log ++ sent }) ∧
      (∀ e ∈ sent, e.1 = c) ∧
      ∀ rs, result = .ok rs → rs.connectionLease = none ∧ rs.transactionLease = none := by
  unfold queryStreaming State.issue
  split
  · exact ⟨_, [], by rw [List.append_nil], by simp, by simp⟩
  rename_i sent _
  cases env.failure (s.log ++ [(c, .query sent)]) with
  | some failure => exact ⟨_, _, rfl, by simp, by simp⟩
  | none => exact ⟨_, _, rfl, by simp, by rintro rs ⟨⟩; exact ⟨rfl, rfl⟩⟩

lemma Whole.connect (h : Whole debts s) (backend : SqlBackend) :
    Whole debts ((s.storeConnection { id := s.next, backend := backend }).createHandleValue s.next
      .connection) := by
  have hfresh : s.values s.next = none := h.values_below.eq_none (le_refl _)
  refine (h.drawHandle.createValue (Nat.lt_succ_self _) hfresh .connection).insertConnection
    (c := { id := s.next, backend := backend }) rfl ?_ (Nat.lt_succ_self _) ?_
  · simp [State.kind, createHandleValue]
  · rintro t tx ht heq
    have hkind := h.handle_kind t tx ht
    rw [heq, State.kind, hfresh] at hkind
    cases hkind

/-- A statement on a connection ends without a trace, or goes over the connection. -/
lemma withConnection_cases {α : Type} (s : State) (h : Handle)
    (op : SqlConnection → State → Except String α × State) :
    (∃ e, s.withConnection h op = (.error e, s)) ∨
      ∃ c, s.connections h = some c ∧ s.connectionHasResultsetLease h = false ∧
        s.withConnection h op = op c s := by
  unfold withConnection
  split_ifs with hleased
  · exact .inl ⟨_, rfl⟩
  · cases hc : s.connections h with
    | none => exact .inl ⟨_, rfl⟩
    | some c => exact .inr ⟨c, rfl, by simpa using hleased, rfl⟩

/-- A statement in a transaction ends without a trace, or goes over its connection. -/
lemma withTransactionConnection_cases {α : Type} (h : Sound debts s) (t : Handle)
    (op : SqlConnection → State → Except String α × State) :
    (∃ e, s.withTransactionConnection t op = (.error e, s)) ∨
      ∃ tx c, s.transactions t = some tx ∧ tx.connection = some c ∧
        s.transactionHasResultsetLease t = false ∧ s.withTransactionConnection t op = op c s := by
  unfold withTransactionConnection withTransaction
  split_ifs with hleased
  · exact .inl ⟨_, rfl⟩
  rcases ht : s.transactions t with _ | tx
  · exact .inl ⟨_, rfl⟩
  simp only [h.active t tx ht, Bool.not_true, Bool.false_eq_true, if_false]
  cases hc : tx.connection with
  | none => exact .inl ⟨_, rfl⟩
  | some c => exact .inr ⟨tx, c, rfl, hc, by simpa using hleased, rfl⟩

variable (env) in
/-- How opening a transaction ends: nothing is sent, or the statements go over the
connection, and then it is taken over by a new transaction or stays where it was. -/
lemma openTransaction_cases (value handle : Handle) (isolation : String)
    (readOnly deferrable : Bool) (s : State) :
    (∃ e, openTransaction env value handle isolation readOnly deferrable s = (.error e, s)) ∨
      ∃ c statements sent, s.connections handle = some c ∧
        beginStatements c.backend isolation readOnly deferrable = .ok statements ∧
        (∀ e ∈ sent, e.1 = c) ∧ (statements ≠ [] → sent ≠ []) ∧
        ((∃ e, openTransaction env value handle isolation readOnly deferrable s =
            (.error e, { s with log := s.log ++ sent })) ∨
          openTransaction env value handle isolation readOnly deferrable s = (.ok (.value s.next),
              { (({ s with
                  connections := s.connections.remove handle, log := s.log ++ sent,
                  next := s.next + 1 } : State).rcInc value).createHandleValue
                    s.next .transaction with
                transactions := s.transactions.insert s.next
                  { connectionHandle := handle, connection := some c, active := true,
                    parent := none, owner := value } })) := by
  unfold openTransaction
  rcases hc : s.connections handle with _ | c
  · exact .inl ⟨_, rfl⟩
  have hback : ∀ log, ({ s with
      connections := (s.connections.remove handle).insert handle c, log := log } : State) =
        { s with log := log } := by
    intro log
    rw [insert_remove, insert_eq_self hc]
  dsimp only
  rcases hbegin : beginStatements c.backend isolation readOnly deferrable with e | statements
  · exact .inl ⟨e, Prod.ext rfl (hback s.log)⟩
  obtain ⟨failed, sent, heq, hsent, hne, -⟩ := issueAll_eq env c statements
    { s with connections := s.connections.remove handle }
  refine .inr ⟨c, statements, sent, rfl, hbegin, hsent, hne, ?_⟩
  simp only [heq]
  cases failed with
  | some failure => exact .inl ⟨failure, Prod.ext rfl (hback _)⟩
  | none => exact .inr rfl

/-- A new transaction value, on a value that gets one more owner. -/
lemma Whole.grant (h : Whole [] s) {owner : Handle} {κ : Kind}
    (howner : s.kind owner = some κ) (hk : s.values k = none) (hbelow : k < s.next) :
    Whole [] ((s.rcInc owner).createHandleValue k .transaction) ∧
      ((s.rcInc owner).createHandleValue k .transaction).kind k = some .transaction ∧
      (∀ j κ, s.kind j = some κ →
        ((s.rcInc owner).createHandleValue k .transaction).kind j = some κ) ∧
      ∃ v, ((s.rcInc owner).createHandleValue k .transaction).values owner = some v ∧
        0 < v.owners := by
  obtain ⟨v, hv, -⟩ := Option.map_eq_some_iff.mp howner
  have hne : k ≠ owner := by
    rintro rfl
    rw [hk] at hv
    cases hv
  have hinc : s.rcInc owner =
      { s with values := s.values.insert owner { v with owners := v.owners + 1 } } := by
    simp [State.rcInc, hv]
  refine ⟨(h.rcInc owner).createValue ?_ ?_ _, ?_, ?_, ?_⟩
  · exact hbelow
  · rw [hinc]
    exact (insert_of_ne hne).trans hk
  · simp [State.kind, createHandleValue]
  · intro j κ' hj
    have hjk : j ≠ k := by
      rintro rfl
      simp [State.kind, hk] at hj
    rw [← hj, hinc]
    by_cases hjo : j = owner
    · subst hjo
      simp [State.kind, createHandleValue, hjk, hv]
    · simp [State.kind, createHandleValue, hjk, hjo]
  · refine ⟨{ v with owners := v.owners + 1 }, ?_, Nat.succ_pos _⟩
    rw [hinc]
    simp [createHandleValue, Ne.symm hne]

/-- A new transaction takes over a connection. -/
theorem Whole.opened (h : Whole [] s) {c : SqlConnection} (hc : s.connections handle = some c)
    (hvalue : s.kind handle = some .connection)
    (hfree : ∀ t tx, s.transactions t = some tx → tx.connectionHandle ≠ handle)
    (sent : List (SqlConnection × Command)) :
    Whole []
      { (({ s with
          connections := s.connections.remove handle, log := s.log ++ sent,
          next := s.next + 1 } : State).rcInc handle).createHandleValue s.next .transaction with
        transactions := s.transactions.insert s.next
          { connectionHandle := handle, connection := some c, active := true, parent := none,
            owner := handle } } := by
  have hdrawn := ((h.removeConnection handle).setLog (s.log ++ sent)).drawHandle
  obtain ⟨hwhole, hkind, hkinds, howned⟩ := hdrawn.grant (k := s.next) hvalue
    (h.values_below.eq_none (le_refl _)) (Nat.lt_succ_self _)
  refine { hwhole.toSound.insertTransaction
    (x := { connectionHandle := handle, connection := some c, active := true, parent := none,
            owner := handle }) hkind h.transactions_below (Nat.lt_succ_self _) rfl rfl
    (h.connection_id handle c hc) (hkinds _ _ hvalue) remove_self
    (fun t tx _ ht _ => hfree t tx ht) (fun _ => rfl) (by simp) ?_ (by simpa using howned)
    with suspended := ?_ }
  · intro t tx ht howner
    rcases hparent : tx.parent with _ | parent
    · exact hfree t tx ht ((h.root t tx ht hparent).symm.trans howner)
    obtain ⟨hp, -, hpkind, -⟩ := h.nested t tx parent.1 parent.2 ht hparent
    rw [← hp, howner, hvalue] at hpkind
    cases hpkind
  intro t tx ht hnone
  rcases insert_eq_some_iff.mp ht with ⟨rfl, rfl⟩ | ⟨-, ht⟩
  · cases hnone
  · obtain ⟨u, utx, hu, howner⟩ := h.suspended t tx ht hnone
    exact ⟨u, utx, insert_eq_some_iff.mpr
      (.inr ⟨ne_of_lt (h.transactions_below u utx hu), hu⟩), howner⟩

variable (env) in
/-- Options that are not of the right types are refused; the others are passed on. -/
lemma optionsOf_cases (value handle : Handle) (isolation readOnly deferrable : Value)
    (s : State) :
    (∃ e, connectionBeginTransactionWithOptions env value handle isolation readOnly deferrable s =
        (.error e, s)) ∨
      ∃ level reads defers, isolation = .string level ∧ readOnly = .bool reads ∧
        deferrable = .bool defers ∧ s.connectionHasActiveTransaction handle = false ∧
        connectionBeginTransactionWithOptions env value handle isolation readOnly deferrable s =
          openTransaction env value handle level reads defers s := by
  unfold connectionBeginTransactionWithOptions valueToString
  split_ifs with hactive
  · exact .inl ⟨_, rfl⟩
  split
  · exact .inl ⟨_, rfl⟩
  rename_i level hlevel
  split at hlevel
  · cases hlevel
    split
    · split
      · exact .inr ⟨_, _, _, rfl, rfl, rfl, by simpa using hactive, rfl⟩
      · exact .inl ⟨_, rfl⟩
    · exact .inl ⟨_, rfl⟩
  · cases hlevel

variable (env) in
/-- How beginning a nested transaction ends. -/
lemma transactionBeginTransaction_cases (value t : Handle) (s : State) :
    (∃ e, transactionBeginTransaction env value t s = (.error e, s)) ∨
      ∃ tx c cmd, s.transactions t = some tx ∧ tx.connection = some c ∧
        s.transactionHasResultsetLease t = false ∧
        ((∃ e, transactionBeginTransaction env value t s =
            (.error e, { s with next := s.next + 1, log := s.log ++ [(c, cmd)] })) ∨
          transactionBeginTransaction env value t s = (.ok (.value (s.next + 1)),
              { (({ s with next := s.next + 1 + 1, log := s.log ++ [(c, cmd)] } : State).rcInc
                  value).createHandleValue (s.next + 1) .transaction with
                transactions :=
                  (s.transactions.insert t { tx with connection := none }).insert (s.next + 1)
                    { connectionHandle := tx.connectionHandle, connection := some c, active := true,
                      parent := some (t, "mux_nested_" ++ toString s.next), owner := value } })) := by
  unfold transactionBeginTransaction withTransaction
  split_ifs with hleased
  · exact .inl ⟨_, rfl⟩
  rcases ht : s.transactions t with _ | tx
  · exact .inl ⟨_, rfl⟩
  rcases hc : tx.connection with _ | c
  · exact .inl ⟨"transaction has an active nested transaction", by simp only [hc]⟩
  refine .inr ⟨tx, c, savepointStatement c.backend ("mux_nested_" ++ toString s.next),
    rfl, hc, by simpa using hleased, ?_⟩
  simp only [hc, State.issue]
  cases env.failure (s.log ++ [(c, savepointStatement c.backend
    ("mux_nested_" ++ toString s.next))]) with
  | some failure => exact .inl ⟨failure, rfl⟩
  | none => exact .inr rfl

/-- A nested transaction takes over the connection of its parent. -/
theorem Whole.nest (h : Whole [] s) {t : Handle} {tx : SqlTransaction} {c : SqlConnection}
    (ht : s.transactions t = some tx) (hc : tx.connection = some c)
    (hlease : s.transactionHasResultsetLease t = false) (cmd : Command) (name : String) :
    Whole []
      { (({ s with next := s.next + 1 + 1, log := s.log ++ [(c, cmd)] } : State).rcInc
          t).createHandleValue (s.next + 1) .transaction with
        transactions := (s.transactions.insert t { tx with connection := none }).insert (s.next + 1)
            { connectionHandle := tx.connectionHandle, connection := some c, active := true,
              parent := some (t, name), owner := t } } := by
  have hkind := h.transaction_kind t tx ht
  have hdrawn := (h.drawHandle.setLog (s.log ++ [(c, cmd)])).drawHandle
  obtain ⟨hwhole, hnew, hkinds, howned⟩ := hdrawn.grant (k := s.next + 1) hkind
    (h.values_below.eq_none (Nat.le_succ _)) (Nat.lt_succ_self _)
  have hset := hwhole.toSound.setConnection ht none (by simp) (by simp) (by simp)
    (fun _ => hlease)
  have hold : ∀ k ktx, s.transactions.insert t { tx with connection := none } k = some ktx →
      ∃ ktx₀, s.transactions k = some ktx₀ ∧ ktx.owner = ktx₀.owner ∧
        ktx.connectionHandle = ktx₀.connectionHandle ∧
        ∀ c', ktx.connection = some c' → k ≠ t ∧ ktx₀.connection = some c' := by
    intro k ktx hk
    rcases insert_eq_some_iff.mp hk with ⟨rfl, rfl⟩ | ⟨hne, hk⟩
    · exact ⟨tx, ht, rfl, rfl, by simp⟩
    · exact ⟨ktx, hk, rfl, rfl, fun c' hc' => ⟨hne, hc'⟩⟩
  have hlt : ∀ k ktx, s.transactions k = some ktx → k < s.next + 1 := fun k ktx hk =>
    Nat.lt_succ_of_lt (h.transactions_below k ktx hk)
  have hpt : t < s.next + 1 := hlt t tx ht
  refine { hset.insertTransaction
    (x := { connectionHandle := tx.connectionHandle, connection := some c, active := true,
            parent := some (t, name), owner := t }) hnew ?_ (Nat.lt_succ_self _)
    rfl rfl
    (h.transaction_id t tx c ht hc) (hkinds _ _ (h.handle_kind t tx ht)) ?_ ?_ (by simp) ?_ ?_
    (by simpa using howned) with suspended := ?_ }
  · intro k ktx hk
    obtain ⟨ktx₀, hk₀, -⟩ := hold k ktx hk
    exact hlt k ktx₀ hk₀
  · cases hcon : s.connections tx.connectionHandle with
    | none => exact hcon
    | some c' => exact absurd rfl (h.idle _ _ _ _ hcon ht)
  · intro k ktx c' hk hc' hsame
    obtain ⟨ktx₀, hk₀, -, hhandle, hcon⟩ := hold k ktx hk
    obtain ⟨hne, hc₀⟩ := hcon c' hc'
    exact hne (h.unique _ _ _ _ _ _ hk₀ hc₀ ht hc (hhandle.symm.trans hsame))
  · rintro p _ ⟨⟩
    refine ⟨rfl, hpt, hkinds _ _ hkind, ?_⟩
    intro ptx hp
    cases insert_self.symm.trans hp
    exact ⟨rfl, rfl⟩
  · intro k ktx hk howner
    obtain ⟨ktx₀, hk₀, hown₀, -⟩ := hold k ktx hk
    have hnone := ((h.parent_of_owner hk₀ (hown₀.symm.trans howner) hkind).2 tx ht).2
    rw [hc] at hnone
    cases hnone
  intro k ktx hk hnone
  rcases insert_eq_some_iff.mp hk with ⟨rfl, rfl⟩ | ⟨-, hk⟩
  · cases hnone
  rcases insert_eq_some_iff.mp hk with ⟨rfl, rfl⟩ | ⟨-, hk⟩
  · exact ⟨_, _, insert_self, rfl⟩
  obtain ⟨u, utx, hu, howner⟩ := h.suspended k ktx hk hnone
  by_cases hut : u = t
  · subst hut
    obtain rfl : utx = tx := Option.some.inj (hu.symm.trans ht)
    refine ⟨u, _, insert_eq_some_iff.mpr (.inr ⟨ne_of_lt hpt, insert_self⟩), howner⟩
  · exact ⟨u, utx, insert_eq_some_iff.mpr (.inr ⟨ne_of_lt (hlt u utx hu),
      insert_eq_some_iff.mpr (.inr ⟨hut, hu⟩)⟩), howner⟩

variable (env) in
/-- How finishing a transaction ends. -/
lemma finishTransaction_cases (t : Handle) (commit : Bool) (s : State) :
    (∃ e, finishTransaction env t commit s = (.error e, s)) ∨
      ∃ tx c sent, s.transactions t = some tx ∧ tx.connection = some c ∧
        s.transactionHasResultsetLease t = false ∧ (∀ e ∈ sent, e.1 = c) ∧
        ((∃ e, finishTransaction env t commit s = (.error e, { s with log := s.log ++ sent })) ∨
          finishTransaction env t commit s = (.ok .unit, muxRcDec env tx.owner
            (({ s with transactions := s.transactions.remove t, log := s.log ++ sent } :
              State).restoreTransactionConnection tx c))) := by
  unfold finishTransaction
  split_ifs with hleased
  · exact .inl ⟨_, rfl⟩
  rcases ht : s.transactions t with _ | tx
  · exact .inl ⟨_, rfl⟩
  have hback : ∀ log, ({ s with
      transactions := (s.transactions.remove t).insert t tx, log := log } : State) =
        { s with log := log } := by
    intro log
    rw [insert_remove, insert_eq_self ht]
  dsimp only
  rcases hc : tx.connection with _ | c
  · exact .inl ⟨_, Prod.ext rfl (hback s.log)⟩
  obtain ⟨failed, sent, heq, hsent, -⟩ := issueAll_eq env c
    (finishStatements c.backend tx.parent commit)
    { s with transactions := s.transactions.remove t }
  refine .inr ⟨tx, c, sent, rfl, hc, by simpa using hleased, hsent, ?_⟩
  simp only [heq]
  cases failed with
  | some failure => exact .inl ⟨failure, Prod.ext rfl (hback _)⟩
  | none => exact .inr rfl

lemma Whole.writeZero (h : Whole debts s) (hkind : s.kind value = some .connection) :
    Whole debts (s.writeHandle value 0) := by
  obtain ⟨v, hv, hconn⟩ := Option.map_eq_some_iff.mp hkind
  unfold writeHandle
  simp only [hv]
  exact h.setValue hv rfl (.inr ⟨hconn, rfl⟩) (fun hcount => hcount) (fun _ _ => le_refl _)

lemma Tidies.kind_eq {s' : State} (h : Tidies s s') (k : Handle) : s'.kind k = s.kind k := by
  have hface := congrArg (Option.map Prod.fst) (h.values k)
  simpa [State.kind, Function.comp_def, SharedValue.face] using hface

lemma connectionClose_whole (h : Whole debts s) (hvalue : s.connectionHandle value = .ok handle) :
    Whole debts (connectionClose env value handle s) := by
  obtain ⟨rfl, -, hkind⟩ := h.handle_eq hvalue
  unfold connectionClose
  split_ifs with hleased hactive
  · exact Whole.writeZero (h.deferConnection hleased) hkind
  · have hremove := removeTransactionForConnection_tidies env (muxRcDec_tidies env)
      handle s
    refine Whole.writeZero (Whole.removeConnection
      (removeTransactionForConnection_whole handle h.toSound ?_) handle)
      ((hremove.kind_eq handle).trans hkind)
    exact fun t tx ht hnone _ => h.suspended t tx ht hnone
  · exact Whole.writeZero (h.removeConnection handle) hkind

variable (env) in
/-- Closing a connection tidies up and makes its value a closed one. -/
lemma connectionClose_tidies (value handle : Handle) (s : State) :
    ∃ s', Tidies s s' ∧ connectionClose env value handle s = s'.writeHandle value 0 := by
  unfold connectionClose
  split_ifs with hleased hactive
  · refine ⟨{ s with connectionClosePending := insert handle s.connectionClosePending }, ?_, rfl⟩
    exact { Tidies.refl s with connection_pending := Finset.subset_insert handle _ }
  · have hremove := removeTransactionForConnection_tidies env (muxRcDec_tidies env) handle s
    exact ⟨_, hremove.trans (.removeConnection _ (by rwa [hremove.leased_iff])), rfl⟩
  · exact ⟨_, .removeConnection s hleased, rfl⟩

lemma writeHandle_frame (value handle : Handle) (s : State) :
    ∃ values, s.writeHandle value handle = { s with values := values } := by
  unfold writeHandle
  split
  · exact ⟨s.values, rfl⟩
  · exact ⟨_, rfl⟩

/-! ### Result sets -/

lemma resultsetNextRow_leases (rs : SqlResultSet) :
    (resultsetNextRow rs).2.connectionLease = rs.connectionLease ∧
      (resultsetNextRow rs).2.transactionLease = rs.transactionLease := by
  unfold resultsetNextRow
  split
  · exact ⟨rfl, rfl⟩
  · exact ⟨rfl, rfl⟩
  · exact ⟨rfl, rfl⟩
  · split <;> exact ⟨rfl, rfl⟩

lemma readRows_leases (requested : Nat) (rs : SqlResultSet) (values : List Row) :
    (readRows requested rs values).2.connectionLease = rs.connectionLease ∧
      (readRows requested rs values).2.transactionLease = rs.transactionLease := by
  induction requested generalizing rs values with
  | zero => exact ⟨rfl, rfl⟩
  | succ requested ih => ?_
  have hrow := resultsetNextRow_leases rs
  unfold readRows
  split
  · rename_i rs' heq
    rw [heq] at hrow
    obtain ⟨hconn, htx⟩ := ih rs' (values ++ [_])
    exact ⟨hconn.trans hrow.1, htx.trans hrow.2⟩
  · rename_i heq
    rwa [heq] at hrow
  · rename_i heq
    rwa [heq] at hrow

/-- A result set moves on and keeps its lease. -/
lemma Whole.advance (h : Whole debts s) {r : Handle} {rs rs' : SqlResultSet}
    (hr : s.resultsets r = some rs)
    (hleases : rs'.connectionLease = rs.connectionLease ∧
      rs'.transactionLease = rs.transactionLease) :
    Whole debts { s with resultsets := s.resultsets.insert r rs' } := by
  have hopen : ∀ lease : SqlResultSet → Option Handle, lease rs' = lease rs → ∀ k,
      ({ s with resultsets := s.resultsets.insert r rs' } : State).openOn lease k =
        s.openOn lease k := by
    intro lease hsame k
    have hcount := count_insert (r := s.resultsets) (v := rs')
      (p := fun rs => lease rs == some k) (h.resultsets_below r rs hr)
    simp only [hr, Registry.weight, Option.any_some, hsame] at hcount
    exact Nat.add_right_cancel hcount
  refine { h with
    resultsets_below := h.resultsets_below.insert (h.resultsets_below r rs hr)
    connection_count := fun k => by
      rw [hopen (·.connectionLease) hleases.1]
      exact h.connection_count k
    transaction_count := fun k => by
      rw [hopen (·.transactionLease) hleases.2]
      exact h.transaction_count k
    one_lease := ?_ }
  refine forall_insert h.one_lease ?_
  rw [hleases.1, hleases.2]
  exact h.one_lease r rs hr

/-- The program counts its references to a value. -/
lemma Whole.setProgram (h : Whole debts s) {v : SharedValue} (hv : s.values value = some v)
    (n : Nat) : Whole debts { s with values := s.values.insert value { v with program := n } } :=
  h.setValue hv rfl (.inl rfl) (fun hcount => hcount) (fun _ _ => le_refl _)

/-- What holds of the state, and of what the operation leaves, holds after a call on a handle. -/
lemma onHandle_elim {P : State → Prop} {handle : Except String Handle}
    {op : Handle → State → Except String Reply × State} (hs : P s)
    (hop : ∀ k, handle = .ok k → P (op k s).2) : P (s.onHandle handle op).2 := by
  cases handle with
  | error e => exact hs
  | ok k => exact hop k rfl

lemma initial_whole : Whole [] State.initial := by
  have hopen : ∀ lease k, State.initial.openOn lease k = 0 := by
    intro lease k
    simp [openOn, Registry.count, State.initial]
  refine ⟨?_, by simp [State.initial]⟩
  constructor
  case connection_count => exact fun h => by rw [hopen]; rfl
  case transaction_count => exact fun t => by rw [hopen]; rfl
  all_goals simp [Registry.Below, transactionHasResultsetLease, State.initial]

end Sql
end MuxRuntime
