import MuxRuntime.Sql.Tidying

/-!
# Who holds a connection

A connection is in the registry of connections or with one transaction: the
innermost of those that were begun on it. The others are suspended. A
transaction keeps its owner alive, a leased transaction keeps its connection,
and the leases are as many as the result sets that have not been finished.

`Whole` states this for the registries between two calls. Inside a call some
owners have still to be let go of; they are listed as debts.
-/

namespace MuxRuntime
namespace Sql

open List Registry State

namespace State

/-- The kind of a value. -/
def kind (s : State) (k : Handle) : Option Kind :=
  (s.values k).map SharedValue.kind

/-- How many result sets hold a lease of one sort on the handle. -/
def openOn (s : State) (lease : SqlResultSet → Option Handle) (k : Handle) : Nat :=
  s.resultsets.count (fun rs => lease rs == some k) s.next

end State

/-- The entry of a lease registry for a number of leases. -/
def leaseEntry (n : Nat) : Option Nat :=
  if n = 0 then none else some n

lemma getD_leaseEntry (n : Nat) : (leaseEntry n).getD 0 = n := by
  unfold leaseEntry
  split
  · simp_all
  · rfl

lemma pos_of_leaseEntry {n m : Nat} (h : leaseEntry n = some m) : 0 < m := by
  unfold leaseEntry at h
  split_ifs at h with hn
  cases h
  exact Nat.pos_of_ne_zero hn

/-- The registries are consistent, up to the owners still to be let go of. -/
structure Sound (debts : List Handle) (s : State) : Prop where
  next_pos : 0 < s.next
  connections_below : s.connections.Below s.next
  transactions_below : s.transactions.Below s.next
  resultsets_below : s.resultsets.Below s.next
  values_below : s.values.Below s.next
  value_handle : ∀ k v, s.values k = some v → v.handle = k ∨ v.kind = .connection ∧ v.handle = 0
  connection_kind : ∀ h c, s.connections h = some c → s.kind h = some .connection
  connection_id : ∀ h c, s.connections h = some c → c.id = h
  transaction_kind : ∀ t tx, s.transactions t = some tx → s.kind t = some .transaction
  transaction_id : ∀ t tx c, s.transactions t = some tx → tx.connection = some c →
    c.id = tx.connectionHandle
  active : ∀ t tx, s.transactions t = some tx → tx.active = true
  idle : ∀ h c t tx, s.connections h = some c → s.transactions t = some tx → tx.connectionHandle ≠ h
  unique : ∀ t tx c t' tx' c', s.transactions t = some tx → tx.connection = some c →
    s.transactions t' = some tx' → tx'.connection = some c' →
    tx.connectionHandle = tx'.connectionHandle → t = t'
  handle_kind : ∀ t tx, s.transactions t = some tx → s.kind tx.connectionHandle = some .connection
  root : ∀ t tx, s.transactions t = some tx → tx.parent = none → tx.owner = tx.connectionHandle
  nested : ∀ t tx p name, s.transactions t = some tx → tx.parent = some (p, name) →
    tx.owner = p ∧ p < t ∧ s.kind p = some .transaction ∧ ∀ ptx, s.transactions p = some ptx →
        ptx.connectionHandle = tx.connectionHandle ∧ ptx.connection = none
  owner_unique : ∀ t tx t' tx', s.transactions t = some tx → s.transactions t' = some tx' →
    tx.owner = tx'.owner → t = t'
  owned : ∀ t tx, s.transactions t = some tx →
    ∃ v, s.values tx.owner = some v ∧ debts.count tx.owner < v.owners
  connection_count : ∀ h, s.connectionLeases h = leaseEntry (s.openOn (·.connectionLease) h)
  transaction_count : ∀ t, s.transactionLeases t = leaseEntry (s.openOn (·.transactionLease) t)
  one_lease : ∀ r rs, s.resultsets r = some rs →
    rs.connectionLease = none ∨ rs.transactionLease = none
  leased_holds : ∀ t, s.transactionHasResultsetLease t = true →
    ∃ tx c, s.transactions t = some tx ∧ tx.connection = some c
  connection_pending : ∀ h ∈ s.connectionClosePending, s.connectionHasResultsetLease h = true
  transaction_pending : ∀ t ∈ s.transactionClosePending, s.transactionHasResultsetLease t = true

/-- A transaction without its connection has a nested one, but for those of one connection. -/
def SuspendedBut (h : Handle) (s : State) : Prop :=
  ∀ t tx, s.transactions t = some tx → tx.connection = none → tx.connectionHandle ≠ h →
    ∃ t' tx', s.transactions t' = some tx' ∧ tx'.owner = t

/-- The registries as they are between two calls. -/
structure Whole (debts : List Handle) (s : State) : Prop extends Sound debts s where
  suspended : ∀ t tx, s.transactions t = some tx → tx.connection = none →
    ∃ t' tx', s.transactions t' = some tx' ∧ tx'.owner = t

variable {env : Environment} {dec : Handle → State → State} {s : State} {debts : List Handle}

/-! ## Reading the invariant -/

lemma Sound.connection_leased_iff (h : Sound debts s) (k : Handle) :
    s.connectionHasResultsetLease k = true ↔
      ∃ r rs, s.resultsets r = some rs ∧ rs.connectionLease = some k := by
  rw [connectionHasResultsetLease, h.connection_count, getD_leaseEntry, decide_eq_true_eq,
    openOn, count_pos_iff h.resultsets_below]
  simp

lemma Sound.transaction_leased_iff (h : Sound debts s) (k : Handle) :
    s.transactionHasResultsetLease k = true ↔
      ∃ r rs, s.resultsets r = some rs ∧ rs.transactionLease = some k := by
  rw [transactionHasResultsetLease, h.transaction_count, getD_leaseEntry, decide_eq_true_eq,
    openOn, count_pos_iff h.resultsets_below]
  simp

variable {t : Handle} {tx : SqlTransaction}

/-- The owner of a transaction that is itself a transaction is its parent. -/
lemma Sound.parent_of_owner (h : Sound debts s) {p : Handle} (ht : s.transactions t = some tx)
    (howner : tx.owner = p) (hkind : s.kind p = some .transaction) :
    p < t ∧ ∀ ptx, s.transactions p = some ptx →
      ptx.connectionHandle = tx.connectionHandle ∧ ptx.connection = none := by
  cases hparent : tx.parent with
  | none =>
    rw [← howner, h.root t tx ht hparent, h.handle_kind t tx ht] at hkind
    cases hkind
  | some parent =>
    obtain ⟨p', name⟩ := parent
    obtain ⟨hp, hlt, -, hptx⟩ := h.nested t tx p' name ht hparent
    obtain rfl : p' = p := by rw [← hp, howner]
    exact ⟨hlt, hptx⟩

variable {k : Handle} {v : SharedValue}

/-- The value of a transaction has its own handle. -/
lemma Sound.transaction_handle (h : Sound debts s) (hv : s.values k = some v)
    (hkind : v.kind = .transaction) : v.handle = k := by
  rcases h.value_handle k v hv with hhandle | ⟨hconn, -⟩
  · exact hhandle
  · rw [hconn] at hkind
    cases hkind

/-- Without references of transactions to a value there is none that it owns. -/
lemma Sound.unowned (h : Sound debts s) (hv : s.values k = some v) (hzero : v.owners = 0) :
    ∀ u utx, s.transactions u = some utx → utx.owner ≠ k := by
  rintro u utx hu rfl
  obtain ⟨w, hw, hcount⟩ := h.owned u utx hu
  obtain rfl : w = v := Option.some.inj (hw.symm.trans hv)
  exact Nat.not_lt_zero _ (hzero ▸ hcount)

variable {c : SqlConnection}

/-- A transaction that was begun on its connection and holds it has no other beside it. -/
theorem Whole.alone (h : Whole debts s) (ht : s.transactions t = some tx)
    (hc : tx.connection = some c) (hparent : tx.parent = none) {t' : Handle}
    {tx' : SqlTransaction} (ht' : s.transactions t' = some tx')
    (hsame : tx'.connectionHandle = tx.connectionHandle) : t' = t := by
  -- a nested transaction has the larger handle, so the induction goes upwards
  induction hn : s.next - t' using Nat.strong_induction_on generalizing t' tx' with
  | _ n ih => ?_
  cases hc' : tx'.connection with
  | some c' => exact h.unique _ _ _ _ _ _ ht' hc' ht hc hsame
  | none => ?_
  obtain ⟨u, utx, hu, howner⟩ := h.suspended t' tx' ht' hc'
  have hkind := h.transaction_kind t' tx' ht'
  obtain ⟨hlt, hptx⟩ := h.parent_of_owner hu howner hkind
  have hbelow := h.transactions_below u utx hu
  have hut : u = t := ih (s.next - u) (hn ▸ Nat.sub_lt_sub_left (hlt.trans hbelow) hlt) hu
      ((hptx tx' ht').1.symm.trans hsame) rfl
  subst hut
  obtain rfl : utx = tx := Option.some.inj (hu.symm.trans ht)
  rw [← howner, h.root u utx hu hparent, h.handle_kind u utx hu] at hkind
  cases hkind

/-! ## Steps of the registries -/

lemma Sound.setLog (h : Sound debts s) (log : List (SqlConnection × Command)) :
    Sound debts { s with log := log } :=
  { h with }

lemma Whole.setLog (h : Whole debts s) (log : List (SqlConnection × Command)) :
    Whole debts { s with log := log } :=
  { h with }

lemma Sound.settle {o : Handle} (h : Sound (o :: debts) s) : Sound debts s := by
  refine { h with owned := ?_ }
  intro t tx ht
  obtain ⟨v, hv, hcount⟩ := h.owned t tx ht
  exact ⟨v, hv, lt_of_le_of_lt count_le_count_cons hcount⟩

/-- Transactions that are not leased leave the registry. -/
lemma Sound.restrict (h : Sound debts s) (debts' : List Handle) {r : Registry SqlTransaction}
    (hsub : ∀ t tx, r t = some tx → s.transactions t = some tx)
    (hkeep : ∀ t tx, s.transactionHasResultsetLease t = true → s.transactions t = some tx →
      r t = some tx)
    (hdebts : ∀ t tx, r t = some tx → debts'.count tx.owner ≤ debts.count tx.owner) :
    Sound debts' { s with transactions := r } := by
  refine { h with
    transactions_below := fun t tx ht => h.transactions_below t tx (hsub t tx ht)
    transaction_kind := fun t tx ht => h.transaction_kind t tx (hsub t tx ht)
    transaction_id := fun t tx c ht => h.transaction_id t tx c (hsub t tx ht)
    active := fun t tx ht => h.active t tx (hsub t tx ht)
    idle := fun k c t tx hk ht => h.idle k c t tx hk (hsub t tx ht)
    unique := fun t tx c t' tx' c' ht hc ht' hc' =>
      h.unique t tx c t' tx' c' (hsub t tx ht) hc (hsub t' tx' ht') hc'
    handle_kind := fun t tx ht => h.handle_kind t tx (hsub t tx ht)
    root := fun t tx ht => h.root t tx (hsub t tx ht)
    nested := ?_
    owner_unique := fun t tx t' tx' ht ht' =>
      h.owner_unique t tx t' tx' (hsub t tx ht) (hsub t' tx' ht')
    owned := ?_, leased_holds := ?_ }
  · intro t tx p name ht hparent
    obtain ⟨howner, hlt, hkind, hptx⟩ := h.nested t tx p name (hsub t tx ht) hparent
    exact ⟨howner, hlt, hkind, fun ptx hp => hptx ptx (hsub p ptx hp)⟩
  · intro t tx ht
    obtain ⟨v, hv, hcount⟩ := h.owned t tx (hsub t tx ht)
    exact ⟨v, hv, lt_of_le_of_lt (hdebts t tx ht) hcount⟩
  · intro t hleased
    obtain ⟨tx, c, ht, hc⟩ := h.leased_holds t hleased
    exact ⟨tx, c, hkeep t tx hleased ht, hc⟩

/-- One transaction is taken out; its owner has still to be let go of. -/
lemma Sound.take (h : Sound debts s) (ht : s.transactions t = some tx)
    (hlease : s.transactionHasResultsetLease t = false) :
    Sound (tx.owner :: debts) { s with transactions := s.transactions.remove t } := by
  refine h.restrict _ (fun k ktx hk => (remove_eq_some_iff.mp hk).2) ?_ ?_
  · intro k ktx hleased hk
    refine remove_eq_some_iff.mpr ⟨?_, hk⟩
    rintro rfl
    rw [hlease] at hleased
    cases hleased
  · intro k ktx hk
    obtain ⟨hne, hk⟩ := remove_eq_some_iff.mp hk
    rw [count_cons_of_ne]
    exact fun howner => hne (h.owner_unique _ _ _ _ hk ht howner.symm)

/-- A transaction gives its connection away, or gets it back. -/
lemma Sound.setConnection (h : Sound debts s) {p : Handle} {ptx : SqlTransaction}
    (hp : s.transactions p = some ptx) (given : Option SqlConnection)
    (hid : ∀ c, given = some c → c.id = ptx.connectionHandle)
    (hunique : ∀ c, given = some c → ∀ k ktx c', s.transactions k = some ktx →
      ktx.connection = some c' → ktx.connectionHandle = ptx.connectionHandle → k = p)
    (hnested : ∀ c, given = some c → ∀ k ktx, s.transactions k = some ktx → ktx.owner ≠ p)
    (hlease : given = none → s.transactionHasResultsetLease p = false) :
    Sound debts { s with
      transactions := s.transactions.insert p { ptx with connection := given } } := by
  -- an entry of the new registry differs from the old one in its connection at most
  have hold : ∀ k ktx, s.transactions.insert p { ptx with connection := given } k = some ktx →
      ∃ ktx₀, s.transactions k = some ktx₀ ∧ ktx = { ktx₀ with connection := ktx.connection } ∧
        (ktx.connection = ktx₀.connection ∨ k = p ∧ ktx.connection = given) := by
    intro k ktx hk
    rcases insert_eq_some_iff.mp hk with ⟨rfl, rfl⟩ | ⟨-, hk⟩
    · exact ⟨ptx, hp, rfl, .inr ⟨rfl, rfl⟩⟩
    · exact ⟨ktx, hk, rfl, .inl rfl⟩
  refine { h with
    transactions_below := h.transactions_below.insert (h.transactions_below p ptx hp)
    transaction_kind := forall_insert h.transaction_kind (h.transaction_kind p ptx hp)
    transaction_id := ?_
    active := forall_insert h.active (h.active p ptx hp)
    idle := ?_, unique := ?_
    handle_kind := forall_insert h.handle_kind (h.handle_kind p ptx hp)
    root := forall_insert h.root (h.root p ptx hp)
    nested := ?_, owner_unique := ?_
    owned := forall_insert h.owned (h.owned p ptx hp)
    leased_holds := ?_ }
  · have := h.transaction_id
    grind
  · have := h.idle
    grind
  · have := h.unique
    grind
  · intro k ktx q name hk hparent
    obtain ⟨ktx₀, hk₀, heq, -⟩ := hold k ktx hk
    rw [heq] at hparent ⊢
    obtain ⟨howner, hlt, hkind, hqtx⟩ := h.nested k ktx₀ q name hk₀ hparent
    refine ⟨howner, hlt, hkind, ?_⟩
    intro qtx hq
    obtain ⟨qtx₀, hq₀, hqeq, hqcon⟩ := hold q qtx hq
    obtain ⟨hsame, hnone⟩ := hqtx qtx₀ hq₀
    refine ⟨by rw [hqeq]; exact hsame, ?_⟩
    rcases hqcon with hqcon | ⟨rfl, hqcon⟩
    · rw [hqcon, hnone]
    rw [hqcon]
    cases hgiven : given with
    | none => rfl
    | some c => exact absurd howner (hnested c hgiven k ktx₀ hk₀)
  · have := h.owner_unique
    grind
  · intro k hleased
    obtain ⟨ktx, c, hk, hc⟩ := h.leased_holds k hleased
    by_cases hkp : k = p
    · subst hkp
      cases hgiven : given with
      | none =>
        have hfree := hlease hgiven
        rw [show s.transactionHasResultsetLease k = true from hleased] at hfree
        cases hfree
      | some c' => exact ⟨_, c', insert_self, rfl⟩
    · exact ⟨ktx, c, insert_eq_some_iff.mpr (.inr ⟨hkp, hk⟩), hc⟩

/-- A connection goes back to where its transaction had it from. -/
lemma Whole.restore (h : Whole debts s) (ht : s.transactions t = some tx)
    (hc : tx.connection = some c) (hlease : s.transactionHasResultsetLease t = false) :
    Whole (tx.owner :: debts)
      (({ s with transactions := s.transactions.remove t }).restoreTransactionConnection tx c) := by
  have htake := h.toSound.take ht hlease
  have hid := h.transaction_id t tx c ht hc
  -- what was suspended behind another transaction stays so
  have hchild : ∀ u utx, s.transactions.remove t u = some utx → utx.connection = none →
      u ≠ tx.owner → ∃ u' utx', s.transactions.remove t u' = some utx' ∧ utx'.owner = u := by
    intro u utx hu hnone hne
    rcases h.suspended u utx (remove_eq_some_iff.mp hu).2 hnone with
      ⟨u', utx', hu', howner⟩
    refine ⟨u', utx', remove_eq_some_iff.mpr ⟨?_, hu'⟩, howner⟩
    rintro rfl
    obtain rfl : utx' = tx := Option.some.inj (hu'.symm.trans ht)
    exact hne howner.symm
  unfold restoreTransactionConnection
  cases hparent : tx.parent with
  | none =>
    have hroot := h.root t tx ht hparent
    have hkind := h.handle_kind t tx ht
    have hnone : ∀ k ktx, s.transactions.remove t k = some ktx →
        ktx.connectionHandle ≠ tx.connectionHandle := by
      intro k ktx hk hsame
      obtain ⟨hne, hk⟩ := remove_eq_some_iff.mp hk
      exact hne (h.alone ht hc hparent hk hsame)
    have hbelow : tx.connectionHandle < s.next := by
      obtain ⟨v, hv, -⟩ := Option.map_eq_some_iff.mp hkind
      exact h.values_below _ v hv
    refine { htake with
      connections_below := h.connections_below.insert hbelow
      connection_kind := forall_insert h.connection_kind hkind
      connection_id := forall_insert h.connection_id hid
      idle := ?_, suspended := ?_ }
    · have := htake.idle
      grind
    intro u utx hu hunone
    apply hchild u utx hu hunone
    rintro rfl
    have hukind := h.transaction_kind _ _ (remove_eq_some_iff.mp hu).2
    rw [hroot, hkind] at hukind
    cases hukind
  | some parent => ?_
  obtain ⟨p, name⟩ := parent
  obtain ⟨howner, -, -, hptx⟩ := h.nested t tx p name ht hparent
  cases hp : s.transactions.remove t p with
  | none =>
    simp only [hp]
    refine { htake with suspended := ?_ }
    intro u utx hu hunone
    apply hchild u utx hu hunone
    rintro rfl
    rw [howner] at hu
    cases hp.symm.trans hu
  | some ptx => ?_
  obtain ⟨hhandle, hpnone⟩ := hptx ptx (remove_eq_some_iff.mp hp).2
  simp only [hp]
  refine { htake.setConnection hp (some c) ?_ ?_ ?_ (by simp) with suspended := ?_ }
  · rintro c' ⟨⟩
    exact hid.trans hhandle.symm
  · rintro - - k ktx c' hk hkc hsame
    obtain ⟨hne, hk⟩ := remove_eq_some_iff.mp hk
    exact absurd (h.unique _ _ _ _ _ _ hk hkc ht hc (hsame.trans hhandle)) hne
  · rintro - - k ktx hk hkp
    obtain ⟨hne, hk⟩ := remove_eq_some_iff.mp hk
    exact hne (h.owner_unique _ _ _ _ hk ht (hkp.trans howner.symm))
  intro u utx hu hunone
  rcases insert_eq_some_iff.mp hu with ⟨rfl, rfl⟩ | ⟨hup, hu⟩
  · cases hunone
  rw [← howner] at hup
  rcases hchild u utx hu hunone hup with ⟨u', utx', hu', howner'⟩
  by_cases hu'p : u' = p
  · subst hu'p
    obtain rfl : utx' = ptx := Option.some.inj (hu'.symm.trans hp)
    exact ⟨_, _, insert_self, howner'⟩
  · exact ⟨u', utx', insert_eq_some_iff.mpr (.inr ⟨hu'p, hu'⟩), howner'⟩

/-! ## Giving up transactions -/

lemma Sound.mem_transactionsOf (h : Sound debts s) {connection : Handle} :
    t ∈ transactionsOf env s connection ↔
      ∃ tx, s.transactions t = some tx ∧ tx.connectionHandle = connection := by
  rw [transactionsOf, (env.order_perm _).mem_iff, mem_filter,
    Registry.mem_keys h.transactions_below]
  simp only [Option.any_eq_true, beq_iff_eq]
  constructor
  · exact fun hmem => hmem.2
  · rintro ⟨tx, ht, hsame⟩
    exact ⟨⟨tx, ht⟩, tx, ht, hsame⟩

/-- The transactions of a connection that are given up at once. -/
def State.removable (env : Environment) (connection : Handle) (s : State) : List Handle :=
  (transactionsOf env s connection).filter fun t => !s.transactionHasResultsetLease t

/-- The state from which they are gone, before their owners are let go of. -/
def State.withoutTransactions (env : Environment) (connection : Handle) (s : State) : State :=
  { s with
    transactionClosePending := s.transactionClosePending ∪
      ((transactionsOf env s connection).filter
        fun t => s.transactionHasResultsetLease t).toFinset
    transactions := (s.removable env connection).foldl Registry.remove s.transactions }

lemma Sound.mem_removable (h : Sound debts s) {connection : Handle}
    (ht : s.transactions t = some tx) : t ∈ s.removable env connection ↔
      tx.connectionHandle = connection ∧ s.transactionHasResultsetLease t = false := by
  rw [removable, mem_filter, h.mem_transactionsOf]
  simp [ht]

/-- The transactions of a connection leave; their owners have still to be let go of. -/
lemma Sound.withoutTransactions (h : Sound debts s) (connection : Handle)
    (hsuspended : SuspendedBut connection s) :
    Whole (((s.removable env connection).filterMap s.transactions).map SqlTransaction.owner ++ debts)
      (s.withoutTransactions env connection) := by
  have hsub : ∀ t tx, (s.withoutTransactions env connection).transactions t = some tx →
      t ∉ s.removable env connection ∧ s.transactions t = some tx :=
    fun t tx ht => foldl_remove_eq_some_iff.mp ht
  refine { Sound.restrict h _ (fun t tx ht => (hsub t tx ht).2) ?_ ?_ with
    transaction_pending := ?_, suspended := ?_ }
  · intro t tx hleased ht
    refine foldl_remove_eq_some_iff.mpr ⟨?_, ht⟩
    intro hin
    rw [((h.mem_removable ht).mp hin).2] at hleased
    cases hleased
  · intro t tx ht
    obtain ⟨hnot, ht⟩ := hsub t tx ht
    have habsent : tx.owner ∉
        ((s.removable env connection).filterMap s.transactions).map SqlTransaction.owner := by
      intro hin
      obtain ⟨tx', htx', howner⟩ := mem_map.mp hin
      obtain ⟨t', hin', ht'⟩ := mem_filterMap.mp htx'
      rw [h.owner_unique t' tx' t tx ht' ht howner] at hin'
      exact hnot hin'
    rw [count_append, count_eq_zero.mpr habsent, Nat.zero_add]
  · intro t ht
    rcases Finset.mem_union.mp ht with ht | ht
    · exact h.transaction_pending t ht
    · exact (mem_filter.mp (mem_toFinset.mp ht)).2
  · intro t tx ht hnone
    obtain ⟨hnot, ht⟩ := hsub t tx ht
    have hother : tx.connectionHandle ≠ connection := by
      intro hsame
      have hleased : s.transactionHasResultsetLease t = true := by
        by_contra hfree
        exact hnot ((h.mem_removable ht).mpr ⟨hsame, by simpa using hfree⟩)
      obtain ⟨tx', c, ht', hc⟩ := h.leased_holds t hleased
      obtain rfl : tx' = tx := Option.some.inj (ht'.symm.trans ht)
      rw [hnone] at hc
      cases hc
    obtain ⟨u, utx, hu, howner⟩ := hsuspended t tx ht hnone hother
    refine ⟨u, utx, foldl_remove_eq_some_iff.mpr ⟨?_, hu⟩, howner⟩
    intro hin
    have hsame := ((h.parent_of_owner hu howner (h.transaction_kind t tx ht)).2 tx ht).1
    exact hother (hsame.trans ((h.mem_removable hu).mp hin).1)

section

variable (h : Whole debts s)

include h

/-- What waits behind the transactions of other connections is not touched. -/
lemma Whole.suspendedBut_remove (ht : s.transactions t = some tx)
    (log : List (SqlConnection × Command)) :
    SuspendedBut tx.connectionHandle
      { s with transactions := s.transactions.remove t, log := log } := by
  intro u utx hu hnone hother
  have hu₀ := (remove_eq_some_iff.mp hu).2
  obtain ⟨k, ktx, hk, howner⟩ := h.suspended u utx hu₀ hnone
  refine ⟨k, ktx, remove_eq_some_iff.mpr ⟨?_, hk⟩, howner⟩
  rintro rfl
  obtain rfl : ktx = tx := Option.some.inj (hk.symm.trans ht)
  exact hother ((h.parent_of_owner hk howner (h.transaction_kind u utx hu₀)).2 utx hu₀).1

lemma Whole.removeConnection (k : Handle) :
    Whole debts { s with connections := s.connections.remove k } :=
  { h with
    connections_below := h.connections_below.remove
    connection_kind := fun j c hj => h.connection_kind j c (remove_eq_some_iff.mp hj).2
    connection_id := fun j c hj => h.connection_id j c (remove_eq_some_iff.mp hj).2
    idle := fun j c t tx hj => h.idle j c t tx (remove_eq_some_iff.mp hj).2 }

/-- The close of a leased connection is put off. -/
lemma Whole.deferConnection (hleased : s.connectionHasResultsetLease k = true) :
    Whole debts { s with connectionClosePending := insert k s.connectionClosePending } := by
  refine { h with connection_pending := ?_ }
  intro j hj
  rcases Finset.mem_insert.mp hj with rfl | hj
  · exact hleased
  · exact h.connection_pending j hj

lemma dropConnectionHandle_whole (handle : Handle) :
    Whole debts (s.dropConnectionHandle handle) := by
  unfold dropConnectionHandle
  split_ifs with hzero hleased
  · exact h
  · exact h.deferConnection hleased
  · exact h.removeConnection handle

/-- A value changes, but not its kind. -/
lemma Whole.setValue {debts' : List Handle} {v' : SharedValue} (hv : s.values k = some v)
    (hsame : v'.kind = v.kind)
    (hhandle : v'.handle = v.handle ∨ v'.kind = .connection ∧ v'.handle = 0)
    (howners : debts.count k < v.owners → debts'.count k < v'.owners)
    (hdebts : ∀ j ≠ k, debts'.count j ≤ debts.count j) :
    Whole debts' { s with values := s.values.insert k v' } := by
  have hkind : ∀ j, ({ s with values := s.values.insert k v' } : State).kind j = s.kind j := by
    intro j
    by_cases hj : j = k
    · subst hj
      simp [State.kind, hv, hsame]
    · simp [State.kind, hj]
  refine { h with
    values_below := h.values_below.insert (h.values_below k v hv)
    value_handle := ?_
    connection_kind := fun j c hj => (hkind j).trans (h.connection_kind j c hj)
    transaction_kind := fun t tx ht => (hkind t).trans (h.transaction_kind t tx ht)
    handle_kind := fun t tx ht => (hkind _).trans (h.handle_kind t tx ht)
    nested := fun t tx p name ht hparent => by
      rw [hkind]
      exact h.nested t tx p name ht hparent
    owned := ?_ }
  · intro j w hj
    rcases insert_eq_some_iff.mp hj with ⟨rfl, rfl⟩ | ⟨-, hj⟩
    · rcases hhandle with hhandle | hhandle
      · rw [hhandle, hsame]
        exact h.value_handle j v hv
      · exact .inr hhandle
    · exact h.value_handle j w hj
  · intro t tx ht
    obtain ⟨w, hw, hcount⟩ := h.owned t tx ht
    by_cases ho : tx.owner = k
    · rw [ho] at hw hcount ⊢
      obtain rfl : w = v := Option.some.inj (hw.symm.trans hv)
      exact ⟨v', insert_self, howners hcount⟩
    · exact ⟨w, insert_eq_some_iff.mpr (.inr ⟨ho, hw⟩), lt_of_le_of_lt (hdebts _ ho) hcount⟩

end

/-- A value is referred to by one transaction less. -/
lemma Whole.setOwners {o : Handle} (h : Whole (o :: debts) s) (hv : s.values o = some v) :
    Whole debts { s with values := s.values.insert o { v with owners := v.owners - 1 } } := by
  refine h.setValue hv rfl (.inl rfl) ?_ (fun j hj => count_le_count_cons)
  intro hcount
  rw [count_cons_self] at hcount
  exact Nat.lt_sub_of_add_lt hcount

/-! ### The recursion of the destructors -/

/-- A property of the registries that every step of giving up transactions keeps. -/
structure Discipline (env : Environment) (I : List Handle → State → Prop) : Prop where
  whole : ∀ {debts s}, I debts s → Whole debts s
  settle : ∀ {debts o s}, I (o :: debts) s → I debts s
  setOwners : ∀ {debts o s v}, I (o :: debts) s → s.values o = some v →
    I debts { s with values := s.values.insert o { v with owners := v.owners - 1 } }
  sent : ∀ {debts s} sent, I debts s → I debts { s with log := s.log ++ sent }
  defer : ∀ {debts s t}, I debts s → s.transactionHasResultsetLease t = true →
    I debts { s with transactionClosePending := insert t s.transactionClosePending }
  /-- The value of a connection is destroyed. -/
  dropConnection : ∀ {debts s o v k}, I debts s → s.values o = some v →
    v.program + v.owners = 0 → v.handle = k → I debts (s.dropConnectionHandle k)
  /-- A transaction is rolled back. -/
  restore : ∀ {debts s t tx c sent}, I debts s → s.transactions t = some tx →
    tx.connection = some c → s.transactionHasResultsetLease t = false → (∀ e ∈ sent, e.1 = c) →
    I (tx.owner :: debts)
      (({ s with transactions := s.transactions.remove t, log := s.log ++ sent } :
        State).restoreTransactionConnection tx c)
  /-- The transactions of a connection are removed with the one whose rollback failed. -/
  without : ∀ {debts s t tx c before cmd}, I debts s → s.transactions t = some tx →
    tx.connection = some c → s.transactionHasResultsetLease t = false →
    cmd ∈ finishStatements c.backend tx.parent false →
    env.failure (s.log ++ (before ++ [(c, cmd)])) ≠ none →
    let s' : State := { s with
      transactions := s.transactions.remove t
      log := s.log ++ (before ++ [(c, cmd)]) ++ [(c, rollbackStatement c.backend)] }
    I (((s'.removable env tx.connectionHandle).filterMap s'.transactions).map
      SqlTransaction.owner ++ tx.owner :: debts) (s'.withoutTransactions env tx.connectionHandle)

/-- What letting go of an owner has to do. -/
def Settles (I : List Handle → State → Prop) (dec : Handle → State → State) : Prop :=
  ∀ debts o s, I (o :: debts) s → I debts (dec o s)

namespace Discipline

variable {I : List Handle → State → Prop} (hI : Discipline env I)

include hI

lemma discardAll (hdec : Settles I dec) (removed : List SqlTransaction)
    (h : I (removed.map SqlTransaction.owner ++ debts) s) :
    I debts (removed.foldl (discardTransaction env dec) s) := by
  induction removed generalizing s with
  | nil => exact h
  | cons tx rest ih => ?_
  refine ih ?_
  unfold discardTransaction
  split
  · exact hdec _ _ _ (hI.sent _ h)
  · exact hdec _ _ _ h

lemma rollBackTaken (hdec : Settles I dec) (h : I debts s)
    (ht : s.transactions t = some tx) (hc : tx.connection = some c)
    (hlease : s.transactionHasResultsetLease t = false) :
    I debts (rollBackTaken env dec tx { s with transactions := s.transactions.remove t }) := by
  unfold State.rollBackTaken
  refine hdec _ _ _ ?_
  obtain ⟨failed, sent, heq, hsent, -, hfailed⟩ := issueAll_eq env c
    (finishStatements c.backend tx.parent false)
    { s with transactions := s.transactions.remove t }
  simp only [hc, heq]
  cases failed with
  | none => exact hI.restore h ht hc hlease hsent
  | some failure =>
    obtain ⟨before, cmd, hcmd, rfl, hfailure⟩ := hfailed nofun
    exact hI.discardAll hdec _ (hI.without h ht hc hlease hcmd hfailure)

/-- A transaction that owns no other is dropped with its value. -/
lemma dropTransactionHandle (hdec : Settles I dec) (h : I debts s)
    (hfree : ∀ u utx, s.transactions u = some utx → utx.owner ≠ t) :
    I debts (dropTransactionHandle env dec t s) := by
  have hw := hI.whole h
  unfold State.dropTransactionHandle
  split_ifs with hzero hleased
  · exact h
  · exact hI.defer h hleased
  have hstay : finishDeferredTransaction env dec t s = s :=
    if_neg fun hin => hleased (hw.transaction_pending t hin)
  simp only [hstay]
  split
  · exact h
  rename_i tx ht
  cases hc : tx.connection with
  | none =>
    obtain ⟨u, utx, hu, howner⟩ := hw.suspended t tx ht hc
    exact absurd howner (hfree u utx hu)
  | some c => exact hI.rollBackTaken hdec h ht hc (by simpa using hleased)

/-- Letting go of an owner settles one debt, and keeps whatever the single steps keep. -/
theorem rcDec (fuel : Nat) : Settles I (rcDec env fuel) := by
  induction fuel with
  | zero => exact fun debts o s h => hI.settle h
  | succ fuel ih => ?_
  intro debts o s h
  unfold State.rcDec
  split
  · exact hI.settle h
  rename_i v hv
  have hset := hI.setOwners h hv
  dsimp only
  split_ifs with hlast
  · split
    · exact hI.dropConnection hset insert_self hlast rfl
    · rename_i hkind
      have hfree := (hI.whole hset).unowned insert_self (Nat.add_eq_zero_iff.mp hlast).2
      -- the last reference is gone, so that no transaction is left to own
      exact hI.dropTransactionHandle ih hset
        (((hI.whole h).transaction_handle hv hkind).symm ▸ hfree)
    · exact hset
  · exact hset

lemma muxRcDec : Settles I (muxRcDec env) :=
  fun debts o s h => hI.rcDec _ debts o s h

end Discipline

lemma whole_discipline : Discipline env Whole where
  whole := id
  settle := fun h => { h.toSound.settle with suspended := h.suspended }
  setOwners := Whole.setOwners
  sent := fun _ h => h.setLog _
  defer := by
    intro debts s t h hleased
    refine { h with transaction_pending := ?_ }
    intro k hk
    rcases Finset.mem_insert.mp hk with rfl | hk
    · exact hleased
    · exact h.transaction_pending k hk
  dropConnection := fun h _ _ _ => dropConnectionHandle_whole h _
  restore := by
    intro debts s t tx c sent h ht hc hlease _
    exact (h.setLog (s.log ++ sent)).restore ht hc hlease
  without := fun h ht _ hlease _ _ =>
    ((h.toSound.take ht hlease).setLog _).withoutTransactions _ (h.suspendedBut_remove ht _)

lemma muxRcDec_whole : Settles Whole (muxRcDec env) := whole_discipline.muxRcDec

lemma removeTransactionForConnection_whole (connection : Handle)
    (h : Sound debts s) (hsuspended : SuspendedBut connection s) :
    Whole debts (removeTransactionForConnection env (muxRcDec env) connection s) :=
  whole_discipline.discardAll muxRcDec_whole _ (h.withoutTransactions connection hsuspended)

/-- A transaction whose last lease is gone is rolled back if it waits to be closed. -/
lemma finishDeferredTransaction_whole
    (h : Whole debts { s with transactionClosePending := s.transactionClosePending.erase t })
    (hlease : s.transactionHasResultsetLease t = false)
    (hholds : ∀ tx, s.transactions t = some tx → ∃ c, tx.connection = some c) :
    Whole debts (finishDeferredTransaction env (muxRcDec env) t s) := by
  unfold finishDeferredTransaction
  split_ifs with hpending
  · dsimp only
    split
    · exact h
    · rename_i tx ht
      obtain ⟨c, hc⟩ := hholds tx ht
      exact whole_discipline.rollBackTaken muxRcDec_whole h ht hc hlease
  · rwa [Finset.erase_eq_of_notMem hpending] at h

end Sql
end MuxRuntime
