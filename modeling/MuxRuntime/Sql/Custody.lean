import MuxRuntime.Sql.Outcomes

/-!
# Custody of one connection

A program begins, nests, commits, rolls back and drops transactions on a connection that
it keeps open, and the database may fail at every command. The connection is lost only
when a transaction is dropped whose rollback fails. `Carried` states what an operation
does to the connection.
-/

namespace MuxRuntime
namespace Sql

open List Registry State

/-- The places a connection can be in. -/
inductive Place where
  | registry (handle : Handle)
  | transaction (handle : Handle)
deriving DecidableEq, Repr

namespace State

/-- The place has the connection with this identity. -/
def HeldBy (s : State) (id : Nat) : Place → Prop
  | .registry k => ∃ c, s.connections k = some c ∧ c.id = id
  | .transaction t => ∃ tx c, s.transactions t = some tx ∧ tx.connection = some c ∧ c.id = id

/-- A transaction was begun in this one and has not ended. -/
def HasNested (s : State) (t : Handle) : Prop :=
  ∃ u utx name, s.transactions u = some utx ∧ utx.parent = some (t, name)

/-- An active transaction without a nested one. -/
def Innermost (s : State) (t : Handle) : Prop :=
  (∃ tx, s.transactions t = some tx ∧ tx.active = true) ∧ ¬s.HasNested t

/-- Exactly one place has the connection: its own entry of the registry, or an innermost
transaction. -/
def HeldOnce (s : State) (h : Handle) : Prop :=
  ∃ place, (∀ p, s.HeldBy h p ↔ p = place) ∧
    (place = .registry h ∨ ∃ t, place = .transaction t ∧ s.Innermost t)

/-- No place has the connection. -/
def Discarded (s : State) (h : Handle) : Prop :=
  ∀ p, ¬s.HeldBy h p

/-- Statements can be sent in the transaction. -/
def Usable (s : State) (t : Handle) : Prop :=
  s.transactionHasResultsetLease t = false ∧
    ∃ tx c, s.transactions t = some tx ∧ tx.active = true ∧ tx.connection = some c

end State

/-- Between two states a command of a rollback was sent over the connection and failed. -/
def FailedRollback (env : Environment) (h : Handle) (s s' : State) : Prop :=
  ∃ before c cmd parent, c.id = h ∧ s.log <+: before ∧ before ++ [(c, cmd)] <+: s'.log ∧
    cmd ∈ finishStatements c.backend parent false ∧ env.failure (before ++ [(c, cmd)]) ≠ none

/-- The calls on transactions, without giving up the connection itself. -/
def Call.OnTransactions (h : Handle) : Call → Prop
  | .beginTransaction _ | .beginTransactionWithOptions _ _ _ _ | .beginNested _ | .commit _
  | .rollback _ | .retain _ => True
  | .release v => v ≠ h
  | _ => False

variable {env : Environment} {dec : Handle → State → State} {s s' s'' : State}
  {debts debts' : List Handle} {h : Handle}

/-! ## Who holds the connection -/

/-- The connection is in the registry or with a transaction begun on it. -/
def State.Present (s : State) (h : Handle) : Prop :=
  (∃ c, s.connections h = some c) ∨
    ∃ t tx c, s.transactions t = some tx ∧ tx.connectionHandle = h ∧ tx.connection = some c

/-- The registry has no trace of the connection. -/
def State.Absent (s : State) (h : Handle) : Prop :=
  s.connections h = none ∧ ∀ t tx, s.transactions t = some tx → tx.connectionHandle ≠ h

variable {t : Handle} {tx : SqlTransaction}

/-- One of the transactions of a connection holds it. -/
lemma Whole.exists_holder (hw : Whole debts s) (ht : s.transactions t = some tx) :
    ∃ u utx c, s.transactions u = some utx ∧ utx.connectionHandle = tx.connectionHandle ∧
      utx.connection = some c := by
  -- a nested transaction has the larger handle, so the induction goes upwards
  induction hn : s.next - t using Nat.strong_induction_on generalizing t tx with
  | _ n ih => ?_
  cases hc : tx.connection with
  | some c => exact ⟨t, tx, c, ht, rfl, hc⟩
  | none => ?_
  rcases hw.suspended t tx ht hc with ⟨u, utx, hu, howner⟩
  have hparent := hw.parent_of_owner hu howner (hw.transaction_kind t tx ht)
  have hbelow := hw.transactions_below u utx hu
  rcases ih (s.next - u)
    (hn ▸ Nat.sub_lt_sub_left (hparent.1.trans hbelow) hparent.1) hu rfl with
    ⟨k, ktx, c, hk, hsame, hkc⟩
  exact ⟨k, ktx, c, hk, hsame.trans (hparent.2 tx ht).1.symm, hkc⟩

lemma Whole.absent_iff (hw : Whole debts s) : s.Absent h ↔ ¬s.Present h := by
  constructor
  · rintro ⟨hnone, hothers⟩ (⟨c, hc⟩ | ⟨t, tx, c, ht, hsame, -⟩)
    · rw [hnone] at hc
      cases hc
    · exact hothers t tx ht hsame
  intro hnot
  refine ⟨?_, ?_⟩
  · rw [Option.eq_none_iff_forall_ne_some]
    exact fun c hc => hnot (.inl ⟨c, hc⟩)
  · intro t tx ht hsame
    rcases hw.exists_holder ht with ⟨u, utx, c, hu, hu', huc⟩
    exact hnot (.inr ⟨u, utx, c, hu, hu'.trans hsame, huc⟩)

variable {k : Handle}

lemma Sound.heldBy_registry_iff (hs : Sound debts s) :
    s.HeldBy h (.registry k) ↔ k = h ∧ ∃ c, s.connections k = some c := by
  constructor
  · rintro ⟨c, hc, hid⟩
    exact ⟨(hs.connection_id k c hc).symm.trans hid, c, hc⟩
  · rintro ⟨rfl, c, hc⟩
    exact ⟨c, hc, hs.connection_id k c hc⟩

lemma Sound.heldBy_transaction_iff (hs : Sound debts s) : s.HeldBy h (.transaction t) ↔
      ∃ tx c, s.transactions t = some tx ∧ tx.connectionHandle = h ∧ tx.connection = some c := by
  constructor
  · rintro ⟨tx, c, ht, hc, hid⟩
    exact ⟨tx, c, ht, (hs.transaction_id t tx c ht hc).symm.trans hid, hc⟩
  · rintro ⟨tx, c, ht, rfl, hc⟩
    exact ⟨tx, c, ht, hc, hs.transaction_id t tx c ht hc⟩

variable {c : SqlConnection}

/-- What has a connection has no nested transaction. -/
lemma Sound.not_hasNested (hs : Sound debts s) (ht : s.transactions t = some tx)
    (hc : tx.connection = some c) : ¬s.HasNested t := by
  rintro ⟨u, utx, name, hu, hparent⟩
  rcases hs.nested u utx t name hu hparent with ⟨-, -, -, hptx⟩
  rw [(hptx tx ht).2] at hc
  cases hc

lemma Whole.heldOnce (hw : Whole debts s) (hp : s.Present h) : s.HeldOnce h := by
  rcases hp with ⟨c, hc⟩ | ⟨t, tx, c, ht, hsame, htc⟩
  · refine ⟨.registry h, ?_, .inl rfl⟩
    rintro (k | t)
    · rw [hw.heldBy_registry_iff, Place.registry.injEq]
      refine ⟨And.left, ?_⟩
      rintro rfl
      exact ⟨rfl, c, hc⟩
    · rw [hw.heldBy_transaction_iff]
      refine ⟨?_, nofun⟩
      rintro ⟨tx, c', ht, hsame, -⟩
      exact absurd hsame (hw.idle h c t tx hc ht)
  · refine ⟨.transaction t, ?_, .inr ⟨t, rfl, ⟨tx, ht, hw.active t tx ht⟩, hw.not_hasNested ht htc⟩⟩
    rintro (k | u)
    · rw [hw.heldBy_registry_iff]
      refine ⟨?_, nofun⟩
      rintro ⟨rfl, c', hc'⟩
      exact absurd hsame (hw.idle k c' t tx hc' ht)
    · rw [hw.heldBy_transaction_iff, Place.transaction.injEq]
      constructor
      · rintro ⟨utx, c', hu, husame, huc⟩
        exact hw.unique u utx c' t tx c hu huc ht htc (husame.trans hsame.symm)
      · rintro rfl
        exact ⟨tx, c, ht, hsame, htc⟩

lemma Sound.discarded (hs : Sound debts s) (hnot : ¬s.Present h) : s.Discarded h := by
  rintro (k | t) hheld
  · rcases hs.heldBy_registry_iff.mp hheld with ⟨rfl, hc⟩
    exact hnot (.inl hc)
  · rcases hs.heldBy_transaction_iff.mp hheld with ⟨tx, c, ht⟩
    exact hnot (.inr ⟨t, tx, c, ht⟩)

lemma HeldOnce.not_discarded (hheld : s.HeldOnce h) : ¬s.Discarded h := by
  rcases hheld with ⟨place, honly, -⟩
  exact fun hnone => hnone place ((honly place).mpr rfl)

lemma Whole.present_iff (hw : Whole debts s) : s.HeldOnce h ↔ s.Present h := by
  refine ⟨?_, hw.heldOnce⟩
  intro hheld
  by_contra hnot
  exact HeldOnce.not_discarded hheld (hw.discarded hnot)

lemma Whole.discarded_iff (hw : Whole debts s) : s.Discarded h ↔ s.Absent h := by
  rw [hw.absent_iff]
  exact ⟨fun hnone hp => HeldOnce.not_discarded (hw.heldOnce hp) hnone, hw.discarded⟩

/-! ## Failed rollbacks -/

lemma FailedRollback.extend (hf : FailedRollback env h s s') (hlog : s'.log <+: s''.log) :
    FailedRollback env h s s'' := by
  rcases hf with ⟨before, c, cmd, parent, hid, hbefore, hsent, hcmd⟩
  exact ⟨before, c, cmd, parent, hid, hbefore, hsent.trans hlog, hcmd⟩

lemma FailedRollback.earlier (hf : FailedRollback env h s' s'') (hlog : s.log <+: s'.log) :
    FailedRollback env h s s'' := by
  rcases hf with ⟨before, c, cmd, parent, hid, hbefore, hsent, hcmd⟩
  exact ⟨before, c, cmd, parent, hid, hlog.trans hbefore, hsent, hcmd⟩

/-! ## Operations on transactions -/

/-- The registries of a program that reads no result sets and keeps the value of the connection. -/
structure Plain (h : Handle) (debts : List Handle) (s : State) : Prop extends Whole debts s where
  unread : ∀ r, s.resultsets r = none
  rooted : ∀ t tx p name, s.transactions t = some tx → tx.parent = some (p, name) →
    ∃ ptx, s.transactions p = some ptx
  kept : ∃ v, s.values h = some v ∧ 0 < v.program

/-- What an operation may do to the connection. -/
structure Carried (env : Environment) (h : Handle) (debts : List Handle) (s s' : State) : Prop where
  plain : Plain h debts s'
  log : s.log <+: s'.log
  present : s.Present h → s'.Present h ∨ FailedRollback env h s s'
  absent : s.Absent h → s'.Absent h

lemma Plain.unleased (hp : Plain h debts s) (t : Handle) :
    s.transactionHasResultsetLease t = false := by
  rw [Bool.eq_false_iff]
  intro hleased
  rcases (hp.transaction_leased_iff t).mp hleased with ⟨r, rs, hr, -⟩
  rw [hp.unread r] at hr
  cases hr

lemma Carried.refl (hp : Plain h debts s) : Carried env h debts s s := ⟨hp, prefix_refl _, .inl, id⟩

lemma Carried.trans (hfirst : Carried env h debts s s') (hsecond : Carried env h debts' s' s'') :
    Carried env h debts' s s'' := by
  refine ⟨hsecond.plain, hfirst.log.trans hsecond.log, ?_, hsecond.absent ∘ hfirst.absent⟩
  intro hpresent
  rcases hfirst.present hpresent with hmid | hfailed
  · exact (hsecond.present hmid).imp id (fun hf => hf.earlier hfirst.log)
  · exact .inr (hfailed.extend hsecond.log)

lemma Tidies.log_prefix (ht : Tidies s s') : s.log <+: s'.log := by
  rcases ht.log with ⟨sent, hlog, -⟩
  exact ⟨sent, hlog.symm⟩

/-- What has been lost does not come back. -/
lemma Tidies.absent (ht : Tidies s s') (habsent : s.Absent h) : s'.Absent h := by
  refine ⟨?_, ?_⟩
  · rw [Option.eq_none_iff_forall_ne_some]
    intro c hc
    rcases ht.connection_of h c hc with hold | ⟨t, tx, htx, hsame, -⟩
    · rw [habsent.1] at hold
      cases hold
    · exact habsent.2 t tx htx hsame
  · intro t tx' htx'
    rcases ht.transaction_of t tx' htx' with ⟨tx, htx, heq⟩
    rw [heq]
    exact habsent.2 t tx htx

lemma Tidies.kept (ht : Tidies s s') (hkept : ∃ v, s.values h = some v ∧ 0 < v.program) :
    ∃ v, s'.values h = some v ∧ 0 < v.program := by
  rcases hkept with ⟨v, hv, hpos⟩
  have hface := ht.values h
  rw [hv, Option.map_some, Option.map_eq_some_iff] at hface
  rcases hface with ⟨v', hv', heq⟩
  have hprogram : v'.program = v.program := congrArg (fun face => face.2.2) heq
  exact ⟨v', hv', hprogram ▸ hpos⟩

section

variable (hp : Plain h debts s)

include hp

/-- A plain state after tidying up, given what is not a matter of tidying. -/
lemma Plain.tidied (ht : Tidies s s') (hw : Whole debts' s')
    (hrooted : ∀ t tx p name, s'.transactions t = some tx → tx.parent = some (p, name) → ∃ ptx, s'.transactions p = some ptx) :
    Plain h debts' s' :=
  { hw with
    unread := fun r => by rw [ht.resultsets, hp.unread]
    rooted := hrooted
    kept := ht.kept hp.kept }

section

variable (ht : s.transactions t = some tx)

include ht

/-- The parent of a transaction waits for it. -/
lemma Plain.parent_left {p : Handle} {name : String} (hparent : tx.parent = some (p, name)) :
    ∃ ptx, s.transactions.remove t p = some ptx ∧ ptx.connectionHandle = tx.connectionHandle ∧
      ptx.connection = none := by
  rcases hp.rooted t tx p name ht hparent with ⟨ptx, hptx⟩
  rcases hp.nested t tx p name ht hparent with ⟨-, hlt, -, hsuspended⟩
  exact ⟨ptx, remove_eq_some_iff.mpr ⟨ne_of_lt hlt, hptx⟩, hsuspended ptx hptx⟩

/-- What a transaction had is in the registry, or with the parent, once it has been given back. -/
lemma Plain.restored_present (log : List (SqlConnection × Command)) (hpresent : s.Present h) :
    (({ s with transactions := s.transactions.remove t, log := log } :
      State).restoreTransactionConnection tx c).Present h := by
  have hother : tx.connectionHandle ≠ h →
      ({ s with transactions := s.transactions.remove t } : State).Present h := by
    intro hne
    refine hpresent.imp id ?_
    rintro ⟨u, utx, c, hu, hsame, huc⟩
    refine ⟨u, utx, c, remove_eq_some_iff.mpr ⟨?_, hu⟩, hsame, huc⟩
    rintro rfl
    rw [ht] at hu
    cases hu
    exact hne hsame
  unfold restoreTransactionConnection
  cases hparent : tx.parent with
  | none =>
    by_cases hsame : tx.connectionHandle = h
    · exact .inl ⟨c, by rw [hsame]; exact insert_self⟩
    · rcases hother hsame with ⟨c', hc'⟩ | hheld
      · exact .inl ⟨c', insert_eq_some_iff.mpr (.inr ⟨Ne.symm hsame, hc'⟩)⟩
      · exact .inr hheld
  | some parent => ?_
  rcases hp.parent_left ht hparent with ⟨ptx, hleft, hhandle, hnone⟩
  simp only [hleft]
  by_cases hsame : tx.connectionHandle = h
  · exact .inr ⟨parent.1, _, c, insert_self, hhandle.trans hsame, rfl⟩
  rcases hother hsame with hc' | ⟨u, utx, c', hu, husame, huc⟩
  · exact .inl hc'
  refine .inr ⟨u, utx, c', insert_eq_some_iff.mpr (.inr ⟨?_, hu⟩), husame, huc⟩
  rintro rfl
  cases hleft.symm.trans hu
  rw [hnone] at huc
  cases huc

/-- The transactions beside a holder keep their parents. -/
lemma Plain.rooted_remove (hc : tx.connection = some c) {u p : Handle} {utx : SqlTransaction}
    {name : String} (hu : s.transactions.remove t u = some utx)
    (hparent : utx.parent = some (p, name)) : ∃ ptx, s.transactions.remove t p = some ptx := by
  have hu' := (remove_eq_some_iff.mp hu).2
  rcases hp.rooted u utx p name hu' hparent with ⟨ptx, hptx⟩
  refine ⟨ptx, remove_eq_some_iff.mpr ⟨?_, hptx⟩⟩
  rintro rfl
  exact hp.not_hasNested ht hc ⟨u, utx, name, hu', hparent⟩

/-- A connection goes back to where its transaction had it from. -/
lemma Plain.restore (hc : tx.connection = some c) {sent : List (SqlConnection × Command)}
    (hsent : ∀ e ∈ sent, e.1 = c) :
    Carried env h (tx.owner :: debts) s
      (({ s with transactions := s.transactions.remove t, log := s.log ++ sent } :
        State).restoreTransactionConnection tx c) := by
  have htidies := Tidies.finish ht hc hsent
  have hwhole := (hp.toWhole.setLog (s.log ++ sent)).restore ht hc (hp.unleased t)
  refine ⟨hp.tidied htidies hwhole ?_, htidies.log_prefix,
    fun hpresent => .inl (hp.restored_present ht _ hpresent), htidies.absent⟩
  intro u utx p name hu hparent
  unfold restoreTransactionConnection at hu ⊢
  cases hq : tx.parent with
  | none =>
    simp only [hq] at hu ⊢
    exact hp.rooted_remove ht hc hu hparent
  | some q => ?_
  rcases hp.parent_left ht hq with ⟨qtx, hleft, -⟩
  simp only [hq, hleft] at hu ⊢
  -- the parent that gets the connection back has the same parent as before
  have hroot : ∃ ptx, s.transactions.remove t p = some ptx := by
    rcases insert_eq_some_iff.mp hu with ⟨rfl, rfl⟩ | ⟨-, hu⟩
    · exact hp.rooted_remove ht hc hleft hparent
    · exact hp.rooted_remove ht hc hu hparent
  rcases hroot with ⟨ptx, hptx⟩
  by_cases hpq : p = q.1
  · exact ⟨_, by rw [hpq]; exact insert_self⟩
  · exact ⟨ptx, insert_eq_some_iff.mpr (.inr ⟨hpq, hptx⟩)⟩

end

/-! ## Giving up transactions -/

lemma Plain.setLog (log : List (SqlConnection × Command)) : Plain h debts { s with log := log } :=
  { hp.toWhole.setLog log with unread := hp.unread, rooted := hp.rooted, kept := hp.kept }

lemma Plain.sent (sent : List (SqlConnection × Command)) :
    Carried env h debts s { s with log := s.log ++ sent } :=
  ⟨hp.setLog _, prefix_append _ _, .inl, id⟩

/-- The removal leaves other connections where they are. -/
lemma Plain.without_present (ht : s.transactions t = some tx) (hne : tx.connectionHandle ≠ h)
    (log : List (SqlConnection × Command)) (hpresent : s.Present h) :
    (({ s with transactions := s.transactions.remove t, log := log } :
      State).withoutTransactions env tx.connectionHandle).Present h := by
  have hsound := (hp.toSound.take ht (hp.unleased t)).setLog log
  refine hpresent.imp id ?_
  rintro ⟨u, utx, c, hu, hsame, huc⟩
  have hleft : s.transactions.remove t u = some utx := by
    refine remove_eq_some_iff.mpr ⟨?_, hu⟩
    rintro rfl
    rw [ht] at hu
    cases hu
    exact hne hsame
  refine ⟨u, utx, c, foldl_remove_eq_some_iff.mpr ⟨?_, hleft⟩, hsame, huc⟩
  intro hin
  exact hne (((hsound.mem_removable hleft).mp hin).1.symm.trans hsame)

/-- The transactions of a connection are removed with the one whose rollback failed. -/
lemma Plain.without (ht : s.transactions t = some tx) (hc : tx.connection = some c)
    {log : List (SqlConnection × Command)} (hlog : s.log <+: log)
    (hfailed : tx.connectionHandle = h → FailedRollback env h s { s with log := log }) :
    Carried env h
      (((({ s with transactions := s.transactions.remove t, log := log } :
        State).removable env tx.connectionHandle).filterMap
          (s.transactions.remove t)).map SqlTransaction.owner ++ tx.owner :: debts) s
      (({ s with transactions := s.transactions.remove t, log := log } :
        State).withoutTransactions env tx.connectionHandle) := by
  have hsound := (hp.toSound.take ht (hp.unleased t)).setLog log
  refine ⟨{ hsound.withoutTransactions tx.connectionHandle (hp.suspendedBut_remove ht log) with
    unread := hp.unread, rooted := ?_, kept := hp.kept }, hlog, ?_, ?_⟩
  · intro u utx p name hu hparent
    rcases foldl_remove_eq_some_iff.mp hu with ⟨hnot, hu⟩
    rcases hp.rooted_remove ht hc hu hparent with ⟨ptx, hptx⟩
    refine ⟨ptx, foldl_remove_eq_some_iff.mpr ⟨?_, hptx⟩⟩
    intro hin
    have hsame := ((hsound.mem_removable hptx).mp hin).1
    rcases hsound.nested u utx p name hu hparent with ⟨-, -, -, hsuspended⟩
    exact hnot ((hsound.mem_removable hu).mpr
      ⟨(hsuspended ptx hptx).1.symm.trans hsame, hp.unleased u⟩)
  · intro hpresent
    by_cases hsame : tx.connectionHandle = h
    · exact .inr (hfailed hsame)
    · exact .inl (hp.without_present ht hsame log hpresent)
  · rintro ⟨hnone, hothers⟩
    refine ⟨hnone, fun u utx hu => ?_⟩
    have hleft := (foldl_remove_eq_some_iff.mp hu).2
    exact hothers u utx (remove_eq_some_iff.mp hleft).2

/-- Another connection is dropped. -/
lemma Plain.dropConnection (hk : k = 0 ∨ k ≠ h) :
    Carried env h debts s (s.dropConnectionHandle k) := by
  have htidies := Tidies.dropConnection s k
  have htransactions : (s.dropConnectionHandle k).transactions = s.transactions := by
    unfold dropConnectionHandle
    split_ifs <;> rfl
  refine ⟨hp.tidied htidies (dropConnectionHandle_whole hp.toWhole k) ?_, htidies.log_prefix, ?_,
    htidies.absent⟩
  · rw [htransactions]
    exact hp.rooted
  rintro (⟨c, hc⟩ | hheld)
  · refine .inl (.inl ⟨c, ?_⟩)
    unfold dropConnectionHandle
    split_ifs with hzero
    · exact hc
    · exact hc
    · exact remove_eq_some_iff.mpr ⟨(hk.resolve_left hzero).symm, hc⟩
  · refine .inl (.inr ?_)
    rw [htransactions]
    exact hheld

end

variable {o : Handle}

lemma Plain.setOwners {v : SharedValue} (hp : Plain h (o :: debts) s) (hv : s.values o = some v) :
    Carried env h debts s
      { s with values := s.values.insert o { v with owners := v.owners - 1 } } :=
  ⟨hp.tidied (Tidies.setOwners s hv _) (hp.toWhole.setOwners hv) hp.rooted, prefix_refl _, .inl, id⟩

lemma Plain.settle (hp : Plain h (o :: debts) s) : Carried env h debts s s :=
  .refl { hp.toSound.settle with
    suspended := hp.suspended, unread := hp.unread, rooted := hp.rooted, kept := hp.kept }

/-- Letting go of an owner keeps the connection, or a rollback has failed. -/
theorem carried_discipline (env : Environment) (h : Handle) (s₀ : State) :
    Discipline env fun debts s => Carried env h debts s₀ s where
  whole := fun hc => hc.plain.toWhole
  settle := fun hc => hc.trans hc.plain.settle
  setOwners := fun hc hv => hc.trans (hc.plain.setOwners hv)
  sent := fun sent hc => hc.trans (hc.plain.sent sent)
  defer := by
    intro debts s t hc hleased
    rw [hc.plain.unleased t] at hleased
    cases hleased
  dropConnection := by
    intro debts s o v k hc hv hlast hk
    subst hk
    refine hc.trans (hc.plain.dropConnection ?_)
    rcases hc.plain.value_handle o v hv with rfl | ⟨-, hzero⟩
    · -- the value of the connection is still referred to by the program
      right
      rintro rfl
      rcases hc.plain.kept with ⟨w, hw, hpos⟩
      rw [hv] at hw
      cases hw
      omega
    · exact .inl hzero
  restore := fun hc ht hcon _ hsent => hc.trans (hc.plain.restore ht hcon hsent)
  without := by
    intro debts s t tx c before cmd hc ht hcon hlease hcmd hfailure
    rw [← append_assoc] at hfailure
    refine hc.trans (hc.plain.without ht hcon ?_ fun hsame => ?_)
    · rw [append_assoc]
      exact prefix_append _ _
    · exact ⟨s.log ++ before, c, cmd, tx.parent, (hc.plain.transaction_id t tx c ht hcon).trans hsame,
        prefix_append _ _, by simp [← append_assoc], hcmd, hfailure⟩

/-! ## Calls -/

/-- A new transaction on an owner leaves the program's references as they are. -/
lemma kept_grant {κ : Kind} (hk : h ≠ k) (hkept : ∃ v, s.values h = some v ∧ 0 < v.program) :
    ∃ v, ((s.rcInc o).createHandleValue k κ).values h = some v ∧ 0 < v.program := by
  rcases hkept with ⟨v, hv, hpos⟩
  have hinc : ∃ v, (s.rcInc o).values h = some v ∧ 0 < v.program := by
    unfold State.rcInc
    rcases ho : s.values o with _ | w
    · exact ⟨v, hv, hpos⟩
    by_cases hho : h = o
    · subst hho
      rw [hv] at ho
      cases ho
      exact ⟨_, insert_self, hpos⟩
    · exact ⟨v, insert_eq_some_iff.mpr (.inr ⟨hho, hv⟩), hpos⟩
  rcases hinc with ⟨w, hw, hpos⟩
  exact ⟨w, insert_eq_some_iff.mpr (.inr ⟨hk, hw⟩), hpos⟩

lemma Plain.kept_below (hp : Plain h debts s) : h < s.next := by
  rcases hp.kept with ⟨v, hv, -⟩
  exact hp.values_below h v hv

section

variable (hp : Plain h [] s)

include hp

lemma openTransaction_carried {handle : Handle} {isolation : String} {readOnly deferrable : Bool}
    (hw : Whole [] (openTransaction env handle handle isolation readOnly deferrable s).2) :
    Carried env h [] s (openTransaction env handle handle isolation readOnly deferrable s).2 := by
  rcases openTransaction_cases env handle handle isolation readOnly deferrable s with
    ⟨e, heq⟩ | ⟨c, statements, sent, hc, -, -, -, ⟨e, heq⟩ | heq⟩
  · rw [heq]
    exact .refl hp
  · rw [heq]
    exact hp.sent sent
  rw [heq] at hw ⊢
  refine ⟨{ hw with unread := hp.unread, rooted := ?_, kept := ?_ }, prefix_append _ _, ?_,
    ?_⟩
  · intro t tx p name ht hparent
    rcases insert_eq_some_iff.mp ht with ⟨rfl, rfl⟩ | ⟨-, ht⟩
    · cases hparent
    · rcases hp.rooted t tx p name ht hparent with ⟨ptx, hptx⟩
      exact ⟨ptx, insert_eq_some_iff.mpr (.inr ⟨ne_of_lt (hp.transactions_below p ptx hptx), hptx⟩)⟩
  · exact kept_grant (s := { s with
      connections := s.connections.remove handle, log := s.log ++ sent, next := s.next + 1 })
      (ne_of_lt hp.kept_below) hp.kept
  · rintro (⟨c', hc'⟩ | ⟨u, utx, c', hu, hsame, huc⟩)
    · by_cases hh : h = handle
      · exact .inl (.inr ⟨s.next, _, c, insert_self, hh.symm, rfl⟩)
      · exact .inl (.inl ⟨c', remove_eq_some_iff.mpr ⟨hh, hc'⟩⟩)
    · exact .inl (.inr ⟨u, utx, c', insert_eq_some_iff.mpr
        (.inr ⟨ne_of_lt (hp.transactions_below u utx hu), hu⟩), hsame, huc⟩)
  rintro ⟨hnone, hothers⟩
  have hne : handle ≠ h := by
    rintro rfl
    rw [hnone] at hc
    cases hc
  refine ⟨(remove_of_ne hne.symm).trans hnone, ?_⟩
  exact forall_insert hothers hne

lemma beginNested_carried {value : Handle}
    (hw : Whole [] (transactionBeginTransaction env value t s).2) :
    Carried env h [] s (transactionBeginTransaction env value t s).2 := by
  rcases transactionBeginTransaction_cases env value t s with
    ⟨e, heq⟩ | ⟨tx, c, cmd, ht, hc, -, ⟨e, heq⟩ | heq⟩
  · rw [heq]
    exact .refl hp
  · rw [heq] at hw ⊢
    exact ⟨{ hw with unread := hp.unread, rooted := hp.rooted, kept := hp.kept },
      prefix_append _ _, .inl, id⟩
  rw [heq] at hw ⊢
  -- what was in the registry is still there, the suspended parent included
  have hstill : ∀ p ptx, s.transactions p = some ptx → p ≠ s.next + 1 := fun p ptx hptx =>
    ne_of_lt (Nat.lt_succ_of_lt (hp.transactions_below p ptx hptx))
  have hnext : h ≠ s.next + 1 := ne_of_lt (Nat.lt_succ_of_lt hp.kept_below)
  refine ⟨{ hw with unread := hp.unread, rooted := ?_, kept := ?_ }, prefix_append _ _, ?_,
    ?_⟩
  · intro u utx p name hu hparent
    have hold : ∃ ptx, s.transactions p = some ptx := by
      rcases insert_eq_some_iff.mp hu with ⟨rfl, rfl⟩ | ⟨-, hu⟩
      · cases hparent
        exact ⟨tx, ht⟩
      · rcases insert_eq_some_iff.mp hu with ⟨rfl, rfl⟩ | ⟨-, hu⟩
        · exact hp.rooted _ tx p name ht hparent
        · exact hp.rooted u utx p name hu hparent
    rcases hold with ⟨ptx, hptx⟩
    by_cases hpt : p = t
    · subst hpt
      exact ⟨_, insert_eq_some_iff.mpr (.inr ⟨hstill p ptx hptx, insert_self⟩)⟩
    · exact ⟨ptx, insert_eq_some_iff.mpr (.inr ⟨hstill p ptx hptx,
        insert_eq_some_iff.mpr (.inr ⟨hpt, hptx⟩)⟩)⟩
  · exact kept_grant (s := { s with next := s.next + 1 + 1, log := s.log ++ [(c, cmd)] }) hnext
      hp.kept
  · rintro (hc' | ⟨u, utx, c', hu, hsame, huc⟩)
    · exact .inl (.inl hc')
    · by_cases hut : u = t
      · subst hut
        rw [ht] at hu
        cases hu
        exact .inl (.inr ⟨s.next + 1, _, c, insert_self, hsame, rfl⟩)
      · exact .inl (.inr ⟨u, utx, c', insert_eq_some_iff.mpr (.inr ⟨hstill u utx hu,
          insert_eq_some_iff.mpr (.inr ⟨hut, hu⟩)⟩), hsame, huc⟩)
  · rintro ⟨hnone, hothers⟩
    refine ⟨hnone, forall_insert (forall_insert hothers ?_) ?_⟩
    · exact hothers t tx ht
    · exact hothers t tx ht

lemma finishTransaction_carried (t : Handle) (commit : Bool) :
    Carried env h [] s (finishTransaction env t commit s).2 := by
  rcases finishTransaction_cases env t commit s with
    ⟨e, heq⟩ | ⟨tx, c, sent, ht, hc, -, hsent, ⟨e, heq⟩ | heq⟩
  · rw [heq]
    exact .refl hp
  · rw [heq]
    exact hp.sent sent
  · rw [heq]
    exact (carried_discipline env h s).muxRcDec _ _ _ (hp.restore ht hc hsent)

/-- The program counts its references to a value, and keeps the one to the connection. -/
lemma Plain.setProgram {n : Handle} {v : SharedValue} (hv : s.values k = some v)
    (hn : k = h → 0 < n) :
    Carried env h [] s { s with values := s.values.insert k { v with program := n } } := by
  have hw := hp.toWhole.setProgram hv n
  refine ⟨{ hw with unread := hp.unread, rooted := hp.rooted, kept := ?_ }, prefix_refl _,
    .inl, id⟩
  by_cases hk : h = k
  · subst hk
    exact ⟨_, insert_self, hn rfl⟩
  · rcases hp.kept with ⟨w, hw, hpos⟩
    exact ⟨w, insert_eq_some_iff.mpr (.inr ⟨hk, hw⟩), hpos⟩

lemma retain_carried (value : Handle) : Carried env h [] s (s.retain value) := by
  unfold State.retain
  split
  · exact .refl hp
  rename_i v hv
  split_ifs
  · exact .refl hp
  · exact hp.setProgram hv (fun _ => Nat.succ_pos _)

lemma release_carried {value : Handle} (hne : value ≠ h) :
    Carried env h [] s (release env value s) := by
  unfold State.release
  split
  · exact .refl hp
  rename_i v hv
  have hset : Carried env h [] s { s with
      values := s.values.insert value { v with program := v.program - 1 } } :=
    hp.setProgram hv (fun heq => absurd heq hne)
  split_ifs with hnone hlast
  · exact .refl hp
  · have hI := carried_discipline env h s
    unfold destroy
    split
    · exact hI.dropConnection hset insert_self hlast rfl
    · rename_i hkind
      have hfree := hset.plain.unowned insert_self (Nat.add_eq_zero_iff.mp hlast).2
      exact hI.dropTransactionHandle hI.muxRcDec hset
        ((hp.transaction_handle hv hkind).symm ▸ hfree)
    · have hnothing : removeResultset env v.handle { s with
          values := s.values.insert value { v with program := v.program - 1 } } = { s with
            values := s.values.insert value { v with program := v.program - 1 } } := by
        rw [removeResultset, hset.plain.unread]
      dsimp only
      rw [hnothing]
      split_ifs <;> exact hset
  · exact hset

end

variable {v : Handle}

lemma beginTransaction_carried (hp : Plain h [] s) (hv : s.connectionHandle v = .ok k)
    (hw : Whole [] (connectionBeginTransaction env v k s).2) :
    Carried env h [] s (connectionBeginTransaction env v k s).2 := by
  rcases hp.handle_eq hv with ⟨rfl, -⟩
  unfold connectionBeginTransaction at hw ⊢
  split_ifs with hactive
  · exact .refl hp
  · rw [if_neg hactive] at hw
    exact openTransaction_carried hp hw

lemma beginTransactionWithOptions_carried (hp : Plain h [] s)
    (hv : s.connectionHandle v = .ok k) {isolation readOnly deferrable : Value}
    (hw : Whole [] (connectionBeginTransactionWithOptions env v k isolation readOnly deferrable
      s).2) :
    Carried env h [] s
      (connectionBeginTransactionWithOptions env v k isolation readOnly deferrable s).2 := by
  rcases hp.handle_eq hv with ⟨rfl, -⟩
  rcases optionsOf_cases env k k isolation readOnly deferrable s with
    ⟨e, heq⟩ | ⟨level, reads, defers, -, -, -, -, heq⟩
  · rw [heq]
    exact .refl hp
  · rw [heq] at hw ⊢
    exact openTransaction_carried hp hw

variable {call : Call}

/-- Every call on transactions keeps the connection, or a rollback has failed in it. -/
theorem after_carried (hp : Plain h [] s) (hcall : call.OnTransactions h) :
    Carried env h [] s (s.after env call) := by
  have hrefused : Carried env h [] s s := .refl hp
  have hw : Whole [] (s.after env call) := after_whole hp.toWhole call
  cases call with
  | beginTransaction v =>
    exact onHandle_elim (P := fun s' => Whole [] s' → Carried env h [] s s')
      (fun _ => hrefused) (fun k hv hw => beginTransaction_carried hp hv hw) hw
  | beginTransactionWithOptions v isolation readOnly deferrable =>
    exact onHandle_elim (P := fun s' => Whole [] s' → Carried env h [] s s')
      (fun _ => hrefused) (fun k hv hw => beginTransactionWithOptions_carried hp hv hw) hw
  | beginNested v =>
    exact onHandle_elim (P := fun s' => Whole [] s' → Carried env h [] s s')
      (fun _ => hrefused) (fun t _ hw => beginNested_carried hp hw) hw
  | commit v => exact onHandle_elim hrefused fun t _ => finishTransaction_carried hp t true
  | rollback v => exact onHandle_elim hrefused fun t _ => finishTransaction_carried hp t false
  | retain v => exact retain_carried hp v
  | release v => exact release_carried hp hcall
  | _ => cases hcall

/-! ## Finishing a transaction -/

lemma finishTransaction_hasNested (hp : Plain h [] s) (hnested : s.HasNested t) (commit : Bool) :
    finishTransaction env t commit s =
      (.error "transaction has an active nested transaction", s) := by
  rcases hnested with ⟨u, utx, name, hu, hparent⟩
  rcases hp.rooted u utx t name hu hparent with ⟨tx, ht⟩
  rcases hp.nested u utx t name hu hparent with ⟨-, -, -, hsuspended⟩
  unfold finishTransaction
  simp only [hp.unleased t, ht, (hsuspended tx ht).2, Bool.false_eq_true, if_false,
    insert_remove, insert_eq_self ht]

lemma finishTransaction_error {commit : Bool} {e : String}
    (herror : (finishTransaction env t commit s).1 = .error e) :
    ∃ log, (finishTransaction env t commit s).2 = { s with log := log } := by
  rcases finishTransaction_cases env t commit s with
    ⟨e', heq⟩ | ⟨tx, c, sent, -, -, -, -, ⟨e', heq⟩ | heq⟩
  · exact ⟨s.log, by rw [heq]⟩
  · exact ⟨s.log ++ sent, by rw [heq]⟩
  · rw [heq] at herror
    cases herror

/-- What a call does to the connection and to the transactions on it. -/
structure KeepsCustody (env : Environment) (h : Handle) (s : State) (call : Call) : Prop where
  held : s.HeldOnce h ∨ s.Discarded h
  keeps : s.HeldOnce h → (s.after env call).HeldOnce h ∨
    (s.after env call).Discarded h ∧ FailedRollback env h s (s.after env call)
  stays : s.Discarded h → (s.after env call).Discarded h
  /-- A transaction with a nested one cannot be finished. -/
  suspended : ∀ v t, call = .commit v ∨ call = .rollback v → s.transactionHandle v = .ok t →
    s.HasNested t →
    s.perform env call = (.error "transaction has an active nested transaction", s)
  /-- A transaction that could not be finished is as it was. -/
  usable : ∀ v t e, call = .commit v ∨ call = .rollback v → s.transactionHandle v = .ok t →
    s.Usable t → (s.perform env call).1 = .error e →
    (s.after env call).Usable t ∧ s.after env call = { s with log := (s.after env call).log }

lemma perform_finish (hv : s.transactionHandle v = .ok t)
    (hcall : call = .commit v ∨ call = .rollback v) :
    ∃ commit, s.perform env call = finishTransaction env t commit s := by
  rcases hcall with rfl | rfl
  · exact ⟨true, by rw [perform, hv]; rfl⟩
  · exact ⟨false, by rw [perform, hv]; rfl⟩

lemma Plain.keepsCustody (hp : Plain h [] s) (hcall : call.OnTransactions h) :
    KeepsCustody env h s call := by
  have hafter : Carried env h [] s (s.after env call) := after_carried hp hcall
  constructor
  · by_cases hpresent : s.Present h
    · exact .inl (hp.heldOnce hpresent)
    · exact .inr (hp.discarded hpresent)
  · intro hheld
    by_cases hpresent : (s.after env call).Present h
    · exact .inl (hafter.plain.heldOnce hpresent)
    · have hfailed := (hafter.present (hp.present_iff.mp hheld)).resolve_left hpresent
      exact .inr ⟨hafter.plain.discarded hpresent, hfailed⟩
  · rw [hp.discarded_iff, hafter.plain.discarded_iff]
    exact hafter.absent
  · intro v t hfinish hv hnested
    rcases perform_finish hv hfinish with ⟨commit, heq⟩
    rw [heq, finishTransaction_hasNested hp hnested]
  intro v t e hfinish hv husable herror
  rcases perform_finish hv hfinish with ⟨commit, heq⟩
  rw [heq] at herror
  rcases finishTransaction_error herror with ⟨log, hlog⟩
  have hstate : s.after env call = { s with log := log } := by rw [State.after, heq, hlog]
  rw [hstate]
  exact ⟨husable, rfl⟩

lemma connected_plain (backend : SqlBackend) :
    Plain 1 [] (State.initial.after env (.connect backend)) := by
  refine { after_whole initial_whole (.connect backend) with
    unread := fun _ => rfl, rooted := nofun, kept := ?_ }
  exact ⟨_, rfl, Nat.one_pos⟩

/-- A program that begins, nests, finishes and drops transactions on a connection it keeps open,
with a database that may fail at every command: the connection is in exactly one place, until a
rollback fails while a transaction is dropped. -/
theorem connection_held_once (env : Environment) (backend : SqlBackend) (calls : List Call)
    (hcalls : ∀ call ∈ calls, call.OnTransactions 1) :
    (State.initial.after env (.connect backend)).HeldOnce 1 ∧
      Machine.Always (State.after env) (KeepsCustody env 1)
        (State.initial.after env (.connect backend)) calls := by
  have hstart : Plain 1 [] (State.initial.after env (.connect backend)) := connected_plain backend
  refine ⟨hstart.heldOnce (.inl ⟨_, rfl⟩), ?_⟩
  have hkeeps : ∀ s call, Plain 1 [] s → call.OnTransactions 1 →
      Plain 1 [] (s.after env call) := fun s call hp hcall => (after_carried hp hcall).plain
  exact Machine.Always.mono hkeeps hstart (fun s call hp hcall => hp.keepsCustody hcall)
    (Machine.always_of_forall_mem hcalls)

/-- A nested transaction is dropped after an attempt to commit its parent. -/
theorem connection_held_once_nested : Machine.Always (State.after calm) (KeepsCustody calm 1)
      (State.initial.after calm (.connect .sqlite))
      [.beginTransaction 1, .beginNested 2, .commit 2, .rollback 4, .release 4, .commit 2] :=
  (connection_held_once calm .sqlite _ (by simp [Call.OnTransactions])).2

end Sql
end MuxRuntime
