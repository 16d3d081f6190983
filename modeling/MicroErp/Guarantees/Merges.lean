import MicroErp.Guarantees.MergeEffects
import MicroErp.Guarantees.Reversals
import MicroErp.Guarantees.Serializability

/-!
# A reversal and a merge

A reversal that finds its transaction unreversed and unmoved when it locks the customer stays in
step with a run alone, and so does a merge.  Then both serial orders leave the original and the
reversal with the primary customer.
-/

namespace MicroErp.Guarantees

open MicroErp.Commits MicroErp.Concurrency MicroErp.Database MicroErp.Services MicroErp.Storage

variable {env : Env} {tenantId userId transactionId : Uuid} {dto : ReverseTransactionDto}
  {dto' : MergeCustomersDto} {d d₁ d₂ : Db} {p s c : Customer} {t : Transaction}

/-! ## A reversal alone -/

/-- What a reversal of `t`, a transaction of `c`, makes of `d`. -/
def reversed (env : Env) (tenantId userId : Uuid) (dto : ReverseTransactionDto) (t : Transaction)
    (c : Customer) (d : Db) : Db :=
  setTransaction { t with is_reversed := true }
    (putCustomer { c with
        balance_cents := balanceAfterReversal t.type t.amount_cents c.balance_cents }
      (putTransaction (reversalRow env tenantId userId dto t) d))

/-- A reversal that answers has found its key, or its transaction unreversed. -/
theorem reversed_of_eval {a : Transaction}
    (h : postgres.eval (reverseTransaction env tenantId userId transactionId dto) d = .ok (a, d₁)) :
    (∃ row, d.transactionByKey tenantId dto.idempotency_key = some row ∧ d₁ = d) ∨
      ∃ t ∈ d.transaction tenantId transactionId, ∃ c ∈ d.customer tenantId t.customer_id,
        d.transactionByKey tenantId dto.idempotency_key = none ∧ t.is_reversed = false ∧
          d.transactions.find (reversalRow env tenantId userId dto t).id = none ∧
            d₁ = reversed env tenantId userId dto t c d := by
  rw [reverseTransaction, Engine.eval_bind, eval_findByIdempotencyKey, ok_bind] at h
  cases hkey : d.transactionByKey tenantId dto.idempotency_key with
  | some row =>
    rw [hkey] at h
    exact Or.inl ⟨row, rfl, (congrArg Prod.snd (Except.ok.inj h)).symm⟩
  | none =>
    right
    rw [hkey] at h
    simp only at h
    rw [Engine.eval_bind, eval_query] at h
    simp only [Sql.exec, Except.map, ok_bind, Engine.view_nil] at h
    split at h
    · cases h
    rename_i t ht
    split at h
    · cases h
    rename_i hunreversed
    rw [Engine.eval_bind, eval_lockCustomer] at h
    split at h
    · cases h
    rename_i c hc
    rw [ok_bind] at h
    obtain ⟨⟨hid, -, -⟩, h⟩ := of_eval_insertTransaction h
    have hfound := (find_of_customer hc).1
    obtain ⟨-, h⟩ := of_eval_saveCustomer (v := putTransaction _ d) h hfound
    have hrow : (putTransaction (reversalRow env tenantId userId dto t) d).transactions.find t.id =
        some t := by
      have hfind := (Option.filter_eq_some_iff.1 ht).1
      have htid : t.id = transactionId := Table.find_key hfind
      rw [putTransaction, Table.find_insert_of_ne, htid]
      · exact hfind
      · intro heq
        rw [show (reversalRow env tenantId userId dto t).id = t.id from heq, htid, hfind] at hid
        cases hid
    have h := of_eval_saveTransaction { t with is_reversed := true } h hrow
    exact ⟨t, ht, c, hc, rfl, by simpa using hunreversed, hid,
      (congrArg Prod.snd (Except.ok.inj h)).symm⟩

theorem mem_reversed (userId : Uuid) (dto : ReverseTransactionDto) (c : Customer)
    (hid : d.transactions.find (reversalRow env tenantId userId dto t).id = none)
    (ht : t ∈ d.transactions.rows) (r : Transaction) :
    r ∈ (reversed env tenantId userId dto t c d).transactions.rows ↔
      r = reversalRow env tenantId userId dto t ∨ ∃ r₀ ∈ d.transactions.rows,
        r = if r₀.id = t.id then { t with is_reversed := true } else r₀ := by
  have hne : (reversalRow env tenantId userId dto t).id ≠ t.id := fun heq ↦
    Table.find_eq_none.1 hid t ht heq.symm
  rw [reversed, rows_setTransaction, transactions_putCustomer, putTransaction,
    Table.rows_insert_of_fresh hid, List.map_append, List.mem_append, List.mem_map, or_comm]
  refine or_congr ?_ (exists_congr fun r₀ ↦ and_congr_right fun _ ↦ eq_comm)
  rw [List.map_singleton, List.mem_singleton, if_neg hne]

/-! ## One after the other -/

/-- What a reversal of `t` and a merge of customer `s` into `p` should leave of `d`; a reversal
whose key is taken reverses nothing. -/
structure Joined (env : Env) (tenantId : Uuid) (dto : ReverseTransactionDto) (t : Transaction)
    (p s : Customer) (d d' : Db) : Prop where
  original : ∃ r ∈ d'.transactions.rows, r.id = t.id ∧ r.customer_id = p.id
  moved : d'.transactionsOf tenantId s.id = []
  secondary : ∃ c ∈ d'.customers.find s.id, c.balance_cents = 0
  reversal : d.transactionByKey tenantId dto.idempotency_key = none →
    ∃ r ∈ d'.transactions.rows, r.id = env.fresh 0 ∧ r.type = .REVERSAL ∧
      r.reversed_transaction_id = some t.id ∧ r.customer_id = p.id
  primary : d.transactionByKey tenantId dto.idempotency_key = none →
    ∃ c ∈ d'.customers.find p.id,
      c.balance_cents = p.balance_cents +
          balanceAfterReversal t.type t.amount_cents s.balance_cents ∨
        c.balance_cents =
          balanceAfterReversal t.type t.amount_cents (p.balance_cents + s.balance_cents)

/-- A merge moves each row of the secondary customer. -/
theorem Conserves.moved (h : Conserves tenantId p s d d₁) (ht : t ∈ d.transactions.rows)
    (hcarries : Carries tenantId s.id t) :
    { t with customer_id := p.id } ∈ d₁.transactions.rows := by
  have hunion : { t with customer_id := p.id } ∈ d₁.transactionsOf tenantId p.id := by
    rw [h.union]
    exact ⟨t, List.mem_append_right _ (mem_transactionsOf.2 ⟨ht, hcarries⟩), rfl⟩
  exact (mem_transactionsOf.1 hunion).1

/-- A merge gives no row another key. -/
theorem Conserves.keyUnused (h : Conserves tenantId p s d d₁) {key : Uuid}
    (hkey : d.transactionByKey tenantId key = none) : d₁.transactionByKey tenantId key = none := by
  unfold Db.transactionByKey at hkey ⊢
  rw [List.find?_eq_none] at hkey ⊢
  intro r hr
  by_cases hother : r.tenant_id = tenantId ∧ (r.customer_id = p.id ∨ r.customer_id = s.id)
  · obtain ⟨htenant, hcustomer | hcustomer⟩ := hother
    · obtain ⟨r₀, hr₀, rfl⟩ := (h.union r).1 (mem_transactionsOf.2 ⟨hr, htenant, hcustomer⟩)
      rw [List.mem_append, mem_transactionsOf, mem_transactionsOf] at hr₀
      exact hkey r₀ (hr₀.elim And.left And.left)
    · have hin : r ∈ d₁.transactionsOf tenantId s.id :=
        mem_transactionsOf.2 ⟨hr, htenant, hcustomer⟩
      rw [h.emptied] at hin
      cases hin
  · exact hkey r ((h.otherTransactions r hother).1 hr)

theorem joined_of_replay (h : Conserves tenantId p s d d₁) (ht : t ∈ d.transactions.rows)
    (hcarries : Carries tenantId s.id t)
    (hkey : d.transactionByKey tenantId dto.idempotency_key ≠ none) :
    Joined env tenantId dto t p s d d₁ where
  original := ⟨_, h.moved ht hcarries, rfl, rfl⟩
  moved := h.emptied
  secondary := ⟨_, h.secondary, rfl⟩
  reversal hnone := (hkey hnone).elim
  primary hnone := (hkey hnone).elim

/-- The reversal comes first. -/
theorem joined_of_reversed (ht : t ∈ d.transactions.rows) (hcarries : Carries tenantId s.id t)
    (hid : d.transactions.find (reversalRow env tenantId userId dto t).id = none)
    (h : Conserves tenantId p
      { s with balance_cents := balanceAfterReversal t.type t.amount_cents s.balance_cents }
      (reversed env tenantId userId dto t s d) d₁) :
    Joined env tenantId dto t p s d d₁ where
  original := by
    have hmarked : { t with is_reversed := true } ∈
        (reversed env tenantId userId dto t s d).transactions.rows :=
      (mem_reversed userId dto s hid ht _).2 (Or.inr ⟨t, ht, (if_pos rfl).symm⟩)
    exact ⟨_, h.moved hmarked hcarries, rfl, rfl⟩
  moved := h.emptied
  secondary := ⟨_, h.secondary, rfl⟩
  reversal _ := by
    have hrow : reversalRow env tenantId userId dto t ∈
        (reversed env tenantId userId dto t s d).transactions.rows :=
      (mem_reversed userId dto s hid ht _).2 (Or.inl rfl)
    exact ⟨_, h.moved hrow ⟨rfl, hcarries.2⟩, rfl, rfl, rfl, rfl⟩
  primary _ := ⟨_, h.primary, Or.inl rfl⟩

/-- The merge comes first. -/
theorem joined_of_merged (h : Conserves tenantId p s d d₁) (ht : t ∈ d.transactions.rows)
    (hcarries : Carries tenantId s.id t) (hne : p.id ≠ s.id)
    (hid : d₁.transactions.find (reversalRow env tenantId userId dto (carriedBy p.id t)).id = none)
    (hc : d₁.customers.find p.id = some c) :
    Joined env tenantId dto t p s d
      (reversed env tenantId userId dto (carriedBy p.id t) c d₁) := by
  have hmoved : carriedBy p.id t ∈ d₁.transactions.rows := h.moved ht hcarries
  obtain rfl := Option.some.inj (h.primary.symm.trans hc)
  have hmem := mem_reversed userId dto (mergedPrimary p s) hid hmoved
  have hsecondary : (reversed env tenantId userId dto (carriedBy p.id t) (mergedPrimary p s)
      d₁).customers.find s.id = some (absorbed s) :=
    (find_putCustomer_of_ne { mergedPrimary p s with
      balance_cents := balanceAfterReversal t.type t.amount_cents (mergedPrimary p s).balance_cents }
      _ hne.symm).trans h.secondary
  refine ⟨?_, ?_, ?_, fun _ ↦ ?_, fun _ ↦ ?_⟩
  · exact ⟨_, (hmem _).2 (Or.inr ⟨_, hmoved, (if_pos rfl).symm⟩), rfl, rfl⟩
  · rw [List.eq_nil_iff_forall_not_mem]
    intro r hr
    obtain ⟨hr, htenant, hcustomer⟩ := mem_transactionsOf.1 hr
    rcases (hmem r).1 hr with rfl | ⟨r₀, hr₀, rfl⟩
    · exact hne hcustomer
    · by_cases hid₀ : r₀.id = (carriedBy p.id t).id
      · rw [if_pos hid₀] at hcustomer
        exact hne hcustomer
      · rw [if_neg hid₀] at htenant hcustomer
        have hin : r₀ ∈ d₁.transactionsOf tenantId s.id :=
          mem_transactionsOf.2 ⟨hr₀, htenant, hcustomer⟩
        rw [h.emptied] at hin
        cases hin
  · exact ⟨_, hsecondary, rfl⟩
  · exact ⟨_, (hmem _).2 (Or.inl rfl), rfl, rfl, rfl, rfl⟩
  · exact ⟨_, find_putCustomer _ h.primary, Or.inr rfl⟩

/-! ## Any interleaving -/

/-- A reversal of a transaction, and a merge of two customers. -/
def joining (tenantId userId transactionId : Uuid) (dto : ReverseTransactionDto)
    (dto' : MergeCustomersDto) : Fin 2 → Request
  | 0 => .reverseTransaction tenantId userId transactionId dto
  | 1 => .mergeCustomers tenantId dto'

theorem keysDistinct_joining :
    KeysDistinct (joining tenantId userId transactionId dto dto') := by
  intro i j hij
  fin_cases i <;> fin_cases j <;> simp_all [joining, Request.transactionKey, Request.batchKey]

theorem isQuiet_joining (i : Fin 2) :
    (joining tenantId userId transactionId dto dto' i).IsQuiet := by
  fin_cases i <;> trivial

theorem allow_of_locksUnreversed {req : Request} {o : Sql} {v : Db} (h : LocksUnreversed req o v) :
    steppedSetting.allow req env o v := by
  cases o with
  | lockCustomer tenantId id => exact ⟨fun _ ↦ of_decide_eq_true h, fun hS ↦ by cases hS⟩
  | findTransaction => exact fun hS ↦ by cases hS
  | findTransactionByKey | rereadTransaction | rereadCustomer => exact False.elim
  | _ => trivial

theorem order_of_two {order : List (Fin 2)} (hnodup : order.Nodup) (hall : ∀ i, i ∈ order) :
    order = [0, 1] ∨ order = [1, 0] := by
  have hperm : order.Perm [0, 1] := (List.perm_ext_iff_of_nodup hnodup (by decide)).2 fun i ↦
    ⟨fun _ ↦ by fin_cases i <;> simp, fun _ ↦ hall i⟩
  obtain ⟨i, j, rfl⟩ := List.length_eq_two.1 hperm.length_eq
  fin_cases i <;> fin_cases j
  · simp at hnodup
  · exact Or.inl rfl
  · exact Or.inr rfl
  · simp at hnodup

/-- Either of the two requests alone answers what it computes. -/
theorem eval_of_joining {i : Fin 2} {env : Env} {a : Answer}
    (h : postgres.alone ((joining tenantId userId transactionId dto dto' i).script env) [] d =
      (.ok a, d₁)) :
    postgres.eval ((joining tenantId userId transactionId dto dto' i).script env) d = .ok (a, d₁) := by
  refine Engine.eval_of_alone ?_ h
  fin_cases i
  · exact (transactional_reversal env tenantId userId transactionId dto).bind fun _ ↦ trivial
  · exact (commitsLast_merge env tenantId dto').transactional committing_merge

theorem reversed_of_alone {env : Env} {a : Answer}
    (h : postgres.alone ((joining tenantId userId transactionId dto dto' 0).script env) [] d =
      (.ok a, d₁)) :
    (∃ row, d.transactionByKey tenantId dto.idempotency_key = some row ∧ d₁ = d) ∨
      ∃ t ∈ d.transaction tenantId transactionId, ∃ c ∈ d.customer tenantId t.customer_id,
        d.transactionByKey tenantId dto.idempotency_key = none ∧ t.is_reversed = false ∧
          d.transactions.find (reversalRow env tenantId userId dto t).id = none ∧
            d₁ = reversed env tenantId userId dto t c d := by
  have heval := eval_of_joining h
  rw [joining, Request.script, Engine.eval_bind, bind_eq_ok] at heval
  obtain ⟨⟨row, d'⟩, hreversal, hanswer⟩ := heval
  obtain rfl := congrArg Prod.snd (Except.ok.inj hanswer)
  exact reversed_of_eval hreversal

theorem conserves_of_alone {env : Env} {a : Answer}
    (hne : dto'.primary_id.value ≠ dto'.secondary_id.value)
    (h : postgres.alone ((joining tenantId userId transactionId dto dto' 1).script env) [] d =
      (.ok a, d₁)) :
    ∃ p ∈ d.customer tenantId dto'.primary_id.value,
      ∃ s ∈ d.customer tenantId dto'.secondary_id.value, Conserves tenantId p s d d₁ := by
  have heval := eval_of_joining h
  rw [joining, Request.script, Engine.eval_bind, bind_eq_ok] at heval
  obtain ⟨⟨row, d'⟩, hmerge, hanswer⟩ := heval
  obtain rfl := congrArg Prod.snd (Except.ok.inj hanswer)
  exact conserves_of_eval hne hmerge

/-- The two requests one after the other, the reversal first. -/
theorem joined_of_reversal_first {env : Fin 2 → Env} {a a' : Answer}
    (ht : d.transaction tenantId transactionId = some t)
    (hcustomer : t.customer_id = dto'.secondary_id.value)
    (hne : dto'.primary_id.value ≠ dto'.secondary_id.value)
    (hreversal : postgres.alone
      ((joining tenantId userId transactionId dto dto' 0).script (env 0)) [] d = (.ok a, d₁))
    (hmerge : postgres.alone
      ((joining tenantId userId transactionId dto dto' 1).script (env 1)) [] d₁ = (.ok a', d₂)) :
    ∃ p ∈ d.customer tenantId dto'.primary_id.value,
      ∃ s ∈ d.customer tenantId dto'.secondary_id.value, Joined (env 0) tenantId dto t p s d d₂ := by
  obtain ⟨hfind, htenant⟩ := Option.filter_eq_some_iff.1 ht
  have hmem := (Table.find_eq_some.1 hfind).1
  obtain ⟨p, hp, s, hs, hconserves⟩ := conserves_of_alone hne hmerge
  have hsid : s.id = dto'.secondary_id.value := (find_of_customer hs).2.1
  have hcarries : Carries tenantId s.id t :=
    ⟨of_decide_eq_true htenant, hcustomer.trans hsid.symm⟩
  rcases reversed_of_alone hreversal with ⟨row, hkey, rfl⟩ | ⟨t', ht', c, hc, hkey, -, hid, rfl⟩
  · exact ⟨p, hp, s, hs, joined_of_replay hconserves hmem hcarries (by simp [hkey])⟩
  · obtain rfl : t = t' := Option.some.inj (ht.symm.trans ht')
    rw [hcustomer] at hc
    obtain ⟨hcfind, hcid, hctenant⟩ := find_of_customer hc
    set c' : Customer := { c with
      balance_cents := balanceAfterReversal t.type t.amount_cents c.balance_cents }
    have hcustomers : (reversed (env 0) tenantId userId dto t c d).customers =
        (putCustomer c' d).customers := rfl
    have hp' : p ∈ d.customer tenantId dto'.primary_id.value := by
      rwa [Db.customer, hcustomers, find_putCustomer_of_ne c' d (hcid ▸ hne)] at hp
    have hs' : s = c' := by
      rw [Db.customer, hcustomers, ← hcid, find_putCustomer c' hcfind] at hs
      exact (Option.some.inj (Option.filter_eq_some_iff.1 hs).1).symm
    subst hs'
    exact ⟨p, hp', c, hc, joined_of_reversed hmem hcarries hid hconserves⟩

/-- The merge first. -/
theorem joined_of_merge_first {env : Fin 2 → Env} {a a' : Answer}
    (ht : d.transaction tenantId transactionId = some t)
    (hcustomer : t.customer_id = dto'.secondary_id.value)
    (hne : dto'.primary_id.value ≠ dto'.secondary_id.value)
    (hmerge : postgres.alone
      ((joining tenantId userId transactionId dto dto' 1).script (env 1)) [] d = (.ok a, d₁))
    (hreversal : postgres.alone
      ((joining tenantId userId transactionId dto dto' 0).script (env 0)) [] d₁ = (.ok a', d₂)) :
    ∃ p ∈ d.customer tenantId dto'.primary_id.value,
      ∃ s ∈ d.customer tenantId dto'.secondary_id.value, Joined (env 0) tenantId dto t p s d d₂ := by
  obtain ⟨hfind, htenant⟩ := Option.filter_eq_some_iff.1 ht
  obtain ⟨hmem, htid⟩ := Table.find_eq_some.1 hfind
  obtain ⟨p, hp, s, hs, hconserves⟩ := conserves_of_alone hne hmerge
  have hpid : p.id = dto'.primary_id.value := (find_of_customer hp).2.1
  have hsid : s.id = dto'.secondary_id.value := (find_of_customer hs).2.1
  have hcarries : Carries tenantId s.id t :=
    ⟨of_decide_eq_true htenant, hcustomer.trans hsid.symm⟩
  refine ⟨p, hp, s, hs, ?_⟩
  rcases reversed_of_alone hreversal with ⟨row, hkey, rfl⟩ | ⟨t', ht', c, hc, -, -, hid, rfl⟩
  · refine joined_of_replay hconserves hmem hcarries fun hnone ↦ ?_
    rw [hconserves.keyUnused hnone] at hkey
    cases hkey
  · -- the reversal finds the row that the merge has moved
    have hmoved : carriedBy p.id t ∈ d₁.transactions.rows := hconserves.moved hmem hcarries
    obtain rfl : carriedBy p.id t = t' :=
      Table.eq_of_find (Option.filter_eq_some_iff.1 ht').1 hmoved htid
    obtain ⟨hcfind, hcid, -⟩ := find_of_customer hc
    have hcid : c.id = p.id := hcid
    rw [hcid] at hcfind
    exact joined_of_merged hconserves hmem hcarries (by rwa [hpid, hsid]) hid hcfind

theorem answer_of_any {out : Option (Except ServiceError Answer)} (h : out.any Except.isOk) :
    ∃ a, out = some (.ok a) := by
  cases out with
  | none => cases h
  | some x =>
    cases x with
    | error e => cases h
    | ok a => exact ⟨a, rfl⟩

/-- The final state of a reversal and a merge that both commit is that of a serial order, if the
reversal locks the customer of its transaction. -/
theorem reversal_and_merge {env : Fin 2 → Env} (hd : Reachable d)
    (hids : FreshIds (joining tenantId userId transactionId dto dto') env)
    (hunused : ∀ i, (env i).Unused d) (ht : d.transaction tenantId transactionId = some t)
    (hcustomer : t.customer_id = dto'.secondary_id.value)
    (hne : dto'.primary_id.value ≠ dto'.secondary_id.value) (es : List (Fin 2))
    (hlocks : postgres.Meets
      (fun i o v ↦ LocksUnreversed (joining tenantId userId transactionId dto dto' i) o v)
      (serve (joining tenantId userId transactionId dto dto') env d) (es.map .step))
    (hdone : ∀ i, ((postgres.run (serve (joining tenantId userId transactionId dto dto') env d)
      (es.map .step)).outcome i).any Except.isOk) :
    (∃ order : List (Fin 2), order.Nodup ∧ (∀ i, i ∈ order) ∧
      (postgres.serial (fun i ↦ (joining tenantId userId transactionId dto dto' i).script (env i))
          order d).2 =
        (postgres.run (serve (joining tenantId userId transactionId dto dto') env d)
          (es.map .step)).db) ∧
    ∃ p ∈ d.customer tenantId dto'.primary_id.value,
      ∃ s ∈ d.customer tenantId dto'.secondary_id.value,
        Joined (env 0) tenantId dto t p s d
          (postgres.run (serve (joining tenantId userId transactionId dto dto') env d)
            (es.map .step)).db := by
  have hdone := fun i ↦ answer_of_any (hdone i)
  have hwf := wellFormed_of_reachable hd
  have hsuits : ∀ i, Suits steppedSetting (joining tenantId userId transactionId dto dto' i) (env i) d :=
    fun i ↦ ⟨fun _ ↦ hunused i, fun _ ↦ hwf, fun _ ↦ trivial, fun _ ↦ isQuiet_joining i,
      fun _ ↦ Or.inl trivial, fun _ hwho ↦ by cases hwho⟩
  obtain ⟨order, hnodup, hall, hdb, houtcome⟩ := serializable
    (compatible_stepped hids isQuiet_joining keysDistinct_joining) (fun _ ↦ trivial)
    (fun i ↦ script_wp (hsuits i)) (hlocks.mono fun _ _ _ h ↦ allow_of_locksUnreversed h)
    fun i ↦ by
      obtain ⟨a, ha⟩ := hdone i
      exact ⟨.ok a, Sys.outcome_eq_some.1 ha⟩
  refine ⟨⟨order, hnodup, hall, hdb⟩, ?_⟩
  obtain ⟨a₀, h₀⟩ := hdone 0
  obtain ⟨a₁, h₁⟩ := hdone 1
  have h₀ := houtcome 0 _ (Sys.outcome_eq_some.1 h₀)
  have h₁ := houtcome 1 _ (Sys.outcome_eq_some.1 h₁)
  unfold serve
  rw [← hdb]
  rcases order_of_two hnodup hall with rfl | rfl
  · simp only [Engine.serial, List.mem_cons, Prod.mk.injEq, List.not_mem_nil, or_false, one_ne_zero,
      zero_ne_one, false_and, true_and, false_or] at h₀ h₁
    exact joined_of_reversal_first ht hcustomer hne (Prod.ext h₀.symm rfl) (Prod.ext h₁.symm rfl)
  · simp only [Engine.serial, List.mem_cons, Prod.mk.injEq, List.not_mem_nil, or_false, one_ne_zero,
      zero_ne_one, false_and, true_and, false_or] at h₀ h₁
    exact joined_of_merge_first ht hcustomer hne (Prod.ext h₁.symm rfl) (Prod.ext h₀.symm rfl)

/-! ## A reversal that is overtaken -/

/-- Ana's debt is reversed while Beto takes over what she owes. -/
def overtaking : Fin 2 → Request := joining 1 2 102 (reversalUnder 13) takeover

def afterOvertaking (es : List (Fin 2)) :
    Sys (Fin 2) Sql Sql.Ans Db Write LockName ServiceError Answer :=
  postgres.run (serve overtaking laterEnv owing) (es.map .step)

/-- So many steps of each of them in turn, the reversal first. -/
def alternating (turns : ℕ × ℕ × ℕ × ℕ) : List (Fin 2) :=
  List.replicate turns.1 ⟨0, Nat.zero_lt_two⟩ ++ List.replicate turns.2.1 ⟨1, Nat.one_lt_two⟩ ++
    (List.replicate turns.2.2.1 ⟨0, Nat.zero_lt_two⟩ ++
      List.replicate turns.2.2.2 ⟨1, Nat.one_lt_two⟩)

/-- The reversal has read the debt when the merge runs. -/
def overtaken : List (Fin 2) := alternating (2, 15, 15, 0)

/-- The debt and its reversal end with the emptied customer, and Beto goes on owing it. -/
theorem reversal_overtaken : Reachable owing ∧ owing.transactionByKey 1 13 = none ∧
    (owing.transactions.rows.map fun t ↦ (t.id, t.customer_id)) = [(102, 100)] ∧
    (∀ i, ((afterOvertaking overtaken).outcome i).any Except.isOk) ∧
    ((afterOvertaking overtaken).db.transactions.rows.map fun t ↦ (t.id, t.customer_id)) =
      [(102, 100), (110, 100)] ∧
    ((afterOvertaking overtaken).db.customers.rows.map fun c ↦ (c.id, c.balance_cents)) =
      [(100, 0), (101, 100)] :=
  ⟨reachable_owing, by decide +kernel, by decide +kernel, by decide +kernel, by decide +kernel,
    by decide +kernel⟩

/-- The merge waits for the customer that the reversal has locked. -/
def inTime : List (Fin 2) := alternating (3, 1, 15, 15)

theorem reversal_and_merge_in_time :
    ((afterOvertaking inTime).db.customers.rows.map fun c ↦ (c.id, c.balance_cents)) =
      [(100, 0), (101, 0)] ∧
    ∃ p ∈ owing.customer 1 101, ∃ q ∈ owing.customer 1 100, ∃ t ∈ owing.transaction 1 102,
      Joined (laterEnv (0 : Fin 2)) 1 (reversalUnder 13) t p q owing (afterOvertaking inTime).db := by
  refine ⟨by decide +kernel, ?_⟩
  have hids : FreshIds (joining 1 2 102 (reversalUnder 13) takeover) laterEnv :=
    freshIds_later (by decide) (by decide)
  obtain ⟨t, ht, hcustomer⟩ : ∃ t ∈ owing.transaction 1 102, t.customer_id = 100 := by
    decide +kernel
  obtain ⟨-, p, hp, q, hq, hjoined⟩ := reversal_and_merge reachable_owing hids
    (unused_owing (by decide)) ht hcustomer (by decide) inTime (by decide +kernel)
    (by decide +kernel)
  exact ⟨p, hp, q, hq, t, ht, hjoined⟩

end MicroErp.Guarantees
