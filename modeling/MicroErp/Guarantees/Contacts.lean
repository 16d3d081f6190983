import MicroErp.Commits.Edits
import MicroErp.Concurrency.Observations

/-!
# Phones, documents and addresses of customers

No index keeps the contact data of a tenant's customers apart; creations and updates look for
another customer with the same value and write later.  So the data stay unique as long as the
look-ups, made again at each commit, would still find nobody.
-/

namespace MicroErp.Guarantees

open MicroErp.Commits MicroErp.Concurrency MicroErp.Database MicroErp.Services MicroErp.Storage

inductive Contact where
  | phone
  | dni
  | email
  deriving DecidableEq

namespace Contact

/-- What the customer has under the contact. -/
def of : Contact → Customer → Option String
  | phone, c => c.phone
  | dni, c => c.dni
  | email, c => c.email

/-- What the request sets the contact to, if it does. -/
def setBy : Contact → Request → Option (Option String)
  | phone, .createCustomer _ dto => some dto.phone
  | dni, .createCustomer _ dto => some dto.dni
  | email, .createCustomer _ _ => some none
  | phone, .updateCustomer _ _ dto => dto.phone
  | dni, .updateCustomer _ _ dto => dto.dni
  | email, .updateCustomer _ _ dto => dto.email
  | _, _ => none

instance (p : Contact → Prop) [DecidablePred p] : Decidable (∀ f, p f) :=
  decidable_of_iff (p phone ∧ p dni ∧ p email)
    ⟨fun h f ↦ by cases f; exacts [h.1, h.2.1, h.2.2], fun h ↦ ⟨h _, h _, h _⟩⟩

end Contact

/-- Two customers of one tenant with the same value under a contact are one. -/
def UniqueContacts (d : Db) : Prop :=
  ∀ f : Contact, ∀ c ∈ d.customers.rows, ∀ c' ∈ d.customers.rows, c.tenant_id = c'.tenant_id →
    f.of c = f.of c' → f.of c ≠ none → c.id = c'.id

/-- The request does not write back contacts that it loaded without a lock. -/
def KeepsContacts : Request → Prop
  | .toggleBlock _ _ => False
  | .updatePromise _ _ _ => False
  | _ => True

/-! ## What the look-ups say -/

/-- Nobody in the tenant, except perhaps one customer, has the value. -/
structure Absence where
  tenantId : Uuid
  except : Option Uuid
  contact : Contact
  value : String

/-- The look-up would find nobody now. -/
def Absence.Holds (a : Absence) (d : Db) : Prop :=
  d.otherCustomer a.tenantId a.except (fun c ↦ a.contact.of c = some a.value) = none

instance (a : Absence) (d : Db) : Decidable (a.Holds d) := inferInstanceAs (Decidable (_ = none))

/-- What a statement has said when it found nobody. -/
def looksUp : (o : Sql) → o.Ans → List Absence
  | .findCustomerByPhone tenantId except phone, none => [⟨tenantId, except, .phone, phone⟩]
  | .findCustomerByDni tenantId except dni, none => [⟨tenantId, except, .dni, dni⟩]
  | .findCustomerByEmail tenantId except email, none => [⟨tenantId, except, .email, email⟩]
  | _, _ => []

/-- What the look-ups of a request say before it writes.  A creation does not look for an empty
value. -/
def absences : Request → List Absence
  | .createCustomer tenantId dto =>
      ((truthy dto.phone).map (⟨tenantId, none, .phone, ·⟩)).toList ++
        ((truthy dto.dni).map (⟨tenantId, none, .dni, ·⟩)).toList
  | .updateCustomer tenantId customerId dto =>
      (dto.phone.join.map (⟨tenantId, some customerId, .phone, ·⟩)).toList ++
        (dto.dni.join.map (⟨tenantId, some customerId, .dni, ·⟩)).toList ++
        (dto.email.join.map (⟨tenantId, some customerId, .email, ·⟩)).toList
  | _ => []

/-- A creation that sets a contact to the empty string is the first of its tenant to do so. -/
def FirstEmpty (req : Request) (d : Db) : Bool :=
  match req with
  | .createCustomer tenantId _ => ∀ f : Contact, f.setBy req = some (some "") →
      ∀ c ∈ d.customers.rows, c.tenant_id = tenantId → f.of c ≠ some ""
  | _ => true

/-- No other customer of the tenant has a value that the request sets. -/
def ContactsFree (req : Request) (d : Db) : Prop :=
  match req with
  | .createCustomer tenantId _ => ∀ f : Contact, ∀ v, f.setBy req = some (some v) →
      ∀ c ∈ d.customers.rows, c.tenant_id = tenantId → f.of c ≠ some v
  | .updateCustomer tenantId customerId _ => ∀ f : Contact, ∀ v, f.setBy req = some (some v) →
      ∀ c ∈ d.customers.rows, c.tenant_id = tenantId → c.id ≠ customerId → f.of c ≠ some v
  | _ => True

theorem Absence.Holds.ne {a : Absence} {d : Db} (h : a.Holds d) {c : Customer}
    (hc : c ∈ d.customers.rows) (htenant : c.tenant_id = a.tenantId) (hid : some c.id ≠ a.except) :
    a.contact.of c ≠ some a.value := by
  intro hof
  have hmem : c ∈ d.customersOf a.tenantId := List.mem_filter.2 ⟨hc, decide_eq_true htenant⟩
  have hnot := List.find?_eq_none.1 h c hmem
  simp [hof, hid] at hnot

/-- What is looked for, and the empty values beside it, is all that a request sets. -/
theorem contactsFree_of_absences {req : Request} {d : Db} (hfirst : FirstEmpty req d)
    (habsences : ∀ a ∈ absences req, a.Holds d) : ContactsFree req d := by
  cases req with
  | createCustomer tenantId dto =>
    intro f v hset c hc htenant
    by_cases hv : v = ""
    · subst hv
      exact of_decide_eq_true hfirst f hset c hc htenant
    · cases f with
      | phone =>
        have hmem : ⟨tenantId, none, .phone, v⟩ ∈ absences (.createCustomer tenantId dto) := by
          simp [absences, truthy_eq_some.2 ⟨Option.some.inj hset, hv⟩]
        exact (habsences _ hmem).ne hc htenant (Option.some_ne_none _)
      | dni =>
        have hmem : ⟨tenantId, none, .dni, v⟩ ∈ absences (.createCustomer tenantId dto) := by
          simp [absences, truthy_eq_some.2 ⟨Option.some.inj hset, hv⟩]
        exact (habsences _ hmem).ne hc htenant (Option.some_ne_none _)
      | email => cases hset
  | updateCustomer tenantId customerId dto =>
    intro f v hset c hc htenant hid
    have hmem : ⟨tenantId, some customerId, f, v⟩ ∈
        absences (.updateCustomer tenantId customerId dto) := by
      have hjoin : (f.setBy (.updateCustomer tenantId customerId dto)).join = some v :=
        congrArg Option.join hset
      cases f <;> simp only [Contact.setBy] at hjoin <;> simp [absences, hjoin]
    exact (habsences _ hmem).ne hc htenant fun heq ↦ hid (Option.some.inj heq)
  | _ => trivial

/-! ## The statements of the requests -/

section Scripts

variable {α : Type} {enough : List Absence → Prop} {known : List Absence}

/-- The look-up of another customer with a value. -/
def lookUp (tenantId : Uuid) (except : Option Uuid) : Contact → String → Script (Option Customer)
  | .phone, phone => query (.findCustomerByPhone tenantId except phone)
  | .dni, dni => query (.findCustomerByDni tenantId except dni)
  | .email, email => query (.findCustomerByEmail tenantId except email)

theorem observes_lookUp {tenantId : Uuid} {except : Option Uuid} (f : Contact) {v : String}
    {k : Option Customer → Script α}
    (hnone : (k none).Observes looksUp enough (known ++ [⟨tenantId, except, f, v⟩]))
    (hsome : ∀ c, (k (some c)).Observes looksUp enough known) :
    (lookUp tenantId except f v >>= k).Observes looksUp enough known := by
  have hfound : ∀ c, (k (some c)).Observes looksUp enough (known ++ []) := by
    simpa only [List.append_nil] using hsome
  cases f <;>
  · simp only [lookUp, query, Prog.issue_bind]
    rintro (_ | c)
    · exact hnone
    · exact hfound c

/-- Past a look-up its value is known to be absent. -/
theorem observes_rejectDuplicate {tenantId : Uuid} {except : Option Uuid} (f : Contact)
    {value : Option String} {message : String} {k : Unit → Script α}
    (hk : (k ()).Observes looksUp enough
      (known ++ (value.map (⟨tenantId, except, f, ·⟩)).toList)) :
    (rejectDuplicate value (lookUp tenantId except f) message >>= k).Observes looksUp enough
      known := by
  cases value with
  | none =>
    rw [Option.map_none, Option.toList_none, List.append_nil] at hk
    exact hk
  | some v =>
    simp only [rejectDuplicate, Prog.bind_assoc]
    exact observes_lookUp f hk fun _ ↦ trivial

theorem createCustomer_observes (env : Env) (tenantId : Uuid) (dto : CreateCustomerDto) :
    (createCustomer env tenantId dto).Observes looksUp
      (absences (.createCustomer tenantId dto) ⊆ ·) [] := by
  have hcreate : (do
      rejectDuplicate (truthy dto.phone) (lookUp tenantId none .phone)
        "Ya existe un cliente con ese teléfono en tu comercio"
      rejectDuplicate (truthy dto.dni) (lookUp tenantId none .dni)
        "Ya existe un cliente con ese DNI en tu comercio"
      query (.insertCustomer (newCustomer env tenantId dto))
      query (.keyShare [.tenant tenantId])
      Prog.commitTransaction
      pure (newCustomer env tenantId dto) : Script Customer).Observes looksUp
        (absences (.createCustomer tenantId dto) ⊆ ·) [] := by
    refine observes_rejectDuplicate .phone (observes_rejectDuplicate .dni ?_)
    refine fun _ _ ↦ ⟨?_, trivial⟩
    simp [absences, looksUp]
  unfold createCustomer
  cases dto.idempotency_key with
  | none => exact hcreate
  | some key =>
    rintro (_ | existing)
    · exact hcreate
    · trivial

theorem updateCustomer_observes (tenantId customerId : Uuid) (dto : UpdateCustomerDto) :
    (updateCustomer tenantId customerId dto).Observes looksUp
      (absences (.updateCustomer tenantId customerId dto) ⊆ ·) [] := by
  have hend : ∀ {known : List Absence} (c : AssignedCustomer),
      absences (.updateCustomer tenantId customerId dto) ⊆ known →
        (saveAssignedAlone c).Observes looksUp
          (absences (.updateCustomer tenantId customerId dto) ⊆ ·) known := by
    intro known c hknown
    simp only [saveAssignedAlone, query, Prog.issue_bind]
    rintro (_ | reread)
    · trivial
    · dsimp only
      split
      · exact ⟨List.subset_append_of_subset_left _ hknown, trivial⟩
      · exact fun _ ↦ ⟨List.subset_append_of_subset_left _
          (List.subset_append_of_subset_left _ hknown), trivial⟩
  rintro (_ | c)
  · trivial
  · refine observes_rejectDuplicate .phone (observes_rejectDuplicate .dni
      (observes_rejectDuplicate .email ?_))
    split
    · trivial
    · exact hend _ (by simp [absences, looksUp])

/-- Before a request commits, it has looked for what it writes. -/
theorem script_observes (req : Request) (env : Env) :
    (req.script env).Observes looksUp (absences req ⊆ ·) [] := by
  cases req with
  | createCustomer tenantId dto => exact (createCustomer_observes env tenantId dto).bind_pure
  | updateCustomer tenantId customerId dto =>
    exact (updateCustomer_observes tenantId customerId dto).bind_pure
  | _ => exact Prog.observes_of_forall (fun known ↦ List.nil_subset known) _ _

end Scripts

/-- Nothing is assumed of what edits and bulk updates read again. -/
def contactsWatch : Watch where
  rereads _ _ _ := True
  assigned _ _ := trivial
  owing := False

theorem allow_contactsWatch (req : Request) (o : Sql) (v : Db) : contactsWatch.allow req o v := by
  cases o with
  | rereadCustomer mem => exact fun _ _ _ ↦ trivial
  | markOverdue id => exact False.elim
  | _ => trivial

section Commit

variable {req : Request} {env : Env} {lk : List (LockName × LockMode)} {d d' : Db} {e : Effect}
  {ws : List Write} {f : Contact}

/-! ## One commit -/

theorem of_setCustomer {c c' x y : Customer} (hc : d.customers.find c.id = some c)
    (hx : x ∈ d.customers.rows) (hid : c'.id = c.id) (hof : f.of c' = f.of c)
    (hyid : y.id = x.id) (hyof : f.of y = f.of x) : f.of (setCustomer c' y) = f.of x := by
  unfold setCustomer
  split
  · rename_i heq
    obtain rfl := Db.eq_of_find_customer hc hx (hyid.symm.trans (heq.trans hid))
    exact hof
  · exact hyof

/-- A commit that is neither an edit nor a bulk update keeps the contacts of the customers. -/
theorem of_customer (hchanges : Changes .plain env lk d req e)
    (hreq : ¬(req.IsEdit ∨ req.IsFlagging)) {x : Customer} (hx : x ∈ d.customers.rows) :
    f.of (e.customer x) = f.of x := by
  cases hchanges with
  | post _ hc => exact of_setCustomer hc.1 hx rfl (by cases f <;> rfl) rfl rfl
  | reverse _ _ _ hc => exact of_setCustomer hc.1 hx rfl (by cases f <;> rfl) rfl rfl
  | inflate =>
    simp only [adjustCustomer]
    split
    · cases f <;> rfl
    · rfl
  | @merge _ _ primary secondary _ hprimary hsecondary =>
    have hfirst : f.of (setCustomer (mergedPrimary primary secondary) x) = f.of x :=
      of_setCustomer hprimary.1 hx rfl (by cases f <;> rfl) rfl rfl
    refine of_setCustomer hsecondary.1 hx rfl (by cases f <;> rfl) ?_ hfirst
    unfold setCustomer
    split
    · rename_i heq
      exact heq.symm
    · rfl
  | limit hc => exact of_setCustomer hc.1 hx rfl (by cases f <;> rfl) rfl rfl
  | edit hedit => exact (hreq (Or.inl hedit)).elim
  | flag hflag => exact (hreq (Or.inr hflag)).elim
  | _ => rfl

/-- Each customer has the contacts of before, but for those that the request sets. -/
def SetsContacts (req : Request) (d d' : Db) : Prop :=
  ∀ c' ∈ d'.customers.rows, ∃ c ∈ d.customers.rows, c.id = c'.id ∧
    ∀ f : Contact, f.of c' = f.of c ∨
      ((∃ tenantId, req.editedId = some (tenantId, c.id)) ∧ f.setBy req = some (f.of c'))

/-- The contacts that an update does not set are those of the row that is read again. -/
theorem of_editedBy (hkeeps : KeepsContacts req) (hedit : req.IsEdit) (loaded reread : Customer) :
    f.of (editedBy req loaded reread) = (f.setBy req).getD (f.of reread) := by
  cases req with
  | updateCustomer tenantId customerId dto => cases f <;> rfl
  | toggleBlock | updatePromise => exact hkeeps.elim
  | _ => exact hedit.elim

theorem of_saved (mem reread x : Customer) :
    f.of (Customer.saved mem reread x) = savedColumn (f.of mem) (f.of reread) (f.of x) := by
  cases f <;> rfl

theorem of_set (flag : Flag) (c : Customer) : f.of (flag.set c) = f.of c := by
  cases f <;> cases flag <;> rfl

theorem setsContacts_gentle {w : Write} (hkeeps : KeepsContacts req) (h : SetsContacts req d d')
    (hw : Gentle contactsWatch req d w) : SetsContacts req d (w.apply d') := by
  intro c' hc'
  rcases gentle_cases hw with ⟨mem, reread, rfl⟩ | ⟨flag, id, rfl⟩
  · obtain ⟨⟨loaded, hloaded, rfl⟩, -⟩ := hw
    have hedit := Request.isEdit_of_editedId hloaded
    simp only [Write.apply, Table.rows_modify] at hc'
    obtain ⟨x, hx, rfl⟩ := List.mem_map.1 hc'
    obtain ⟨c, hc, hid, hof⟩ := h x hx
    refine ⟨c, hc, ?_⟩
    split
    · rename_i hxid
      rw [show Table.amend (Customer.saved (editedBy req loaded reread) reread) x =
        Customer.saved (editedBy req loaded reread) reread x from if_pos rfl]
      refine ⟨hid, fun f ↦ ?_⟩
      rw [of_saved, of_editedBy hkeeps hedit]
      cases hset : f.setBy req with
      | none =>
        rw [Option.getD_none, savedColumn_self]
        exact hset ▸ hof f
      | some v =>
        rw [Option.getD_some]
        unfold savedColumn
        split
        · exact hset ▸ hof f
        · refine Or.inr ⟨⟨loaded.tenant_id, ?_⟩, rfl⟩
          rw [hloaded, hid, show x.id = (editedBy req loaded reread).id from hxid, editedBy_id]
    · exact ⟨hid, hof⟩
  · rw [rows_flagWrite] at hc'
    obtain ⟨x, hx, rfl⟩ := List.mem_map.1 hc'
    obtain ⟨c, hc, hid, hof⟩ := h x hx
    refine ⟨c, hc, ?_⟩
    split
    · exact ⟨hid.trans (flag.set_id x).symm, fun f ↦ by rw [of_set]; exact hof f⟩
    · exact ⟨hid, hof⟩

theorem setsContacts_view (hkeeps : KeepsContacts req) (h : SetsContacts req d d')
    (hws : ∀ w ∈ ws, Gentle contactsWatch req d w) :
    SetsContacts req d (postgres.view ws d') := by
  induction ws generalizing d' with
  | nil => exact h
  | cons w ws ih =>
    exact ih (setsContacts_gentle hkeeps h (hws w List.mem_cons_self))
      fun w hw ↦ hws w (List.mem_cons_of_mem _ hw)

/-- An edit is of a customer of its tenant. -/
theorem tenant_of_edited (hchanges : Changes .plain env lk d req e) {tenantId id : Uuid}
    (h : req.editedId = some (tenantId, id)) {c : Customer} (hc : c ∈ d.customers.rows)
    (hid : c.id = id) : c.tenant_id = tenantId := by
  cases hchanges with
  | post _ _ hposts => cases hposts <;> cases h
  | edit _ _ _ _ _ hwho hpresent =>
    obtain ⟨rfl, rfl⟩ := Prod.mk.inj (Option.some.inj (h.symm.trans hwho))
    obtain ⟨c', hc', hid', htenant⟩ := hpresent
    obtain rfl := Db.eq_of_find_customer (Table.find_eq_some.2 ⟨hc', rfl⟩) hc (hid.trans hid'.symm)
    exact htenant
  | aside haside => cases req <;> first | exact haside.elim | cases h
  | flag hflag => cases req <;> first | exact hflag.elim | cases h
  | _ => cases h

theorem new_customer (hchanges : Changes .plain env lk d req e) {c : Customer}
    (hc : c ∈ e.customers) :
    ∃ dto, req = .createCustomer c.tenant_id dto ∧ c.id = env.fresh 0 := by
  cases hchanges with
  | create =>
    obtain rfl := List.mem_singleton.1 hc
    exact ⟨_, rfl, rfl⟩
  | _ => cases hc

/-- A customer of before, or the one that the request creates. -/
inductive ContactsOf (req : Request) (env : Env) (d : Db) (c' : Customer) : Prop
  | kept {c : Customer} (hc : c ∈ d.customers.rows) (hid : c.id = c'.id)
      (htenant : c.tenant_id = c'.tenant_id) (hof : ∀ f : Contact, f.of c' = f.of c ∨
        (req.editedId = some (c.tenant_id, c.id) ∧ f.setBy req = some (f.of c')))
  | created {tenantId : Uuid} {dto : CreateCustomerDto} (hreq : req = .createCustomer tenantId dto)
      (hnew : c' = newCustomer env tenantId dto)

theorem contactsOf_commit (hkeeps : KeepsContacts req)
    (hcommit : Commit .plain req env lk d (postgres.view ws d) e)
    (hws : req.IsEdit ∨ req.IsFlagging → ∀ w ∈ ws, Gentle contactsWatch req d w) :
    ∀ c' ∈ (postgres.view ws d).customers.rows, ContactsOf req env d c' := by
  intro c' hc'
  have htenant : ∀ c ∈ d.customers.rows, c.id = c'.id → c.tenant_id = c'.tenant_id := by
    intro c hc hid
    have hfind := hcommit.find_customer (Table.find_eq_some.2 ⟨hc, hid⟩)
    obtain rfl := Option.some.inj (hfind.symm.trans (Table.find_eq_some.2 ⟨hc', rfl⟩))
    exact (congrArg (·.2.1) (hcommit.changes.fixed_customer hc)).symm
  by_cases hreq : req.IsEdit ∨ req.IsFlagging
  · have hself : SetsContacts req d d := fun c hc ↦ ⟨c, hc, rfl, fun _ ↦ Or.inl rfl⟩
    obtain ⟨c, hc, hid, hof⟩ := setsContacts_view hkeeps hself (hws hreq) c' hc'
    refine .kept hc hid (htenant c hc hid) fun f ↦ (hof f).imp_right ?_
    rintro ⟨⟨tenantId, hedited⟩, hset⟩
    exact ⟨(tenant_of_edited hcommit.changes hedited hc rfl).symm ▸ hedited, hset⟩
  · rw [hcommit.yields.customers, List.mem_append] at hc'
    rcases hc' with hc' | hc'
    · obtain ⟨x, hx, rfl⟩ := List.mem_map.1 hc'
      have hid : x.id = (e.customer x).id :=
        (congrArg Prod.fst (hcommit.changes.fixed_customer hx)).symm
      exact .kept hx hid (htenant x hx hid) fun f ↦ Or.inl (of_customer hcommit.changes hreq hx)
    · cases hcommit.changes with
      | create => exact .created rfl (List.mem_singleton.1 hc')
      | _ => cases hc'

/-- The request writes the contact of the customer. -/
inductive WritesContact (req : Request) (env : Env) (d : Db) (f : Contact) (c' : Customer) : Prop
  | edited {c : Customer} (hc : c ∈ d.customers.rows) (hid : c.id = c'.id)
      (htenant : c.tenant_id = c'.tenant_id) (hedit : req.editedId = some (c.tenant_id, c.id))
      (hset : f.setBy req = some (f.of c'))
  | created {tenantId : Uuid} {dto : CreateCustomerDto} (hreq : req = .createCustomer tenantId dto)
      (hnew : c' = newCustomer env tenantId dto)

theorem ContactsOf.kept_or_written {c' : Customer} (h : ContactsOf req env d c') (f : Contact) :
    (∃ c ∈ d.customers.rows, c.id = c'.id ∧ c.tenant_id = c'.tenant_id ∧ f.of c' = f.of c) ∨
      WritesContact req env d f c' := by
  cases h with
  | @kept c hc hid htenant hof =>
    rcases hof f with hsame | ⟨hedit, hset⟩
    · exact Or.inl ⟨c, hc, hid, htenant, hsame⟩
    · exact Or.inr (.edited hc hid htenant hedit hset)
  | created hreq hnew => exact Or.inr (.created hreq hnew)

/-- A request writes to one customer. -/
theorem WritesContact.id_eq {c₁ c₂ : Customer} (h₁ : WritesContact req env d f c₁)
    (h₂ : WritesContact req env d f c₂) : c₁.id = c₂.id := by
  cases h₁ with
  | edited _ hid₁ _ hedit₁ =>
    cases h₂ with
    | edited _ hid₂ _ hedit₂ =>
      have heq := Option.some.inj (hedit₁.symm.trans hedit₂)
      rw [← hid₁, ← hid₂, (Prod.mk.inj heq).2]
    | created hreq =>
      rw [hreq] at hedit₁
      cases hedit₁
  | created hreq₁ hnew₁ =>
    cases h₂ with
    | edited _ _ _ hedit₂ =>
      rw [hreq₁] at hedit₂
      cases hedit₂
    | created hreq₂ hnew₂ =>
      obtain ⟨rfl, rfl⟩ := Request.createCustomer.inj (hreq₁.symm.trans hreq₂)
      rw [hnew₁, hnew₂]

/-- What the request writes is nowhere else in the tenant. -/
theorem WritesContact.free {c₁ c : Customer} (h : WritesContact req env d f c₁)
    (hfree : ContactsFree req d) (hc : c ∈ d.customers.rows) (htenant : c.tenant_id = c₁.tenant_id)
    (hid : c.id ≠ c₁.id) (hsome : f.of c₁ ≠ none) : f.of c ≠ f.of c₁ := by
  obtain ⟨v, hv⟩ := Option.ne_none_iff_exists'.1 hsome
  rw [hv]
  cases h with
  | @edited b hb hbid hbtenant hedit hset =>
    rw [hv] at hset
    cases req with
    | updateCustomer tenantId customerId dto =>
      obtain ⟨rfl, rfl⟩ := Prod.mk.inj (Option.some.inj hedit)
      exact hfree f v hset c hc (htenant.trans hbtenant.symm) (hbid ▸ hid)
    | toggleBlock | updatePromise => cases f <;> cases hset
    | _ => cases hedit
  | @created tenantId dto hreq hnew =>
    subst hreq hnew
    have hset : f.setBy (.createCustomer tenantId dto) =
        some (f.of (newCustomer env tenantId dto)) := by cases f <;> rfl
    exact hfree f v (hset.trans (congrArg some hv)) c hc htenant

theorem UniqueContacts.commit (h : UniqueContacts d) (hkeeps : KeepsContacts req)
    (hcommit : Commit .plain req env lk d (postgres.view ws d) e)
    (hws : req.IsEdit ∨ req.IsFlagging → ∀ w ∈ ws, Gentle contactsWatch req d w)
    (hfree : ContactsFree req d) : UniqueContacts (postgres.view ws d) := by
  intro f c₁ hc₁ c₂ hc₂ htenant hof hsome
  have hcontacts := contactsOf_commit hkeeps hcommit hws
  by_contra hne
  rcases (hcontacts c₁ hc₁).kept_or_written f with ⟨b₁, hb₁, hid₁, htenant₁, hof₁⟩ | hwritten₁
  · rcases (hcontacts c₂ hc₂).kept_or_written f with ⟨b₂, hb₂, hid₂, htenant₂, hof₂⟩ | hwritten₂
    · refine hne (hid₁.symm.trans (Eq.trans ?_ hid₂))
      refine h f b₁ hb₁ b₂ hb₂ ?_ ?_ (hof₁ ▸ hsome)
      · rw [htenant₁, htenant₂, htenant]
      · rw [← hof₁, ← hof₂, hof]
    · refine hwritten₂.free hfree hb₁ (htenant₁.trans htenant) (hid₁ ▸ hne) (hof ▸ hsome) ?_
      rw [← hof₁, hof]
  · rcases (hcontacts c₂ hc₂).kept_or_written f with ⟨b₂, hb₂, hid₂, htenant₂, hof₂⟩ | hwritten₂
    · refine hwritten₁.free hfree hb₂ (htenant₂.trans htenant.symm) ?_ hsome (hof₂ ▸ hof.symm)
      exact fun heq ↦ hne (heq.symm.trans hid₂)
    · exact hne (hwritten₁.id_eq hwritten₂)

end Commit

/-! ## The tenants among themselves -/

/-- The database without the customers of the other tenants. -/
def onlyTenant (tenantId : Uuid) (d : Db) : Db :=
  { d with customers := ⟨d.customersOf tenantId,
      d.customers.nodup.sublist (List.filter_sublist.map Keyed.key)⟩ }

/-- Each identifier of a customer was generated by a creation for its tenant. -/
def Born {ι : Type} (req : ι → Request) (env : ι → Env) (d : Db) : Prop :=
  ∀ c ∈ d.customers.rows, ∃ i dto, c.id = (env i).fresh 0 ∧ req i = .createCustomer c.tenant_id dto

/-- A look-up of the tenant, the insert, while nothing else is written, or a check of a key. -/
def Registers (tenantId : Uuid) (row : Customer) (ws : List Write) : Sql → Prop
  | .findCustomerByKey id _ => id = tenantId
  | .findCustomerByPhone id _ _ => id = tenantId
  | .findCustomerByDni id _ _ => id = tenantId
  | .insertCustomer row' => row' = row ∧ ws = []
  | .keyShare _ => True
  | _ => False

section Tenants

variable {env : Env} {d : Db} {tenantId : Uuid} {dto : CreateCustomerDto} {ws : List Write}
  {lk : List (LockName × LockMode)} {α : Type}

theorem customerByKey_onlyTenant (d : Db) (tenantId key : Uuid) :
    (onlyTenant tenantId d).customerByKey tenantId key = d.customerByKey tenantId key := by
  simp only [Db.customerByKey, onlyTenant, Db.customersOf, List.find?_filter]
  congr 1
  funext c
  by_cases h : c.tenant_id = tenantId <;> simp [h]

theorem customersOf_onlyTenant (d : Db) (tenantId : Uuid) :
    (onlyTenant tenantId d).customersOf tenantId = d.customersOf tenantId := by
  simp only [Db.customersOf, onlyTenant, List.filter_filter, Bool.and_self]

theorem find_onlyTenant {id : Uuid} (h : ∀ c ∈ d.customers.rows, c.id = id → c.tenant_id = tenantId) :
    (onlyTenant tenantId d).customers.find id = d.customers.find id := by
  simp only [Table.find, onlyTenant, Db.customersOf, List.find?_filter]
  refine List.find?_congr fun c hc ↦ ?_
  by_cases hid : c.id = id
  · simp [hid, h c hc hid]
  · simp [hid]

/-- The statements of a registration answer the same if there are no other tenants. -/
theorem exec_onlyTenant {o : Sql} {row : Customer} (ho : Registers tenantId row ws o)
    (htenant : row.tenant_id = tenantId)
    (h : ws = [] → ∀ c ∈ d.customers.rows, c.id = row.id → c.tenant_id = tenantId) :
    o.exec (postgres.view ws d) = o.exec (onlyTenant tenantId (postgres.view ws d)) := by
  cases o with
  | findCustomerByKey id key =>
    obtain rfl : id = tenantId := ho
    simp only [Sql.exec, customerByKey_onlyTenant]
  | findCustomerByPhone id except phone =>
    obtain rfl : id = tenantId := ho
    simp only [Sql.exec, Db.otherCustomer, customersOf_onlyTenant]
  | findCustomerByDni id except dni =>
    obtain rfl : id = tenantId := ho
    simp only [Sql.exec, Db.otherCustomer, customersOf_onlyTenant]
  | insertCustomer row' =>
    obtain ⟨rfl, rfl⟩ := ho
    subst htenant
    have hfind := find_onlyTenant (h rfl)
    have hkey : (row'.idempotency_key.bind ((onlyTenant row'.tenant_id d).customerByKey
        row'.tenant_id)) = row'.idempotency_key.bind (d.customerByKey row'.tenant_id) := by
      congr 1
      funext key
      exact customerByKey_onlyTenant d row'.tenant_id key
    simp only [Sql.exec, Engine.view_nil]
    refine if_congr ?_ rfl rfl
    rw [hfind, hkey]
  | keyShare => rfl
  | _ => exact ho.elim

/-- Where a registration stands, each of its statements is one of these. -/
abbrev Registering (tenantId : Uuid) (row : Customer) (p : Script α) (ws : List Write)
    (lk : List (LockName × LockMode)) : Prop :=
  p.Along postgres (fun _ ↦ True) (fun _ ws o _ ↦ Registers tenantId row ws o) ws lk

/-- A read whose answer is only looked at. -/
theorem registering_read {row : Customer} {o : Sql} {k : o.Ans → Script α}
    (ho : Registers tenantId row [] o) (hread : o.write = none)
    (hk : ∀ r lk, Registering tenantId row (k r) [] lk) :
    Registering tenantId row (.stmt o k) [] lk := by
  refine fun v _ ↦ ⟨ho, fun r ws hexec ↦ ?_⟩
  have hnone : ws = [] := List.eq_nil_iff_forall_not_mem.2 fun w hw ↦ by
    have hwrite := Sql.write_of_exec hexec w hw
    rw [hread] at hwrite
    cases hwrite
  rw [hnone]
  exact hk r _

theorem registering_rejectDuplicate {row : Customer} {value : Option String}
    {find : String → Script (Option Customer)} {message : String} {f : Unit → Script α}
    (hfind : ∀ v (k : Option Customer → Script α) lk, (∀ r lk, Registering tenantId row (k r) [] lk) →
      Registering tenantId row (find v >>= k) [] lk)
    (hf : ∀ lk, Registering tenantId row (f ()) [] lk) :
    Registering tenantId row (rejectDuplicate value find message >>= f) [] lk := by
  cases value with
  | none => exact hf lk
  | some v =>
    simp only [rejectDuplicate, Prog.bind_assoc]
    refine hfind v _ lk fun r lk ↦ ?_
    cases r with
    | none => exact hf lk
    | some c => trivial

/-- The look-ups, the insert and the check of the tenant's key. -/
theorem createNew_registering :
    Registering tenantId (newCustomer env tenantId dto)
      (rejectDuplicate (truthy dto.phone)
          (fun phone ↦ .stmt (.findCustomerByPhone tenantId none phone) .ret)
          "Ya existe un cliente con ese teléfono en tu comercio" >>= fun _ ↦
        rejectDuplicate (truthy dto.dni)
          (fun dni ↦ .stmt (.findCustomerByDni tenantId none dni) .ret)
          "Ya existe un cliente con ese DNI en tu comercio" >>= fun _ ↦
        .stmt (.insertCustomer (newCustomer env tenantId dto)) fun _ ↦
        .stmt (.keyShare [.tenant tenantId]) fun _ ↦
        .commit (.ret (Answer.customer (newCustomer env tenantId dto)))) [] lk := by
  refine registering_rejectDuplicate (fun v k lk hk ↦ registering_read rfl rfl hk) fun lk ↦ ?_
  refine registering_rejectDuplicate (fun v k lk hk ↦ registering_read rfl rfl hk) fun lk ↦ ?_
  intro v _
  refine ⟨⟨rfl, rfl⟩, fun _ _ _ ↦ ?_⟩
  intro v _
  exact ⟨trivial, fun _ _ _ ↦ trivial⟩

theorem createCustomer_registering :
    Registering tenantId (newCustomer env tenantId dto)
      ((Request.createCustomer tenantId dto).script env) [] lk := by
  simp only [Request.script, Services.createCustomer, query]
  cases dto.idempotency_key with
  | none =>
    simp only [Prog.pure_eq_ret, Prog.ret_bind, Prog.bind_assoc, Prog.issue_bind,
      Prog.commitTransaction_bind, Prog.stmt_bind, Prog.commit_bind]
    exact createNew_registering
  | some key =>
    simp only [Prog.issue_bind, Prog.stmt_bind]
    refine registering_read rfl rfl fun existing lk ↦ ?_
    cases existing with
    | some existing => trivial
    | none =>
      simp only [Prog.pure_eq_ret, Prog.ret_bind, Prog.bind_assoc, Prog.commitTransaction_bind,
        Prog.stmt_bind, Prog.commit_bind]
      exact createNew_registering

/-- At a statement of a creation. -/
def RegistersFor (req : Request) (env : Env) (ws : List Write) (o : Sql) : Prop :=
  match req with
  | .createCustomer tenantId dto => Registers tenantId (newCustomer env tenantId dto) ws o
  | _ => True

theorem registersFor_along (req : Request) (env : Env) :
    (req.script env).Along postgres (fun _ ↦ True) (fun _ ws o _ ↦ RegistersFor req env ws o)
      [] [] := by
  cases req with
  | createCustomer => exact createCustomer_registering
  | _ =>
    refine Prog.along_of_safe (Prog.safe_trivial _) ?_ ?_ [] []
    · exact fun _ _ _ ↦ trivial
    · exact fun _ _ _ _ _ _ ↦ trivial

end Tenants

/-! ## Runs -/

section Runs

variable {ι : Type} [DecidableEq ι] {req : ι → Request} {env : ι → Env} {tenants : Table Tenant}
  {es : List (Event ι)}

theorem unique_opened (tenants : Table Tenant) : UniqueContacts (Db.opened tenants) :=
  fun _ _ h ↦ (List.not_mem_nil h).elim

theorem born_run (hids : FreshIds req env) (tenants : Table Tenant) (es : List (Event ι)) :
    Born req env (postgres.run (serve req env (Db.opened tenants)) es).db := by
  obtain ⟨hC, hsound⟩ := sound_opened (S := .plain) hids False.elim False.elim rfl tenants
  refine hsound.history hC (J := fun d _ ↦ Born req env d)
    (.of_forall fun i ↦ allow_plain (req i) (env i)) (fun _ h ↦ (List.not_mem_nil h).elim)
    fun i lk ws d _ h hguar _ ↦ ?_
  rcases hguar with ⟨rfl, -⟩ | ⟨e, hcommit⟩
  · exact h
  · intro c' hc'
    have hfixed : c'.fixed ∈ (postgres.view ws d).customers.rows.map Customer.fixed :=
      List.mem_map_of_mem hc'
    rw [hcommit.fixed, List.mem_append] at hfixed
    rcases hfixed with hfixed | hfixed
    · obtain ⟨c, hc, heq⟩ := List.mem_map.1 hfixed
      obtain ⟨j, dto, hid, hreq⟩ := h c hc
      have htenant : c.tenant_id = c'.tenant_id := congrArg (·.2.1) heq
      exact ⟨j, dto, (congrArg Prod.fst heq).symm.trans hid, htenant ▸ hreq⟩
    · obtain ⟨c, hc, heq⟩ := List.mem_map.1 hfixed
      obtain ⟨dto, hreq, hid⟩ := new_customer hcommit.changes hc
      have htenant : c.tenant_id = c'.tenant_id := congrArg (·.2.1) heq
      exact ⟨i, dto, (congrArg Prod.fst heq).symm.trans hid, htenant ▸ hreq⟩

/-- At each statement of a registration. -/
theorem registers_run (req : ι → Request) (env : ι → Env) (tenants : Table Tenant)
    (es : List (Event ι)) {i : ι} {tenantId : Uuid} {dto : CreateCustomerDto} {o : Sql}
    {k : o.Ans → Script Answer} {ws : List Write} (hreq : req i = .createCustomer tenantId dto)
    (hi : (postgres.run (serve req env (Db.opened tenants)) es).session i =
      .running (.stmt o k) ws) : Registers tenantId (newCustomer (env i) tenantId dto) ws o := by
  have hstart : (serve req env (Db.opened tenants)).AlongEach postgres (fun _ ↦ True)
      fun j _ ws o _ ↦ RegistersFor (req j) (env j) ws o :=
    Sys.AlongEach.start fun j ↦ registersFor_along (req j) (env j)
  have hregisters := (hstart.run es (fun _ _ _ _ _ _ ↦ trivial) hi (Db.opened tenants) trivial).1
  rw [hreq] at hregisters
  exact hregisters

/-- As long as what the look-ups of a request have said still holds when it commits, and at most one
customer of a tenant is created with each empty contact, the contacts of a tenant's customers
differ; and the other tenants never change what a registration is answered. -/
theorem contacts_unique (hids : FreshIds req env) (hkeeps : ∀ i, KeepsContacts (req i))
    (hstays : postgres.StaysTrue looksUp Absence.Holds (serve req env (Db.opened tenants))
      (fun _ ↦ []) es)
    (hfirst : postgres.CommitsMeet (fun i _ d ↦ FirstEmpty (req i) d)
      (serve req env (Db.opened tenants)) es) :
    UniqueContacts (postgres.run (serve req env (Db.opened tenants)) es).db ∧
      ∀ i tenantId dto o k ws, req i = .createCustomer tenantId dto →
        (postgres.run (serve req env (Db.opened tenants)) es).session i = .running (.stmt o k) ws →
          o.exec (postgres.view ws (postgres.run (serve req env (Db.opened tenants)) es).db) =
            o.exec (onlyTenant tenantId
              (postgres.view ws (postgres.run (serve req env (Db.opened tenants)) es).db)) := by
  refine ⟨?_, fun i tenantId dto o k ws hreq hi ↦ ?_⟩
  · obtain ⟨hC, hsound⟩ := sound_watch contactsWatch hids
      (fun i ↦ unused_opened (env i) tenants) (wellFormed_opened tenants)
    have hobserving : (serve req env (Db.opened tenants)).Observing looksUp
        (fun i known ↦ absences (req i) ⊆ known) fun _ ↦ [] :=
      Sys.Observing.start fun i ↦ script_observes (req i) (env i)
    have hmeets : postgres.Meets (fun i ↦ ((contract .plain (req i) (env i)).both
        (watchContract contactsWatch (req i))).allow) (serve req env (Db.opened tenants)) es :=
      .of_forall fun i o v ↦ ⟨allow_plain (req i) (env i) o v, allow_contactsWatch (req i) o v⟩
    refine hsound.history_of_commits hC (J := fun d _ ↦ UniqueContacts d) hmeets
      (hfirst.and (hstays.commitsMeet hobserving)) (unique_opened tenants)
      fun i lk ws d _ h hguar _ hcommits ↦ ?_
    obtain ⟨hguar, hgentle⟩ := hguar
    rcases hguar with ⟨rfl, -⟩ | ⟨e, hcommit⟩
    · exact h
    · by_cases hne : ws = []
      · rw [hne]
        exact h
      · obtain ⟨hempty, facts, hlooked, hholds⟩ := hcommits hne
        exact h.commit (hkeeps i) hcommit hgentle
          (contactsFree_of_absences hempty fun a ha ↦ hholds a (hlooked ha))
  · refine exec_onlyTenant (registers_run req env tenants es hreq hi) rfl fun _ c hc hid ↦ ?_
    obtain ⟨j, dto', hborn, hj⟩ := born_run hids tenants es c hc
    obtain ⟨rfl, -⟩ := hids.distinct j i 0 0 (hborn.symm.trans hid)
    exact (Request.createCustomer.inj (hj.symm.trans hreq)).1

end Runs

/-! ## An empty phone -/

/-- A customer without a phone, or one whose phone is the empty string. -/
def dtoOfPhone (empty : Bool) : CreateCustomerDto :=
  { ana with phone := if empty then some "" else none, phone_valid := by cases empty <;> decide }

theorem phone_valid_of_two : MaxLength 50 (some "22") := by decide

def dtoOfContacts : UpdateCustomerDto where
  full_name := none
  phone := some (some "22")
  dni := none
  address := none
  email := some (some "b@c.ar")
  notes := none
  tags := none
  full_name_valid := rfl
  phone_valid := phone_valid_of_two
  dni_valid := rfl
  address_valid := rfl

/-- Two creations, and an update of the second customer. -/
def registering (empty : Bool) : Fin 3 → Request
  | 0 => .createCustomer 1 (dtoOfPhone true)
  | 1 => .createCustomer 1 (dtoOfPhone empty)
  | 2 => .updateCustomer 1 101 dtoOfContacts

def registered (empty : Bool) (es : List (Event (Fin 3))) : Db :=
  (postgres.run (serve (registering empty) (fun i ↦ sampleEnv i) (Db.opened sampleTenants)) es).db

theorem freshIds_registering (empty : Bool) :
    FreshIds (registering empty) fun i ↦ sampleEnv i :=
  freshIds_sample Fin.val_injective (by decide) (by cases empty <;> decide)

theorem keepsContacts_registering (empty : Bool) (i : Fin 3) : KeepsContacts (registering empty i) :=
  match i with
  | 0 => trivial
  | 1 => trivial
  | 2 => trivial

theorem contacts_unique_absent :
    UniqueContacts (registered false (inTurn [(0, 10), (1, 10), (2, 10)])) :=
  (contacts_unique (freshIds_registering false) (keepsContacts_registering false)
    (by decide +kernel) (by decide +kernel)).1

/-- The creation looks nobody up for the phone of the second customer, since it is empty. -/
theorem contacts_unique_empty : Reachable (registered true (inTurn [(0, 10), (1, 10)])) ∧
    ¬UniqueContacts (registered true (inTurn [(0, 10), (1, 10)])) := by
  refine ⟨⟨Fin 3, inferInstance, registering true, fun i ↦ sampleEnv i, sampleTenants, _,
    freshIds_registering true, rfl⟩, fun h ↦ ?_⟩
  have hsame : ∃ c ∈ (registered true (inTurn [(0, 10), (1, 10)])).customers.rows,
      ∃ c' ∈ (registered true (inTurn [(0, 10), (1, 10)])).customers.rows,
        c.tenant_id = c'.tenant_id ∧ c.phone = c'.phone ∧ c.phone ≠ none ∧ c.id ≠ c'.id := by
    decide +kernel
  obtain ⟨c, hc, c', hc', htenant, hphone, hsome, hne⟩ := hsame
  exact hne (h .phone c hc c' hc' htenant hphone hsome)

end MicroErp.Guarantees
