import MicroErp.Commits.Runs
import MicroErp.Services.Exports
import MicroErp.Services.Rounding

/-!
# Exports that are read back

A reader of CSV finds a row of the stored values for each customer exactly when no value breaks the
text that was written for it.  The file of debtors leaves a carriage return bare, and prints a sign
twice; the file of customers does not double its quotes and encloses two of its columns only.
-/

namespace MicroErp.Guarantees

open MicroErp.Commits MicroErp.Database MicroErp.Services MicroErp.Storage

/-! ## Amounts -/

/-- The number of hundredths in a text of digits with two decimals. -/
def readHundredths (text : List Char) : Option ℕ :=
  let whole := text.takeWhile Char.isDigit
  let rest := text.dropWhile Char.isDigit
  if whole ≠ [] ∧ rest.head? = some '.' ∧ rest.length = 3 ∧ rest.tail.all Char.isDigit then
    some (Nat.ofDigitChars 10 (whole ++ rest.tail) 0)
  else none

/-- The cents that an amount stands for. -/
def readCents (text : List Char) : Option ℤ :=
  if text.head? = some '-' then (readHundredths text.tail).map fun n : ℕ ↦ (-n : ℤ)
  else (readHundredths text).map fun n : ℕ ↦ (n : ℤ)

theorem toList_padStart (text : String) (length : ℕ) (c : Char) :
    (padStart text length c).toList = List.replicate (length - text.length) c ++ text.toList := by
  simp [padStart]

theorem toList_twoDigits {r : ℕ} (hr : r < 100) :
    (padStart (toString r) 2 '0').toList = [(r / 10).digitChar, (r % 10).digitChar] := by
  rw [toList_padStart, Nat.toString_eq_repr]
  by_cases hlt : r < 10
  · rw [Nat.repr_of_lt hlt, Nat.div_eq_of_lt hlt, Nat.mod_eq_of_lt hlt]
    simp
  · have hge : 10 ≤ r := not_lt.1 hlt
    have hq : r / 10 < 10 := by omega
    rw [Nat.repr_of_ge hge, Nat.repr_of_lt hq]
    simp

theorem isDigit_toString {n : ℕ} : ∀ c ∈ (toString n).toList, c.isDigit = true := by
  rw [Nat.toString_eq_repr, Nat.toList_repr]
  exact fun c hc ↦ Nat.isDigit_of_mem_toDigits (by norm_num) le_rfl hc

/-- A number of hundredths as whole units and two decimals. -/
def hundredthsText (n : ℕ) : List Char :=
  (toString (n / 100)).toList ++ '.' :: (padStart (toString (n % 100)) 2 '0').toList

theorem readHundredths_text (n : ℕ) : readHundredths (hundredthsText n) = some n := by
  have hr : n % 100 < 100 := Nat.mod_lt n (by norm_num)
  have htens : n % 100 / 10 < 10 := by omega
  have hones : n % 100 % 10 < 10 := by omega
  have hwhole : (toString (n / 100)).toList ≠ [] := by
    rw [Nat.toString_eq_repr, Nat.toList_repr]
    exact Nat.toDigits_ne_nil
  have hdot : ¬Char.isDigit '.' = true := by decide
  unfold readHundredths hundredthsText
  simp only [List.takeWhile_append_of_pos isDigit_toString,
    List.dropWhile_append_of_pos isDigit_toString, List.takeWhile_cons_of_neg hdot,
    List.dropWhile_cons_of_neg hdot, List.append_nil, toList_twoDigits hr]
  rw [if_pos]
  · -- the digits of the two parts in a row
    rw [List.tail_cons, Nat.ofDigitChars_append, Nat.toString_eq_repr, Nat.toList_repr,
      Nat.ofDigitChars_ten_toDigits, Nat.ofDigitChars_cons_digitChar_of_lt_ten htens,
      Nat.ofDigitChars_cons_digitChar_of_lt_ten hones, Nat.ofDigitChars_nil]
    congr 1
    omega
  · refine ⟨hwhole, rfl, rfl, ?_⟩
    simp [Nat.isDigit_digitChar, htens, Nat.mod_lt]

theorem readCents_minus (text : List Char) :
    readCents ('-' :: text) = (readHundredths text).map fun n : ℕ ↦ (-n : ℤ) := by
  have hhead : ('-' :: text).head? = some '-' := rfl
  rw [readCents, if_pos hhead, List.tail_cons]

theorem readCents_neg (n : ℕ) : readCents ('-' :: hundredthsText n) = some (-(n : ℤ)) := by
  rw [readCents_minus, readHundredths_text]
  rfl

theorem head_hundredthsText (n : ℕ) : (hundredthsText n).head? ≠ some '-' := by
  unfold hundredthsText
  cases htext : (toString (n / 100)).toList with
  | nil => simp
  | cons c text =>
    have hc := isDigit_toString c (htext ▸ List.mem_cons_self)
    simp only [List.cons_append, List.head?_cons, ne_eq, Option.some.injEq]
    rintro rfl
    exact absurd hc (by decide)

theorem readCents_nonneg (n : ℕ) : readCents (hundredthsText n) = some (n : ℤ) := by
  rw [readCents, if_neg (head_hundredthsText n), readHundredths_text]
  rfl

section Amounts

variable {n : ℤ}

/-- Cents of a column, divided by a hundred, hardly differ from a double. -/
theorem abs_toDouble_cents (hn : Int4 n) : |toDouble (n / 100) - n / 100| < 1 / 200 := by
  have hbound : |(n : ℚ)| ≤ 2147483648 := by
    rw [abs_le]
    exact ⟨by exact_mod_cast hn.1, by exact_mod_cast hn.2.trans (by norm_num)⟩
  refine (abs_toDouble_sub_le _).trans_lt ?_
  rw [abs_div, abs_of_pos (by norm_num : (0 : ℚ) < 100)]
  norm_num
  linarith

theorem toDouble_cents_neg_iff (hn : Int4 n) : toDouble (n / 100) < 0 ↔ n < 0 := by
  have hclose := abs_lt.1 (abs_toDouble_cents hn)
  constructor
  · intro hlt
    by_contra hge
    have hge' : (0 : ℚ) ≤ n := by exact_mod_cast not_lt.1 hge
    exact absurd hlt (not_lt.2 (toDouble_nonneg (by positivity)))
  · intro hlt
    have hlt' : (n : ℚ) ≤ -1 := by exact_mod_cast Int.le_sub_one_of_lt hlt
    linarith

/-- `toFixed(2)` prints the cents exactly. -/
theorem readCents_toFixed2 (hn : Int4 n) :
    readCents (toFixed2 (toDouble (n / 100))).toList = some n := by
  have hround : mathRound (|toDouble (n / 100)| * 100) = |n| := by
    have hclose := abs_lt.1 ((abs_abs_sub_abs_le _ _).trans_lt (abs_toDouble_cents hn))
    rw [abs_div, abs_of_pos (by norm_num : (0 : ℚ) < 100)] at hclose
    rw [mathRound, Int.floor_eq_iff]
    push_cast
    constructor <;> linarith
  have htext : (toFixed2 (toDouble (n / 100))).toList =
      (if n < 0 then ['-'] else []) ++ hundredthsText n.natAbs := by
    have habs : (|n|).toNat = n.natAbs := by rw [Int.abs_eq_natAbs, Int.toNat_natCast]
    simp only [toFixed2, toDouble_cents_neg_iff hn, hround, habs, String.toList_append,
      hundredthsText, List.append_assoc]
    split <;> rfl
  rw [htext]
  split
  · rename_i hneg
    rw [List.singleton_append, readCents_neg]
    congr 1
    omega
  · rename_i hnonneg
    rw [List.nil_append, readCents_nonneg]
    congr 1
    omega

/-- The quotient rounded down, in spite of the error of doubles. -/
theorem floor_toDouble_cents (hn : Int4 n) : ⌊toDouble (n / 100)⌋ = n / 100 := by
  by_cases hdvd : 100 ∣ n
  · obtain ⟨k, rfl⟩ := hdvd
    have hk : |k| < 2 ^ 53 := by
      have hrange := hn
      unfold Int4 at hrange
      rw [abs_lt]
      omega
    have hquotient : ((100 * k : ℤ) : ℚ) / 100 = k := by
      push_cast
      ring
    rw [hquotient, toDouble_intCast hk, Int.floor_intCast, Int.mul_ediv_cancel_left k (by norm_num)]
  · -- the remainder keeps the quotient apart from the integers
    have hclose := abs_lt.1 (abs_toDouble_cents hn)
    have hdiv : (100 : ℚ) * (n / 100 : ℤ) + (n % 100 : ℤ) = n := by
      exact_mod_cast Int.mul_ediv_add_emod n 100
    have hpos : (1 : ℚ) ≤ (n % 100 : ℤ) := by
      have hmod : 1 ≤ n % 100 := by omega
      exact_mod_cast hmod
    have hlt : ((n % 100 : ℤ) : ℚ) ≤ 99 := by
      have hmod : n % 100 ≤ 99 := by omega
      exact_mod_cast hmod
    rw [Int.floor_eq_iff]
    constructor <;> linarith

theorem toList_centsToDecimal (hn : Int4 n) : (centsToDecimal n).toList =
    (toString (n / 100)).toList ++ '.' :: (padStart (toString (n.tmod 100)) 2 '0').toList := by
  simp only [centsToDecimal, floor_toDouble_cents hn, String.toList_append, List.append_assoc]
  rfl

/-- A remainder with its sign is no pair of digits. -/
theorem readHundredths_signed (k r : ℕ) :
    readHundredths ((toString k).toList ++ '.' :: '-' :: (toString r).toList) = none := by
  have hdot : ¬Char.isDigit '.' = true := by decide
  unfold readHundredths
  simp only [List.dropWhile_append_of_pos isDigit_toString, List.dropWhile_cons_of_neg hdot]
  refine if_neg fun h ↦ ?_
  exact absurd (List.all_eq_true.1 h.2.2.2 '-' List.mem_cons_self) (by decide)

theorem toList_toString_neg {k : ℕ} (hk : 0 < k) :
    (toString (-k : ℤ)).toList = '-' :: (toString k).toList := by
  rw [Int.toString_eq_repr, Int.repr_eq_if, if_neg (by omega), neg_neg, String.toList_append]
  rfl

theorem toList_padStart_neg {r : ℕ} (hr : 0 < r) :
    (padStart (toString (-r : ℤ)) 2 '0').toList = '-' :: (toString r).toList := by
  have hlength : 2 - (toString (-r : ℤ)).length = 0 := by
    have hpos : 0 < (toString r).length := Nat.length_repr_pos
    rw [← String.length_toList] at hpos ⊢
    rw [toList_toString_neg hr, List.length_cons]
    omega
  rw [toList_padStart, hlength, toList_toString_neg hr]
  rfl

/-- Cents below zero are printed as an amount only when they are whole units. -/
theorem readCents_centsToDecimal (hn : Int4 n) :
    readCents (centsToDecimal n).toList = some n ↔ 0 ≤ n ∨ 100 ∣ n := by
  rw [toList_centsToDecimal hn]
  rcases le_or_gt 0 n with hnonneg | hneg
  · lift n to ℕ using hnonneg
    refine iff_of_true ?_ (Or.inl (Int.natCast_nonneg n))
    exact readCents_nonneg n
  · obtain ⟨m, rfl⟩ : ∃ m : ℕ, n = -m := ⟨n.natAbs, by omega⟩
    have hm : 0 < m := by omega
    have hrem : (-m : ℤ).tmod 100 = -(m % 100 : ℕ) := by
      rw [Int.neg_tmod, Int.tmod_eq_emod_of_nonneg (Int.natCast_nonneg m)]
      rfl
    rw [hrem]
    by_cases hdvd : 100 ∣ m
    · obtain ⟨k, rfl⟩ := hdvd
      refine iff_of_true ?_ (Or.inr ⟨-k, by push_cast; ring⟩)
      have hquotient : -((100 * k : ℕ) : ℤ) / 100 = -k := by omega
      have htext := readCents_neg (100 * k)
      rw [hundredthsText, Nat.mul_div_cancel_left k (by norm_num), Nat.mul_mod_right] at htext
      rw [hquotient, toList_toString_neg (by omega), Nat.mul_mod_right]
      exact htext
    · refine iff_of_false ?_ (by omega)
      have hquotient : (-m : ℤ) / 100 = -((m / 100 + 1 : ℕ) : ℤ) := by omega
      rw [hquotient, toList_toString_neg (Nat.succ_pos _), toList_padStart_neg (by omega),
        List.cons_append, readCents_minus, readHundredths_signed]
      simp

end Amounts

/-! ## Plain texts -/

theorem not_special_of_isDigit {c : Char} (hc : c.isDigit = true) : c ∉ Csv.special := by
  intro hmem
  rcases Csv.mem_special.1 hmem with rfl | rfl | rfl | rfl <;> exact absurd hc (by decide)

theorem plain_toString (n : ℕ) : Csv.Plain (toString n).toList :=
  fun c hc ↦ not_special_of_isDigit (isDigit_toString c hc)

theorem plain_toString_int (n : ℤ) : Csv.Plain (toString n).toList := by
  rcases Int.eq_nat_or_neg n with ⟨k, rfl | rfl⟩
  · exact plain_toString k
  · rcases k.eq_zero_or_pos with rfl | hk
    · exact plain_toString 0
    · rw [toList_toString_neg hk]
      exact Csv.plain_cons.2 ⟨by decide, plain_toString k⟩

theorem plain_padStart {text : String} (length : ℕ) (h : Csv.Plain text.toList) :
    Csv.Plain (padStart text length '0').toList := by
  rw [toList_padStart]
  refine Csv.plain_append.2 ⟨fun c hc ↦ ?_, h⟩
  rw [(List.mem_replicate.1 hc).2]
  decide

/-- Appending keeps a text plain. -/
theorem plain_string_append {s t : String} :
    Csv.Plain (s ++ t).toList ↔ Csv.Plain s.toList ∧ Csv.Plain t.toList := by
  rw [String.toList_append, Csv.plain_append]

theorem plain_toFixed2 (x : ℚ) : Csv.Plain (toFixed2 x).toList := by
  simp only [toFixed2, plain_string_append]
  refine ⟨⟨⟨?_, plain_toString _⟩, by decide⟩, plain_padStart 2 (plain_toString _)⟩
  split <;> decide

theorem plain_centsToDecimal (cents : ℤ) : Csv.Plain (centsToDecimal cents).toList := by
  simp only [centsToDecimal, plain_string_append]
  exact ⟨⟨plain_toString_int _, by decide⟩, plain_padStart 2 (plain_toString_int _)⟩

theorem plain_toISODate (date : Date) : Csv.Plain (toISODate date).toList := by
  simp only [toISODate, plain_string_append]
  refine ⟨⟨⟨⟨?_, by decide⟩, plain_padStart 2 (plain_toString _)⟩, by decide⟩,
    plain_padStart 2 (plain_toString _)⟩
  split
  · exact plain_padStart 4 (plain_toString _)
  · refine plain_string_append.2 ⟨?_, plain_padStart 6 (plain_toString _)⟩
    split <;> decide

theorem plain_toLocaleDateString (t : Timestamp) : Csv.Plain (toLocaleDateString t).toList := by
  simp only [toLocaleDateString, plain_string_append]
  exact ⟨⟨⟨⟨plain_toString _, by decide⟩, plain_toString _⟩, by decide⟩, plain_toString_int _⟩

/-! ## The file of debtors -/

/-- A value that is left bare though it holds a carriage return. -/
def BareReturn (value : String) : Prop :=
  '\r' ∈ value.toList ∧ ',' ∉ value.toList ∧ '"' ∉ value.toList ∧ '\n' ∉ value.toList

instance (value : String) : Decidable (BareReturn value) := inferInstanceAs (Decidable (_ ∧ _))

theorem toList_quoted (s : String) : ("\"" ++ s ++ "\"").toList = Csv.quote s.toList := by
  rw [String.toList_append, String.toList_append]
  rfl

theorem written_escapeCsv (value : String) : Csv.Written (escapeCsv value).toList value.toList := by
  unfold escapeCsv
  split
  · rw [toList_quoted, String.toList_ofList]
    exact .escaped _
  · exact .bare _

theorem encodes_escapeCsv (value : String) :
    Csv.Encodes (escapeCsv value).toList value.toList ↔ ¬BareReturn value := by
  unfold escapeCsv
  split
  · rename_i h
    rw [toList_quoted, String.toList_ofList]
    refine iff_of_true Csv.encodes_escaped fun hbare ↦ ?_
    obtain ⟨-, hcomma, hquote, hlf⟩ := hbare
    exact h.elim hcomma fun h ↦ h.elim hquote hlf
  · rename_i h
    push Not at h
    rw [Csv.encodes_bare]
    constructor
    · intro hplain hbare
      exact hplain '\r' hbare.1 (by decide)
    · intro hbare c hc hmem
      rcases Csv.mem_special.1 hmem with rfl | rfl | rfl | rfl
      · exact h.1 hc
      · exact h.2.1 hc
      · exact h.2.2 hc
      · exact hbare ⟨hc, h⟩

def debtorHeader : List String :=
  ["\uFEFFNombre", "Teléfono", "DNI", "Deuda ($)", "Límite Crédito ($)", "Estado",
    "Promesa de Pago"]

/-- A record with the stored texts and amounts of a debtor. -/
def DebtorRecord (c : Customer) (r : Csv.Row) : Prop :=
  ∃ debt limit state promise : Csv.Field,
    r = [c.full_name.toList, (c.phone.getD "").toList, (c.dni.getD "").toList, debt, limit, state,
      promise] ∧
    readCents debt = some c.balance_cents ∧ readCents limit = some c.credit_limit_cents

section Debtors

variable {order : DebtorOrder} {tenantId : Uuid} {d : Db} {c : Customer}

/-- The debtors in the order of the query. -/
def exportedDebtors (order : DebtorOrder) (tenantId : Uuid) (d : Db) : List Customer :=
  (order.sort (d.customersOf tenantId)).filter fun c ↦ 0 < c.balance_cents

/-- After the header, a reader finds the records of the debtors. -/
def DebtorsReadBack (order : DebtorOrder) (tenantId : Uuid) (d : Db) : Prop :=
  ∃ records,
    Csv.read .record (String.join (createDebtorsStream order tenantId d)).toList =
      some (debtorHeader.map String.toList :: records) ∧
    List.Forall₂ DebtorRecord (exportedDebtors order tenantId d) records

theorem mem_exportedDebtors :
    c ∈ exportedDebtors order tenantId d ↔ c ∈ d.customersOf tenantId ∧ 0 < c.balance_cents := by
  rw [exportedDebtors, List.mem_filter, decide_eq_true_iff, (order.perm _).mem_iff]

/-- The texts of a row. -/
def debtorTexts (c : Customer) : List (List Char) := (debtorColumns c).map String.toList

theorem toList_debtorRow (c : Customer) :
    (",".intercalate (debtorColumns c) ++ "\n").toList = Csv.line (debtorTexts c) ++ ['\n'] := by
  rw [String.toList_append, String.toList_intercalate]
  rfl

theorem toList_createDebtorsStream :
    (String.join (createDebtorsStream order tenantId d)).toList =
      (debtorHeader.map String.toList :: (exportedDebtors order tenantId d).map debtorTexts).flatMap
        fun es ↦ Csv.line es ++ ['\n'] := by
  have hheader : ("\uFEFF" ++
      "Nombre,Teléfono,DNI,Deuda ($),Límite Crédito ($),Estado,Promesa de Pago\n").toList =
        Csv.line (debtorHeader.map String.toList) ++ ['\n'] := by decide +kernel
  have hrows (customers : List Customer) : (customers.flatMap fun c ↦
      if c.balance_cents ≤ 0 then [] else [",".intercalate (debtorColumns c) ++ "\n"]).flatMap
        String.toList =
      ((customers.filter fun c ↦ 0 < c.balance_cents).map debtorTexts).flatMap
        fun es ↦ Csv.line es ++ ['\n'] := by
    induction customers with
    | nil => rfl
    | cons c customers ih =>
      rw [List.flatMap_cons, List.flatMap_append, ih, List.filter_cons]
      by_cases hc : 0 < c.balance_cents
      · rw [if_neg (not_le.2 hc), if_pos (decide_eq_true hc), List.flatMap_singleton,
          toList_debtorRow]
        rfl
      · rw [if_pos (not_lt.1 hc), if_neg (by simpa using hc)]
        rfl
  rw [createDebtorsStream, String.toList_join, List.flatMap_cons, List.flatMap_cons, hheader,
    hrows]
  rfl

theorem plain_nil : Csv.Plain "".toList := by decide

theorem plain_promise (c : Customer) :
    Csv.Plain ((c.next_payment_promise.map toISODate).getD "").toList := by
  cases c.next_payment_promise with
  | none => exact plain_nil
  | some day => exact plain_toISODate day

theorem plain_state (c : Customer) :
    Csv.Plain (if c.is_active then "Activo" else "Bloqueado").toList := by
  split <;> decide

/-- The columns behind the document number. -/
theorem plain_debtorTexts (c : Customer) : ∀ e ∈ (debtorTexts c).drop 3, Csv.Plain e :=
  List.forall_mem_cons.2 ⟨plain_centsToDecimal _, List.forall_mem_cons.2 ⟨plain_centsToDecimal _,
    List.forall_mem_cons.2 ⟨plain_state c, List.forall_mem_singleton.2 (plain_promise c)⟩⟩⟩

theorem written_debtorTexts {r : Csv.Row} (h : DebtorRecord c r) :
    List.Forall₂ Csv.Written (debtorTexts c) r := by
  obtain ⟨debt, limit, state, promise, rfl, -, -⟩ := h
  exact .cons (written_escapeCsv _) (.cons (written_escapeCsv _) (.cons (written_escapeCsv _)
    (Csv.forall₂_written (plain_debtorTexts c) rfl)))

/-- The texts of a debtor encode its record. -/
theorem exists_debtorRecord (hbalance : Int4 c.balance_cents) (hlimit : Int4 c.credit_limit_cents)
    (hdebt : 0 < c.balance_cents) :
    (∃ r, List.Forall₂ Csv.Encodes (debtorTexts c) r ∧ DebtorRecord c r) ↔
      (∀ value ∈ [c.full_name, c.phone.getD "", c.dni.getD ""], ¬BareReturn value) ∧
        (0 ≤ c.credit_limit_cents ∨ 100 ∣ c.credit_limit_cents) := by
  rw [← readCents_centsToDecimal hlimit]
  simp only [List.forall_mem_cons, List.not_mem_nil, IsEmpty.forall_iff, implies_true, and_true,
    ← encodes_escapeCsv]
  have htail (fs : Csv.Row) :
      List.Forall₂ Csv.Encodes ((debtorTexts c).drop 3) fs ↔ (debtorTexts c).drop 3 = fs :=
    Csv.forall₂_encodes_iff (plain_debtorTexts c)
  constructor
  · rintro ⟨r, hencodes, debt, limit, state, promise, rfl, -, hlimit⟩
    obtain ⟨hname, hencodes⟩ := List.forall₂_cons.1 hencodes
    obtain ⟨hphone, hencodes⟩ := List.forall₂_cons.1 hencodes
    obtain ⟨hdni, hencodes⟩ := List.forall₂_cons.1 hencodes
    obtain ⟨-, hfields⟩ := List.cons.inj ((htail _).1 hencodes)
    rw [← (List.cons.inj hfields).1] at hlimit
    exact ⟨⟨hname, hphone, hdni⟩, hlimit⟩
  · rintro ⟨⟨hname, hphone, hdni⟩, hlimit⟩
    exact ⟨_, .cons hname (.cons hphone (.cons hdni ((htail _).2 rfl))), _, _, _, _, rfl,
      (readCents_centsToDecimal hbalance).2 (Or.inl hdebt.le), hlimit⟩

/-- The file of debtors is read back exactly when no debtor has a text with a bare carriage return,
or a limit below zero that is not a whole number of pesos. -/
theorem debtorsReadBack_iff
    (hcents : ∀ c ∈ d.customersOf tenantId, Int4 c.balance_cents ∧ Int4 c.credit_limit_cents) :
    DebtorsReadBack order tenantId d ↔
      ∀ c ∈ d.customersOf tenantId, 0 < c.balance_cents →
        (∀ value ∈ [c.full_name, c.phone.getD "", c.dni.getD ""], ¬BareReturn value) ∧
          (0 ≤ c.credit_limit_cents ∨ 100 ∣ c.credit_limit_cents) := by
  have hheader : ∀ e ∈ debtorHeader.map String.toList, Csv.Plain e := by decide +kernel
  have hne : ∀ es ∈ debtorHeader.map String.toList ::
      (exportedDebtors order tenantId d).map debtorTexts, es ≠ [] := by
    refine List.forall_mem_cons.2 ⟨List.cons_ne_nil _ _, List.forall_mem_map.2 fun c _ ↦ ?_⟩
    exact List.cons_ne_nil _ _
  have htable := Csv.exists_read_iff hheader (fun c _ ↦ written_debtorTexts (c := c))
    fun _ hrows ↦ Csv.read_lines_iff hrows hne
  rw [DebtorsReadBack, toList_createDebtorsStream, htable]
  simp only [mem_exportedDebtors, and_imp]
  refine forall_congr' fun c ↦ forall_congr' fun hc ↦ forall_congr' fun hdebt ↦ ?_
  exact exists_debtorRecord (hcents c hc).1 (hcents c hc).2 hdebt

end Debtors

/-- The debts of plain names are read back. -/
theorem debtors_of_owing_read_back : DebtorsReadBack (OrderByDesc.stable _) 1 owing := by
  refine (debtorsReadBack_iff (by decide +kernel)).2 ?_
  decide +kernel

/-- A name over two lines. -/
def anaPaz : CreateCustomerDto :=
  { ana with full_name := "Ana\rPaz", full_name_valid := by decide }

def openingAnaPaz : Fin 2 → Request
  | 0 => .createCustomer 1 anaPaz
  | 1 => .registerDebt 1 2 (debtOf100 100 7)

def owingAnaPaz : Db :=
  (postgres.run (serve openingAnaPaz (fun i ↦ sampleEnv i) (Db.opened sampleTenants))
    (inTurn [(0, 10), (1, 12)])).db

theorem reachable_owingAnaPaz : Reachable owingAnaPaz :=
  ⟨Fin 2, inferInstance, openingAnaPaz, fun i ↦ sampleEnv i, sampleTenants, _,
    freshIds_sample Fin.val_injective (by decide) (by decide), rfl⟩

/-- One debtor, of whom the reader makes two records. -/
theorem debtor_in_two_records : Reachable owingAnaPaz ∧
    ¬DebtorsReadBack (OrderByDesc.stable _) 1 owingAnaPaz := by
  refine ⟨reachable_owingAnaPaz, fun h ↦ ?_⟩
  obtain ⟨records, hread, hrecords⟩ := h
  have hrows : (Csv.read .record (String.join
      (createDebtorsStream (OrderByDesc.stable _) 1 owingAnaPaz)).toList).map List.length =
        some 3 := by decide +kernel
  have hdebtors : (exportedDebtors (OrderByDesc.stable _) 1 owingAnaPaz).length = 1 := by
    decide +kernel
  rw [hread, Option.map_some, List.length_cons, ← hrecords.length_eq, hdebtors] at hrows
  exact absurd hrows (by decide)

/-! ## The file of customers -/

/-- A record with the stored texts and amounts of a customer. -/
def CustomerRecord (c : Customer) (r : Csv.Row) : Prop :=
  ∃ debt limit state overdue promise created : Csv.Field,
    r = [c.full_name.toList, (c.phone.getD "").toList, (c.dni.getD "").toList,
      (c.email.getD "").toList, (c.address.getD "").toList, debt, limit, state, overdue, promise,
      created] ∧
    readCents debt = some c.balance_cents ∧ readCents limit = some c.credit_limit_cents

section Customers

variable {order : NameOrder} {zone : ℤ} {tenantId : Uuid} {d : Db} {c : Customer}

/-- After the header, a reader finds the records of all customers. -/
def CustomersReadBack (order : NameOrder) (zone : ℤ) (tenantId : Uuid) (d : Db) : Prop :=
  ∃ records,
    Csv.read .record (exportCsv order zone tenantId d).toList =
      some (customerHeader.map String.toList :: records) ∧
    List.Forall₂ CustomerRecord (order.sort (d.customersOf tenantId)) records

def customerTexts (zone : ℤ) (c : Customer) : List (List Char) :=
  (customerColumns zone c).map String.toList

theorem toList_exportCsv : (exportCsv order zone tenantId d).toList =
    ['\n'].intercalate ((customerHeader.map String.toList ::
      (order.sort (d.customersOf tenantId)).map (customerTexts zone)).map Csv.line) := by
  have hline (columns : List String) :
      (",".intercalate columns).toList = Csv.line (columns.map String.toList) := by
    rw [String.toList_intercalate]
    rfl
  rw [exportCsv, String.toList_intercalate, List.map_cons, List.map_cons, hline, List.map_map,
    List.map_map]
  simp only [Function.comp_def, hline]
  rfl

theorem plain_localPromise (zone : ℤ) (c : Customer) : Csv.Plain ((c.next_payment_promise.map
    fun day ↦ toLocaleDateString (midnight day + zone)).getD "").toList := by
  cases c.next_payment_promise with
  | none => exact plain_nil
  | some day => exact plain_toLocaleDateString _

theorem plain_overdue (c : Customer) : Csv.Plain (if c.is_overdue then "Sí" else "No").toList := by
  split <;> decide

/-- The columns behind the address. -/
theorem plain_customerTexts (zone : ℤ) (c : Customer) :
    ∀ e ∈ (customerTexts zone c).drop 5, Csv.Plain e :=
  List.forall_mem_cons.2 ⟨plain_toFixed2 _, List.forall_mem_cons.2 ⟨plain_toFixed2 _,
    List.forall_mem_cons.2 ⟨plain_state c, List.forall_mem_cons.2 ⟨plain_overdue c,
      List.forall_mem_cons.2 ⟨plain_localPromise zone c, List.forall_mem_singleton.2
        (plain_toLocaleDateString _)⟩⟩⟩⟩⟩

theorem customerTexts_eq (zone : ℤ) (c : Customer) : customerTexts zone c =
    Csv.quote c.full_name.toList :: (c.phone.getD "").toList :: (c.dni.getD "").toList ::
      (c.email.getD "").toList :: Csv.quote (c.address.getD "").toList ::
        (customerTexts zone c).drop 5 := by
  simp only [customerTexts, customerColumns, List.map_cons, toList_quoted]
  rfl

theorem written_customerTexts {r : Csv.Row} (h : CustomerRecord c r) :
    List.Forall₂ Csv.Written (customerTexts zone c) r := by
  obtain ⟨debt, limit, state, overdue, promise, created, rfl, -, -⟩ := h
  rw [customerTexts_eq]
  exact .cons (.enclosed _) (.cons (.bare _) (.cons (.bare _) (.cons (.bare _)
    (.cons (.enclosed _) (Csv.forall₂_written (plain_customerTexts zone c) rfl)))))

/-- The texts of a customer encode its record. -/
theorem exists_customerRecord (hbalance : Int4 c.balance_cents)
    (hlimit : Int4 c.credit_limit_cents) :
    (∃ r, List.Forall₂ Csv.Encodes (customerTexts zone c) r ∧ CustomerRecord c r) ↔
      (∀ value ∈ [c.full_name, c.address.getD ""], '"' ∉ value.toList) ∧
        ∀ value ∈ [c.phone.getD "", c.dni.getD "", c.email.getD ""], Csv.Plain value.toList := by
  simp only [List.forall_mem_cons, List.not_mem_nil, IsEmpty.forall_iff, implies_true, and_true,
    ← Csv.encodes_enclosed, ← Csv.encodes_bare]
  have htail (fs : Csv.Row) : List.Forall₂ Csv.Encodes ((customerTexts zone c).drop 5) fs ↔
      (customerTexts zone c).drop 5 = fs :=
    Csv.forall₂_encodes_iff (plain_customerTexts zone c)
  rw [customerTexts_eq]
  constructor
  · rintro ⟨r, hencodes, debt, limit, state, overdue, promise, created, rfl, -, -⟩
    simp only [List.forall₂_cons] at hencodes
    obtain ⟨hname, hphone, hdni, hemail, haddress, -⟩ := hencodes
    exact ⟨⟨hname, haddress⟩, hphone, hdni, hemail⟩
  · rintro ⟨⟨hname, haddress⟩, hphone, hdni, hemail⟩
    exact ⟨_, .cons hname (.cons hphone (.cons hdni (.cons hemail (.cons haddress
      ((htail _).2 rfl))))), _, _, _, _, _, _, rfl, readCents_toFixed2 hbalance,
        readCents_toFixed2 hlimit⟩

/-- The file of customers is read back exactly when no name or address has a quote and no other text
has a comma, a quote or a line break. -/
theorem customersReadBack_iff
    (hcents : ∀ c ∈ d.customersOf tenantId, Int4 c.balance_cents ∧ Int4 c.credit_limit_cents) :
    CustomersReadBack order zone tenantId d ↔
      ∀ c ∈ d.customersOf tenantId,
        (∀ value ∈ [c.full_name, c.address.getD ""], '"' ∉ value.toList) ∧
          ∀ value ∈ [c.phone.getD "", c.dni.getD "", c.email.getD ""], Csv.Plain value.toList := by
  have hheader : ∀ e ∈ customerHeader.map String.toList, Csv.Plain e := by decide +kernel
  have hlength : ∀ es ∈ customerHeader.map String.toList ::
      (order.sort (d.customersOf tenantId)).map (customerTexts zone), 2 ≤ es.length := by
    refine List.forall_mem_cons.2 ⟨by decide, List.forall_mem_map.2 fun c _ ↦ ?_⟩
    exact Nat.le_add_left 2 9
  have htable := Csv.exists_read_iff hheader (fun c _ ↦ written_customerTexts (c := c))
    fun _ hrows ↦ Csv.read_joined_iff hrows hlength
  rw [CustomersReadBack, toList_exportCsv, htable]
  simp only [(order.perm _).mem_iff]
  refine forall_congr' fun c ↦ forall_congr' fun hc ↦ ?_
  exact exists_customerRecord (hcents c hc).1 (hcents c hc).2

end Customers

/-- The table as it is answers in one possible order. -/
def tableOrder : NameOrder where
  sort := id
  perm _ := .refl _

theorem customers_of_owing_read_back : CustomersReadBack tableOrder 0 1 owing := by
  refine (customersReadBack_iff (by decide +kernel)).2 ?_
  decide +kernel

def anaLaFlaca : CreateCustomerDto :=
  { ana with full_name := "Ana \"la Flaca\"", full_name_valid := by decide }

def openingAnaLaFlaca : Fin 1 → Request := fun _ ↦ .createCustomer 1 anaLaFlaca

def withAnaLaFlaca : Db :=
  (postgres.run (serve openingAnaLaFlaca (fun i ↦ sampleEnv i) (Db.opened sampleTenants))
    (inTurn [(0, 10)])).db

theorem reachable_withAnaLaFlaca : Reachable withAnaLaFlaca :=
  ⟨Fin 1, inferInstance, openingAnaLaFlaca, fun i ↦ sampleEnv i, sampleTenants, _,
    freshIds_sample Fin.val_injective (by decide) (by decide), rfl⟩

/-- The nickname closes the quotes of the name, and the reader gives up. -/
theorem nickname_breaks_file : Reachable withAnaLaFlaca ∧
    ¬CustomersReadBack tableOrder 0 1 withAnaLaFlaca := by
  refine ⟨reachable_withAnaLaFlaca, fun h ↦ ?_⟩
  obtain ⟨records, hread, -⟩ := h
  have hnone : Csv.read .record (exportCsv tableOrder 0 1 withAnaLaFlaca).toList = none := by
    decide +kernel
  rw [hread] at hnone
  cases hnone

end MicroErp.Guarantees
