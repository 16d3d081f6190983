import Mathlib.Data.List.Basic
import Mathlib.Data.List.Forall2
import Mathlib.Tactic.Linarith

/-!
# Comma-separated values

A reader with the quoting of RFC 4180, for which a record also ends at a single LF or CR.  Programs
that write such a file put a field between quotes or not, and double its quotes or not; a row of such
texts is read back exactly when each of them is an encoding of its field.
-/

namespace MicroErp.Storage.Csv

abbrev Field := List Char
abbrev Row := List Field

/-! ## The reader -/

/-- Where the reader stands. -/
inductive Place where
  | record
  | afterCr
  | field
  | plain
  | quoted
  | closed
  deriving DecidableEq

/-- Adds a character to the first field of the first row. -/
def pushChar (c : Char) : List Row → List Row
  | (f :: fs) :: rows => ((c :: f) :: fs) :: rows
  | rows => rows

def pushField : List Row → List Row
  | row :: rows => ([] :: row) :: rows
  | [] => []

def pushRow (rows : List Row) : List Row := [[]] :: rows

/-- A comma ends a field and a line break ends a record. -/
def separate (c : Char) : Option ((List Row → List Row) × Place) :=
  if c = ',' then some (pushField, .field)
  else if c = '\n' then some (pushRow, .record)
  else if c = '\r' then some (pushRow, .afterCr)
  else none

/-- What a character does to the rows, and where it takes the reader. -/
def step : Place → Char → Option ((List Row → List Row) × Place)
  | .quoted, c => some (if c = '"' then (id, .closed) else (pushChar c, .quoted))
  | .closed, c => if c = '"' then some (pushChar c, .quoted) else separate c
  | .plain, c => if c = '"' then none else (separate c).or (some (pushChar c, .plain))
  | .afterCr, c => if c = '\n' then some (id, .record)
      else if c = '"' then some (id, .quoted) else (separate c).or (some (pushChar c, .plain))
  | _, c => if c = '"' then some (id, .quoted) else (separate c).or (some (pushChar c, .plain))

def atEnd : Place → Option (List Row)
  | .quoted => none
  | .record | .afterCr => some []
  | _ => some [[[]]]

/-- The rows from a place on; the first one is what is left of a row that has begun. -/
def read : Place → List Char → Option (List Row)
  | place, [] => atEnd place
  | place, c :: text =>
    match step place c with
    | none => none
    | some (push, place') => (read place' text).map push

/-! ## The texts of a field -/

def special : List Char := [',', '"', '\n', '\r']

def Plain (f : Field) : Prop := ∀ c ∈ f, c ∉ special

-- by the characters of the field, not by all characters
instance (f : Field) : Decidable (Plain f) := List.decidableBAll (fun c ↦ c ∉ special) f

def escape (f : Field) : List Char := f.flatMap fun c ↦ if c = '"' then ['"', '"'] else [c]

def quote (text : List Char) : List Char := '"' :: (text ++ ['"'])

/-- The texts that stand for a field. -/
def Encodes (e : List Char) (f : Field) : Prop := Plain f ∧ e = f ∨ e = quote (escape f)

/-- The texts that programs write for a field. -/
inductive Written : List Char → Field → Prop where
  | bare (f : Field) : Written f f
  | enclosed (f : Field) : Written (quote f) f
  | escaped (f : Field) : Written (quote (escape f)) f
  /-- Whatever the field is meant to be, such a text can only be read as itself. -/
  | plain {e : List Char} {f : Field} (h : Plain e) : Written e f

/-- What may stand after a field. -/
def Ends (rest : List Char) : Prop := ∀ c ∈ rest.head?, c ∈ special ∧ c ≠ '"'

/-- After a field, `rest` holds the other fields of its row and then these rows. -/
def Continues (rest : List Char) (fs : List Field) (rows : List Row) : Prop :=
  read .plain rest = some (([] :: fs) :: rows)

section Field

variable {c : Char} {e f rest text : List Char} {fs : List Field} {rows : List Row} {place : Place}

theorem separate_eq_none (hc : c ∉ special) : separate c = none := by
  simp only [special, List.mem_cons, List.not_mem_nil, not_or] at hc
  obtain ⟨hcomma, -, hlf, hcr, -⟩ := hc
  rw [separate, if_neg hcomma, if_neg hlf, if_neg hcr]

theorem ne_quote (hc : c ∉ special) : c ≠ '"' := by
  rintro rfl
  exact hc (by decide)

theorem read_cons_plain (hc : c ∉ special) (text : List Char) :
    read .plain (c :: text) = (read .plain text).map (pushChar c) := by
  simp [read, step, separate_eq_none hc, ne_quote hc]

theorem map_pushChar_eq {o : Option (List Row)} : o.map (pushChar c) = some ((f :: fs) :: rows) ↔
    ∃ f', f = c :: f' ∧ o = some ((f' :: fs) :: rows) := by
  rw [Option.map_eq_some_iff]
  constructor
  · rintro ⟨rows', rfl, hpush⟩
    match rows', hpush with
    | (f' :: _) :: _, rfl => exact ⟨f', rfl, rfl⟩
  · rintro ⟨f', rfl, rfl⟩
    exact ⟨_, rfl, rfl⟩

theorem map_pushField_eq {o : Option (List Row)} :
    o.map pushField = some ((f :: fs) :: rows) ↔ f = [] ∧ o = some (fs :: rows) := by
  rw [Option.map_eq_some_iff]
  constructor
  · rintro ⟨rows', rfl, hpush⟩
    match rows', hpush with
    | _ :: _, rfl => exact ⟨rfl, rfl⟩
  · rintro ⟨rfl, rfl⟩
    exact ⟨_, rfl, rfl⟩

theorem map_pushRow_eq {o : Option (List Row)} :
    o.map pushRow = some ((f :: fs) :: rows) ↔ f = [] ∧ fs = [] ∧ o = some rows := by
  cases o <;> simp [pushRow, eq_comm, and_assoc]

/-! ### What follows a field -/

theorem continues_comma : Continues (',' :: text) fs rows ↔ read .field text = some (fs :: rows) := by
  have hstep : read .plain (',' :: text) = (read .field text).map pushField := rfl
  rw [Continues, hstep, map_pushField_eq]
  exact and_iff_right rfl

theorem continues_lf : Continues ('\n' :: text) fs rows ↔ fs = [] ∧ read .record text = some rows := by
  have hstep : read .plain ('\n' :: text) = (read .record text).map pushRow := rfl
  rw [Continues, hstep, map_pushRow_eq]
  exact and_iff_right rfl

theorem continues_cr : Continues ('\r' :: text) fs rows ↔ fs = [] ∧ read .afterCr text = some rows := by
  have hstep : read .plain ('\r' :: text) = (read .afterCr text).map pushRow := rfl
  rw [Continues, hstep, map_pushRow_eq]
  exact and_iff_right rfl

theorem continues_nil : Continues [] fs rows ↔ fs = [] ∧ rows = [] := by
  have hend : read .plain [] = some [[[]]] := rfl
  rw [Continues, hend]
  simp [eq_comm]

theorem mem_special : c ∈ special ↔ c = ',' ∨ c = '"' ∨ c = '\n' ∨ c = '\r' := by
  simp [special]

/-- In a field without quotes, a special character can only end it. -/
theorem eq_nil_of_special (hc : c ∈ special)
    (h : read .plain (c :: text) = some ((f :: fs) :: rows)) : c ≠ '"' ∧ f = [] := by
  rcases mem_special.1 hc with rfl | rfl | rfl | rfl
  · exact ⟨by decide, (map_pushField_eq.1 h).1⟩
  · exact nomatch h
  · exact ⟨by decide, (map_pushRow_eq.1 h).1⟩
  · exact ⟨by decide, (map_pushRow_eq.1 h).1⟩

theorem Continues.ends (h : Continues rest fs rows) : Ends rest := by
  intro c hc
  obtain ⟨text, rfl⟩ := List.head?_eq_some_iff.1 hc
  by_cases hmem : c ∈ special
  · exact ⟨hmem, (eq_nil_of_special hmem h).1⟩
  · rw [Continues, read_cons_plain hmem, map_pushChar_eq] at h
    obtain ⟨f', hf', -⟩ := h
    exact nomatch hf'

/-! ### Fields without quotes -/

theorem read_plain_cons_iff : read .plain text = some (((c :: f) :: fs) :: rows) ↔
    c ∉ special ∧ ∃ rest, text = c :: rest ∧ read .plain rest = some ((f :: fs) :: rows) := by
  cases text with
  | nil =>
    have hend : read .plain [] = some [[[]]] := rfl
    simp [hend]
  | cons d text =>
    by_cases hd : d ∈ special
    · constructor
      · intro h
        exact absurd (eq_nil_of_special hd h).2 (List.cons_ne_nil c f)
      · rintro ⟨hc, rest, heq, -⟩
        exact absurd ((List.cons.inj heq).1 ▸ hd) hc
    · rw [read_cons_plain hd, map_pushChar_eq]
      constructor
      · rintro ⟨f', heq, hrest⟩
        obtain ⟨rfl, rfl⟩ := List.cons.inj heq
        exact ⟨hd, text, rfl, hrest⟩
      · rintro ⟨-, rest, heq, hrest⟩
        obtain ⟨rfl, rfl⟩ := List.cons.inj heq
        exact ⟨f, rfl, hrest⟩

theorem plain_cons : Plain (c :: f) ↔ c ∉ special ∧ Plain f := List.forall_mem_cons

theorem read_plain_iff : read .plain text = some ((f :: fs) :: rows) ↔
    Plain f ∧ ∃ rest, text = f ++ rest ∧ Continues rest fs rows := by
  induction f generalizing text with
  | nil => simp [Plain, Continues]
  | cons c f ih =>
    simp only [read_plain_cons_iff, ih, plain_cons]
    constructor
    · rintro ⟨hc, _, rfl, hf, rest, rfl, hrest⟩
      exact ⟨⟨hc, hf⟩, rest, rfl, hrest⟩
    · rintro ⟨⟨hc, hf⟩, rest, rfl, hrest⟩
      exact ⟨hc, f ++ rest, rfl, hf, rest, rfl, hrest⟩

/-! ### Fields between quotes -/

/-- After a quote inside quotes, a character other than a quote follows the field. -/
theorem read_closed_iff (hc : c ≠ '"') : read .closed (c :: text) = some ((f :: fs) :: rows) ↔
    f = [] ∧ Continues (c :: text) fs rows := by
  by_cases hmem : c ∈ special
  · rcases mem_special.1 hmem with rfl | rfl | rfl | rfl
    · rw [continues_comma]
      exact map_pushField_eq
    · exact absurd rfl hc
    · rw [continues_lf]
      exact map_pushRow_eq
    · rw [continues_cr]
      exact map_pushRow_eq
  · have hnone : read .closed (c :: text) = none := by
      simp [read, step, hc, separate_eq_none hmem]
    rw [hnone]
    constructor
    · intro h
      exact nomatch h
    · rintro ⟨-, h⟩
      exact absurd (h.ends c rfl).1 hmem

theorem read_closed_nil : read .closed [] = some ((f :: fs) :: rows) ↔
    f = [] ∧ Continues [] fs rows := by
  have hend : read .closed [] = some [[[]]] := rfl
  rw [hend, continues_nil]
  simp [eq_comm, and_assoc]

theorem read_closed_quote : read .closed ('"' :: text) = some ((f :: fs) :: rows) ↔
    ∃ f', f = '"' :: f' ∧ read .quoted text = some ((f' :: fs) :: rows) :=
  map_pushChar_eq

theorem read_quoted_cons (hc : c ≠ '"') : read .quoted (c :: text) = some ((f :: fs) :: rows) ↔
    ∃ f', f = c :: f' ∧ read .quoted text = some ((f' :: fs) :: rows) := by
  have hstep : read .quoted (c :: text) = (read .quoted text).map (pushChar c) := by
    simp [read, step, hc]
  rw [hstep, map_pushChar_eq]

theorem read_quoted_quote : read .quoted ('"' :: text) = read .closed text := by
  simp [read, step]

theorem escape_cons_quote : escape ('"' :: f) = '"' :: '"' :: escape f := rfl

theorem escape_cons (hc : c ≠ '"') : escape (c :: f) = c :: escape f := by
  simp [escape, hc]

theorem not_continues_quote : ¬Continues ('"' :: text) fs rows := fun h ↦ (h.ends '"' rfl).2 rfl

/-- A quote inside quotes closes the field, or is the first of two that stand for one. -/
theorem read_quoted_quote_iff : read .quoted ('"' :: text) = some ((f :: fs) :: rows) ↔
    (f = [] ∧ Continues text fs rows) ∨
      ∃ f' rest, f = '"' :: f' ∧ text = '"' :: rest ∧
        read .quoted rest = some ((f' :: fs) :: rows) := by
  rw [read_quoted_quote]
  cases text with
  | nil =>
    rw [read_closed_nil]
    simp
  | cons c text =>
    by_cases hc : c = '"'
    · subst hc
      rw [read_closed_quote]
      simp [not_continues_quote]
    · rw [read_closed_iff hc]
      simp [hc]

theorem read_quoted_nil_iff : read .quoted text = some (([] :: fs) :: rows) ↔
    ∃ rest, text = '"' :: rest ∧ Continues rest fs rows := by
  cases text with
  | nil => simp [read, atEnd]
  | cons d text =>
    by_cases hd : d = '"'
    · subst hd
      simp [read_quoted_quote_iff]
    · simp [read_quoted_cons hd, hd]

theorem read_quoted_cons_iff : read .quoted text = some (((c :: f) :: fs) :: rows) ↔
    ∃ rest, text = escape [c] ++ rest ∧ read .quoted rest = some ((f :: fs) :: rows) := by
  by_cases hc : c = '"'
  · subst hc
    cases text with
    | nil => simp [read, atEnd, escape]
    | cons d text =>
      by_cases hd : d = '"'
      · subst hd
        simp [read_quoted_quote_iff, escape]
      · simp [read_quoted_cons hd, Ne.symm hd, hd, escape]
  · cases text with
    | nil => simp [read, atEnd, escape, hc]
    | cons d text =>
      by_cases hd : d = '"'
      · subst hd
        simp [read_quoted_quote_iff, hc, Ne.symm hc, escape]
      · simp [read_quoted_cons hd, escape, hc, eq_comm]

theorem escape_append (f f' : Field) : escape (f ++ f') = escape f ++ escape f' :=
  List.flatMap_append

theorem read_quoted_iff : read .quoted text = some ((f :: fs) :: rows) ↔
    ∃ rest, text = escape f ++ '"' :: rest ∧ Continues rest fs rows := by
  induction f generalizing text with
  | nil => exact read_quoted_nil_iff
  | cons c f ih =>
    have hescape : escape (c :: f) = escape [c] ++ escape f := escape_append [c] f
    simp only [read_quoted_cons_iff, ih, hescape, List.append_assoc]
    constructor
    · rintro ⟨_, rfl, rest, rfl, hrest⟩
      exact ⟨rest, rfl, hrest⟩
    · rintro ⟨rest, rfl, hrest⟩
      exact ⟨_, rfl, rest, rfl, hrest⟩

/-! ### Fields -/

theorem read_field_eq (h : text.head? ≠ some '"') : read .field text = read .plain text := by
  cases text with
  | nil => rfl
  | cons c text =>
    have hc : c ≠ '"' := fun heq ↦ h (congrArg some heq)
    simp [read, step, hc]

/-- What the reader takes for the first field is what some beginning of the text encodes. -/
theorem read_field_iff : read .field text = some ((f :: fs) :: rows) ↔
    ∃ e rest, Encodes e f ∧ text = e ++ rest ∧ Continues rest fs rows := by
  by_cases hhead : text.head? = some '"'
  · obtain ⟨text, rfl⟩ := List.head?_eq_some_iff.1 hhead
    have hstep : read .field ('"' :: text) = read .quoted text := by simp [read, step]
    rw [hstep, read_quoted_iff]
    constructor
    · rintro ⟨rest, rfl, hrest⟩
      exact ⟨quote (escape f), rest, Or.inr rfl, by simp [quote], hrest⟩
    · rintro ⟨e, rest, ⟨hf, rfl⟩ | rfl, htext, hrest⟩
      · cases e with
        | nil =>
          rw [List.nil_append] at htext
          exact absurd (htext ▸ hrest) not_continues_quote
        | cons c e =>
          rw [← (List.cons.inj htext).1] at hf
          exact absurd (by decide) (plain_cons.1 hf).1
      · refine ⟨rest, ?_, hrest⟩
        simpa [quote] using htext
  · rw [read_field_eq hhead, read_plain_iff]
    constructor
    · rintro ⟨hf, rest, rfl, hrest⟩
      exact ⟨f, rest, Or.inl ⟨hf, rfl⟩, rfl, hrest⟩
    · rintro ⟨e, rest, ⟨hf, rfl⟩ | rfl, rfl, hrest⟩
      · exact ⟨hf, rest, rfl, hrest⟩
      · exact absurd rfl hhead

/-! ### Written fields -/

/-- Text that is read as `f` after more quotes than were written runs on behind `f`. -/
theorem quotes_of_shifted (n : ℕ)
    (h : List.replicate (n + 1) '"' ++ (escape f ++ '"' :: rest) = f ++ text) :
    ∃ text', text = '"' :: '"' :: text' := by
  induction f generalizing n with
  | nil =>
    cases n with
    | zero => exact ⟨rest, h.symm⟩
    | succ n => exact ⟨List.replicate n '"' ++ '"' :: rest, h.symm⟩
  | cons c f ih =>
    rw [List.replicate_succ, List.cons_append, List.cons_append] at h
    obtain ⟨rfl, htail⟩ := List.cons.inj h
    refine ih (n + 1) ?_
    calc List.replicate (n + 2) '"' ++ (escape f ++ '"' :: rest)
        = List.replicate n '"' ++ (escape ('"' :: f) ++ '"' :: rest) := by
          rw [List.replicate_add, List.append_assoc]
          rfl
      _ = f ++ text := htail

/-- A field with its quotes single is read back only if it has none. -/
theorem escape_eq_self (h : escape f ++ '"' :: rest = f ++ text)
    (htext : ∀ text', text ≠ '"' :: '"' :: text') : escape f = f := by
  induction f with
  | nil => rfl
  | cons c f ih =>
    by_cases hc : c = '"'
    · subst hc
      rw [escape_cons_quote] at h
      obtain ⟨text', heq⟩ := quotes_of_shifted 0 (List.cons.inj h).2
      exact absurd heq (htext text')
    · rw [escape_cons hc] at h ⊢
      rw [ih (List.cons.inj h).2]

/-- A text without special characters is all of its field. -/
theorem eq_of_plain {z : List Char} (he : Plain e) (hf : Plain f) (hz : Ends z) (hrest : Ends rest)
    (h : e ++ z = f ++ rest) : e = f := by
  induction e generalizing f with
  | nil =>
    cases f with
    | nil => rfl
    | cons c f => 
      exact absurd (hz c (by rw [← List.nil_append z, h]; rfl)).1 (plain_cons.1 hf).1
  | cons c e ih =>
    cases f with
    | nil =>
      exact absurd (hrest c (by rw [← List.nil_append rest, ← h]; rfl)).1 (plain_cons.1 he).1
    | cons d f =>
      obtain ⟨rfl, htail⟩ := List.cons.inj h
      rw [ih (plain_cons.1 he).2 (plain_cons.1 hf).2 htail]

theorem plain_append_ne (hf : Plain f) (hrest : Ends rest) : f ++ rest ≠ '"' :: text := by
  intro h
  cases f with
  | nil => exact (hrest '"' (by rw [← List.nil_append rest, h]; rfl)).2 rfl
  | cons c f => exact (plain_cons.1 hf).1 ((List.cons.inj h).1 ▸ by decide)

theorem quote_append (e text : List Char) : quote e ++ text = '"' :: (e ++ '"' :: text) := by
  simp [quote]

/-- Where a written field is read back, its text is an encoding. -/
theorem Written.eq_of_append {e' z : List Char} (h : Written e f) (he' : Encodes e' f)
    (hz : Ends z) (hrest : Ends rest) (heq : e ++ z = e' ++ rest) : e = e' := by
  have hquote (text' : List Char) : z ≠ '"' :: text' := by
    rintro rfl
    exact (hz '"' rfl).2 rfl
  rcases he' with ⟨hf, rfl⟩ | rfl
  · cases h with
    | bare => rfl
    | enclosed => exact absurd (heq.symm.trans (quote_append _ z)) (plain_append_ne hf hrest)
    | escaped => exact absurd (heq.symm.trans (quote_append _ z)) (plain_append_ne hf hrest)
    | plain he => exact eq_of_plain he hf hz hrest heq
  · rw [quote_append] at heq
    cases h with
    | bare =>
      obtain ⟨text', htext⟩ := quotes_of_shifted 0 heq.symm
      exact absurd htext (hquote _)
    | enclosed =>
      rw [quote_append] at heq
      rw [escape_eq_self (List.cons.inj heq).2.symm]
      intro text' htext
      exact hquote text' (List.cons.inj htext).2
    | escaped => rfl
    | plain he => exact absurd heq (plain_append_ne he hz)

/-- A field is read back exactly when its text is an encoding of it. -/
theorem Written.read_field_iff {z : List Char} (h : Written e f) (hz : Ends z) :
    read .field (e ++ z) = some ((f :: fs) :: rows) ↔ Encodes e f ∧ Continues z fs rows := by
  rw [Csv.read_field_iff]
  constructor
  · rintro ⟨e', rest, he', heq, hrest⟩
    obtain rfl := h.eq_of_append he' hz hrest.ends heq
    obtain rfl := List.append_cancel_left heq
    exact ⟨he', hrest⟩
  · rintro ⟨he, hz⟩
    exact ⟨e, z, he, rfl, hz⟩

/-! ### Encodings -/

theorem plain_append {f' : Field} : Plain (f ++ f') ↔ Plain f ∧ Plain f' := List.forall_mem_append

theorem length_quote (e : List Char) : (quote e).length = e.length + 2 := by
  simp [quote]

theorem length_le_escape (f : Field) : f.length ≤ (escape f).length := by
  induction f with
  | nil => exact le_rfl
  | cons c f ih =>
    by_cases hc : c = '"'
    · subst hc
      rw [escape_cons_quote]
      simpa using ih.trans (Nat.le_succ _)
    · rw [escape_cons hc]
      simpa using ih

theorem escape_eq_self_iff : escape f = f ↔ '"' ∉ f := by
  induction f with
  | nil => simp [escape]
  | cons c f ih =>
    by_cases hc : c = '"'
    · subst hc
      rw [escape_cons_quote]
      refine iff_of_false (fun heq ↦ ?_) fun hmem ↦ hmem List.mem_cons_self
      have hlength := congrArg List.length (List.cons.inj heq).2
      have hle := length_le_escape f
      rw [List.length_cons] at hlength
      omega
    · rw [escape_cons hc]
      simp [ih, Ne.symm hc]

theorem encodes_bare : Encodes f f ↔ Plain f := by
  refine ⟨fun h ↦ h.elim And.left fun heq ↦ ?_, fun hf ↦ Or.inl ⟨hf, rfl⟩⟩
  have hlength := congrArg List.length heq
  have hle := length_le_escape f
  rw [length_quote] at hlength
  omega

theorem encodes_enclosed : Encodes (quote f) f ↔ '"' ∉ f := by
  rw [← escape_eq_self_iff]
  constructor
  · rintro (⟨-, heq⟩ | heq)
    · have hlength := congrArg List.length heq
      rw [length_quote] at hlength
      omega
    · exact (List.append_cancel_right (List.cons.inj heq).2).symm
  · intro heq
    exact Or.inr (congrArg quote heq.symm)

theorem encodes_escaped : Encodes (quote (escape f)) f := Or.inr rfl

/-- A text without special characters stands for itself. -/
theorem encodes_plain (he : Plain e) : Encodes e f ↔ e = f := by
  constructor
  · rintro (⟨-, heq⟩ | rfl)
    · exact heq
    · exact absurd (by decide) (plain_cons.1 he).1
  · rintro rfl
    exact encodes_bare.2 he

end Field

/-! ## Rows and files -/

/-- The texts of a row between commas. -/
def line (es : List (List Char)) : List Char := [','].intercalate es

section Rows

variable {e text z : List Char} {es : List (List Char)} {f : Field} {fs : Row} {rows : List Row}
  {table : List (List (List Char))}

theorem line_cons {e' : List Char} : line (e :: e' :: es) = e ++ ',' :: line (e' :: es) := by
  simp [line, List.intercalate_cons_cons]

theorem line_singleton : line [e] = e := by
  simp [line]

theorem ends_comma : Ends (',' :: text) := by
  rintro c ⟨⟩
  exact ⟨by decide, by decide⟩

theorem ends_lf : Ends ('\n' :: text) := by
  rintro c ⟨⟩
  exact ⟨by decide, by decide⟩

theorem ends_nil : Ends [] := by
  rintro c ⟨⟩

theorem line_ne_nil (hes : 2 ≤ es.length) : line es ≠ [] := by
  match es, hes with
  | e :: e' :: es, _ =>
    rw [line_cons]
    exact List.append_ne_nil_of_right_ne_nil e (List.cons_ne_nil _ _)

/-- A written row is read back exactly when its texts are encodings. -/
theorem read_line_iff (h : List.Forall₂ Written es fs) (hes : es ≠ []) (hz : Ends z) :
    read .field (line es ++ z) = some (fs :: rows) ↔
      List.Forall₂ Encodes es fs ∧ Continues z [] rows := by
  induction h with
  | nil => exact absurd rfl hes
  | @cons e f es fs he hrest ih =>
    cases hrest with
    | nil =>
      rw [line_singleton, he.read_field_iff hz]
      simp
    | @cons e' f' es fs he' hrest =>
      rw [line_cons, List.append_assoc, List.cons_append, he.read_field_iff ends_comma,
        continues_comma, ih (List.cons_ne_nil e' es)]
      simp only [List.forall₂_cons, and_assoc]

/-- Plain texts can be meant for any fields. -/
theorem forall₂_written (h : ∀ e ∈ es, Plain e) (hlength : es.length = fs.length) :
    List.Forall₂ Written es fs := by
  induction es generalizing fs with
  | nil =>
    rw [List.length_eq_zero_iff.1 hlength.symm]
    exact .nil
  | cons e es ih =>
    obtain ⟨f, fs, rfl⟩ := List.exists_cons_of_length_eq_add_one hlength.symm
    obtain ⟨he, hes⟩ := List.forall_mem_cons.1 h
    exact .cons (.plain he) (ih hes (Nat.succ.inj hlength))

/-- They are read as themselves. -/
theorem forall₂_encodes_iff (h : ∀ e ∈ es, Plain e) : List.Forall₂ Encodes es fs ↔ es = fs := by
  induction es generalizing fs with
  | nil => rw [List.forall₂_nil_left_iff, eq_comm]
  | cons e es ih =>
    obtain ⟨he, hes⟩ := List.forall_mem_cons.1 h
    cases fs with
    | nil => simp
    | cons f fs => rw [List.forall₂_cons, encodes_plain he, ih hes, List.cons.injEq]

theorem read_record_eq (h : text ≠ []) : read .record text = read .field text := by
  cases text with
  | nil => exact absurd rfl h
  | cons c text => rfl

/-- Rows that each end with a line break. -/
theorem read_lines_iff (h : List.Forall₂ (List.Forall₂ Written) table rows)
    (hne : ∀ es ∈ table, es ≠ []) :
    read .record (table.flatMap fun es ↦ line es ++ ['\n']) = some rows ↔
      List.Forall₂ (List.Forall₂ Encodes) table rows := by
  induction h with
  | nil => simp [read, atEnd]
  | @cons es fs table rows hes htable ih =>
    obtain ⟨hes', htable'⟩ := List.forall_mem_cons.1 hne
    have htext : (es :: table).flatMap (fun es ↦ line es ++ ['\n']) =
        line es ++ '\n' :: table.flatMap fun es ↦ line es ++ ['\n'] := by
      rw [List.flatMap_cons, List.append_assoc]
      rfl
    rw [htext, read_record_eq (by simp), read_line_iff hes hes' ends_lf, continues_lf, ih htable',
      List.forall₂_cons]
    simp

/-- Rows with a line break between each and the next. -/
theorem read_joined_iff (h : List.Forall₂ (List.Forall₂ Written) table rows)
    (hne : ∀ es ∈ table, 2 ≤ es.length) :
    read .record (['\n'].intercalate (table.map line)) = some rows ↔
      List.Forall₂ (List.Forall₂ Encodes) table rows := by
  induction h with
  | nil => simp [read, atEnd]
  | @cons es fs table rows hes htable ih =>
    obtain ⟨hlength, htable'⟩ := List.forall_mem_cons.1 hne
    have hes' : es ≠ [] := List.ne_nil_of_length_pos (by omega)
    cases htable with
    | nil =>
      have htext : ['\n'].intercalate ([es].map line) = line es ++ [] := by simp
      rw [htext, read_record_eq (by simpa using line_ne_nil hlength),
        read_line_iff hes hes' ends_nil, continues_nil, List.forall₂_cons]
      simp
    | @cons es' fs' table rows hes'' htable =>
      have htext : ['\n'].intercalate ((es :: es' :: table).map line) =
          line es ++ '\n' :: ['\n'].intercalate ((es' :: table).map line) := by
        simp [List.intercalate_cons_cons]
      rw [htext, read_record_eq (by simp), read_line_iff hes hes' ends_lf, continues_lf,
        ih htable', List.forall₂_cons]
      simp

/-- Rows are made of the encodings of each item on its own. -/
theorem exists_rows_iff {α : Type} {columns : α → List (List Char)} {shows : α → Row → Prop}
    {xs : List α} :
    (∃ rows, List.Forall₂ (List.Forall₂ Encodes) (xs.map columns) rows ∧
        List.Forall₂ shows xs rows) ↔
      ∀ x ∈ xs, ∃ fs, List.Forall₂ Encodes (columns x) fs ∧ shows x fs := by
  induction xs with
  | nil => simp
  | cons x xs ih =>
    rw [List.forall_mem_cons, ← ih]
    constructor
    · rintro ⟨_, hrows, hshows⟩
      obtain ⟨fs, rows, hfs, htable, rfl⟩ := List.forall₂_cons_left_iff.1 hrows
      obtain ⟨hshow, hshows⟩ := List.forall₂_cons.1 hshows
      exact ⟨⟨fs, hfs, hshow⟩, rows, htable, hshows⟩
    · rintro ⟨⟨fs, hfs, hshow⟩, rows, htable, hshows⟩
      exact ⟨fs :: rows, .cons hfs htable, .cons hshow hshows⟩

/-- A file with a header in front, laid out so that its rows are read back when they are encodings,
shows what it was written for exactly when each item has a record that its texts encode. -/
theorem exists_read_iff {α : Type} {columns : α → List (List Char)} {shows : α → Row → Prop}
    {xs : List α} {header : Row} (hheader : ∀ e ∈ header, Plain e)
    (hwritten : ∀ x fs, shows x fs → List.Forall₂ Written (columns x) fs)
    (htext : ∀ rows, List.Forall₂ (List.Forall₂ Written) (header :: xs.map columns) rows →
      (read .record text = some rows ↔
        List.Forall₂ (List.Forall₂ Encodes) (header :: xs.map columns) rows)) :
    (∃ rows, read .record text = some (header :: rows) ∧ List.Forall₂ shows xs rows) ↔
      ∀ x ∈ xs, ∃ fs, List.Forall₂ Encodes (columns x) fs ∧ shows x fs := by
  have hencodes : List.Forall₂ Encodes header header :=
    List.forall₂_same.2 fun e he ↦ encodes_bare.2 (hheader e he)
  rw [← exists_rows_iff]
  refine exists_congr fun rows ↦ and_congr_left fun hshows ↦ ?_
  have hrows : List.Forall₂ (List.Forall₂ Written) (xs.map columns) rows :=
    List.forall₂_map_left_iff.2 (hshows.imp hwritten)
  rw [htext _ (.cons (List.forall₂_same.2 fun e _ ↦ .bare e) hrows), List.forall₂_cons]
  exact and_iff_right hencodes

end Rows

end MicroErp.Storage.Csv
