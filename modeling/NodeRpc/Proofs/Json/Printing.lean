import NodeRpc.Proofs.Decimal.Texts

/-!
# Compact text is unambiguous

Different values have different compact texts. More than that, no text of a value that something
follows can be read as another value that something else follows: a quoted text ends at its first
quote that is not escaped, and a number where the first character comes that no number is written
with.
-/

namespace NodeRpc.Json

/-! ### Numbers -/

/-- Whether numbers are written with a character. -/
def isNumeric (c : Char) : Bool := c.isDigit || c = '-' || c = '+' || c = '.' || c = 'e'

/-- No number goes on with these characters. -/
def Stops (cs : List Char) : Prop := ∀ c ∈ cs.head?, isNumeric c = false

/-- Where a number stops can be seen. -/
theorem numeric_append_inj {a b rest rest' : List Char} (ha : ∀ c ∈ a, isNumeric c = true)
    (hb : ∀ c ∈ b, isNumeric c = true) (hr : Stops rest) (hr' : Stops rest')
    (h : a ++ rest = b ++ rest') : a = b ∧ rest = rest' := by
  have hstop : ∀ {c : Char} {cs rest : List Char}, Stops rest → rest = c :: cs →
      isNumeric c = false := by
    rintro c cs rest hs rfl
    exact hs c (by simp)
  induction a generalizing b with
  | nil =>
    cases b with
    | nil => exact ⟨rfl, h⟩
    | cons c b =>
      have hc := hstop hr h
      simp [hb c (by simp)] at hc
  | cons c a ih =>
    cases b with
    | nil =>
      have hc := hstop hr' h.symm
      simp [ha c (by simp)] at hc
    | cons d b =>
      rw [List.cons_append, List.cons_append] at h
      obtain ⟨rfl, htail⟩ := List.cons.inj h
      obtain ⟨rfl, hrest⟩ := ih (fun x hx => ha x (List.mem_cons_of_mem _ hx))
        (fun x hx => hb x (List.mem_cons_of_mem _ hx)) htail
      exact ⟨rfl, hrest⟩

theorem decimalNat_inj {m n : Nat} (h : Decimal.ofNat m = Decimal.ofNat n) : m = n := by
  have hread := congrArg (fun cs => Nat.ofDigitChars 10 cs 0) h
  simpa [Decimal.ofDigitChars_ofNat] using hread

theorem minus_or_digit_of_mem_ofInt {n : Int} {c : Char} (hc : c ∈ Decimal.ofInt n) :
    c = '-' ∨ c.isDigit = true := by
  cases n with
  | ofNat m => exact .inr (Decimal.isDigit_ofNat m c hc)
  | negSucc m =>
    rcases List.mem_cons.1 hc with rfl | hc
    · exact .inl rfl
    · exact .inr (Decimal.isDigit_ofNat (m + 1) c hc)

theorem isNumeric_digit {c : Char} (h : c.isDigit = true) : isNumeric c = true := by
  simp [isNumeric, h]

theorem isNumeric_ofInt (n : Int) : ∀ c ∈ Decimal.ofInt n, isNumeric c = true := by
  intro c hc
  rcases minus_or_digit_of_mem_ofInt hc with rfl | hdigit
  · rfl
  · exact isNumeric_digit hdigit

theorem ofInt_ne_nil (n : Int) : Decimal.ofInt n ≠ [] := by
  cases n with
  | ofNat m => exact Nat.toDigits_ne_nil
  | negSucc m => simp [Decimal.ofInt]

/-- The digits of a natural number do not start with a sign. -/
theorem ofNat_ne_minus (n : Nat) (cs : List Char) : Decimal.ofNat n ≠ '-' :: cs := by
  intro h
  have hdigit := Decimal.isDigit_ofNat n '-' (by simp [h])
  simp [Char.isDigit] at hdigit

theorem decimalInt_inj {m n : Int} (h : Decimal.ofInt m = Decimal.ofInt n) : m = n := by
  cases m with
  | ofNat a =>
    cases n with
    | ofNat b => rw [decimalNat_inj h]
    | negSucc b => exact absurd h (ofNat_ne_minus a _)
  | negSucc a =>
    cases n with
    | ofNat b => exact absurd h.symm (ofNat_ne_minus b _)
    | negSucc b =>
      have hab : a + 1 = b + 1 := decimalNat_inj (List.cons.inj h).2
      rw [Nat.succ.inj hab]

/-! ### Doubles -/

theorem isNumeric_exponentChars (e : Int) : ∀ c ∈ Binary64.exponentChars e, isNumeric c = true := by
  intro c hc
  rcases List.mem_cons.1 hc with rfl | hc
  · rfl
  · rcases List.mem_append.1 hc with hc | hc
    · split at hc
      · rw [List.mem_singleton.1 hc]
        rfl
      · simp at hc
    · exact isNumeric_ofInt e c hc

theorem isNumeric_double (x : Binary64) : ∀ c ∈ x.chars, isNumeric c = true := by
  obtain ⟨whole, point, places, mark, hparts, htext, -⟩ := x.shortest.spells_magnitudeChars
  intro c hc
  rw [Binary64.chars, htext] at hc
  simp only [List.mem_append] at hc
  rcases hc with hsign | (hc | hc) | hc
  · split at hsign
    · rw [List.mem_singleton.1 hsign]
      rfl
    · simp at hsign
  · exact isNumeric_digit (hparts.digits c (List.mem_append_left _ hc))
  · rcases hparts.split with rfl | ⟨rfl, -⟩
    · rcases List.mem_cons.1 hc with rfl | hc
      · rfl
      · exact isNumeric_digit (hparts.digits c (List.mem_append_right _ hc))
    · simp at hc
  · rcases hparts.marked with ⟨rfl, -⟩ | ⟨e, rfl⟩
    · simp at hc
    · exact isNumeric_exponentChars e c hc

/-- The text of a double has a point or a mark. -/
theorem point_or_mark_mem_double (x : Binary64) : '.' ∈ x.chars ∨ 'e' ∈ x.chars := by
  obtain ⟨whole, point, places, mark, hparts, htext, -⟩ := x.shortest.spells_magnitudeChars
  rw [Binary64.chars, htext]
  rcases hparts.marked with ⟨-, hpoint⟩ | ⟨e, rfl⟩
  · rcases hparts.split with rfl | ⟨rfl, -⟩
    · exact .inl (by simp)
    · exact absurd rfl hpoint
  · exact .inr (by simp [Binary64.exponentChars])

theorem double_ne_nil (x : Binary64) : x.chars ≠ [] := by
  rcases point_or_mark_mem_double x with h | h
  · exact List.ne_nil_of_mem h
  · exact List.ne_nil_of_mem h

/-- No double looks like an integer. -/
theorem double_ne_ofInt (x : Binary64) (n : Int) : x.chars ≠ Decimal.ofInt n := by
  intro h
  rcases point_or_mark_mem_double x with hmem | hmem
  · rw [h] at hmem
    exact absurd (minus_or_digit_of_mem_ofInt hmem) (by decide)
  · rw [h] at hmem
    exact absurd (minus_or_digit_of_mem_ofInt hmem) (by decide)

/-! ### Quoted texts -/

/-- The characters that are written as a backslash and a letter. -/
def shortEscapes : List (Char × Char) :=
  [('"', '"'), ('\\', '\\'), ('\x08', 'b'), ('\t', 't'), ('\n', 'n'), ('\x0c', 'f'), ('\r', 'r')]

/-- How a character can be written. -/
inductive Escaped (c : Char) : List Char → Prop where
  | plain (hq : c ≠ '"') (hb : c ≠ '\\') : Escaped c [c]
  | short {d : Char} (h : (c, d) ∈ shortEscapes) : Escaped c ['\\', d]
  | long (h : c.toNat < 32) : Escaped c
      ['\\', 'u', '0', '0', hexDigit (c.toNat / 16), hexDigit (c.toNat % 16)]

theorem escaped_spec (c : Char) : Escaped c (escaped c) := by
  unfold escaped
  split
  · next h => exact .short (by simp [h, shortEscapes])
  split
  · next h => exact .short (by simp [h, shortEscapes])
  split
  · next h => exact .short (by simp [h, shortEscapes])
  split
  · next h => exact .short (by simp [h, shortEscapes])
  split
  · next h => exact .short (by simp [h, shortEscapes])
  split
  · next h => exact .short (by simp [h, shortEscapes])
  split
  · next h => exact .short (by simp [h, shortEscapes])
  split
  · next h => exact .long h
  · next hq hb _ _ _ _ _ _ => exact .plain hq hb

theorem shortEscapes_inj : ∀ p ∈ shortEscapes, ∀ q ∈ shortEscapes, p.2 = q.2 → p.1 = q.1 := by
  decide

theorem shortEscapes_ne_u : ∀ p ∈ shortEscapes, p.2 ≠ 'u' := by decide

theorem hexDigit_inj : ∀ m < 16, ∀ n < 16, hexDigit m = hexDigit n → m = n := by decide

/-- No written character is the beginning of another one. -/
theorem Escaped.append_inj {c d : Char} {a b rest rest' : List Char} (hc : Escaped c a)
    (hd : Escaped d b) (h : a ++ rest = b ++ rest') : c = d ∧ rest = rest' := by
  cases hc with
  | plain _ hne =>
    cases hd with
    | plain _ _ => exact List.cons.inj h
    | short _ => exact absurd (List.cons.inj h).1 hne
    | long _ => exact absurd (List.cons.inj h).1 hne
  | short hs =>
    cases hd with
    | plain _ hne => exact absurd (List.cons.inj h).1.symm hne
    | short hs' =>
      obtain ⟨heq, hrest⟩ := List.cons.inj (List.cons.inj h).2
      exact ⟨shortEscapes_inj _ hs _ hs' heq, hrest⟩
    | long _ => exact absurd (List.cons.inj (List.cons.inj h).2).1 (shortEscapes_ne_u _ hs)
  | long hlt =>
    cases hd with
    | plain _ hne => exact absurd (List.cons.inj h).1.symm hne
    | short hs' => exact absurd (List.cons.inj (List.cons.inj h).2).1.symm (shortEscapes_ne_u _ hs')
    | long hlt' =>
      simp only [List.cons_append, List.nil_append, List.cons.injEq, true_and] at h
      obtain ⟨hhigh, hlow, hrest⟩ := h
      have hdiv := hexDigit_inj _ (by omega) _ (by omega) hhigh
      have hmod := hexDigit_inj _ (by omega) _ (by omega) hlow
      exact ⟨Char.toNat_inj.1 (by omega), hrest⟩

/-- No written character starts like the end of a quoted text. -/
theorem Escaped.ne_quote {c : Char} {a rest rest' : List Char} (h : Escaped c a) :
    a ++ rest ≠ '"' :: rest' := by
  intro heq
  cases h with
  | plain hq _ => exact hq (List.cons.inj heq).1
  | short _ => exact absurd (List.cons.inj heq).1 (by decide)
  | long _ => exact absurd (List.cons.inj heq).1 (by decide)

/-- A quoted text ends where it can be seen to end. -/
theorem quoted_append_inj {s t : String} {rest rest' : List Char}
    (h : quoted s ++ rest = quoted t ++ rest') : s = t ∧ rest = rest' := by
  have hlist : ∀ (cs ds : List Char),
      cs.flatMap escaped ++ '"' :: rest = ds.flatMap escaped ++ '"' :: rest' →
      cs = ds ∧ rest = rest' := by
    intro cs
    induction cs with
    | nil =>
      intro ds h
      cases ds with
      | nil => exact ⟨rfl, (List.cons.inj h).2⟩
      | cons d ds =>
        rw [List.flatMap_cons, List.append_assoc] at h
        exact absurd h.symm (escaped_spec d).ne_quote
    | cons c cs ih =>
      intro ds h
      rw [List.flatMap_cons, List.append_assoc] at h
      cases ds with
      | nil => exact absurd h (escaped_spec c).ne_quote
      | cons d ds =>
        rw [List.flatMap_cons, List.append_assoc] at h
        obtain ⟨rfl, htail⟩ := (escaped_spec c).append_inj (escaped_spec d) h
        obtain ⟨rfl, hrest⟩ := ih ds htail
        exact ⟨rfl, hrest⟩
  simp only [quoted, List.cons_append, List.append_assoc, List.nil_append, List.cons.injEq,
    true_and] at h
  obtain ⟨hchars, hrest⟩ := hlist _ _ h
  exact ⟨String.toList_inj.1 hchars, hrest⟩

/-! ### Values -/

/-- What the first character of a text tells of the value. -/
inductive Kind where
  | null | truth | number | text | array | object | other
  deriving DecidableEq

/-- What a character begins. -/
def Kind.ofChar (c : Char) : Kind :=
  if isNumeric c then .number
  else if c = 'n' then .null
  else if c = 't' ∨ c = 'f' then .truth
  else if c = '"' then .text
  else if c = '[' then .array
  else if c = '\x7b' then .object
  else .other

/-- What a value is. -/
def kind : Json → Kind
  | .null => .null
  | .bool _ => .truth
  | .int _ | .float _ => .number
  | .str _ => .text
  | .arr _ => .array
  | .obj _ => .object

/-- The text of a number. -/
theorem numeric_chars {v : Json} (hk : v.kind = .number) :
    v.chars ≠ [] ∧ ∀ c ∈ v.chars, isNumeric c = true := by
  cases v with
  | int n =>
    rw [chars]
    exact ⟨ofInt_ne_nil n, isNumeric_ofInt n⟩
  | float x =>
    rw [chars]
    exact ⟨double_ne_nil x, isNumeric_double x⟩
  | _ => simp [kind] at hk

/-- The first character of a text tells what the value is. -/
theorem chars_head (v : Json) : ∃ c cs, v.chars = c :: cs ∧ Kind.ofChar c = v.kind := by
  by_cases hk : v.kind = .number
  · obtain ⟨hne, hall⟩ := numeric_chars hk
    obtain ⟨c, cs, hcs⟩ := List.exists_cons_of_ne_nil hne
    refine ⟨c, cs, hcs, ?_⟩
    rw [Kind.ofChar, if_pos (hall c (by simp [hcs])), hk]
  · cases v with
    | null => exact ⟨'n', ['u', 'l', 'l'], by rw [chars], rfl⟩
    | bool b =>
      cases b with
      | true => exact ⟨'t', ['r', 'u', 'e'], by rw [chars], rfl⟩
      | false => exact ⟨'f', ['a', 'l', 's', 'e'], by rw [chars], rfl⟩
    | int n => exact absurd rfl hk
    | float x => exact absurd rfl hk
    | str s => exact ⟨'"', s.toList.flatMap escaped ++ ['"'], by rw [chars, quoted], rfl⟩
    | arr items => exact ⟨'[', itemChars items ++ [']'], by rw [chars], rfl⟩
    | obj fields => exact ⟨'\x7b', fieldChars fields ++ ['\x7d'], by rw [chars], rfl⟩

/-- What stands behind the first of some items. -/
def itemsTail : List Json → List Char
  | [] => []
  | v :: vs => ',' :: itemChars (v :: vs)

theorem itemChars_cons (v : Json) (vs : List Json) :
    itemChars (v :: vs) = v.chars ++ itemsTail vs := by
  cases vs with
  | nil => rw [itemChars, itemsTail, List.append_nil]
  | cons w ws => rw [itemChars, itemsTail]; simp

/-- What stands behind the first of some fields. -/
def fieldsTail : List (String × Json) → List Char
  | [] => []
  | p :: ps => ',' :: fieldChars (p :: ps)

theorem fieldChars_cons (k : String) (v : Json) (ps : List (String × Json)) :
    fieldChars ((k, v) :: ps) = quoted k ++ ':' :: (v.chars ++ fieldsTail ps) := by
  cases ps with
  | nil => rw [fieldChars, fieldsTail, List.append_nil]
  | cons q qs => rw [fieldChars, fieldsTail]; simp

theorem stops_cons {c : Char} (hc : isNumeric c = false) (cs : List Char) : Stops (c :: cs) := by
  intro d hd
  obtain rfl : c = d := by simpa using hd
  exact hc

/-- Texts that begin alike are of values of one kind. -/
theorem kind_eq {v w : Json} {rest rest' : List Char}
    (h : v.chars ++ rest = w.chars ++ rest') : v.kind = w.kind := by
  obtain ⟨c, cs, hcs, hkind⟩ := v.chars_head
  obtain ⟨d, ds, hds, hkind'⟩ := w.chars_head
  rw [hcs, hds] at h
  rw [← hkind, ← hkind', (List.cons.inj h).1]

theorem ne_close (v : Json) {rest rest' : List Char} : v.chars ++ rest ≠ ']' :: rest' := by
  intro h
  obtain ⟨c, cs, hcs, hkind⟩ := v.chars_head
  rw [hcs] at h
  rw [(List.cons.inj h).1] at hkind
  cases v <;> simp [kind, Kind.ofChar, isNumeric] at hkind

theorem number_append_inj {v w : Json} {rest rest' : List Char} (hr : Stops rest)
    (hr' : Stops rest') (hkv : v.kind = .number) (hkw : w.kind = .number)
    (h : v.chars ++ rest = w.chars ++ rest') : v = w ∧ rest = rest' := by
  obtain ⟨htext, hrest⟩ := numeric_append_inj (numeric_chars hkv).2
    (numeric_chars hkw).2 hr hr' h
  refine ⟨?_, hrest⟩
  cases v with
  | int m =>
    cases w with
    | int n =>
      rw [chars, chars] at htext
      rw [decimalInt_inj htext]
    | float y =>
      rw [chars, chars] at htext
      exact absurd htext.symm (double_ne_ofInt y m)
    | _ => simp [kind] at hkw
  | float x =>
    cases w with
    | int n =>
      rw [chars, chars] at htext
      exact absurd htext (double_ne_ofInt x n)
    | float y =>
      rw [chars, chars] at htext
      rw [Binary64.chars_inj htext]
    | _ => simp [kind] at hkw
  | _ => simp [kind] at hkv

mutual

/-- Where the text of a value ends, and which value it is, can be seen. -/
theorem chars_append_inj : ∀ (v w : Json) {rest rest' : List Char}, Stops rest → Stops rest' →
    v.chars ++ rest = w.chars ++ rest' → v = w ∧ rest = rest'
  | .null, w, rest, rest', _, _, h => by
    have hkind := kind_eq h
    cases w with
    | null => exact ⟨rfl, List.append_cancel_left h⟩
    | _ => simp [kind] at hkind
  | .bool a, w, rest, rest', _, _, h => by
    have hkind := kind_eq h
    cases w with
    | bool b =>
      cases a <;> cases b <;> simp [chars] at h
      · exact ⟨rfl, h⟩
      · exact ⟨rfl, h⟩
    | _ => simp [kind] at hkind
  | .int n, w, rest, rest', hr, hr', h =>
    number_append_inj hr hr' rfl (kind_eq h).symm h
  | .float x, w, rest, rest', hr, hr', h =>
    number_append_inj hr hr' rfl (kind_eq h).symm h
  | .str s, w, rest, rest', _, _, h => by
    have hkind := kind_eq h
    cases w with
    | str t =>
      rw [chars, chars] at h
      obtain ⟨rfl, hrest⟩ := quoted_append_inj h
      exact ⟨rfl, hrest⟩
    | _ => simp [kind] at hkind
  | .arr vs, w, rest, rest', _, _, h => by
    have hkind := kind_eq h
    cases w with
    | arr ws =>
      simp only [chars, List.cons_append, List.append_assoc, List.nil_append, List.cons.injEq,
        true_and] at h
      obtain ⟨rfl, hrest⟩ := itemChars_append_inj vs ws h
      exact ⟨rfl, hrest⟩
    | _ => simp [kind] at hkind
  | .obj ps, w, rest, rest', _, _, h => by
    have hkind := kind_eq h
    cases w with
    | obj qs =>
      simp only [chars, List.cons_append, List.append_assoc, List.nil_append, List.cons.injEq,
        true_and] at h
      obtain ⟨rfl, hrest⟩ := fieldChars_append_inj ps qs h
      exact ⟨rfl, hrest⟩
    | _ => simp [kind] at hkind

/-- The same of the items of an array. -/
theorem itemChars_append_inj : ∀ (vs ws : List Json) {rest rest' : List Char},
    itemChars vs ++ ']' :: rest = itemChars ws ++ ']' :: rest' → vs = ws ∧ rest = rest'
  | [], [], _, _, h => ⟨rfl, (List.cons.inj h).2⟩
  | [], w :: ws, rest, rest', h => by
    rw [itemChars_cons, List.append_assoc] at h
    exact absurd h.symm (w.ne_close)
  | v :: vs, [], rest, rest', h => by
    rw [itemChars_cons, List.append_assoc] at h
    exact absurd h (v.ne_close)
  | v :: vs, w :: ws, rest, rest', h => by
    rw [itemChars_cons, itemChars_cons, List.append_assoc, List.append_assoc] at h
    have hstops : ∀ (us : List Json) (cs : List Char), Stops (itemsTail us ++ ']' :: cs) := by
      intro us cs
      cases us with
      | nil => exact stops_cons (by decide) _
      | cons u us => exact stops_cons (by decide) _
    obtain ⟨rfl, htail⟩ := chars_append_inj v w (hstops vs rest) (hstops ws rest') h
    match vs, ws, htail with
    | [], [], htail => exact ⟨rfl, (List.cons.inj htail).2⟩
    | [], w' :: ws, htail => simp [itemsTail] at htail
    | v' :: vs, [], htail => simp [itemsTail] at htail
    | v' :: vs, w' :: ws, htail =>
      obtain ⟨hitems, hrest⟩ :=
        itemChars_append_inj (v' :: vs) (w' :: ws) (List.cons.inj htail).2
      exact ⟨congrArg (List.cons v) hitems, hrest⟩

/-- The same of the fields of an object. -/
theorem fieldChars_append_inj : ∀ (ps qs : List (String × Json)) {rest rest' : List Char},
    fieldChars ps ++ '\x7d' :: rest = fieldChars qs ++ '\x7d' :: rest' → ps = qs ∧ rest = rest'
  | [], [], _, _, h => ⟨rfl, (List.cons.inj h).2⟩
  | [], (k, w) :: qs, rest, rest', h => by
    rw [fieldChars_cons] at h
    simp [fieldChars, quoted] at h
  | (k, v) :: ps, [], rest, rest', h => by
    rw [fieldChars_cons] at h
    simp [fieldChars, quoted] at h
  | (k, v) :: ps, (l, w) :: qs, rest, rest', h => by
    rw [fieldChars_cons, fieldChars_cons, List.append_assoc, List.append_assoc] at h
    have hstops : ∀ (us : List (String × Json)) (cs : List Char),
        Stops (fieldsTail us ++ '\x7d' :: cs) := by
      intro us cs
      cases us with
      | nil => exact stops_cons (by decide) _
      | cons u us => exact stops_cons (by decide) _
    obtain ⟨rfl, htext⟩ := quoted_append_inj h
    rw [List.cons_append, List.cons_append, List.append_assoc, List.append_assoc] at htext
    have htext := (List.cons.inj htext).2
    obtain ⟨rfl, htail⟩ :=
      chars_append_inj v w (hstops ps rest) (hstops qs rest') htext
    match ps, qs, htail with
    | [], [], htail => exact ⟨rfl, (List.cons.inj htail).2⟩
    | [], q :: qs, htail => simp [fieldsTail] at htail
    | p :: ps, [], htail => simp [fieldsTail] at htail
    | p :: ps, q :: qs, htail =>
      obtain ⟨hfields, hrest⟩ :=
        fieldChars_append_inj (p :: ps) (q :: qs) (List.cons.inj htail).2
      exact ⟨congrArg (List.cons (k, v)) hfields, hrest⟩

end

/-- Different values have different texts. -/
theorem compact_inj {v w : Json} (h : v.compact = w.compact) : v = w := by
  have hchars : v.chars ++ [] = w.chars ++ [] := by
    rw [List.append_nil, List.append_nil]
    exact String.ofList_inj.1 h
  exact (chars_append_inj v w (by simp [Stops]) (by simp [Stops]) hchars).1

end NodeRpc.Json
