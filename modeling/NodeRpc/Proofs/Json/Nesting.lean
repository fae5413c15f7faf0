import NodeRpc.Proofs.Json.Printing

/-!
# Where a text is nested

A scan of a compact text knows whether a quoted text is open, and how many arrays and objects are.
The text of a value leads it back to where it was, and every colon outside of quoted texts stands in
an object. So what stands behind a colon in the text of a value is never the text of a value itself:
outside of quoted texts it would have to close an object that it did not open, and in a quoted text
every quote in it would end what it is meant to begin.
-/

namespace NodeRpc.Json

/-- Where a scan of a compact text has come to. -/
inductive Place where
  | outside (depth : Nat)
  | inside (depth : Nat)
  /-- Behind a backslash in a quoted text. -/
  | escaped (depth : Nat)
  /-- The text is not, and does not become, the text of a value. -/
  | nowhere

namespace Place

/-- Goes on by one character. -/
def next : Place → Char → Place
  | .outside d, c =>
    if c = '"' then .inside d
    else if c = '[' ∨ c = '\x7b' then .outside (d + 1)
    else if c = ']' ∨ c = '\x7d' then .outside (d - 1)
    else if c = '\\' ∨ (c = ':' ∧ d = 0) then .nowhere
    else .outside d
  | .inside d, c => if c = '"' then .outside d else if c = '\\' then .escaped d else .inside d
  | .escaped d, _ => .inside d
  | .nowhere, _ => .nowhere

/-- Goes on by some characters. -/
def after (p : Place) (cs : List Char) : Place := cs.foldl next p

@[simp] theorem after_nil (p : Place) : p.after [] = p := rfl

@[simp] theorem after_cons (p : Place) (c : Char) (cs : List Char) :
    p.after (c :: cs) = (p.next c).after cs := rfl

@[simp] theorem after_append (p : Place) (cs ds : List Char) :
    p.after (cs ++ ds) = (p.after cs).after ds := List.foldl_append

theorem after_nowhere (cs : List Char) : nowhere.after cs = nowhere := by
  induction cs with
  | nil => rfl
  | cons c cs ih => exact ih

/-! ### Texts of values -/

theorem after_numeric {cs : List Char} (h : ∀ c ∈ cs, isNumeric c = true) (d : Nat) :
    (outside d).after cs = outside d := by
  induction cs with
  | nil => rfl
  | cons c cs ih =>
    have hne : ∀ x, isNumeric x = false → c ≠ x := by
      rintro x hx rfl
      simp [h c (by simp)] at hx
    have hnext : (outside d).next c = outside d := by
      simp [next, hne '"' (by decide), hne '[' (by decide), hne '\x7b' (by decide),
        hne ']' (by decide), hne '\x7d' (by decide), hne '\\' (by decide), hne ':' (by decide)]
    rw [after_cons, hnext, ih fun x hx => h x (List.mem_cons_of_mem _ hx)]

theorem hexDigit_spec : ∀ n < 16, hexDigit n ≠ '"' ∧ hexDigit n ≠ '\\' := by decide

/-- A written character keeps a quoted text open. -/
theorem after_escaped {c : Char} {cs : List Char} (h : Escaped c cs) (d : Nat) :
    (inside d).after cs = inside d := by
  cases h with
  | plain hq hb => simp [next, hq, hb]
  | short _ => simp [next]
  | long hlt =>
    have hhigh := hexDigit_spec (c.toNat / 16) (by omega)
    have hlow := hexDigit_spec (c.toNat % 16) (by omega)
    simp [next, hhigh, hlow]

theorem after_quoted (s : String) (d : Nat) : (outside d).after (quoted s) = outside d := by
  have hopen : ∀ cs : List Char, (inside d).after (cs.flatMap Json.escaped) = inside d := by
    intro cs
    induction cs with
    | nil => rfl
    | cons c cs ih => rw [List.flatMap_cons, after_append, after_escaped (escaped_spec c), ih]
  rw [quoted, after_cons, after_append]
  simp [next, hopen]

mutual

/-- The text of a value leads back to where it began. -/
theorem after_chars : ∀ (v : Json) (d : Nat), (outside d).after v.chars = outside d
  | .null, d => by simp [chars, next]
  | .bool true, d => by simp [chars, next]
  | .bool false, d => by simp [chars, next]
  | .int n, d => after_numeric (numeric_chars rfl).2 d
  | .float x, d => after_numeric (numeric_chars rfl).2 d
  | .str s, d => by rw [chars, after_quoted]
  | .arr vs, d => by
    rw [chars, after_cons, after_append]
    simp [next, after_itemChars vs (d + 1)]
  | .obj ps, d => by
    rw [chars, after_cons, after_append]
    simp [next, after_fieldChars ps d]

theorem after_itemChars : ∀ (vs : List Json) (d : Nat),
    (outside d).after (itemChars vs) = outside d
  | [], d => by rw [itemChars, after_nil]
  | v :: vs, d => by
    rw [itemChars_cons, after_append, after_chars v d]
    match vs with
    | [] => rfl
    | w :: ws =>
      rw [itemsTail, after_cons]
      simpa [next] using after_itemChars (w :: ws) d

/-- Fields stand in an object. -/
theorem after_fieldChars : ∀ (ps : List (String × Json)) (d : Nat),
    (outside (d + 1)).after (fieldChars ps) = outside (d + 1)
  | [], d => by rw [fieldChars, after_nil]
  | (k, v) :: ps, d => by
    have hcolon : (outside (d + 1)).next ':' = outside (d + 1) := by simp [next]
    rw [fieldChars_cons, after_append, after_quoted, after_cons, hcolon, after_append,
      after_chars v (d + 1)]
    match ps with
    | [] => rfl
    | p :: ps =>
      rw [fieldsTail, after_cons]
      simpa [next] using after_fieldChars (p :: ps) d

end

/-! ### Two scans of one text -/

/-- One of two scans is in a quoted text and the other one is not. -/
def Opposite : Place → Place → Prop
  | .outside _, .inside _ | .inside _, .outside _ | .nowhere, _ | _, .nowhere => True
  | _, _ => False

/-- A quote takes both scans across, and a backslash is an end for the one outside. -/
theorem Opposite.next {p q : Place} (h : Opposite p q) (c : Char) :
    Opposite (p.next c) (q.next c) := by
  have hcross : ∀ d e, Opposite ((outside d).next c) ((inside e).next c) ∧
      Opposite ((inside e).next c) ((outside d).next c) := by
    intro d e
    simp only [Place.next]
    split
    · exact ⟨trivial, trivial⟩
    · split
      · next hc => rcases hc with rfl | rfl <;> exact ⟨trivial, trivial⟩
      · split
        · next hc => rcases hc with rfl | rfl <;> exact ⟨trivial, trivial⟩
        · split
          · constructor <;> split <;> trivial
          · next hc =>
            rw [if_neg fun he => hc (.inl he)]
            exact ⟨trivial, trivial⟩
  cases p with
  | outside d =>
    cases q with
    | inside e => exact (hcross d e).1
    | nowhere => cases (outside d).next c <;> trivial
    | _ => exact h.elim
  | inside d =>
    cases q with
    | outside e => exact (hcross e d).2
    | nowhere => cases (inside d).next c <;> trivial
    | _ => exact h.elim
  | escaped d =>
    cases q with
    | nowhere => trivial
    | _ => exact h.elim
  | nowhere => trivial

theorem Opposite.after {p q : Place} (h : Opposite p q) (cs : List Char) :
    Opposite (p.after cs) (q.after cs) := by
  induction cs generalizing p q with
  | nil => exact h
  | cons c cs ih => exact ih (h.next c)

end Place

/-- What stands behind a colon in the text of a value is not the text of a value. -/
theorem chars_ne_behind_colon (v w : Json) (front : List Char) :
    v.chars ≠ front ++ ':' :: w.chars := by
  intro h
  have hend := Place.after_chars v 0
  rw [h, Place.after_append, Place.after_cons] at hend
  -- in a quoted text the text of `w` would be read inside out
  have hquoted : ∀ d, (Place.inside d).after w.chars ≠ .outside 0 := by
    intro d hd
    have hopp : Place.Opposite (.outside 0) (.inside d) := trivial
    have hends := hopp.after w.chars
    rw [Place.after_chars w 0, hd] at hends
    exact hends
  cases hfront : (Place.outside 0).after front with
  | outside d =>
    rw [hfront] at hend
    cases d with
    | zero => simp [Place.next, Place.after_nowhere] at hend
    | succ d =>
      have hcolon : (Place.outside (d + 1)).next ':' = .outside (d + 1) := by simp [Place.next]
      rw [hcolon, Place.after_chars w (d + 1)] at hend
      simp at hend
  | inside d =>
    rw [hfront] at hend
    exact hquoted d (by simpa [Place.next] using hend)
  | escaped d =>
    rw [hfront] at hend
    exact hquoted d hend
  | nowhere =>
    rw [hfront] at hend
    simp [Place.next, Place.after_nowhere] at hend

end NodeRpc.Json
