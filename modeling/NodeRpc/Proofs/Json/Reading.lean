import NodeRpc.Proofs.Json.Moves
import NodeRpc.Proofs.Json.Numbers
import NodeRpc.Proofs.Json.Printing

/-!
# Reading undoes writing

The reader is run over the compact text of a value, from any state in which a value comes next. It
ends with the value handed to the innermost open container, or, if the value is a number, within it:
only what comes next tells that a number is over. So a value whose text does not nest too deep is
read back from it. What this needs of the value is that its numbers are read back: integers of 64
bits are, and of doubles it is assumed.
-/

namespace NodeRpc

namespace Json

mutual

/-- The integers of the value have 64 bits, and its doubles are read back from their texts. -/
def Legible : Json → Prop
  | .int n => -2 ^ 63 ≤ n ∧ n < 2 ^ 64
  | .float x => number? x.chars = some (.float x)
  | .arr items => LegibleItems items
  | .obj fields => LegibleFields fields
  | _ => True

/-- `Legible` for every item of an array. -/
def LegibleItems : List Json → Prop
  | [] => True
  | v :: vs => Legible v ∧ LegibleItems vs

/-- `Legible` for the value of every field. -/
def LegibleFields : List (String × Json) → Prop
  | [] => True
  | (_, v) :: vs => Legible v ∧ LegibleFields vs

end

theorem legibleItems_iff (vs : List Json) : LegibleItems vs ↔ ∀ v ∈ vs, Legible v := by
  induction vs with
  | nil => simp [LegibleItems]
  | cons v vs ih => simp [LegibleItems, ih]

theorem legibleFields_iff (ps : List (String × Json)) :
    LegibleFields ps ↔ ∀ p ∈ ps, Legible p.2 := by
  induction ps with
  | nil => simp [LegibleFields]
  | cons p ps ih =>
    obtain ⟨k, v⟩ := p
    simp [LegibleFields, ih]

theorem Legible.number? {v : Json} (h : v.Legible) (hk : v.kind = .number) :
    number? v.chars = some v := by
  cases v with
  | int n => exact number?_ofInt h.1 h.2
  | float x => exact h
  | _ => simp [kind] at hk

/-- A number starts with a minus sign or a digit. -/
theorem number?_head {c : Char} {cs : List Char} {v : Json} (h : number? (c :: cs) = some v) :
    c = '-' ∨ '0' ≤ c ∧ c ≤ '9' := by
  by_contra hne
  rw [not_or] at hne
  have hdigit : Literal.digit? c = none := if_neg hne.2
  have hnone : Literal.ofChars? (c :: cs) = none := by
    unfold Literal.ofChars?
    split
    next heq =>
    split at heq
    · next hcons => exact absurd (List.cons.inj hcons).1 hne.1
    · obtain ⟨rfl, rfl⟩ := Prod.mk.inj heq
      simp [Literal.readWhole, Literal.digits, hdigit]
  simp [Json.number?, hnone] at h

theorem inNumber_of_isNumeric {c : Char} (h : isNumeric c = true) : Reader.inNumber c = true := by
  simp only [isNumeric, Bool.or_eq_true, decide_eq_true_eq] at h
  rcases h with (((h | rfl) | rfl) | rfl) | rfl
  · have hrange : '0' ≤ c ∧ c ≤ '9' := by simpa [Char.isDigit, Char.le_def] using h
    simp [Reader.inNumber, hrange]
  all_goals decide

namespace Reader

/-! ### Quoted texts -/

theorem hexValue?_hexDigit : ∀ n < 16, hexValue? (hexDigit n) = some n := by decide

/-- A written character is read back. -/
theorem run_escaped (stack : List Container) (role : Role) (read : List Char) (c : Char) :
    run ⟨stack, .text role read⟩ (escaped c) = ⟨stack, .text role (c :: read)⟩ := by
  unfold escaped
  split
  · next h => subst h; rfl
  split
  · next h => subst h; rfl
  split
  · next h => subst h; rfl
  split
  · next h => subst h; rfl
  split
  · next h => subst h; rfl
  split
  · next h => subst h; rfl
  split
  · next h => subst h; rfl
  split
  · next h =>
    have hhigh := hexValue?_hexDigit (c.toNat / 16) (by omega)
    have hlow := hexValue?_hexDigit (c.toNat % 16) (by omega)
    have hzero : hexValue? '0' = some 0 := rfl
    have hunit : 16 * (c.toNat / 16) + c.toNat % 16 = c.toNat := Nat.div_add_mod c.toNat 16
    have hplain : isHigh c.toNat = false ∧ isLow c.toNat = false := by
      simp only [isHigh, isLow, Bool.and_eq_false_iff, decide_eq_false_iff_not]
      omega
    simp [run, step, hzero, hhigh, hlow, State.endUnit, hunit, hplain]
  · next hquote hslash _ _ _ _ _ hlow =>
    simp [run, step, hquote, hslash, hlow]

theorem run_escapedAll (stack : List Container) (role : Role) (read cs : List Char) :
    run ⟨stack, .text role read⟩ (cs.flatMap escaped) =
      ⟨stack, .text role (cs.reverse ++ read)⟩ := by
  induction cs generalizing read with
  | nil => rfl
  | cons c cs ih =>
    rw [List.flatMap_cons, run_append, run_escaped, ih, List.reverse_cons, List.append_assoc]
    rfl

/-- A quoted text is read back. -/
theorem run_body (stack : List Container) (role : Role) (s : String) :
    run ⟨stack, .text role []⟩ (s.toList.flatMap escaped ++ ['"']) =
      State.endText ⟨stack, .text role s.toList.reverse⟩ role s.toList.reverse := by
  rw [run_append, run_escapedAll, List.append_nil]
  rfl

/-! ### The end of a value -/

theorem give_mode (stack : List Container) (mode mode' : Mode) (v : Json) :
    State.give ⟨stack, mode⟩ v = State.give ⟨stack, mode'⟩ v := by
  cases stack with
  | nil => rfl
  | cons k stack => cases k <;> rfl

/-- The reader has come to the end of `v`, with `stack` open around it: `v` has been handed over, or
is a number of which more may come. -/
inductive Ended (stack : List Container) (v : Json) : State → Prop where
  | given : Ended stack v (State.give ⟨stack, .value⟩ v)
  | number {read : List Char} (h : number? read.reverse = some v) :
      Ended stack v ⟨stack, .number read⟩

theorem Ended.result? {v : Json} {s : State} (h : Ended [] v s) : s.result? = some v := by
  cases h with
  | given => rfl
  | number h => exact h

/-- What ends an item or a field is read as it would be behind the value. -/
theorem Ended.step {k : Container} {stack : List Container} {v : Json} {s : State}
    (h : Ended (k :: stack) v s) {c : Char} (hblank : isBlank c = false)
    (hnumber : inNumber c = false) :
    step s c = (State.give ⟨k :: stack, .value⟩ v).separate c := by
  have hafter : ∀ mode, (State.give ⟨k :: stack, mode⟩ v).afterValue c =
      (State.give ⟨k :: stack, .value⟩ v).separate c := by
    intro mode
    rw [give_mode _ mode .value]
    cases k <;> simp [State.give, State.afterValue, hblank]
  cases h with
  | given =>
    refine Eq.trans ?_ (hafter .value)
    cases k <;> rfl
  | number h =>
    simp only [Reader.step, hnumber, h]
    exact hafter _

/-- Where a value comes next, a minus sign or a digit starts a number. -/
theorem step_number (stack : List Container) {c : Char} (h : c = '-' ∨ '0' ≤ c ∧ c ≤ '9') :
    Reader.step ⟨stack, .value⟩ c = ⟨stack, .number [c]⟩ := by
  have hblank : isBlank c = false := by
    rcases h with rfl | ⟨hlow, hhigh⟩
    · rfl
    · have hrange : 48 ≤ c.toNat ∧ c.toNat ≤ 57 := ⟨hlow, hhigh⟩
      simp only [isBlank, Bool.or_eq_false_iff, decide_eq_false_iff_not]
      refine ⟨⟨⟨?_, ?_⟩, ?_⟩, ?_⟩ <;> rintro rfl <;> simp at hrange
  have hother : ∀ d : Char, d ≠ '-' → ¬ ('0' ≤ d ∧ d ≤ '9') → c ≠ d := by
    rintro d hminus hdigit rfl
    exact h.elim hminus hdigit
  simp only [Reader.step, hblank, State.start]
  simp [hother '"' (by decide) (by decide), hother '[' (by decide) (by decide),
    hother '\x7b' (by decide) (by decide), hother 't' (by decide) (by decide),
    hother 'f' (by decide) (by decide), hother 'n' (by decide) (by decide), h]

theorem run_number (stack : List Container) (read : List Char) {cs : List Char}
    (h : ∀ c ∈ cs, isNumeric c = true) :
    run ⟨stack, .number read⟩ cs = ⟨stack, .number (cs.reverse ++ read)⟩ := by
  induction cs generalizing read with
  | nil => rfl
  | cons c cs ih =>
    obtain ⟨hc, hcs⟩ := List.forall_mem_cons.1 h
    have hstep : Reader.step ⟨stack, .number read⟩ c = ⟨stack, .number (c :: read)⟩ := by
      simp [Reader.step, inNumber_of_isNumeric hc]
    rw [run_cons, hstep, ih _ hcs, List.reverse_cons, List.append_assoc]
    rfl

/-- A number that starts where a value comes next is read to its end. -/
theorem ended_number (stack : List Container) {v : Json} (h : v.Legible) (hk : v.kind = .number) :
    Ended stack v (run ⟨stack, .value⟩ v.chars) := by
  have hread := h.number? hk
  obtain ⟨hne, hall⟩ := numeric_chars hk
  obtain ⟨c, cs, hcs⟩ := List.exists_cons_of_ne_nil hne
  rw [hcs] at hread hall ⊢
  rw [run_cons, step_number stack (number?_head hread),
    run_number stack [c] (List.forall_mem_cons.1 hall).2]
  exact .number (by simpa using hread)

/-! ### Values -/

/-- No text of a value starts with a blank. -/
theorem isBlank_head {v : Json} {c : Char} (h : Kind.ofChar c = v.kind) : isBlank c = false := by
  have hother : Kind.ofChar c ≠ .other := by
    rw [h]
    cases v <;> simp [kind]
  rw [← Bool.not_eq_true]
  intro hblank
  simp only [isBlank, Bool.or_eq_true, decide_eq_true_eq] at hblank
  rcases hblank with ((rfl | rfl) | rfl) | rfl <;> exact hother rfl

/-- The item that comes first is read as any other. -/
theorem run_firstItem (stack : List Container) (v : Json) (rest : List Char) :
    run ⟨stack, .firstItem⟩ (v.chars ++ rest) = run ⟨stack, .value⟩ (v.chars ++ rest) := by
  obtain ⟨c, cs, hcs, hkind⟩ := v.chars_head
  have hclose : c ≠ ']' := by
    rintro rfl
    have hchars : v.chars ++ [] = ']' :: cs := by rw [List.append_nil, hcs]
    exact v.ne_close hchars
  have hstep : Reader.step ⟨stack, .firstItem⟩ c = Reader.step ⟨stack, .value⟩ c := by
    simp only [Reader.step, isBlank_head hkind, if_neg hclose]
    rfl
  rw [hcs, List.cons_append, run_cons, run_cons, hstep]

theorem run_key (stack : List Container) (fields : List (String × Json)) (key k : String) :
    run ⟨.object fields key :: stack, .nextKey⟩ (quoted k ++ [':']) =
      ⟨.object fields k :: stack, .value⟩ := by
  have hopen : Reader.step ⟨.object fields key :: stack, .nextKey⟩ '"' =
      ⟨.object fields key :: stack, .text .key []⟩ := rfl
  rw [run_append, quoted, run_cons _ '"', hopen, run_body]
  simp [State.endText, run, Reader.step, isBlank, State.expectValueOf]

/-- The key that comes first is read as any other. -/
theorem run_firstKey (stack : List Container) (k : String) (rest : List Char) :
    run ⟨stack, .firstKey⟩ (quoted k ++ rest) = run ⟨stack, .nextKey⟩ (quoted k ++ rest) := rfl

mutual

/-- The text of a value is read to the end of the value. -/
theorem ended_chars : ∀ (v : Json) (stack : List Container), v.WellFormed → v.Legible →
    stack.length + v.depth ≤ deepest → Ended stack v (run ⟨stack, .value⟩ v.chars)
  | .null, _, _, _, _ => .given
  | .bool true, _, _, _, _ => .given
  | .bool false, _, _, _, _ => .given
  | .int _, stack, _, hl, _ => ended_number stack hl rfl
  | .float _, stack, _, hl, _ => ended_number stack hl rfl
  | .str s, stack, _, _, _ => by
    have hopen : Reader.step ⟨stack, .value⟩ '"' = ⟨stack, .text .value []⟩ := rfl
    rw [chars, quoted, run_cons, hopen, run_body]
    simp only [State.endText, List.reverse_reverse, String.ofList_toList]
    rw [give_mode _ _ .value]
    exact .given
  | .arr [], stack, _, _, hd => by
    have hopen : Reader.step ⟨stack, .value⟩ '[' = ⟨.array [] :: stack, .firstItem⟩ :=
      if_pos (show stack.length < deepest by simp only [depth] at hd; omega)
    rw [chars, run_cons, hopen]
    exact .given
  | .arr (v :: vs), stack, hw, hl, hd => by
    rw [depth] at hd
    have hopen : Reader.step ⟨stack, .value⟩ '[' = ⟨.array [] :: stack, .firstItem⟩ :=
      if_pos (show stack.length < deepest by omega)
    rw [chars, run_cons, hopen, itemChars_cons, List.append_assoc, run_firstItem,
      ← List.append_assoc, ← itemChars_cons,
      run_items (v :: vs) stack [] (List.cons_ne_nil v vs) hw hl (by omega)]
    exact .given
  | .obj [], stack, _, _, hd => by
    have hopen : Reader.step ⟨stack, .value⟩ '\x7b' = ⟨.object [] "" :: stack, .firstKey⟩ :=
      if_pos (show stack.length < deepest by simp only [depth] at hd; omega)
    rw [chars, run_cons, hopen]
    exact .given
  | .obj ((k, v) :: ps), stack, hw, hl, hd => by
    rw [depth] at hd
    have hopen : Reader.step ⟨stack, .value⟩ '\x7b' = ⟨.object [] "" :: stack, .firstKey⟩ :=
      if_pos (show stack.length < deepest by omega)
    rw [chars, run_cons, hopen, fieldChars_cons, List.append_assoc, run_firstKey,
      ← List.append_assoc, ← fieldChars_cons,
      run_fields ((k, v) :: ps) stack [] "" (List.cons_ne_nil _ ps) hw.2 hl hw.1 (by omega)]
    exact .given

/-- The texts of items are read up to the end of their array. -/
theorem run_items : ∀ (vs : List Json) (stack : List Container) (items : List Json), vs ≠ [] →
    WellFormedItems vs → LegibleItems vs → stack.length + 1 + depthItems vs ≤ deepest →
    run ⟨.array items :: stack, .value⟩ (itemChars vs ++ [']']) =
      State.give ⟨stack, .value⟩ (.arr (items.reverse ++ vs))
  | [], _, _, hne, _, _, _ => absurd rfl hne
  | v :: vs, stack, items, _, hw, hl, hd => by
    rw [depthItems] at hd
    have hended := ended_chars v (.array items :: stack) hw.1 hl.1
      (by simp only [List.length_cons]; omega)
    rw [itemChars_cons, List.append_assoc, run_append]
    match vs with
    | [] =>
      rw [itemsTail, List.nil_append, run_cons, hended.step rfl rfl]
      simp [State.give, State.separate, State.closeArray, run]
    | w :: ws =>
      have hnext : (State.give ⟨.array items :: stack, .value⟩ v).separate ',' =
          ⟨.array (v :: items) :: stack, .value⟩ := rfl
      rw [itemsTail, List.cons_append, run_cons, hended.step rfl rfl, hnext,
        run_items (w :: ws) stack (v :: items) (List.cons_ne_nil w ws) hw.2 hl.2 (by omega),
        List.reverse_cons, List.append_assoc]
      rfl

/-- The texts of fields are read up to the end of their object. -/
theorem run_fields : ∀ (ps : List (String × Json)) (stack : List Container)
    (fields : List (String × Json)) (key : String), ps ≠ [] → WellFormedFields ps →
    LegibleFields ps → ((fields ++ ps).map (·.1)).Nodup →
    stack.length + 1 + depthFields ps ≤ deepest →
    run ⟨.object fields key :: stack, .nextKey⟩ (fieldChars ps ++ ['\x7d']) =
      State.give ⟨stack, .value⟩ (.obj (fields ++ ps))
  | [], _, _, _, hne, _, _, _, _ => absurd rfl hne
  | (k, v) :: ps, stack, fields, key, _, hw, hl, hk, hd => by
    rw [depthFields] at hd
    have hended := ended_chars v (.object fields k :: stack) hw.1 hl.1
      (by simp only [List.length_cons]; omega)
    have hnew : k ∉ Table.keys fields := by
      rw [List.map_append, List.nodup_append] at hk
      exact fun hmem => hk.2.2 k hmem k (by simp) rfl
    have htext : fieldChars ((k, v) :: ps) ++ ['\x7d'] =
        (quoted k ++ [':']) ++ (v.chars ++ (fieldsTail ps ++ ['\x7d'])) := by
      rw [fieldChars_cons]
      simp
    rw [htext, run_append, run_key, run_append]
    match ps with
    | [] =>
      rw [fieldsTail, List.nil_append, run_cons, hended.step rfl rfl]
      simp [State.give, State.separate, State.closeObject, run, Table.put_of_not_mem hnew]
    | q :: qs =>
      have hnext : (State.give ⟨.object fields k :: stack, .value⟩ v).separate ',' =
          ⟨.object (fields ++ [(k, v)]) k :: stack, .nextKey⟩ := by
        simp [State.give, State.separate, Table.put_of_not_mem hnew]
      rw [fieldsTail, List.cons_append, run_cons, hended.step rfl rfl, hnext,
        run_fields (q :: qs) stack (fields ++ [(k, v)]) k (List.cons_ne_nil q qs) hw.2 hl.2
          (by simpa using hk) (by omega),
        List.append_assoc]
      rfl

end

end Reader

/-- A value is read back from its text. -/
theorem parse_compact {v : Json} (hw : v.WellFormed) (hl : v.Legible)
    (hd : v.depth ≤ Reader.deepest) : parse v.compact = some v := by
  have hended := Reader.ended_chars v [] hw hl (by simpa using hd)
  rw [parse, compact, String.toList_ofList]
  exact hended.result?

end Json

end NodeRpc
