import Mathlib.Logic.Relation
import NodeRpc.Json.Reader
import NodeRpc.Proofs.Json.Alike

/-!
# What the reader can do

Whatever the next character is, the reader does one of a few things to its open containers, or two
in a row where the character also ends a number. What they all keep, reading keeps. So the keys of
whatever is read are distinct, and only a text that starts with a bracket is read as an array.
-/

namespace NodeRpc

namespace Table

variable {κ ν : Type} [DecidableEq κ] {t : Table κ ν} {k : κ} {v : ν}

/-- A new key is put at the end. -/
theorem put_of_not_mem (h : k ∉ t.keys) : t.put k v = t ++ [(k, v)] := by
  induction t with
  | nil => rfl
  | cons p t ih =>
    obtain ⟨a, b⟩ := p
    rw [keys_cons, List.mem_cons, not_or] at h
    rw [put, if_neg (Ne.symm h.1), ih h.2, List.cons_append]

theorem mem_put {p : κ × ν} (h : p ∈ t.put k v) : p = (k, v) ∨ p ∈ t := by
  induction t with
  | nil => exact .inl (List.mem_singleton.1 h)
  | cons q t ih =>
    rw [put] at h
    split at h
    · rcases List.mem_cons.1 h with rfl | hmem
      · exact .inl rfl
      · exact .inr (List.mem_cons_of_mem _ hmem)
    · rcases List.mem_cons.1 h with rfl | hmem
      · exact .inr List.mem_cons_self
      · exact (ih hmem).imp_right (List.mem_cons_of_mem _)

theorem mem_keys_put {l : κ} (h : l ∈ (t.put k v).keys) : l = k ∨ l ∈ t.keys := by
  obtain ⟨p, hp, rfl⟩ := List.mem_map.1 h
  rcases mem_put hp with rfl | hmem
  · exact .inl rfl
  · exact .inr (List.mem_map_of_mem hmem)

/-- Keys stay distinct. -/
theorem nodup_keys_put (h : t.keys.Nodup) : (t.put k v).keys.Nodup := by
  induction t with
  | nil => exact List.nodup_singleton k
  | cons q t ih =>
    obtain ⟨hnew, hrest⟩ := List.nodup_cons.1 h
    rw [put]
    split
    · next heq =>
      subst heq
      exact h
    · next hne =>
      refine List.nodup_cons.2 ⟨fun hmem => ?_, ih hrest⟩
      exact (mem_keys_put hmem).elim hne hnew

end Table

namespace Json

/-- Neither an array nor an object. -/
def Scalar : Json → Prop
  | .arr _ | .obj _ => False
  | _ => True

theorem scalar_number? {cs : List Char} {v : Json} (h : number? cs = some v) : v.Scalar := by
  obtain ⟨l, -, hl⟩ := Option.bind_eq_some_iff.1 h
  have hfloat : l.float?.map Json.float = some v → v.Scalar := by
    intro h
    obtain ⟨x, -, rfl⟩ := Option.map_eq_some_iff.1 h
    trivial
  simp only [Literal.json?] at hl
  split at hl
  · split at hl
    · cases hl
      trivial
    split at hl
    · cases hl
      trivial
    · exact hfloat hl
  · exact hfloat hl

theorem Scalar.wellFormed {v : Json} (h : v.Scalar) : v.WellFormed := by
  cases v with
  | arr => exact h.elim
  | obj => exact h.elim
  | _ => trivial

namespace Reader

theorem run_cons (s : State) (c : Char) (cs : List Char) : run s (c :: cs) = run (step s c) cs :=
  rfl

/-! ### Moves -/

/-- Modes in which no value has just begun or ended. -/
def Mode.Within : Mode → Prop
  | .value | .firstItem | .after | .done _ => False
  | .word _ v => v.Scalar
  | _ => True

/-- Modes in which a value may begin. -/
def Mode.Begins (mode : Mode) : Prop := mode = .value ∨ mode = .firstItem

/-- One thing that the reader does. -/
inductive Move : State → State → Prop where
  | within {stack : List Container} {mode mode' : Mode} (h : mode'.Within) :
      Move ⟨stack, mode⟩ ⟨stack, mode'⟩
  | next {k : Container} {stack : List Container} {mode : Mode} :
      Move ⟨k :: stack, mode⟩ ⟨k :: stack, .value⟩
  | key {fields : List (String × Json)} {key key' : String} {stack : List Container} {mode : Mode} :
      Move ⟨.object fields key :: stack, mode⟩ ⟨.object fields key' :: stack, .value⟩
  | openArray {stack : List Container} {mode : Mode} (h : mode.Begins) :
      Move ⟨stack, mode⟩ ⟨.array [] :: stack, .firstItem⟩
  | openObject {stack : List Container} {mode : Mode} (h : mode.Begins) :
      Move ⟨stack, mode⟩ ⟨.object [] "" :: stack, .firstKey⟩
  | give {s : State} {v : Json} (h : v.Scalar) : Move s (s.give v)
  | closeArray {items : List Json} {stack : List Container} {mode : Mode} :
      Move ⟨.array items :: stack, mode⟩ (State.give ⟨stack, .value⟩ (.arr items.reverse))
  | closeObject {fields : List (String × Json)} {key : String} {stack : List Container}
      {mode : Mode} :
      Move ⟨.object fields key :: stack, mode⟩ (State.give ⟨stack, .value⟩ (.obj fields))

/-- Some things that the reader does, one after the other. -/
def Moves : State → State → Prop := Relation.ReflTransGen Move

theorem Move.fail (s : State) : Move s s.fail := .within trivial

theorem moves_closeArray (s : State) : Move s s.closeArray := by
  obtain ⟨stack, mode⟩ := s
  unfold State.closeArray
  split
  · next h =>
    obtain rfl : stack = _ := h
    exact .closeArray
  · exact .fail _

theorem moves_closeObject (s : State) : Move s s.closeObject := by
  obtain ⟨stack, mode⟩ := s
  unfold State.closeObject
  split
  · next h =>
    obtain rfl : stack = _ := h
    exact .closeObject
  · exact .fail _

theorem move_start {s : State} (h : s.mode.Begins) (c : Char) : Move s (s.start c) := by
  unfold State.start
  split
  · exact .within trivial
  split
  · unfold State.openWith
    split
    · exact .openArray h
    · exact .fail _
  split
  · unfold State.openWith
    split
    · exact .openObject h
    · exact .fail _
  repeat' split
  all_goals exact .within trivial

theorem move_separate (s : State) (c : Char) : Move s (s.separate c) := by
  obtain ⟨stack, mode⟩ := s
  unfold State.separate
  split
  · split
    · next h =>
      obtain rfl : stack = _ := h
      exact .next
    · exact .within trivial
    · exact .fail _
  split
  · exact moves_closeArray _
  split
  · exact moves_closeObject _
  · exact .fail _

theorem moves_afterValue (s : State) (c : Char) : Moves s (s.afterValue c) := by
  unfold State.afterValue
  split
  · exact .refl
  split
  · exact .single (move_separate s c)
  · exact .single (.fail s)

/-- What a literal name stands for is no container. -/
def State.Named (s : State) : Prop := ∀ left v, s.mode = .word left v → v.Scalar

/-- What one character makes of a state. -/
theorem moves_step {s : State} (hnamed : s.Named) (c : Char) : Moves s (step s c) := by
  obtain ⟨stack, mode⟩ := s
  cases mode with
  | value =>
    simp only [step]
    split
    · exact .refl
    · exact .single (move_start (.inl rfl) c)
  | firstItem =>
    simp only [step]
    split
    · exact .refl
    split
    · exact .single (moves_closeArray _)
    · exact .single (move_start (.inr rfl) c)
  | firstKey =>
    simp only [step]
    split
    · exact .refl
    split
    · exact .single (.within trivial)
    split
    · exact .single (moves_closeObject _)
    · exact .single (.fail _)
  | colon key =>
    simp only [step, State.expectValueOf]
    split
    · exact .refl
    split
    · cases stack with
      | nil => exact .single (.fail _)
      | cons k stack =>
        cases k with
        | array items => exact .single (.fail _)
        | object fields key' => exact .single .key
    · exact .single (.fail _)
  | after => exact moves_afterValue _ c
  | done v => exact moves_afterValue _ c
  | text role read =>
    simp only [step]
    split
    · cases role with
      | value => exact .single (.give trivial)
      | key => exact .single (.within trivial)
    · repeat' split
      all_goals exact .single (.within trivial)
  | word left v =>
    have hv : v.Scalar := hnamed left v rfl
    simp only [step]
    split
    · exact .single (.fail _)
    · split
      · exact .single (.give hv)
      · exact .single (.fail _)
    · split
      · exact .single (.within hv)
      · exact .single (.fail _)
  | number read =>
    simp only [step]
    split
    · exact .single (.within trivial)
    split
    · next v hv => exact .head (.give (scalar_number? hv)) (moves_afterValue _ c)
    · exact .single (.fail _)
  | failed => exact .refl
  | _ =>
    simp only [step, State.endUnit]
    repeat' split
    all_goals first | exact .refl | exact .single (.within trivial)

theorem named_give (s : State) (v : Json) : (s.give v).Named := by
  intro left w h
  obtain ⟨stack, mode⟩ := s
  cases stack with
  | nil => simp [State.give] at h
  | cons k stack => cases k <;> simp [State.give] at h

theorem Move.named {s s' : State} (h : Move s s') : s'.Named := by
  intro left v hmode
  cases h with
  | within hw =>
    obtain rfl : _ = Mode.word left v := hmode
    exact hw
  | give => exact named_give _ _ left v hmode
  | closeArray => exact named_give _ _ left v hmode
  | closeObject => exact named_give _ _ left v hmode
  | _ => simp at hmode

theorem named_step {s : State} (h : s.Named) (c : Char) : (step s c).Named := by
  rcases (moves_step h c).cases_tail with heq | ⟨s', -, hlast⟩
  · rw [heq]
    exact h
  · exact hlast.named

/-- What a text makes of a state. -/
theorem moves_run {s : State} (h : s.Named) (cs : List Char) : Moves s (run s cs) := by
  induction cs generalizing s with
  | nil => exact .refl
  | cons c cs ih => exact (moves_step h c).trans (ih (named_step h c))

/-- What every move keeps, reading keeps. -/
theorem Moves.keeps {P : State → Prop} (hmove : ∀ {s s'}, Move s s' → P s → P s') {s s' : State}
    (h : Moves s s') (hs : P s) : P s' := by
  induction h with
  | refl => exact hs
  | tail _ hlast ih => exact hmove hlast ih

theorem named_initial : initial.Named := by
  simp [State.Named, initial]

/-! ### Keys are distinct -/

/-- The values in an open container are well-formed, and the keys of an open object distinct. -/
def Container.WellFormed : Container → Prop
  | .array items => ∀ v ∈ items, v.WellFormed
  | .object fields _ => (Table.keys fields).Nodup ∧ ∀ p ∈ fields, p.2.WellFormed

/-- Everything that has been read is well-formed. -/
structure State.WellFormed (s : State) : Prop where
  stack : ∀ k ∈ s.stack, k.WellFormed
  done : ∀ v, s.mode = .done v → v.WellFormed

theorem State.WellFormed.give {s : State} (hs : ∀ k ∈ s.stack, k.WellFormed) {v : Json}
    (hv : v.WellFormed) : (s.give v).WellFormed := by
  obtain ⟨stack, mode⟩ := s
  cases stack with
  | nil =>
    refine ⟨by simp [State.give], ?_⟩
    rintro w ⟨⟩
    exact hv
  | cons k stack =>
    obtain ⟨hk, hrest⟩ := List.forall_mem_cons.1 hs
    cases k with
    | array items =>
      refine ⟨List.forall_mem_cons.2 ⟨List.forall_mem_cons.2 ⟨hv, hk⟩, hrest⟩, ?_⟩
      simp [State.give]
    | object fields key =>
      have hput : ∀ p ∈ Table.put fields key v, p.2.WellFormed := by
        intro p hp
        rcases Table.mem_put hp with rfl | hmem
        · exact hv
        · exact hk.2 p hmem
      refine ⟨List.forall_mem_cons.2 ⟨⟨Table.nodup_keys_put hk.1, hput⟩, hrest⟩, ?_⟩
      simp [State.give]

theorem Move.wellFormed {s s' : State} (h : Move s s') (hs : s.WellFormed) : s'.WellFormed := by
  cases h with
  | within hw =>
    refine ⟨hs.stack, ?_⟩
    rintro v rfl
    exact hw.elim
  | next => exact ⟨hs.stack, nofun⟩
  | key =>
    obtain ⟨hk, hrest⟩ := List.forall_mem_cons.1 hs.stack
    exact ⟨List.forall_mem_cons.2 ⟨hk, hrest⟩, nofun⟩
  | openArray => exact ⟨List.forall_mem_cons.2 ⟨nofun, hs.stack⟩, nofun⟩
  | openObject => exact ⟨List.forall_mem_cons.2 ⟨⟨List.nodup_nil, nofun⟩, hs.stack⟩, nofun⟩
  | give hv => exact .give hs.stack hv.wellFormed
  | closeArray =>
    obtain ⟨hk, hrest⟩ := List.forall_mem_cons.1 hs.stack
    refine .give hrest ((wellFormedItems_iff _).2 fun v hv => hk v (List.mem_reverse.1 hv))
  | closeObject =>
    obtain ⟨hk, hrest⟩ := List.forall_mem_cons.1 hs.stack
    exact .give hrest ⟨hk.1, (wellFormedFields_iff _).2 hk.2⟩

theorem State.WellFormed.result {s : State} (h : s.WellFormed) {v : Json}
    (hv : s.result? = some v) : v.WellFormed := by
  unfold State.result? at hv
  split at hv
  · next hmode =>
    cases hv
    exact h.done v hmode
  · exact (scalar_number? hv).wellFormed
  · cases hv

/-! ### What is read as an array -/

/-- What is being read is, or will be, no array. -/
structure State.NoArray (s : State) : Prop where
  outermost : ∀ items, s.stack.getLast? ≠ some (.array items)
  done : ∀ items, s.mode ≠ .done (.arr items)
  begun : s.stack = [] → ¬s.mode.Begins

theorem Mode.Within.not_begins {mode : Mode} (h : mode.Within) : ¬mode.Begins := by
  rintro (rfl | rfl) <;> exact h

theorem State.NoArray.give {s : State} (hs : ∀ items, s.stack.getLast? ≠ some (.array items))
    {v : Json} (hv : s.stack = [] → ∀ items, v ≠ .arr items) : (s.give v).NoArray := by
  obtain ⟨stack, mode⟩ := s
  cases stack with
  | nil => exact ⟨nofun, fun items h => hv rfl items (Mode.done.inj h), fun _ => nofun⟩
  | cons k stack =>
    cases k with
    | array items =>
      cases stack with
      | nil => exact absurd rfl (hs items)
      | cons l stack => exact ⟨hs, nofun, nofun⟩
    | object fields key =>
      cases stack with
      | nil => exact ⟨nofun, nofun, nofun⟩
      | cons l stack => exact ⟨hs, nofun, nofun⟩

theorem Move.noArray {s s' : State} (h : Move s s') (hs : s.NoArray) : s'.NoArray := by
  cases h with
  | within hw =>
    refine ⟨hs.outermost, ?_, fun _ => hw.not_begins⟩
    rintro items rfl
    exact hw.elim
  | next => exact ⟨hs.outermost, nofun, nofun⟩
  | @key fields key key' stack mode =>
    cases stack with
    | nil => exact ⟨nofun, nofun, nofun⟩
    | cons k stack => exact ⟨hs.outermost, nofun, nofun⟩
  | @openArray stack mode hbegins =>
    cases stack with
    | nil => exact absurd hbegins (hs.begun rfl)
    | cons k stack => exact ⟨hs.outermost, nofun, nofun⟩
  | @openObject stack mode hbegins =>
    cases stack with
    | nil => exact absurd hbegins (hs.begun rfl)
    | cons k stack => exact ⟨hs.outermost, nofun, nofun⟩
  | give hv =>
    refine .give hs.outermost fun _ items heq => ?_
    subst heq
    exact hv
  | @closeArray items stack mode =>
    cases stack with
    | nil => exact absurd rfl (hs.outermost items)
    | cons k stack => exact .give (s := ⟨k :: stack, .value⟩) hs.outermost nofun
  | @closeObject fields key stack mode =>
    cases stack with
    | nil => exact .give (s := ⟨[], .value⟩) nofun fun _ => nofun
    | cons k stack => exact .give (s := ⟨k :: stack, .value⟩) hs.outermost nofun

theorem State.NoArray.result {s : State} (h : s.NoArray) {items : List Json} :
    s.result? ≠ some (.arr items) := by
  intro hv
  unfold State.result? at hv
  split at hv
  · next hmode =>
    cases hv
    exact h.done items hmode
  · exact scalar_number? hv
  · cases hv

theorem noArray_start {c : Char} (h : c ≠ '[') : (initial.start c).NoArray := by
  have hwithin : ∀ mode : Mode, mode.Within → State.NoArray ⟨[], mode⟩ := by
    intro mode hw
    refine ⟨nofun, ?_, fun _ => hw.not_begins⟩
    rintro items rfl
    exact hw
  unfold State.start
  split
  · exact hwithin _ trivial
  -- the bracket is ruled out
  split
  · exact ⟨nofun, nofun, nofun⟩
  repeat' split
  all_goals exact hwithin _ trivial

/-- A text that is read as an array starts with a bracket, behind blanks. -/
theorem opened_of_array {cs : List Char} {items : List Json}
    (h : (run initial cs).result? = some (.arr items)) :
    ∃ front rest, cs = front ++ '[' :: rest ∧ (∀ c ∈ front, isBlank c = true) ∧
      (run ⟨[.array []], .firstItem⟩ rest).result? = some (.arr items) := by
  induction cs with
  | nil => cases h
  | cons c cs ih =>
    have hstep : step initial c = if isBlank c then initial else initial.start c := rfl
    rw [run_cons, hstep] at h
    split at h
    · next hblank =>
      obtain ⟨front, rest, rfl, hfront, hrest⟩ := ih h
      exact ⟨c :: front, rest, rfl, List.forall_mem_cons.2 ⟨hblank, hfront⟩, hrest⟩
    · by_cases hc : c = '['
      · subst hc
        exact ⟨[], cs, rfl, nofun, h⟩
      · have hnamed : (initial.start c).Named := (move_start (.inl rfl) c).named
        have hno := (moves_run hnamed cs).keeps Move.noArray (noArray_start hc)
        exact absurd h hno.result

end Reader

/-- The keys of what is read are distinct, in every object. -/
theorem parse_wellFormed {text : String} {v : Json} (h : parse text = some v) : v.WellFormed := by
  have hinitial : Reader.State.WellFormed Reader.initial := ⟨nofun, nofun⟩
  have hend := (Reader.moves_run Reader.named_initial text.toList).keeps
    Reader.Move.wellFormed hinitial
  exact hend.result h

end Json

end NodeRpc
