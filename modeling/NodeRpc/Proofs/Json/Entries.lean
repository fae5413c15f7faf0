import NodeRpc.Proofs.Json.Moves

/-!
# The entries of an array

Inside an array the reader does with an entry what it would do with the entry alone, on top of the
open array, until a comma or a bracket ends the entry. So the text of an array falls apart into
texts that are read, each on its own, as its entries.
-/

namespace NodeRpc.Json

namespace Reader

/-! ### Alone and inside an array -/

/-- What holds of a reader that began with nothing open. -/
def State.Alone (s : State) : Prop :=
  match s.mode with
  | .done _ => s.stack = []
  | .after | .firstItem => s.stack ≠ []
  | _ => True

theorem alone_give (s : State) (v : Json) : (s.give v).Alone := by
  obtain ⟨stack, mode⟩ := s
  cases stack with
  | nil => rfl
  | cons k stack => cases k <;> exact List.cons_ne_nil _ _

theorem mode_give (s : State) (v : Json) :
    (s.give v).mode = .after ∨ ∃ w, (s.give v).mode = .done w := by
  obtain ⟨stack, mode⟩ := s
  cases stack with
  | nil => exact .inr ⟨v, rfl⟩
  | cons k stack => cases k <;> exact .inl rfl

theorem Move.alone {s s' : State} (h : Move s s') (_hs : s.Alone) : s'.Alone := by
  cases h with
  | @within _ _ mode' hw => cases mode' <;> trivial
  | openArray => exact List.cons_ne_nil _ _
  | give => exact alone_give _ _
  | closeArray => exact alone_give _ _
  | closeObject => exact alone_give _ _
  | _ => trivial

variable {items : List Json}

/-- What a reader that has come to `s` alone has come to inside an open array, behind `items`. -/
def State.inside (items : List Json) (s : State) : State :=
  match s.mode with
  | .done v => ⟨[.array (v :: items)], .after⟩
  | mode => ⟨s.stack ++ [.array items], mode⟩

/-- Inside the array the reader has come as far as alone, or it has failed. -/
def Follows (items : List Json) (s s' : State) : Prop :=
  s' = s.inside items ∨ s'.mode = .failed

/-- The value that is over when `c` comes next. -/
def State.ended? (s : State) (c : Char) : Option Json :=
  match s.stack, s.mode with
  | [], .done v => if isBlank c then none else some v
  | [], .number read => if inNumber c || isBlank c then none else number? read.reverse
  | _, _ => none

theorem give_inside (stack : List Container) (mode mode' : Mode) (v : Json) :
    State.give ⟨stack ++ [.array items], mode'⟩ v = (State.give ⟨stack, mode⟩ v).inside items := by
  cases stack with
  | nil => rfl
  | cons k stack => cases k <;> rfl

namespace Follows

theorem give (stack : List Container) (mode mode' : Mode) (v : Json) :
    Follows items (State.give ⟨stack, mode⟩ v) (State.give ⟨stack ++ [.array items], mode'⟩ v) :=
  .inl (give_inside stack mode mode' v)

theorem failed (s : State) {s' : State} : Follows items s s'.fail := .inr rfl

theorem ite {p : Prop} [Decidable p] {s s' t t' : State} (hthen : p → Follows items s s')
    (helse : ¬p → Follows items t t') :
    Follows items (if p then s else t) (if p then s' else t') := by
  split
  · exact hthen ‹p›
  · exact helse ‹¬p›

theorem openWith (stack : List Container) (mode mode' : Mode) {k : Container} {next : Mode}
    (hnext : ∀ v, next ≠ .done v) : Follows items (State.openWith ⟨stack, mode⟩ k next)
      (State.openWith ⟨stack ++ [.array items], mode'⟩ k next) := by
  by_cases hroom : (stack ++ [Container.array items]).length < deepest
  · -- there is more room where the array is not open
    have hroom' : stack.length < deepest := by
      rw [List.length_append] at hroom
      omega
    simp only [State.openWith, if_pos hroom, if_pos hroom']
    cases next with
    | done v => exact absurd rfl (hnext v)
    | _ => exact .inl rfl
  · simp only [State.openWith, if_neg hroom]
    exact failed _

theorem start (stack : List Container) (mode mode' : Mode) (c : Char) :
    Follows items (State.start ⟨stack, mode⟩ c)
      (State.start ⟨stack ++ [.array items], mode'⟩ c) := by
  unfold State.start
  refine ite (fun _ => .inl rfl) fun _ => ?_
  refine ite (fun _ => openWith stack mode mode' nofun) fun _ => ?_
  refine ite (fun _ => openWith stack mode mode' nofun) fun _ => ?_
  refine ite (fun _ => .inl rfl) fun _ => ?_
  refine ite (fun _ => .inl rfl) fun _ => ?_
  refine ite (fun _ => .inl rfl) fun _ => ?_
  exact ite (fun _ => .inl rfl) fun _ => failed _

theorem closeArray {stack : List Container} (hne : stack ≠ []) (mode mode' : Mode) :
    Follows items (State.closeArray ⟨stack, mode⟩)
      (State.closeArray ⟨stack ++ [.array items], mode'⟩) := by
  cases stack with
  | nil => exact absurd rfl hne
  | cons k stack =>
    cases k with
    | array => exact give stack .value .value _
    | object => exact failed _

theorem closeObject (stack : List Container) (mode mode' : Mode) :
    Follows items (State.closeObject ⟨stack, mode⟩)
      (State.closeObject ⟨stack ++ [.array items], mode'⟩) := by
  cases stack with
  | nil => exact failed _
  | cons k stack =>
    cases k with
    | array => exact failed _
    | object => exact give stack .value .value _

theorem separate {stack : List Container} (hne : stack ≠ []) (mode mode' : Mode) (c : Char) :
    Follows items (State.separate ⟨stack, mode⟩ c)
      (State.separate ⟨stack ++ [.array items], mode'⟩ c) := by
  obtain ⟨k, stack, rfl⟩ := List.exists_cons_of_ne_nil hne
  refine ite (fun _ => ?_) fun _ => ?_
  · cases k <;> exact .inl rfl
  · refine ite (fun _ => closeArray hne mode mode') fun _ => ?_
    exact ite (fun _ => closeObject _ mode mode') fun _ => failed _

theorem expectValueOf (stack : List Container) (mode mode' : Mode) (key : String) :
    Follows items (State.expectValueOf ⟨stack, mode⟩ key)
      (State.expectValueOf ⟨stack ++ [.array items], mode'⟩ key) := by
  cases stack with
  | nil => exact failed _
  | cons k stack =>
    cases k with
    | array => exact failed _
    | object => exact .inl rfl

theorem endText (stack : List Container) (mode mode' : Mode) (role : Role) (read : List Char) :
    Follows items (State.endText ⟨stack, mode⟩ role read)
      (State.endText ⟨stack ++ [.array items], mode'⟩ role read) := by
  cases role with
  | value => exact give stack mode mode' _
  | key => exact .inl rfl

theorem endUnit (stack : List Container) (mode mode' : Mode) (role : Role) (read : List Char)
    (high : Option Nat) (u : Nat) :
    Follows items (State.endUnit ⟨stack, mode⟩ role read high u)
      (State.endUnit ⟨stack ++ [.array items], mode'⟩ role read high u) := by
  cases high with
  | none => exact ite (fun _ => .inl rfl) fun _ => ite (fun _ => failed _) fun _ => .inl rfl
  | some h => exact ite (fun _ => .inl rfl) fun _ => failed _

theorem afterValue {s : State} (h : s.Alone) {c : Char} (hend : s.ended? c = none)
    (hmode : s.mode = .after ∨ ∃ v, s.mode = .done v) :
    Follows items (s.afterValue c) ((s.inside items).afterValue c) := by
  refine ite (fun _ => .inl rfl) fun hblank => ?_
  obtain ⟨stack, mode⟩ := s
  rcases hmode with rfl | ⟨v, rfl⟩
  · exact separate h _ _ c
  · obtain rfl : stack = [] := h
    simp [State.ended?, hblank] at hend

/-- The next character does the same alone and inside the array, unless it ends the value. -/
theorem step {s : State} (h : s.Alone) {c : Char} (hend : s.ended? c = none) :
    Follows items (Reader.step s c) (Reader.step (s.inside items) c) := by
  obtain ⟨stack, mode⟩ := s
  cases mode with
  | value => exact ite (fun _ => .inl rfl) fun _ => start stack _ _ c
  | firstItem =>
    refine ite (fun _ => .inl rfl) fun _ => ?_
    exact ite (fun _ => closeArray h _ _) fun _ => start stack _ _ c
  | firstKey =>
    refine ite (fun _ => .inl rfl) fun _ => ite (fun _ => .inl rfl) fun _ => ?_
    exact ite (fun _ => closeObject stack _ _) fun _ => failed _
  | nextKey =>
    exact ite (fun _ => .inl rfl) fun _ => ite (fun _ => .inl rfl) fun _ => failed _
  | colon key =>
    refine ite (fun _ => .inl rfl) fun _ => ?_
    exact ite (fun _ => expectValueOf stack _ _ key) fun _ => failed _
  | after => exact afterValue h hend (.inl rfl)
  | done v => exact afterValue h hend (.inr ⟨v, rfl⟩)
  | text role read =>
    refine ite (fun _ => endText stack _ _ role read) fun _ => ite (fun _ => .inl rfl) fun _ => ?_
    exact ite (fun _ => failed _) fun _ => .inl rfl
  | escape role read =>
    refine ite (fun _ => .inl rfl) fun _ => ?_
    cases unescape? c with
    | none => exact failed _
    | some d => exact .inl rfl
  | unit role read high left code =>
    simp only [State.inside, Reader.step]
    cases hexValue? c with
    | none => exact failed _
    | some d => exact ite (fun _ => endUnit stack _ _ role read high _) fun _ => .inl rfl
  | lowEscape role read high => exact ite (fun _ => .inl rfl) fun _ => failed _
  | lowUnit role read high => exact ite (fun _ => .inl rfl) fun _ => failed _
  | word left v =>
    cases left with
    | nil => exact failed _
    | cons d left =>
      cases left with
      | nil => exact ite (fun _ => give stack _ _ v) fun _ => failed _
      | cons e left => exact ite (fun _ => .inl rfl) fun _ => failed _
  | number read =>
    refine ite (fun _ => .inl rfl) fun hnumber => ?_
    cases hread : number? read.reverse with
    | none => exact failed _
    | some v =>
      have hgoes : (State.give ⟨stack, .number read⟩ v).ended? c = none := by
        cases stack with
        | nil => simpa [State.ended?, State.give, hnumber, hread] using hend
        | cons k stack => cases k <;> rfl
      have hafter : Follows items _ _ := afterValue (alone_give _ v) hgoes (mode_give _ v)
      rwa [← give_inside stack _ (.number read) v] at hafter
  | failed => exact .inr rfl

end Follows

/-! ### Splitting -/

theorem run_failed {s : State} (h : s.mode = .failed) (cs : List Char) :
    (run s cs).result? = none := by
  obtain ⟨stack, mode⟩ := s
  obtain rfl : mode = .failed := h
  induction cs with
  | nil => cases stack <;> rfl
  | cons c cs ih => exact ih

/-- Behind a value nothing but blanks may come. -/
theorem run_done {v w : Json} {cs : List Char} (h : (run ⟨[], .done v⟩ cs).result? = some w) :
    (∀ c ∈ cs, isBlank c = true) ∧ w = v := by
  induction cs with
  | nil => exact ⟨nofun, (Option.some.inj h).symm⟩
  | cons c cs ih =>
    have hstep : step ⟨[], .done v⟩ c = if isBlank c then ⟨[], .done v⟩ else ⟨[], .failed⟩ := rfl
    rw [run_cons, hstep] at h
    split at h
    · next hblank =>
      obtain ⟨hall, heq⟩ := ih h
      exact ⟨List.forall_mem_cons.2 ⟨hblank, hall⟩, heq⟩
    · rw [run_failed rfl] at h
      cases h

/-- A value that is over alone is handed over inside the array. -/
theorem step_of_ended {s : State} {c : Char} {v : Json} (h : s.ended? c = some v) :
    s.result? = some v ∧
      step (s.inside items) c = State.separate ⟨[.array (v :: items)], .after⟩ c := by
  obtain ⟨stack, mode⟩ := s
  unfold State.ended? at h
  split at h
  · next hstack hmode =>
    obtain rfl : stack = [] := hstack
    obtain rfl : mode = _ := hmode
    split at h
    · cases h
    · next hblank =>
      cases h
      exact ⟨rfl, if_neg hblank⟩
  · next read hstack hmode =>
    obtain rfl : stack = [] := hstack
    obtain rfl : mode = _ := hmode
    split at h
    · cases h
    · next hother =>
      rw [Bool.or_eq_true, not_or] at hother
      refine ⟨h, ?_⟩
      simp only [State.inside, step, if_neg hother.1, h]
      exact if_neg hother.2
  · cases h

theorem result?_inside (s : State) : (s.inside items).result? = none := by
  obtain ⟨stack, mode⟩ := s
  cases mode with
  | done v => rfl
  | _ => cases stack <;> rfl

/-- Inside an array, a text that is read to the end begins with the text of an entry. -/
theorem entry_of_run {s : State} (h : s.Alone) (hnamed : s.Named) {cs : List Char} {w : Json}
    (hw : (run (s.inside items) cs).result? = some w) :
    ∃ entry c rest v, cs = entry ++ c :: rest ∧ (run s entry).result? = some v ∧
      (c = ',' ∨ c = ']') ∧
      (run (State.separate ⟨[.array (v :: items)], .after⟩ c) rest).result? = some w := by
  induction cs generalizing s with
  | nil =>
    have hnone : (run (s.inside items) []).result? = none := result?_inside s
    rw [hnone] at hw
    cases hw
  | cons c cs ih =>
    cases hend : s.ended? c with
    | some v =>
      obtain ⟨hresult, hstep⟩ := step_of_ended hend
      rw [run_cons, hstep] at hw
      refine ⟨[], c, cs, v, rfl, hresult, ?_, hw⟩
      by_contra hc
      rw [not_or] at hc
      have hfailed : (State.separate ⟨[.array (v :: items)], .after⟩ c).mode = .failed := by
        rw [State.separate, if_neg hc.1, if_neg hc.2]
        split <;> rfl
      rw [run_failed hfailed] at hw
      cases hw
    | none =>
      rcases Follows.step h hend with hstep | hfailed
      · rw [run_cons, hstep] at hw
        obtain ⟨entry, d, rest, v, rfl, hread, hd, hrest⟩ :=
          ih ((moves_step hnamed c).keeps Move.alone h) (named_step hnamed c) hw
        exact ⟨c :: entry, d, rest, v, rfl, hread, hd, hrest⟩
      · rw [run_cons, run_failed hfailed] at hw
        cases hw

/-- Inside an array, where a value comes next, a text that is read to the end is made of the texts
of entries with commas between them, up to the bracket that closes the array. -/
theorem entries_of_run {cs : List Char} {items : List Json} {w : Json}
    (hw : (run ⟨[.array items], .value⟩ cs).result? = some w) :
    ∃ texts values back, texts ≠ [] ∧ cs = [','].intercalate texts ++ ']' :: back ∧
      (∀ c ∈ back, isBlank c = true) ∧
      List.Forall₂ (fun t v => (run initial t).result? = some v) texts values ∧
      w = .arr (items.reverse ++ values) := by
  induction hn : cs.length using Nat.strongRecOn generalizing cs items with
  | _ n ih =>
    obtain ⟨entry, c, rest, v, rfl, hread, hc, hrest⟩ :=
      entry_of_run (s := initial) trivial named_initial hw
    rcases hc with rfl | rfl
    · obtain ⟨texts, values, back, hne, rfl, hback, hreads, rfl⟩ :=
        ih rest.length (by simp [← hn]; omega) hrest rfl
      refine ⟨entry :: texts, v :: values, back, List.cons_ne_nil _ _, ?_, hback,
        .cons hread hreads, ?_⟩
      · rw [List.intercalate_cons_of_ne_nil hne]
        simp
      · simp
    · obtain ⟨hback, rfl⟩ := run_done (v := .arr (v :: items).reverse) hrest
      refine ⟨[entry], [v], rest, List.cons_ne_nil _ _, ?_, hback, .cons hread .nil, ?_⟩
      · rw [List.intercalate_singleton]
      · simp

/-- Where an array has just been opened, it is closed behind blanks, or a value comes next. -/
theorem closed_or_value {cs : List Char} {w : Json}
    (hw : (run ⟨[.array []], .firstItem⟩ cs).result? = some w) :
    (∃ inner back, cs = inner ++ ']' :: back ∧ (∀ c ∈ inner, isBlank c = true) ∧
      (run ⟨[], .done (.arr [])⟩ back).result? = some w) ∨
      (run ⟨[.array []], .value⟩ cs).result? = some w := by
  induction cs with
  | nil => cases hw
  | cons c cs ih =>
    by_cases hblank : isBlank c
    · have hfirst : step ⟨[.array []], .firstItem⟩ c = ⟨[.array []], .firstItem⟩ := if_pos hblank
      have hvalue : step ⟨[.array []], .value⟩ c = ⟨[.array []], .value⟩ := if_pos hblank
      rw [run_cons, hfirst] at hw
      rw [run_cons, hvalue]
      refine (ih hw).imp_left ?_
      rintro ⟨inner, back, rfl, hinner, hback⟩
      exact ⟨c :: inner, back, rfl, List.forall_mem_cons.2 ⟨hblank, hinner⟩, hback⟩
    by_cases hclose : c = ']'
    · subst hclose
      exact .inl ⟨[], cs, rfl, nofun, hw⟩
    · refine .inr ?_
      have hfirst : step ⟨[.array []], .firstItem⟩ c = step ⟨[.array []], .value⟩ c := by
        simp only [step, if_neg hblank, if_neg hclose]
        rfl
      rwa [run_cons, hfirst] at hw

end Reader

/-- Nothing but blanks. -/
def Blank (s : String) : Prop := ∀ c ∈ s.toList, Reader.isBlank c = true

/-- The text of an array whose entries have the texts `texts`. -/
def IsArrayOf (texts : List String) (text : String) : Prop :=
  ∃ front inner back, text = front ++ "[" ++ inner ++ "]" ++ back ∧ Blank front ∧ Blank back ∧
    (inner = ",".intercalate texts ∨ texts = [] ∧ Blank inner)

/-- The text that is read as an array is the text of an array, and each of its entries is read from
its own text. -/
theorem isArrayOf_of_parse {text : String} {entries : List Json}
    (h : parse text = some (.arr entries)) :
    ∃ texts, IsArrayOf texts text ∧ texts.map parse = entries.map some := by
  obtain ⟨front, rest, htext, hfront, hrest⟩ := Reader.opened_of_array h
  have hback : ∀ back : List Char, (∀ c ∈ back, Reader.isBlank c = true) →
      Blank (String.ofList back) := by
    intro back hback
    rwa [Blank, String.toList_ofList]
  rcases Reader.closed_or_value hrest with ⟨inner, back, rfl, hinner, hdone⟩ | hvalue
  · obtain ⟨hblank, hentries⟩ := Reader.run_done hdone
    obtain rfl : entries = [] := Json.arr.inj hentries
    refine ⟨[], ⟨String.ofList front, String.ofList inner, String.ofList back, ?_, hback _ hfront,
      hback _ hblank, .inr ⟨rfl, hback _ hinner⟩⟩, rfl⟩
    apply String.toList_inj.1
    simp [htext]
  · obtain ⟨texts, values, back, -, rfl, hblank, hreads, hentries⟩ := Reader.entries_of_run hvalue
    obtain rfl : entries = values := Json.arr.inj hentries
    refine ⟨texts.map String.ofList, ⟨String.ofList front, ",".intercalate (texts.map String.ofList),
      String.ofList back, ?_, hback _ hfront, hback _ hblank, .inl rfl⟩, ?_⟩
    · apply String.toList_inj.1
      simp [htext, String.toList_intercalate]
    · have hmap : ∀ {texts values}, List.Forall₂ (fun t v =>
          (Reader.run Reader.initial t).result? = some v) texts values →
          (texts.map String.ofList).map parse = values.map some := by
        intro texts values hreads
        induction hreads with
        | nil => rfl
        | @cons t v ts vs hread _ ih =>
          have hparse : parse (String.ofList t) = some v := by
            rw [parse, String.toList_ofList]
            exact hread
          simp only [List.map_cons, ih, hparse]
      exact hmap hreads

end NodeRpc.Json
