import NodeRpc.Proofs.Lookup.Batches
import NodeRpc.Proofs.Lookup.Grouping
import NodeRpc.Proofs.Lookup.Returns
import NodeRpc.Proofs.Lookup.Statuses

/-!
# What is loaded says what it is

An object that an account, a transaction or a block is loaded as has a field that says which one it
is: the one that was asked for, whatever the node sent under that name. The loaders see to it
whatever the node answers, and in a coalescer every load is answered with what bears its own key.
-/

namespace NodeRpc

/-! ### Marks -/

/-- If the entity came to an object, this has the identity of the entity in the field for it. -/
def Entity.Marks (e : Entity) (loaded : KeyResult) : Prop :=
  ∀ fields, loaded = .ok (.obj fields) → Table.get? fields e.field = some e.id

namespace Entity

theorem marks_error (e : Entity) (cause : LookupError) : e.Marks (.error cause) := nofun

theorem marks_null (e : Entity) : e.Marks (.ok .null) := nofun

theorem marks_set (e : Entity) (v : Json) : e.Marks (.ok (v.set e.field e.id)) := by
  intro fields h
  cases v with
  | obj fs =>
    obtain rfl : Table.put fs e.field e.id = fields := Json.obj.inj (Except.ok.inj h)
    rw [Table.get?_put, if_pos rfl]
  | _ => cases h

/-- Setting the field last marks whatever it was. -/
theorem marks_map_set (e : Entity) (r : KeyResult) :
    e.Marks (r.map fun v => v.set e.field e.id) := by
  cases r with
  | error cause => exact e.marks_error cause
  | ok v => exact e.marks_set v

end Entity

/-- The results of a batch that bear the keys at their places. -/
def BatchOutcome.Bears {κ : Type} (mark : κ → KeyResult → Prop) (keys : List κ) :
    BatchOutcome → Prop
  | .ok results => ∀ (i : Nat) k r, keys[i]? = some k → results[i]? = some r → mark k r
  | .error _ => True

/-! ### What a dialogue always comes to -/

namespace Dialogue

variable {α β : Type}

/-- Whatever is answered, the dialogue comes to a result with the property. -/
def Always (P : α → Prop) : Dialogue α → Prop
  | .done a => P a
  | .ask _ next => ∀ answer, (next answer).Always P

theorem Always.imp {P Q : α → Prop} {d : Dialogue α} (h : d.Always P) (hPQ : ∀ a, P a → Q a) :
    d.Always Q := by
  induction d with
  | done a => exact hPQ a h
  | ask a next ih => exact fun answer => ih answer (h answer)

theorem Always.map {P : β → Prop} {f : α → β} {d : Dialogue α} (h : d.Always fun a => P (f a)) :
    (d.map f).Always P := by
  induction d with
  | done a => exact h
  | ask a next ih => exact fun answer => ih answer (h answer)

end Dialogue

/-- An exchange fails as a whole, or goes on. -/
theorem always_exchange {α : Type} {P : α → Prop} {c : Client} {calls : List Call}
    {failed : CallError → α} {next : List Outcome → Dialogue α} (hfailed : ∀ cause, P (failed cause))
    (hnext : ∀ outcomes, (next outcomes).Always P) : (exchange c calls failed next).Always P := by
  intro answer
  cases answer with
  | error cause => exact hfailed cause
  | ok reply => exact hnext _

/-! ### Loaders -/

/-- What an account was loaded as says which one it is. -/
abbrev AccountKey.Marks (k : AccountKey) (r : KeyResult) : Prop := (Entity.account k).Marks r

/-- What a transaction was loaded as says which one it is. -/
abbrev TransactionKey.Marks (k : TransactionKey) (r : KeyResult) : Prop :=
  (Entity.transaction k).Marks r

theorem AccountKey.ComesTo.marks {k : AccountKey} {asked place : Nat}
    {answer : Except CallError (AtSlot (List (Option Json)))} {r : KeyResult}
    (h : k.ComesTo asked place answer r) : k.Marks r := by
  cases h with
  | found _ _ =>
    rw [← entity_eq]
    exact (Entity.account k).marks_set _
  | mismatch _ => exact Entity.marks_error _ _
  | failed cause => exact Entity.marks_error _ _

/-- Every account is marked with its address. -/
theorem always_loadAccounts (c : Client) (keys : List AccountKey) :
    (loadAccounts c keys).Always (BatchOutcome.Bears AccountKey.Marks keys) := by
  intro answer i k r hk hr
  rw [getElem?_dealResults, hk, Option.map_some] at hr
  obtain rfl := Option.some.inj hr
  generalize hgroups : List.zipWith _ _ _ = groups
  cases hgroup : Table.get? groups k.options with
  | none => exact Entity.marks_null _
  | some rs =>
    have hmem := Table.mem_of_get? hgroup
    rw [← hgroups, ← List.map_uncurry_zip_eq_zipWith] at hmem
    obtain ⟨⟨g, o⟩, hzip, heq⟩ := List.mem_map.1 hmem
    obtain ⟨options, -, rfl⟩ := List.mem_map.1 (List.of_mem_zip hzip).1
    obtain ⟨rfl, rfl⟩ := Prod.mk.inj heq
    obtain ⟨r, hr, hcomes⟩ := comesTo_groupResults (getElem?_keysWith hk)
      ((groupQuestion c (k.options, keysWith keys k.options)).read o)
    have hplace : ((some (groupResults (keysWith keys k.options)
        ((groupQuestion c (k.options, keysWith keys k.options)).read o))).bind fun rs =>
          rs[placeOf keys i k.options]?).getD (.ok .null) = r := by
      rw [Option.bind_some, hr, Option.getD_some]
    exact hplace ▸ hcomes.marks

theorem bears_signed (keys : List TransactionKey) (results : List KeyResult) :
    BatchOutcome.Bears TransactionKey.Marks keys (.ok (signed keys results)) := by
  intro i k r hk hr
  rw [signed, List.getElem?_zipWith, hk] at hr
  cases hresult : results[i]? with
  | none => simp [hresult] at hr
  | some r' =>
    rw [hresult] at hr
    obtain rfl := Option.some.inj hr
    exact (Entity.transaction k).marks_map_set r'

/-- Every transaction is marked with its signature, with or without a second exchange. -/
theorem always_loadTransactions (c : Client) (keys : List TransactionKey) :
    (loadTransactions c keys).Always (BatchOutcome.Bears TransactionKey.Marks keys) := by
  unfold loadTransactions
  refine always_exchange (fun _ => trivial) fun outcomes => ?_
  dsimp only
  split
  · split
    · exact bears_signed keys _
    · exact always_exchange (fun _ => trivial) fun parsed => bears_signed keys _
  · trivial

/-- A block is marked with its slot. -/
theorem always_loadBlock (c : Client) (slot : Nat) (o : BlockOptions) :
    (loadBlock c slot o).Always (Entity.block slot o).Marks := by
  refine Dialogue.Always.map fun answer => ?_
  dsimp only [Dialogue.Always]
  split
  · exact (Entity.block slot o).marks_set _
  · exact Entity.marks_error _ _

/-! ### Coalescers -/

namespace Coalescer

variable {κ : Type} {mark : κ → KeyResult → Prop} {c c' : Coalescer κ}

/-- What batches came to bears the keys of the batches. -/
def Bears (mark : κ → KeyResult → Prop) (c : Coalescer κ) : Prop :=
  ∃ loads ends, c.Books loads ends ∧ ∀ n outcome, (n, outcome) ∈ ends →
    ∃ b, c.batches[n]? = some b ∧ BatchOutcome.Bears mark b.keys outcome

/-- Loads keep their keys, and batches theirs. -/
structure Grows (c c' : Coalescer κ) : Prop where
  keyOf? : ∀ k key, c.keyOf? k = some key → c'.keyOf? k = some key
  batches : ∀ (n : Nat) b, c.batches[n]? = some b → ∃ b', c'.batches[n]? = some b' ∧ b'.keys = b.keys

theorem Grows.refl (c : Coalescer κ) : c.Grows c := ⟨fun _ _ h => h, fun _ b h => ⟨b, h, rfl⟩⟩

theorem Step.grows {e : Event κ} (h : Step c e c') : c.Grows c' := by
  refine ⟨fun k key hk => h.key hk, fun n b hb => ?_⟩
  by_cases hr : c.Relieves e
  · obtain ⟨-, new, hnew, -⟩ := h.relieved hr
    exact ⟨b, hnew ▸ getElem?_append_of_some hb new, rfl⟩
  · have hkept := congrArg (fun xs => xs[n]?) (h.kept hr)
    simp only [List.getElem?_map, hb, Option.map_some] at hkept
    obtain ⟨b', hb', heq⟩ := Option.map_eq_some_iff.1 hkept
    exact ⟨b', hb', (Prod.mk.inj heq).2⟩

theorem bears_empty (mark : κ → KeyResult → Prop) (limit : Nat) :
    Bears mark ({ limit } : Coalescer κ) :=
  ⟨[], [], books_empty limit, nofun⟩

/-- An event keeps this if the outcome that it may bring to a batch bears the keys of the batch. -/
theorem Bears.step (h : c.Bears mark) {e : Event κ} (he : Step c e c')
    (hbrings : ∀ n outcome b, e = .finish n outcome → c.batches[n]? = some b →
      BatchOutcome.Bears mark b.keys outcome) : c'.Bears mark := by
  obtain ⟨loads, ends, hbooks, hends⟩ := h
  refine ⟨_, _, hbooks.step he, fun n outcome hmem => ?_⟩
  have hkeep : ∀ b, c.batches[n]? = some b → BatchOutcome.Bears mark b.keys outcome →
      ∃ b', c'.batches[n]? = some b' ∧ BatchOutcome.Bears mark b'.keys outcome := by
    intro b hb hbears
    obtain ⟨b', hb', hkeys⟩ := he.grows.batches n b hb
    exact ⟨b', hb', hkeys ▸ hbears⟩
  rcases List.mem_append.1 hmem with hold | hnew
  · obtain ⟨b, hb, hbears⟩ := hends n outcome hold
    exact hkeep b hb hbears
  · unfold concludes at hnew
    split at hnew
    · next m outcome' =>
      split at hnew
      · next b hb =>
        split at hnew
        · simp at hnew
        · obtain ⟨rfl, rfl⟩ := Prod.mk.inj (List.mem_singleton.1 hnew)
          exact hkeep b hb (hbrings _ _ b rfl hb)
      · simp at hnew
    · simp at hnew

/-- A batch comes to what bears its keys. -/
theorem Bears.finish (h : c.Bears mark) {n : Nat} {b : Batch κ} {outcome : BatchOutcome}
    (hb : c.batches[n]? = some b) (ho : outcome.Bears mark b.keys) :
    (c.finish n outcome).Bears mark := by
  refine h.step (c.step_finish n outcome) fun m outcome' b' he hb' => ?_
  obtain ⟨rfl, rfl⟩ := Event.finish.inj he
  exact Option.some.inj (hb.symm.trans hb') ▸ ho

/-- Every answer bears the key of its load. -/
theorem Bears.answered (h : c.Bears mark) (herror : ∀ key cause, mark key (.error cause)) {k : Nat}
    {key : κ} {r : KeyResult} (hk : c.keyOf? k = some key) (hr : c.answerOf? k = some r) :
    mark key r := by
  obtain ⟨loads, ends, hbooks, hends⟩ := h
  obtain ⟨n, b, i, outcome, hb, hi, hmem, hshare⟩ := (hbooks.answered k r).1 hr
  obtain ⟨b', hb', hbears⟩ := hends n outcome hmem
  obtain rfl := Option.some.inj (hb.symm.trans hb')
  obtain ⟨x, hx, hkey, -⟩ := hbooks.join hb hi
  obtain rfl : x.key = key := by simpa [keyOf?, hx] using hk
  unfold Batch.share at hshare
  split at hshare
  · split at hshare
    · exact hbears i x.key r hkey hshare
    · obtain rfl := Option.some.inj hshare
      exact herror _ _
  · obtain rfl := Option.some.inj hshare
    exact herror _ _

end Coalescer

end NodeRpc
