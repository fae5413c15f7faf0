import NodeRpc.Proofs.Lookup.Courses

/-!
# Who shares an entry of the scope

Accounts, transactions and blocks are looked up through one context in any order; lookups may be
given up, and what was found may be forgotten. Every lookup goes to the scope with a key of its own.
Two lookups have the same key, and so the same entry, if and only if they are of one kind, have the
same identity, and have options that are the same once they are filled in.
-/

namespace NodeRpc

/-! ### What is asked for -/

/-- What a caller asks for, with options as the caller gave them. -/
inductive Wanted where
  | account (address : String) (options : AccountOptions)
  | transaction (signature : String) (options : TransactionOptions)
  | block (slot : Nat) (options : BlockOptions)

namespace Wanted

/-- The entity, with options filled in. -/
def entity (c : Client) : Wanted → Entity
  | .account address o => .ofAccount c address o
  | .transaction signature o => .ofTransaction c signature o
  | .block slot o => .ofBlock c slot o

/-- Two callers ask for the same: for one kind, with equal identities, and with options that are
equal once they are filled in. -/
def Same (c : Client) : Wanted → Wanted → Prop
  | .account a o, .account b p => a = b ∧ o.normalized c.commitment = p.normalized c.commitment
  | .transaction a o, .transaction b p =>
    a = b ∧ o.normalized c.commitment = p.normalized c.commitment
  | .block a o, .block b p => a = b ∧ o.normalized c.commitment = p.normalized c.commitment
  | _, _ => False

theorem entity_eq_iff {c : Client} {v w : Wanted} : v.entity c = w.entity c ↔ v.Same c w := by
  cases v <;> cases w <;>
    simp [entity, Same, Entity.ofAccount, Entity.ofTransaction, Entity.ofBlock]

/-- The keys are the same if and only if the same is asked for. -/
theorem key_eq_iff {c : Client} {v w : Wanted} :
    (v.entity c).key = (w.entity c).key ↔ v.Same c w := by
  rw [← entity_eq_iff]
  exact ⟨Entity.key_inj, congrArg Entity.key⟩

end Wanted

/-! ### Keys of resolves -/

namespace Resolves

theorem keyOf?_take (r : Resolves) (k : Nat) (x : Resolve) (n j : Nat) :
    (r.take k x n).keyOf? j = r.keyOf? j := by
  unfold take
  split
  · exact keyOf?_setStage _ k _ j
  · exact r.keyOf?_setStage k _ j

/-- A turn changes nobody's key. -/
theorem keyOf?_run (r : Resolves) (k j : Nat) : (r.run k).keyOf? j = r.keyOf? j := by
  unfold run
  split
  · rfl
  · split
    · split
      · exact r.keyOf?_setStage k _ j
      · exact keyOf?_take _ k _ _ j
    · exact r.keyOf?_take k _ _ j
    · rfl
    · rfl

end Resolves

namespace Context

variable {ν : Type}

/-- The lookups stay, what they seek, and the keys with which they go to the scope. -/
structure KeepsKeys (x x' : Context ν) : Prop where
  lookups : x'.lookups = x.lookups
  sought : x'.sought = x.sought
  keys : ∀ r, x'.resolves.keyOf? r = x.resolves.keyOf? r

theorem KeepsKeys.refl (x : Context ν) : x.KeepsKeys x := ⟨rfl, rfl, fun _ => rfl⟩

theorem KeepsKeys.trans {x x' x'' : Context ν} (h : x.KeepsKeys x') (h' : x'.KeepsKeys x'') :
    x.KeepsKeys x'' :=
  ⟨h'.lookups.trans h.lookups, h'.sought.trans h.sought,
    fun r => (h'.keys r).trans (h.keys r)⟩

theorem enter_keepsKeys (x : Context ν) (r : Nat) : x.KeepsKeys (x.enter r) := by
  have hbegin : ∀ (y : Context ν) (e : Entity), y.KeepsKeys (y.begin e) := by
    intro y e
    cases e <;> exact ⟨rfl, rfl, fun _ => rfl⟩
  have hrun : x.KeepsKeys { x with resolves := x.resolves.run r } :=
    ⟨rfl, rfl, x.resolves.keyOf?_run r⟩
  unfold enter
  dsimp only
  split
  · cases x.sought[r]? with
    | none => exact hrun
    | some e => exact hrun.trans (hbegin _ e)
  · exact hrun

theorem runTalk_keepsKeys (respond : Respondent ν) (x : Context ν) (t : Nat) :
    x.KeepsKeys (x.runTalk respond t) := by
  have hconverse : ∀ d, x.KeepsKeys (x.converse respond t d) := by
    intro d
    unfold converse
    split
    · next c _ _ => cases c <;> exact ⟨rfl, rfl, fun _ => rfl⟩
    · exact ⟨rfl, rfl, fun _ => rfl⟩
  unfold runTalk
  split
  · exact hconverse _
  · exact hconverse _
  · exact .refl x

theorem pollLoad_keepsKeys (respond : Respondent ν) (x : Context ν) (n : Nat) :
    x.KeepsKeys (x.pollLoad respond n) := by
  unfold pollLoad
  split
  · dsimp only
    cases (x.putAccounts _).accounts.result? _ <;> exact ⟨rfl, rfl, fun _ => rfl⟩
  · dsimp only
    cases (x.putTransactions _).transactions.result? _ <;> exact ⟨rfl, rfl, fun _ => rfl⟩
  · exact runTalk_keepsKeys respond x _
  · exact .refl x

theorem attend_keepsKeys (respond : Respondent ν) (x : Context ν) (r : Nat) :
    x.KeepsKeys (x.attend respond r) :=
  attend_keeps (P := x.KeepsKeys) (fun y h => h.trans (y.enter_keepsKeys r))
    (fun y n h => h.trans (pollLoad_keepsKeys respond y n)) (.refl x)

theorem sweep_keepsKeys (x : Context ν) : x.KeepsKeys x.sweep := by
  have hdrop : ∀ (y : Context ν) (n : Nat), y.KeepsKeys (y.dropLoad n) := by
    intro y n
    unfold dropLoad
    split <;> exact ⟨rfl, rfl, fun _ => rfl⟩
  have hfold : ∀ (ps : List (Load × Nat)) (y : Context ν),
      y.KeepsKeys (ps.foldl (fun x p => x.dropLoad p.2) y) := by
    intro ps
    induction ps with
    | nil => exact fun y => .refl y
    | cons p ps ih => exact fun y => (hdrop y p.2).trans (ih _)
  exact hfold _ x

theorem deliver_keepsKeys (x : Context ν) (t : Nat) (answer : Answer) :
    x.KeepsKeys (x.deliver t answer) := by
  unfold deliver
  split <;> exact ⟨rfl, rfl, fun _ => rfl⟩

/-! ### Who goes to the scope -/

/-- The lookup that goes to the scope at an event for the first time, and the resolve by which it
does. -/
def visits (x : Context ν) : Event → List (Nat × Nat)
  | .poll k =>
    match x.lookups[k]? with
    | some { inquiry := .seeks .., resolve := none, dropped := false } =>
      [(k, x.resolves.resolves.length)]
    | _ => []
  | _ => []

/-- What holds of a context in which the inquiries `started` were started, in this order, and where
the lookups of `seen` have gone to the scope by the resolves beside them. -/
structure Traced (started : List Inquiry) (seen : List (Nat × Nat)) (x : Context ν) : Prop where
  keys : ∀ r, x.resolves.keyOf? r = (x.sought[r]?).map Entity.key
  length : x.lookups.length = started.length
  /-- A lookup of an entity by itself seeks nothing else. -/
  lookups : ∀ (k : Nat) e l, started[k]? = some (.seeks e .itself) → x.lookups[k]? = some l →
    l.inquiry = .seeks e .itself ∨ ∃ result, l.inquiry = .ended result
  seen : ∀ (k r : Nat), (k, r) ∈ seen → k < started.length ∧
    ∀ e, started[k]? = some (.seeks e .itself) → x.sought[r]? = some e

variable {started : List Inquiry} {seen : List (Nat × Nat)} {x x' : Context ν}

theorem traced_ofGraph (g : Graph) (node : ν) : Traced [] [] (ofGraph g node) where
  keys r := by simp [ofGraph, Resolves.keyOf?]
  length := rfl
  lookups k e l h := by simp at h
  seen k r h := by simp at h

theorem Traced.keep (hx : Traced started seen x) (h : x.KeepsKeys x') : Traced started seen x' where
  keys r := by rw [h.keys, h.sought, hx.keys]
  length := h.lookups ▸ hx.length
  lookups := h.lookups ▸ hx.lookups
  seen := h.sought ▸ hx.seen

/-- Every resolve seeks something. -/
theorem Traced.soughtLength (hx : Traced started seen x) :
    x.sought.length = x.resolves.resolves.length := Resolves.length_of_sought hx.keys

theorem Traced.seek (hx : Traced started seen x) (e : Entity) : Traced started seen (x.seek e) where
  keys := Resolves.keyOf?_make_sought hx.keys e
  length := hx.length
  lookups := hx.lookups
  seen k r h :=
    ⟨(hx.seen k r h).1, fun e' hk => getElem?_append_of_some ((hx.seen k r h).2 e' hk) _⟩

/-- A lookup may stay with what it seeks, or come to an end. -/
theorem Traced.setLookup (hx : Traced started seen x) {k : Nat} {l l' : Lookup}
    (hl : x.lookups[k]? = some l)
    (h : ∀ e, l.inquiry = .seeks e .itself ∨ (∃ result, l.inquiry = .ended result) →
      l'.inquiry = .seeks e .itself ∨ ∃ result, l'.inquiry = .ended result) :
    Traced started seen (x.setLookup k l') where
  keys := hx.keys
  length := by simp [Context.setLookup, hx.length]
  lookups j e m hj hm := by
    rcases getElem?_set_cases hm with ⟨rfl, rfl⟩ | ⟨_, hm⟩
    · exact h e (hx.lookups k e l hj hl)
    · exact hx.lookups j e m hj hm
  seen := hx.seen

theorem Traced.pursue (hx : Traced started seen x) (respond : Respondent ν) {k : Nat} {e : Entity}
    {goal : Goal} {resolve : Option Nat}
    (hl : x.lookups[k]? = some { inquiry := .seeks e goal, resolve }) :
    Traced started seen (x.pursue respond k e goal resolve) := by
  have hy : Traced started seen (if resolve.isSome then x else x.seek e) := by
    split
    · exact hx
    · exact hx.seek e
  have hlookups : (if resolve.isSome then x else x.seek e).lookups = x.lookups := by
    split <;> rfl
  have hkeep := attend_keepsKeys respond (if resolve.isSome then x else x.seek e)
    (resolve.getD x.resolves.resolves.length)
  refine (hy.keep hkeep).setLookup (by rw [hkeep.lookups, hlookups, hl]) fun e' hcome => ?_
  obtain ⟨rfl, rfl⟩ : e = e' ∧ goal = .itself := by simpa using hcome
  unfold lookupNext
  split
  · rw [Inquiry.after_itself]
    exact .inr ⟨_, rfl⟩
  · exact .inl rfl

theorem Traced.pollUpTo (hx : Traced started seen x) (respond : Respondent ν) (fuel k : Nat) :
    Traced started seen (pollUpTo respond fuel x k) :=
  pollUpTo_keeps (fun _ _ _ _ hy hl => hy.pursue respond hl) fuel hx

/-- Whatever is sought in a turn is sought after it. -/
theorem sought_pollUpTo (respond : Respondent ν) (fuel : Nat) (x : Context ν) (k : Nat) {r : Nat}
    {e : Entity} (h : x.sought[r]? = some e) : (pollUpTo respond fuel x k).sought[r]? = some e := by
  refine pollUpTo_keeps (P := fun y => y.sought[r]? = some e) (fun y f goal resolve hy _ => ?_) fuel h
  unfold pursue
  dsimp only
  show ((if resolve.isSome then y else y.seek f).attend respond _).sought[r]? = some e
  rw [(attend_keepsKeys respond _ _).sought]
  split
  · exact hy
  · exact getElem?_append_of_some hy _

/-- The resolve by which a lookup goes to the scope seeks what the lookup seeks. -/
theorem Traced.sought_poll (hx : Traced started seen x) (respond : Respondent ν) {k : Nat}
    {e : Entity} {goal : Goal} (hl : x.lookups[k]? = some { inquiry := .seeks e goal }) :
    (x.poll respond k).sought[x.resolves.resolves.length]? = some e := by
  have hnew : (x.pursue respond k e goal none).sought[x.resolves.resolves.length]? = some e := by
    show ((x.seek e).attend respond _).sought[x.resolves.resolves.length]? = some e
    rw [(attend_keepsKeys respond _ _).sought, ← hx.soughtLength]
    simp [Context.seek]
  unfold Context.poll
  rw [(sweep_keepsKeys _).sought]
  rcases pollUpTo_pursue respond (x.scope.entries.length + 1) hl with h | h
  · rw [h]
    exact hnew
  · rw [h]
    exact sought_pollUpTo respond _ _ k hnew

theorem Traced.poll (hx : Traced started seen x) (respond : Respondent ν) (k : Nat) :
    Traced started (seen ++ x.visits (.poll k)) (x.poll respond k) := by
  have hy := (hx.pollUpTo respond (x.scope.entries.length + 2) k).keep (sweep_keepsKeys _)
  refine ⟨hy.keys, hy.length, hy.lookups, fun j r hmem => ?_⟩
  rcases List.mem_append.1 hmem with hmem | hmem
  · exact hy.seen j r hmem
  · unfold visits at hmem
    dsimp only at hmem
    split at hmem
    · next e' goal hl =>
      obtain ⟨rfl, rfl⟩ := Prod.mk.inj (List.mem_singleton.1 hmem)
      refine ⟨hx.length ▸ (List.getElem?_eq_some_iff.1 hl).1, fun e hj => ?_⟩
      have hcome := hx.lookups j e _ hj hl
      obtain ⟨rfl, rfl⟩ : e' = e ∧ goal = .itself := by simpa using hcome
      exact hx.sought_poll respond hl
    · simp at hmem

theorem Traced.start (hx : Traced started seen x) (i : Inquiry) :
    Traced (started ++ [i]) seen (x.start i) where
  keys := hx.keys
  length := by simp [Context.start, hx.length]
  lookups k e l hk hl := by
    have hl : (x.lookups ++ [{ inquiry := i }])[k]? = some l := hl
    rw [getElem?_concat] at hk hl
    rw [hx.length] at hl
    split at hk
    · next heq =>
      rw [if_pos heq] at hl
      obtain rfl := Option.some.inj hl
      exact .inl (Option.some.inj hk)
    · next hne =>
      rw [if_neg hne] at hl
      exact hx.lookups k e l hk hl
  seen k r h := by
    obtain ⟨hlt, hsought⟩ := hx.seen k r h
    rw [List.length_append, List.getElem?_append_left hlt]
    exact ⟨Nat.lt_add_right _ hlt, hsought⟩

theorem Traced.drop (hx : Traced started seen x) (k : Nat) : Traced started seen (x.drop k) := by
  unfold Context.drop
  split
  · next l hl =>
    have hkeys : x.KeepsKeys { x with resolves := l.resolve.elim x.resolves x.resolves.drop } := by
      refine ⟨rfl, rfl, fun r => ?_⟩
      cases l.resolve with
      | none => rfl
      | some i => exact x.resolves.keyOf?_drop i r
    have hgiven : Traced started seen ({ x with
        resolves := l.resolve.elim x.resolves x.resolves.drop }.setLookup k
          { l with dropped := true }) := (hx.keep hkeys).setLookup hl fun _ h => h
    exact hgiven.keep (sweep_keepsKeys _)
  · exact hx

/-- The inquiries that are started by an event. -/
def Event.starts (e : Event) : List Inquiry := e.started?.toList

/-- An event that starts no lookup and lets none go to the scope. -/
theorem Traced.quiet (hx : Traced started seen x') {e : Event} (hstarts : e.starts = [])
    (hvisits : x.visits e = []) : Traced (started ++ e.starts) (seen ++ x.visits e) x' := by
  rwa [hstarts, hvisits, List.append_nil, List.append_nil]

theorem Traced.apply (hx : Traced started seen x) (respond : Respondent ν) (e : Event) :
    Traced (started ++ e.starts) (seen ++ x.visits e) (x.apply respond e) := by
  cases e with
  | start i =>
    rw [show x.visits (.start i) = [] from rfl, List.append_nil]
    exact hx.start i
  | poll k =>
    rw [show (Event.poll k).starts = [] from rfl, List.append_nil]
    exact hx.poll respond k
  | drop k => exact (hx.drop k).quiet rfl rfl
  | runTalk t =>
    unfold Context.apply
    dsimp only
    split
    · exact (hx.keep (runTalk_keepsKeys respond x t)).quiet rfl rfl
    · exact hx.quiet rfl rfl
  | deliver t answer => exact (hx.keep (x.deliver_keepsKeys t answer)).quiet rfl rfl
  | teardown =>
    have hclear : x.KeepsKeys { x with resolves := x.resolves.clear } := ⟨rfl, rfl, fun _ => rfl⟩
    exact (hx.keep (hclear.trans (sweep_keepsKeys _))).quiet rfl rfl

theorem traced_after (respond : Respondent ν) (g : Graph) (node : ν) (events : List Event) :
    Traced (events.filterMap Event.started?)
      (observed (apply respond) visits (ofGraph g node) events)
      ((ofGraph g node).after respond events) := by
  induction events using List.reverseRecOn with
  | nil => exact traced_ofGraph g node
  | append_singleton events e ih =>
    have hstarted : [e].filterMap Event.started? = e.starts := by
      cases e <;> rfl
    rw [after_concat, observed_concat, List.filterMap_append, hstarted]
    exact ih.apply respond e

/-- In every run, two lookups of which each is for an entity by itself and not answered by its
identity alone go to the scope with the same key if and only if the same is asked for. -/
theorem shares_entry_iff (respond : Respondent ν) (g : Graph) (node : ν) {events : List Event}
    {v w : Wanted} {p q : Selection} {i j r s : Nat}
    (hi : (events.filterMap Event.started?)[i]? = some (.select (v.entity g.client) p))
    (hp : p.only (v.entity g.client).field = false)
    (hj : (events.filterMap Event.started?)[j]? = some (.select (w.entity g.client) q))
    (hq : q.only (w.entity g.client).field = false)
    (hr : (i, r) ∈ observed (apply respond) visits (ofGraph g node) events)
    (hs : (j, s) ∈ observed (apply respond) visits (ofGraph g node) events) :
    ∃ key key', ((ofGraph g node).after respond events).resolves.keyOf? r = some key ∧
      ((ofGraph g node).after respond events).resolves.keyOf? s = some key' ∧
      (key = key' ↔ v.Same g.client w) := by
  have hx := traced_after respond g node events
  have hkey : ∀ {k t : Nat} {u : Wanted} {selection : Selection},
      (events.filterMap Event.started?)[k]? = some (.select (u.entity g.client) selection) →
      selection.only (u.entity g.client).field = false →
      (k, t) ∈ observed (apply respond) visits (ofGraph g node) events →
      ((ofGraph g node).after respond events).resolves.keyOf? t =
        some (u.entity g.client).key := by
    intro k t u selection hk hselection ht
    have hseeks : Inquiry.select (u.entity g.client) selection =
        .seeks (u.entity g.client) .itself := by simp [Inquiry.select, hselection]
    rw [hx.keys, (hx.seen k t ht).2 _ (hk.trans (congrArg some hseeks))]
    rfl
  exact ⟨_, _, hkey hi hp hr, hkey hj hq hs, Wanted.key_eq_iff⟩

/-- An account, the same with the commitment named that is filled in anyway, and a transaction whose
signature reads like the address. -/
def lookAlike : List Wanted :=
  [.account "7" {}, .account "7" { commitment := some .confirmed }, .transaction "7" {}]

/-- All three are looked up with all their fields. -/
def lookUpAlike : List Event :=
  lookAlike.map (fun w => .start (.select (w.entity {}) .all)) ++ [.poll 0, .poll 1, .poll 2]

/-- The two of the account have the same key, and that of the transaction has another one. -/
theorem shares_entry_of_accounts :
    (∃ key, ((ofGraph ⟨{}, 3⟩ ()).after silent lookUpAlike).resolves.keyOf? 0 = some key ∧
      ((ofGraph ⟨{}, 3⟩ ()).after silent lookUpAlike).resolves.keyOf? 1 = some key) ∧
    ∃ key key', ((ofGraph ⟨{}, 3⟩ ()).after silent lookUpAlike).resolves.keyOf? 0 = some key ∧
      ((ofGraph ⟨{}, 3⟩ ()).after silent lookUpAlike).resolves.keyOf? 2 = some key' ∧
      key ≠ key' := by
  have hvisits : observed (apply silent) visits (ofGraph ⟨{}, 3⟩ ()) lookUpAlike =
      [(0, 0), (1, 1), (2, 2)] := by decide +kernel
  have hmem : ∀ k < 3, (k, k) ∈
      observed (apply silent) visits (ofGraph ⟨{}, 3⟩ ()) lookUpAlike := by
    rw [hvisits]
    decide
  obtain ⟨key, _, hkey, hkey', hsame⟩ := shares_entry_iff silent ⟨{}, 3⟩ () (v := .account "7" {})
    (w := .account "7" { commitment := some .confirmed }) (p := .all) (q := .all) rfl rfl rfl rfl
    (hmem 0 (by decide)) (hmem 1 (by decide))
  obtain rfl := hsame.2 ⟨rfl, rfl⟩
  obtain ⟨key₀, key₂, hkey₀, hkey₂, hother⟩ := shares_entry_iff silent ⟨{}, 3⟩ ()
    (v := .account "7" {}) (w := .transaction "7" {}) (p := .all) (q := .all) rfl rfl rfl rfl
    (hmem 0 (by decide)) (hmem 2 (by decide))
  exact ⟨⟨key, hkey, hkey'⟩, key₀, key₂, hkey₀, hkey₂, hother.not.2 id⟩

end Context

end NodeRpc
