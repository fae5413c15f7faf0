import NodeRpc.Proofs.Lookup.Batches
import NodeRpc.Proofs.Lookup.Keys
import NodeRpc.Proofs.Lookup.Owners

/-!
# What lookups of accounts return

What a lookup returns is what its account was loaded with. What resolves ask for is what they seek,
and what loads of the scope come to is what the loads of the coalescer are answered with: `Matched`
says so, and every part of a step keeps it. An account is loaded once, and what it was loaded with
stays.
-/

namespace NodeRpc

/-! ### Keys and answers of loads -/

namespace Coalescer

variable {κ : Type} {c c' : Coalescer κ}

/-- The key that load `k` loads. -/
def keyOf? (c : Coalescer κ) (k : Nat) : Option κ := (c.joins[k]?).map Join.key

theorem keyOf?_make (c : Coalescer κ) (key : κ) (k : Nat) :
    (c.make key).keyOf? k = if k = c.joins.length then some key else c.keyOf? k := by
  unfold keyOf?
  rw [getElem?_make]
  split <;> rfl

theorem keyOf?_setStage (c : Coalescer κ) (k : Nat) (stage : JoinStage) (j : Nat) :
    (c.setStage k stage).keyOf? j = c.keyOf? j := by
  have hkeys : (c.setStage k stage).joins.map Join.key = c.joins.map Join.key :=
    map_modify_of_eq (g := fun x => { x with stage }) (fun _ => rfl) k c.joins
  unfold keyOf?
  rw [← List.getElem?_map, ← List.getElem?_map, hkeys]

/-- Unless a load is made, all keys stay. -/
theorem Step.keyOf? {e : Event κ} (h : Step c e c') (he : ∀ key, e ≠ .make key) (k : Nat) :
    c'.keyOf? k = c.keyOf? k := by
  cases h with
  | make key => exact absurd rfl (he key)
  | enqueue _ _ => exact keyOf?_setStage _ _ _ k
  | handOver _ _ _ => exact c.dispatch.keyOf?_setStage _ _ k
  | move _ _ _ => exact c.keyOf?_setStage _ _ k
  | @conclude n b outcome _ _ =>
    have hjoins := congrArg (fun xs => (xs[k]?).map Prod.fst) (c.map_answerAll (answers b outcome))
    simp only [List.getElem?_map, Option.map_map, Function.comp_def] at hjoins
    exact hjoins
  | idle _ _ _ => rfl

theorem answerOf?_answerAll (c : Coalescer κ) (as : List (Nat × Except LookupError Json)) {k : Nat}
    {r : Except LookupError Json} (h : c.answerOf? k = some r) :
    (c.answerAll as).answerOf? k = some r := by
  induction as generalizing c with
  | nil => exact h
  | cons a as ih =>
    refine ih (c.answer a.1 a.2) ?_
    rw [answerOf?_answer, h]
    split <;> rfl

/-- A load keeps its key. -/
theorem Step.key {e : Event κ} (h : Step c e c') {k : Nat} {key : κ} (hk : c.keyOf? k = some key) :
    c'.keyOf? k = some key := by
  by_cases he : ∃ new, e = .make new
  · obtain ⟨new, rfl⟩ := he
    cases h with
    | make _ =>
      have hne : k ≠ c.joins.length := by
        rintro rfl
        simp [Coalescer.keyOf?] at hk
      rw [keyOf?_make, if_neg hne, hk]
    | handOver _ he _ => simp at he
    | move _ he _ => simp at he
    | idle _ _ _ => exact hk
  · exact (h.keyOf? (fun new hnew => he ⟨new, hnew⟩) k).trans hk

/-- An answer stays. -/
theorem Step.answerOf? {e : Event κ} (h : Step c e c') {k : Nat} {r : Except LookupError Json}
    (hr : c.answerOf? k = some r) : c'.answerOf? k = some r := by
  cases h with
  | make key => exact (c.answerOf?_make key k).trans hr
  | enqueue _ _ => exact (answerOf?_setStage _ _ _ k).trans hr
  | handOver _ _ _ => exact (c.dispatch.answerOf?_setStage _ _ k).trans hr
  | move _ _ _ => exact (c.answerOf?_setStage _ _ k).trans hr
  | @conclude n b outcome _ _ => exact c.answerOf?_answerAll (answers b outcome) hr
  | idle _ _ _ => exact hr

/-- What was queued is still the key of its load. -/
theorem Books.keyOf?_of_queued {loads : List (Nat × κ)} {ends : List (Nat × BatchOutcome)}
    (h : c.Books loads ends) {p : Nat × κ} (hp : p ∈ loads) : c.keyOf? p.1 = some p.2 := by
  obtain ⟨x, hx, hkey, _⟩ := h.polled p hp
  unfold Coalescer.keyOf?
  rw [hx, Option.map_some, hkey]

/-- The keys that were handed over, in order. -/
theorem Books.map_handed {loads : List (Nat × κ)} {ends : List (Nat × BatchOutcome)}
    (h : c.Books loads ends) : c.handed.map (·.2) = c.batches.flatMap Batch.keys := by
  unfold handed
  rw [List.map_flatMap, List.flatMap_def, List.flatMap_def]
  refine congrArg List.flatten (List.map_congr_left fun b hb => ?_)
  exact List.map_snd_zip (Nat.le_of_eq (h.sizes b hb).1.symm)

/-- The result of a load is its answer. -/
theorem answerOf?_of_result? {k : Nat} {r : Except LookupError Json} (h : c.result? k = some r) :
    c.answerOf? k = some r := by
  obtain ⟨x, hx, hr⟩ := Option.bind_eq_some_iff.1 h
  split at hr
  · exact Option.bind_eq_some_iff.2 ⟨x, hx, hr⟩
  · simp at hr

end Coalescer

namespace Resolves

theorem Turn.keyOf? {r r' : Resolves} {k : Nat} {key : LookupKey} (h : Turn r k key r') (j : Nat) :
    r'.keyOf? j = r.keyOf? j := by
  cases h with
  | idle _ _ => rfl
  | read _ _ => exact r.keyOf?_setStage k _ j
  | began _ _ => exact (r.begun k key).keyOf?_setStage k _ j
  | waits _ _ => exact r.keyOf?_setStage k _ j
  | takes _ _ => exact (r.recorded key _).keyOf?_setStage k _ j

/-- Whoever asks for what is sought is as many. -/
theorem length_of_sought {r : Resolves} {sought : List Entity}
    (h : ∀ i, r.keyOf? i = (sought[i]?).map Entity.key) : sought.length = r.resolves.length := by
  have hkeys : r.resolves.map Resolve.key = sought.map Entity.key := by
    refine List.ext_getElem? fun i => ?_
    rw [List.getElem?_map, List.getElem?_map]
    exact h i
  simpa using (congrArg List.length hkeys).symm

/-- Somebody asks for one more entity. -/
theorem keyOf?_make_sought {r : Resolves} {sought : List Entity}
    (h : ∀ i, r.keyOf? i = (sought[i]?).map Entity.key) (e : Entity) (i : Nat) :
    (r.make e.key).keyOf? i = ((sought ++ [e])[i]?).map Entity.key := by
  unfold keyOf?
  rw [getElem?_make, getElem?_concat, length_of_sought h]
  split
  · rfl
  · exact h i

/-- An outcome was there before, or is the one that the load has just come to. -/
theorem outcomeOf?_finish_cases {r : Resolves} {n m : Nat} {o o' : Loaded}
    (h : (r.finish n o).outcomeOf? m = some o') : r.outcomeOf? m = some o' ∨ n = m ∧ o' = o := by
  unfold outcomeOf? finish at h
  dsimp only at h
  rw [List.getElem?_modify] at h
  by_cases hn : n = m
  · subst hn
    cases hl : r.loads[n]? with
    | none => simp [hl] at h
    | some l =>
      rw [hl] at h
      cases ho : l.outcome with
      | none => exact .inr ⟨rfl, by simpa [ho, eq_comm] using h⟩
      | some o₀ => exact .inl (by simpa [outcomeOf?, hl, ho] using h)
  · exact .inl (by simpa [outcomeOf?, hn] using h)

/-- Where nothing is forgotten, a key is loaded once. -/
theorem loaded_once {events : List Event} (hclear : .clear ∉ events) {key : LookupKey} {n n' : Nat}
    (hn : (after events).loadKey? n = some key) (hn' : (after events).loadKey? n' = some key) :
    n = n' := by
  have hlife := life_after (.inl rfl) hclear key
  rw [List.nil_append] at hlife
  exact (hlife.unique ⟨Nat.zero_le n', hn'⟩ n).1 ⟨Nat.zero_le n, hn⟩

end Resolves

/-- What a lookup of an entity by itself returns when that came to `loaded`. -/
def returned (loaded : Loaded) : Except LookupError Finding :=
  loaded.map fun v => .entity (if v.isNull then none else some v)

theorem Inquiry.after_itself (c : Client) (loaded : Loaded) :
    after c .itself loaded = .ended (returned loaded) := by
  cases loaded with
  | error cause => rfl
  | ok v => cases v <;> rfl

namespace Context

variable {ν : Type}

/-! ### Resolves, what they seek, and loads -/

/-- What resolves ask for is what they seek, and what loads of the scope come to is what loads of
the coalescer are answered with. -/
structure Matched (x : Context ν) : Prop where
  keys : ∀ r, x.resolves.keyOf? r = (x.sought[r]?).map Entity.key
  loads : ∀ n, x.resolves.loadKey? n = (x.accounts.keyOf? n).map fun k => (Entity.account k).key
  outcomes : ∀ n o, x.resolves.outcomeOf? n = some o → x.accounts.answerOf? n = some o

theorem matched_ofGraph (g : Graph) (node : ν) : (ofGraph g node).Matched where
  keys r := by simp [ofGraph, Resolves.keyOf?]
  loads n := by simp [ofGraph, Resolves.loadKey?, Coalescer.keyOf?]
  outcomes n o h := by simp [ofGraph, Resolves.outcomeOf?] at h

/-- A load of account `key` has been answered with `r`. -/
def Brought (x : Context ν) (key : AccountKey) (r : Loaded) : Prop :=
  ∃ n, x.accounts.keyOf? n = some key ∧ x.accounts.answerOf? n = some r

/-- An account is loaded once. -/
theorem Matched.unique {x : Context ν} (hm : x.Matched) (hs : x.Sound) {key : AccountKey}
    {n n' : Nat} (hn : x.accounts.keyOf? n = some key) (hn' : x.accounts.keyOf? n' = some key) :
    n = n' := by
  obtain ⟨events, hclear, he⟩ := hs.resolves
  have hload := hm.loads n
  have hload' := hm.loads n'
  rw [hn] at hload
  rw [hn'] at hload'
  rw [he] at hload hload'
  exact Resolves.loaded_once hclear hload hload'

/-- What a resolve came to is what a load of the account that it seeks was answered with. -/
theorem Matched.brought {x : Context ν} (hm : x.Matched) (hs : x.Sound) {r : Nat}
    {key : AccountKey} {o : Loaded} (hr : x.sought[r]? = some (.account key))
    (ho : x.outcome? r = some o) : x.Brought key o := by
  obtain ⟨events, _, he⟩ := hs.resolves
  have hkey : x.resolves.keyOf? r = some (Entity.account key).key := by rw [hm.keys, hr]; rfl
  have hsourced : x.resolves.Sourced := he ▸ Resolves.sourced_after events
  obtain ⟨n, hn, hout⟩ := hsourced.done r _ o hkey (outcome?_eq_some.1 ho)
  rw [hm.loads] at hn
  obtain ⟨key', hkey', hsame⟩ := Option.map_eq_some_iff.1 hn
  obtain rfl := Entity.account_key_inj hsame
  exact ⟨n, hkey', hm.outcomes n o hout⟩

/-- What is loaded is sought. -/
theorem Matched.sought_of_load {x : Context ν} (hm : x.Matched) (hs : x.Sound) {n : Nat}
    {key : AccountKey} (hn : x.accounts.keyOf? n = some key) : .account key ∈ x.sought := by
  have hload := hm.loads n
  rw [hn] at hload
  obtain ⟨l, _, hkey⟩ := Option.bind_eq_some_iff.1 hload
  rw [hm.keys] at hkey
  obtain ⟨e, he, hsame⟩ := Option.map_eq_some_iff.1 hkey
  obtain ⟨key', rfl⟩ := hs.sought e (List.mem_of_getElem? he)
  obtain rfl := Entity.account_key_inj hsame
  exact List.mem_of_getElem? he

/-- By an event of the accounts other than the making of a load. -/
theorem Matched.step {x x' : Context ν} (hm : x.Matched) {e : Coalescer.Event AccountKey}
    (hstep : Coalescer.Step x.accounts e x'.accounts) (he : ∀ key, e ≠ .make key)
    (hsought : x'.sought = x.sought) (hkeys : ∀ r, x'.resolves.keyOf? r = x.resolves.keyOf? r)
    (hloads : ∀ n, x'.resolves.loadKey? n = x.resolves.loadKey? n)
    (houtcomes : ∀ n o, x'.resolves.outcomeOf? n = some o →
      x.resolves.outcomeOf? n = some o ∨ x'.accounts.answerOf? n = some o) : x'.Matched where
  keys r := by rw [hkeys, hsought, hm.keys]
  loads n := by rw [hloads, hstep.keyOf? he, hm.loads]
  outcomes n o ho := by
    rcases houtcomes n o ho with h | h
    · exact hstep.answerOf? (hm.outcomes n o h)
    · exact h

theorem Matched.seek {x : Context ν} (hm : x.Matched) (hs : x.Sound) (e : Entity) :
    (x.seek e).Matched where
  keys := Resolves.keyOf?_make_sought hm.keys e
  loads n := by
    have hload := hs.valid.loadKey?_eq (x.resolves.make_keeps e.key) rfl n
    exact hload.trans (hm.loads n)
  outcomes := hm.outcomes

theorem Matched.enter {x : Context ν} (hm : x.Matched) (hs : x.Sound) (r : Nat) :
    (x.enter r).Matched := by
  unfold Context.enter
  dsimp only
  cases hkey : x.resolves.keyOf? r with
  | none =>
    rw [Resolves.run_of_keyOf?_none hkey, if_neg (Nat.lt_irrefl _)]
    exact hm
  | some key =>
    have hturn := Resolves.run_turn hs.valid.count hkey
    have hkeeps := hturn.keeps
    have hkeys := hturn.keyOf?
    have hout := hturn.outcomeOf?
    split
    · next hlt =>
      generalize x.resolves.run r = r' at hturn hkeys hout hlt
      cases hturn with
      | began _ _ =>
        obtain ⟨e, he, rfl⟩ := Option.map_eq_some_iff.1 ((hm.keys r).symm.trans hkey)
        obtain ⟨k, rfl⟩ := hs.sought e (List.mem_of_getElem? he)
        rw [he]
        refine ⟨fun j => (hkeys j).trans (hm.keys j), fun n => ?_, fun n o ho => ?_⟩
        · refine (Resolves.loadKey?_setStage _ r (.waiting x.resolves.loads.length) n).trans ?_
          show _ = ((x.accounts.make k).keyOf? n).map _
          rw [Resolves.loadKey?_begun hkey, Coalescer.keyOf?_make, hs.loads]
          split
          · rfl
          · exact hm.loads n
        · exact (x.accounts.answerOf?_make k n).trans (hm.outcomes n o ((hout n).symm.trans ho))
      | _ => exact absurd hlt (by simp [Resolves.setStage, Resolves.recorded])
    · next hlt =>
      refine ⟨fun j => (hkeys j).trans (hm.keys j), fun n => ?_, fun n o ho => ?_⟩
      · have hlen := hs.valid.length_le hkeeps
        exact (hs.valid.loadKey?_eq hkeeps (by omega) n).trans (hm.loads n)
      · exact hm.outcomes n o ((hout n).symm.trans ho)

/-! ### Parts of steps -/

/-- A turn of a resolve is that and, if it began a load, the beginning of the load of an account. -/
theorem Sound.enter_cases {x : Context ν} (hs : x.Sound) (r : Nat) :
    x.enter r = { x with resolves := x.resolves.run r } ∨
      ∃ k, x.enter r = ({ x with resolves := x.resolves.run r } : Context ν).begin (.account k) := by
  unfold Context.enter
  dsimp only
  split
  · cases he : x.sought[r]? with
    | none => exact .inl rfl
    | some e =>
      obtain ⟨k, rfl⟩ := hs.sought e (List.mem_of_getElem? he)
      exact .inr ⟨k, rfl⟩
  · exact .inl rfl

/-- Moving a load polls it, and hands its result on if it has one. -/
theorem Sound.pollLoad_cases {x : Context ν} (hs : x.Sound) (respond : Respondent ν) (n : Nat) :
    x.pollLoad respond n = x ∨ ∃ r : Resolves,
      x.pollLoad respond n = { x.putAccounts (x.accounts.poll n) with resolves := r } ∧
        (r = x.resolves ∨ ∃ o, (x.accounts.poll n).result? n = some o ∧
          r = x.resolves.finish n o) := by
  unfold Context.pollLoad
  cases hw : x.works[n]? with
  | none => exact .inl rfl
  | some w =>
    obtain ⟨rfl, _⟩ := hs.getElem?_works hw
    refine .inr ?_
    dsimp only
    cases hr : (x.putAccounts (x.accounts.poll n)).accounts.result? n with
    | none => exact ⟨_, rfl, .inl rfl⟩
    | some o => exact ⟨_, rfl, .inr ⟨o, hr, rfl⟩⟩

/-- A turn of a talk changes nothing but the talks, the node, and the accounts of a batch that comes
to its outcome. -/
theorem Sound.runTalk_cases {x : Context ν} (hs : x.Sound) (respond : Respondent ν) (t : Nat) :
    ∃ accounts node talks, x.runTalk respond t = { x with accounts, node, talks } ∧
      (accounts = x.accounts ∨ ∃ b outcome, accounts = x.accounts.finish b outcome) := by
  have hconverse : ∀ d b, Dialogue.Brings b d →
      ∃ accounts node talks, x.converse respond t d = { x with accounts, node, talks } ∧
        (accounts = x.accounts ∨ ∃ b outcome, accounts = x.accounts.finish b outcome) := by
    intro d b hd
    have hadvance := hd.advance respond t x.node
    unfold Context.converse
    split
    · next c node heq =>
      rw [heq] at hadvance
      obtain ⟨outcome, rfl⟩ := hadvance
      exact ⟨_, _, _, rfl, .inr ⟨b, outcome, rfl⟩⟩
    · exact ⟨_, _, _, rfl, .inl rfl⟩
  unfold Context.runTalk
  split
  · next d ht =>
    obtain ⟨b, hb⟩ := (hs.talks _ (List.mem_of_getElem? ht)).resolve_left (by simp)
    exact hconverse d b hb
  · next next answer ht =>
    obtain ⟨b, hb⟩ := (hs.talks _ (List.mem_of_getElem? ht)).resolve_left (by simp)
    exact hconverse (next answer) b (hb answer)
  · exact ⟨_, _, _, rfl, .inl rfl⟩

theorem Matched.pollLoad {x : Context ν} (hm : x.Matched) (hs : x.Sound) (respond : Respondent ν)
    (n : Nat) : (x.pollLoad respond n).Matched := by
  have hstep := x.accounts.step_poll n
  obtain h | ⟨r, h, hr⟩ := hs.pollLoad_cases respond n
  · rwa [h]
  · rw [h]
    rcases hr with rfl | ⟨o, ho, rfl⟩
    · exact hm.step hstep (by simp) rfl (fun _ => rfl) (fun _ => rfl) fun _ _ => .inl
    · have hloads := hs.valid.loadKey?_eq (x.resolves.finish_keeps n o) (by simp [Resolves.finish])
      refine hm.step hstep (by simp) rfl (fun _ => rfl) hloads fun m o' ho' => ?_
      rcases Resolves.outcomeOf?_finish_cases ho' with h | ⟨rfl, rfl⟩
      · exact .inl h
      · exact .inr (Coalescer.answerOf?_of_result? ho)

theorem Matched.runTalk {x : Context ν} (hm : x.Matched) (hs : x.Sound) (respond : Respondent ν)
    (t : Nat) : (x.runTalk respond t).Matched := by
  obtain ⟨accounts, node, talks, h, rfl | ⟨b, outcome, rfl⟩⟩ := hs.runTalk_cases respond t
  · rw [h]
    exact ⟨hm.keys, hm.loads, hm.outcomes⟩
  · rw [h]
    exact hm.step (x.accounts.step_finish b outcome) (by simp) rfl (fun _ => rfl) (fun _ => rfl)
      fun _ _ => .inl

theorem Matched.deliver {x : Context ν} (hm : x.Matched) (t : Nat) (answer : Answer) :
    (x.deliver t answer).Matched := by
  unfold Context.deliver
  split <;> exact ⟨hm.keys, hm.loads, hm.outcomes⟩

theorem Matched.attend {x : Context ν} (hm : x.Matched) (hs : x.Sound) (respond : Respondent ν)
    (r : Nat) : (x.attend respond r).Matched :=
  (attend_keeps (P := fun y => y.Sound ∧ y.Matched)
    (fun _ h => ⟨h.1.enter r, h.2.enter h.1 r⟩)
    (fun _ n h => ⟨h.1.pollLoad respond n, h.2.pollLoad h.1 respond n⟩) ⟨hs, hm⟩).2

/-! ### What stays -/

/-- The client, the size of batches, the lookups and what is sought stay, and so does what accounts
were loaded with. -/
structure Onward (x x' : Context ν) : Prop where
  client : x'.client = x.client
  limit : x'.accounts.limit = x.accounts.limit
  lookups : x'.lookups = x.lookups
  sought : x'.sought = x.sought
  brought : ∀ key r, x.Brought key r → x'.Brought key r

theorem Onward.refl (x : Context ν) : x.Onward x := ⟨rfl, rfl, rfl, rfl, fun _ _ h => h⟩

theorem Onward.trans {x x' x'' : Context ν} (h : x.Onward x') (h' : x'.Onward x'') :
    x.Onward x'' :=
  ⟨h'.client.trans h.client, h'.limit.trans h.limit, h'.lookups.trans h.lookups,
    h'.sought.trans h.sought, fun key r hb => h'.brought key r (h.brought key r hb)⟩

/-- By an event of the accounts. -/
theorem onward_of_step {x x' : Context ν} {e : Coalescer.Event AccountKey}
    (hstep : Coalescer.Step x.accounts e x'.accounts) (hclient : x'.client = x.client)
    (hlookups : x'.lookups = x.lookups) (hsought : x'.sought = x.sought) : x.Onward x' := by
  refine ⟨hclient, hstep.limit, hlookups, hsought, ?_⟩
  rintro key r ⟨n, hkey, hr⟩
  exact ⟨n, hstep.key hkey, hstep.answerOf? hr⟩

theorem Sound.enter_onward {x : Context ν} (hs : x.Sound) (r : Nat) : x.Onward (x.enter r) := by
  obtain h | ⟨k, h⟩ := hs.enter_cases r
  · rw [h]
    exact ⟨rfl, rfl, rfl, rfl, fun _ _ h => h⟩
  · rw [h]
    exact onward_of_step (.make k) rfl rfl rfl

theorem Sound.pollLoad_onward {x : Context ν} (hs : x.Sound) (respond : Respondent ν) (n : Nat) :
    x.Onward (x.pollLoad respond n) := by
  obtain h | ⟨r, h, _⟩ := hs.pollLoad_cases respond n
  · rw [h]
    exact .refl x
  · rw [h]
    exact onward_of_step (x.accounts.step_poll n) rfl rfl rfl

theorem Sound.runTalk_onward {x : Context ν} (hs : x.Sound) (respond : Respondent ν) (t : Nat) :
    x.Onward (x.runTalk respond t) := by
  obtain ⟨accounts, node, talks, h, rfl | ⟨b, outcome, rfl⟩⟩ := hs.runTalk_cases respond t
  · rw [h]
    exact ⟨rfl, rfl, rfl, rfl, fun _ _ h => h⟩
  · rw [h]
    exact onward_of_step (x.accounts.step_finish b outcome) rfl rfl rfl

theorem deliver_onward (x : Context ν) (t : Nat) (answer : Answer) :
    x.Onward (x.deliver t answer) := by
  unfold Context.deliver
  split <;> exact ⟨rfl, rfl, rfl, rfl, fun _ _ h => h⟩

theorem Sound.attend_onward {x : Context ν} (hs : x.Sound) (respond : Respondent ν) (r : Nat) :
    x.Onward (x.attend respond r) :=
  (attend_keeps (P := fun y => y.Sound ∧ x.Onward y)
    (fun _ h => ⟨h.1.enter r, h.2.trans (h.1.enter_onward r)⟩)
    (fun _ n h => ⟨h.1.pollLoad respond n, h.2.trans (h.1.pollLoad_onward respond n)⟩)
    ⟨hs, .refl x⟩).2

/-! ### Keys of batches -/

/-- What is handed over is sought. -/
theorem Matched.sought_of_batch {x : Context ν} (hm : x.Matched) (hs : x.Sound) {loads ends}
    (h : x.accounts.Books loads ends) {b : Batch AccountKey} (hb : b ∈ x.accounts.batches)
    {key : AccountKey} (hkey : key ∈ b.keys) : .account key ∈ x.sought := by
  have hmem : key ∈ x.accounts.handed.map (·.2) := by
    rw [h.map_handed]
    exact List.mem_flatMap.2 ⟨b, hb, hkey⟩
  obtain ⟨p, hp, rfl⟩ := List.mem_map.1 hmem
  exact hm.sought_of_load hs (h.keyOf?_of_queued (h.order ▸ List.mem_append_left _ hp))

/-- No account is handed over twice. -/
theorem Matched.nodup_keys {x : Context ν} (hm : x.Matched) (hs : x.Sound) {loads ends}
    (h : x.accounts.Books loads ends) : (x.accounts.batches.flatMap Batch.keys).Nodup := by
  have hhanded : x.accounts.handed.Nodup := by
    have honce := List.Nodup.of_map _ h.once
    rw [← h.order] at honce
    exact (List.nodup_append.1 honce).1
  have hload : ∀ p ∈ x.accounts.handed, x.accounts.keyOf? p.1 = some p.2 :=
    fun p hp => h.keyOf?_of_queued (h.order ▸ List.mem_append_left _ hp)
  rw [← h.map_handed]
  refine hhanded.map_on fun p hp q hq hpq => Prod.ext ?_ hpq
  exact hm.unique hs (hload p hp) (hpq ▸ hload q hq)

end Context

end NodeRpc
