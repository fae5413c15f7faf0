import NodeRpc.Proofs.Lookup.Entries
import NodeRpc.Proofs.Lookup.Marks

/-!
# Contexts hand on what was loaded

What a load comes to says which entity it was begun for: an account or a transaction takes the
answer of its load in the coalescer, which has the same key, and a block what its own talk comes to.
So does what a resolve comes to, whatever else the context looks up, gives up or forgets. `Marked`
says so, and every part of a step keeps it.
-/

namespace NodeRpc

/-! ### What talks come to -/

/-- Whatever is answered, what has come so far comes to a result with the property. -/
def Progress.Always {α : Type} (P : α → Prop) : Progress α → Prop
  | .done a => P a
  | .waiting next => ∀ answer, (next answer).Always P

theorem Dialogue.Always.advance {ν α : Type} (respond : Respondent ν) (t : Nat) {P : α → Prop}
    {d : Dialogue α} (h : d.Always P) (node : ν) : (d.advance respond t node).1.Always P := by
  induction d generalizing node with
  | done a => exact h
  | ask a next ih =>
    unfold Dialogue.advance
    split
    · next answer node _ => exact ih answer (h answer) node
    · exact h

/-- The same of a talk that is not over. -/
def Talk.Always (P : Conclusion → Prop) : Talk → Prop
  | .fresh d => d.Always P
  | .waiting next _ => ∀ answer, (next answer).Always P
  | .over => True

theorem Talk.Always.imp {P Q : Conclusion → Prop} {talk : Talk} (h : talk.Always P)
    (hPQ : ∀ c, P c → Q c) : talk.Always Q := by
  cases talk with
  | fresh d => exact Dialogue.Always.imp h hPQ
  | waiting next answer => exact fun answer => (h answer).imp hPQ
  | _ => trivial

/-! ### Scopes -/

namespace Resolves

variable {r r' : Resolves} {sought : List Entity}

/-- This says which entity load `n` was begun for. -/
def Attests (r : Resolves) (n : Nat) (o : Loaded) : Prop :=
  ∃ e : Entity, r.loadKey? n = some e.key ∧ e.Marks o

theorem Attests.mono {n : Nat} {o : Loaded} (h : r.Attests n o) (hk : r.Keeps r') :
    r'.Attests n o := by
  obtain ⟨e, he, hmarks⟩ := h
  exact ⟨e, hk.loadKey n e.key he, hmarks⟩

/-- The resolves of a scope ask for the entities `sought`, and what loads came to says which entity
they were begun for. -/
structure Attested (r : Resolves) (sought : List Entity) : Prop where
  valid : r.Valid
  sourced : r.Sourced
  keys : ∀ i, r.keyOf? i = (sought[i]?).map Entity.key
  outcomes : ∀ n o, r.outcomeOf? n = some o → r.Attests n o

theorem attested_empty : Attested {} [] where
  valid := valid_empty
  sourced := sourced_after []
  keys i := by simp [keyOf?]
  outcomes n o h := by simp [outcomeOf?] at h

/-- An event keeps it if the entities `sought'` are asked for afterwards, and no load came to
anything but what says which entity it was begun for. -/
theorem Attested.apply (h : r.Attested sought) (e : Event) {sought' : List Entity}
    (hkeys : ∀ i, (r.apply e).keyOf? i = (sought'[i]?).map Entity.key)
    (houtcomes : ∀ n o, (r.apply e).outcomeOf? n = some o →
      r.outcomeOf? n = some o ∨ r.Attests n o) : (r.apply e).Attested sought' where
  valid := valid_apply h.valid e
  sourced := sourced_apply h.valid h.sourced e
  keys := hkeys
  outcomes n o ho := by
    have hattests := (houtcomes n o ho).elim (h.outcomes n o) id
    exact hattests.mono (apply_keeps h.valid e)

/-- Somebody asks for an entity. -/
theorem Attested.make (h : r.Attested sought) (e : Entity) :
    (r.make e.key).Attested (sought ++ [e]) :=
  h.apply (.make e.key) (keyOf?_make_sought h.keys e) fun _ _ => .inl

theorem Attested.run (h : r.Attested sought) (k : Nat) : (r.run k).Attested sought := by
  cases hkey : r.keyOf? k with
  | none => rwa [run_of_keyOf?_none hkey]
  | some key =>
    have hturn := run_turn h.valid.count hkey
    exact h.apply (.run k) (fun i => (hturn.keyOf? i).trans (h.keys i))
      fun n o ho => .inl ((hturn.outcomeOf? n).symm.trans ho)

theorem Attested.finish (h : r.Attested sought) {n : Nat} {o : Loaded} (ho : r.Attests n o) :
    (r.finish n o).Attested sought := by
  refine h.apply (.finish n o) h.keys fun m o' ho' => ?_
  rcases outcomeOf?_finish_cases ho' with hold | ⟨rfl, rfl⟩
  · exact .inl hold
  · exact .inr ho

theorem Attested.drop (h : r.Attested sought) (k : Nat) : (r.drop k).Attested sought := by
  refine h.apply (.drop k) (fun i => (r.keyOf?_drop k i).trans (h.keys i)) fun n o ho => .inl ?_
  unfold outcomeOf? at ho ⊢
  rwa [← r.loads_drop k]

theorem Attested.clear (h : r.Attested sought) : r.clear.Attested sought :=
  h.apply .clear h.keys fun _ _ => .inl

/-- What a resolve came to says which entity it seeks. -/
theorem Attested.done (h : r.Attested sought) {i : Nat} {e : Entity} {o : Loaded}
    (hi : sought[i]? = some e) (hdone : r.stageOf? i = some (.done o)) : e.Marks o := by
  have hkey : r.keyOf? i = some e.key := by rw [h.keys, hi, Option.map_some]
  obtain ⟨n, hn, ho⟩ := h.sourced.done i e.key o hkey hdone
  obtain ⟨f, hf, hmarks⟩ := h.outcomes n o ho
  obtain rfl := Entity.key_inj (Option.some.inj (hn.symm.trans hf))
  exact hmarks

end Resolves

namespace Context

variable {ν : Type} {x x' : Context ν}

/-! ### Contexts -/

/-- What a talk came to bears the marks of what it was about. -/
def Fits (x : Context ν) : Conclusion → Prop
  | .accounts n outcome => ∃ b, x.accounts.batches[n]? = some b ∧
      outcome.Bears AccountKey.Marks b.keys
  | .transactions n outcome => ∃ b, x.transactions.batches[n]? = some b ∧
      outcome.Bears TransactionKey.Marks b.keys
  | .block n loaded => x.resolves.Attests n loaded

/-- What load `n` waits for is there, and is about the same. -/
def Serves (x : Context ν) (n : Nat) : Work → Prop
  | .account j => ∃ k, x.accounts.keyOf? j = some k ∧
      x.resolves.loadKey? n = some (Entity.account k).key
  | .transaction j => ∃ k, x.transactions.keyOf? j = some k ∧
      x.resolves.loadKey? n = some (Entity.transaction k).key
  | .block t => t < x.talks.length

/-- What is loaded says what it is, at every place that it comes by. -/
structure Marked (x : Context ν) : Prop where
  resolves : x.resolves.Attested x.sought
  length : x.works.length = x.resolves.loads.length
  works : ∀ (n : Nat) w, x.works[n]? = some w → x.Serves n w
  accounts : x.accounts.Bears AccountKey.Marks
  transactions : x.transactions.Bears TransactionKey.Marks
  talks : ∀ talk ∈ x.talks, talk.Always x.Fits

theorem marked_ofGraph (g : Graph) (node : ν) : (ofGraph g node).Marked where
  resolves := Resolves.attested_empty
  length := rfl
  works n w h := by simp [ofGraph] at h
  accounts := Coalescer.bears_empty _ _
  transactions := Coalescer.bears_empty _ _
  talks talk h := by simp [ofGraph] at h

/-- Batches and loads keep their keys, and no talk goes away. -/
structure Grows (x x' : Context ν) : Prop where
  accounts : x.accounts.Grows x'.accounts
  transactions : x.transactions.Grows x'.transactions
  resolves : ∀ n key, x.resolves.loadKey? n = some key → x'.resolves.loadKey? n = some key
  talks : x.talks.length ≤ x'.talks.length

theorem Fits.mono {c : Conclusion} (h : x.Fits c) (hg : x.Grows x') : x'.Fits c := by
  cases c with
  | accounts n outcome =>
    obtain ⟨b, hb, hbears⟩ := h
    obtain ⟨b', hb', hkeys⟩ := hg.accounts.batches n b hb
    exact ⟨b', hb', hkeys ▸ hbears⟩
  | transactions n outcome =>
    obtain ⟨b, hb, hbears⟩ := h
    obtain ⟨b', hb', hkeys⟩ := hg.transactions.batches n b hb
    exact ⟨b', hb', hkeys ▸ hbears⟩
  | block n loaded =>
    obtain ⟨e, he, hmarks⟩ := h
    exact ⟨e, hg.resolves n e.key he, hmarks⟩

theorem Serves.mono {n : Nat} {w : Work} (h : x.Serves n w) (hg : x.Grows x') : x'.Serves n w := by
  cases w with
  | account j =>
    obtain ⟨k, hk, hload⟩ := h
    exact ⟨k, hg.accounts.keyOf? j k hk, hg.resolves n _ hload⟩
  | transaction j =>
    obtain ⟨k, hk, hload⟩ := h
    exact ⟨k, hg.transactions.keyOf? j k hk, hg.resolves n _ hload⟩
  | block t => exact Nat.lt_of_lt_of_le h hg.talks

/-- It is enough to see to what is new. -/
theorem Marked.grow (hx : x.Marked) (hg : x.Grows x')
    (hresolves : x'.resolves.Attested x'.sought)
    (hlength : x'.works.length = x'.resolves.loads.length)
    (hworks : ∀ (n : Nat) w, x'.works[n]? = some w → x.works[n]? = some w ∨ x'.Serves n w)
    (haccounts : x'.accounts.Bears AccountKey.Marks)
    (htransactions : x'.transactions.Bears TransactionKey.Marks)
    (htalks : ∀ talk ∈ x'.talks, talk ∈ x.talks ∨ talk.Always x'.Fits) : x'.Marked where
  resolves := hresolves
  length := hlength
  works n w hw := (hworks n w hw).elim (fun h => (hx.works n w h).mono hg) id
  accounts := haccounts
  transactions := htransactions
  talks talk h := (htalks talk h).elim (fun h => (hx.talks talk h).imp fun _ h => h.mono hg) id

/-! ### Parts of steps -/

/-- Something happens to the scope that begins no load. -/
theorem Marked.withResolves (hx : x.Marked) {r : Resolves} {sought : List Entity}
    (hk : x.resolves.Keeps r) (hr : r.Attested sought)
    (hlength : r.loads.length = x.resolves.loads.length) :
    Marked { x with resolves := r, sought } :=
  hx.grow ⟨.refl _, .refl _, hk.loadKey, Nat.le_refl _⟩ hr (hx.length.trans hlength.symm)
    (fun _ _ => .inl) hx.accounts hx.transactions fun _ => .inl

theorem Marked.withLookups (hx : x.Marked) (lookups : List Lookup) :
    Marked { x with lookups } :=
  hx.grow ⟨.refl _, .refl _, fun _ _ h => h, Nat.le_refl _⟩ hx.resolves hx.length
    (fun _ _ => .inl) hx.accounts hx.transactions fun _ => .inl

theorem Marked.seek (hx : x.Marked) (e : Entity) : (x.seek e).Marked :=
  hx.withResolves (x.resolves.make_keeps e.key) (hx.resolves.make e) rfl

/-- A load comes to what says what it is. -/
theorem Marked.finish (hx : x.Marked) {n : Nat} {o : Loaded} (ho : x.resolves.Attests n o) :
    Marked { x with resolves := x.resolves.finish n o } :=
  hx.withResolves (x.resolves.finish_keeps n o) (hx.resolves.finish ho) (by simp [Resolves.finish])

/-- A talk goes on, or is given up. -/
theorem Marked.setTalk (hx : x.Marked) (node : ν) (t : Nat) (talk : Talk)
    (htalk : talk.Always x.Fits) : Marked { x with node, talks := x.talks.set t talk } := by
  refine hx.grow ⟨.refl _, .refl _, fun _ _ h => h, by simp⟩ hx.resolves hx.length
    (fun _ _ => .inl) hx.accounts hx.transactions fun other h => ?_
  rcases List.mem_or_eq_of_mem_set h with h | rfl
  · exact .inl h
  · exact .inr htalk

/-- The talks that are begun for new batches come to what the batches are loaded as. -/
theorem always_of_mem_talks {κ : Type} {mark : κ → KeyResult → Prop} {c : Coalescer κ}
    {known : Nat} {load : List κ → Dialogue BatchOutcome} {about : Nat → BatchOutcome → Conclusion}
    {P : Conclusion → Prop} (hload : ∀ keys, (load keys).Always (BatchOutcome.Bears mark keys))
    (hP : ∀ (n : Nat) b outcome, c.batches[n]? = some b → outcome.Bears mark b.keys →
      P (about n outcome)) {talk : Talk}
    (h : talk ∈ (c.batches.drop known).zipIdx.map fun p =>
      .fresh ((load p.1.keys).map (about (known + p.2)))) : talk.Always P := by
  obtain ⟨⟨b, i⟩, hb, rfl⟩ := List.mem_map.1 h
  have hb := List.mem_zipIdx_iff_getElem?.1 hb
  rw [List.getElem?_drop] at hb
  exact Dialogue.Always.map ((hload b.keys).imp fun outcome => hP _ b outcome hb)

/-- Accounts and transactions grow, and talks begin that come to what fits. -/
theorem Marked.withBatches (hx : x.Marked) {accounts : Coalescer AccountKey}
    {transactions : Coalescer TransactionKey} {begun : List Talk}
    (ha : x.accounts.Grows accounts) (ht : x.transactions.Grows transactions)
    (haccounts : accounts.Bears AccountKey.Marks)
    (htransactions : transactions.Bears TransactionKey.Marks)
    (hbegun : ∀ talk ∈ begun, talk.Always
      (Fits { x with accounts, transactions, talks := x.talks ++ begun })) :
    Marked { x with accounts, transactions, talks := x.talks ++ begun } :=
  hx.grow ⟨ha, ht, fun _ _ h => h, by simp⟩ hx.resolves hx.length (fun _ _ => .inl) haccounts
    htransactions fun talk htalk => (List.mem_append.1 htalk).imp id (hbegun talk)

/-- Something happens to the accounts that ends no batch. -/
theorem Marked.putAccounts (hx : x.Marked) {e : Coalescer.Event AccountKey}
    {c : Coalescer AccountKey} (hstep : Coalescer.Step x.accounts e c)
    (he : ∀ n outcome, e ≠ .finish n outcome) : (x.putAccounts c).Marked :=
  hx.withBatches hstep.grows (.refl _)
    (hx.accounts.step hstep fun n outcome _ h => absurd h (he n outcome)) hx.transactions
    fun _ => always_of_mem_talks (always_loadAccounts x.client) fun _ b _ hb h => ⟨b, hb, h⟩

/-- Something happens to the transactions that ends no batch. -/
theorem Marked.putTransactions (hx : x.Marked) {e : Coalescer.Event TransactionKey}
    {c : Coalescer TransactionKey} (hstep : Coalescer.Step x.transactions e c)
    (he : ∀ n outcome, e ≠ .finish n outcome) : (x.putTransactions c).Marked :=
  hx.withBatches (.refl _) hstep.grows hx.accounts
    (hx.transactions.step hstep fun n outcome _ h => absurd h (he n outcome))
    fun _ => always_of_mem_talks (always_loadTransactions x.client) fun _ b _ hb h => ⟨b, hb, h⟩

/-- A talk hands out what it came to. -/
theorem Marked.conclude (hx : x.Marked) {c : Conclusion} (hc : x.Fits c) :
    (x.conclude c).Marked := by
  cases c with
  | accounts n outcome =>
    obtain ⟨b, hb, hbears⟩ := hc
    exact hx.grow ⟨(x.accounts.step_finish n outcome).grows, .refl _, fun _ _ h => h, Nat.le_refl _⟩
      hx.resolves hx.length (fun _ _ => .inl) (hx.accounts.finish hb hbears) hx.transactions
      fun _ => .inl
  | transactions n outcome =>
    obtain ⟨b, hb, hbears⟩ := hc
    exact hx.grow
      ⟨.refl _, (x.transactions.step_finish n outcome).grows, fun _ _ h => h, Nat.le_refl _⟩
      hx.resolves hx.length (fun _ _ => .inl) hx.accounts (hx.transactions.finish hb hbears)
      fun _ => .inl
  | block n loaded => exact hx.finish hc

theorem Marked.converse (hx : x.Marked) (respond : Respondent ν) (t : Nat)
    {d : Dialogue Conclusion} (hd : d.Always x.Fits) : (x.converse respond t d).Marked := by
  have hadvance := hd.advance respond t x.node
  unfold Context.converse
  split
  · next c node heq =>
    rw [heq] at hadvance
    exact (hx.setTalk node t .over trivial).conclude (by cases c <;> exact hadvance)
  · next next node heq =>
    rw [heq] at hadvance
    exact hx.setTalk node t (.waiting next none) hadvance

theorem Marked.runTalk (hx : x.Marked) (respond : Respondent ν) (t : Nat) :
    (x.runTalk respond t).Marked := by
  unfold Context.runTalk
  split
  · next d ht => exact hx.converse respond t (hx.talks _ (List.mem_of_getElem? ht))
  · next next answer ht => exact hx.converse respond t (hx.talks _ (List.mem_of_getElem? ht) answer)
  · exact hx

theorem Marked.deliver (hx : x.Marked) (t : Nat) (answer : Answer) :
    (x.deliver t answer).Marked := by
  unfold Context.deliver
  split
  · next next ht =>
    have hnext := hx.talks _ (List.mem_of_getElem? ht)
    exact hx.setTalk x.node t (.waiting next (some answer)) hnext
  · exact hx

/-- A load takes the answer of the load that it waits for. -/
theorem Marked.pollLoad (hx : x.Marked) (respond : Respondent ν) (n : Nat) :
    (x.pollLoad respond n).Marked := by
  unfold Context.pollLoad
  split
  · next j hw =>
    have hy := hx.putAccounts (x.accounts.step_poll j) (by simp)
    dsimp only
    cases hr : (x.putAccounts (x.accounts.poll j)).accounts.result? j with
    | none => exact hy
    | some o =>
      obtain ⟨k, hk, hload⟩ := hy.works n _ hw
      have hmarks := hy.accounts.answered (fun k => (Entity.account k).marks_error) hk
        (Coalescer.answerOf?_of_result? hr)
      exact hy.finish ⟨_, hload, hmarks⟩
  · next j hw =>
    have hy := hx.putTransactions (x.transactions.step_poll j) (by simp)
    dsimp only
    cases hr : (x.putTransactions (x.transactions.poll j)).transactions.result? j with
    | none => exact hy
    | some o =>
      obtain ⟨k, hk, hload⟩ := hy.works n _ hw
      have hmarks := hy.transactions.answered (fun k => (Entity.transaction k).marks_error) hk
        (Coalescer.answerOf?_of_result? hr)
      exact hy.finish ⟨_, hload, hmarks⟩
  · exact hx.runTalk respond _
  · exact hx

theorem Marked.dropLoad (hx : x.Marked) (n : Nat) : (x.dropLoad n).Marked := by
  unfold Context.dropLoad
  split
  · exact hx.putAccounts (x.accounts.step_drop _) (by simp)
  · exact hx.putTransactions (x.transactions.step_drop _) (by simp)
  · exact hx.setTalk x.node _ .over trivial
  · exact hx

theorem Marked.sweep (hx : x.Marked) : x.sweep.Marked := by
  unfold Context.sweep
  generalize x.resolves.loads.zipIdx.filter _ = ps
  induction ps generalizing x with
  | nil => exact hx
  | cons p ps ih => exact ih (hx.dropLoad p.2)

/-- The load of `e` is begun, which is the newest one of the scope. -/
theorem Marked.begin (hx : x.Marked) {r : Resolves} {e : Entity} (hk : x.resolves.Keeps r)
    (hr : r.Attested x.sought) (hlength : r.loads.length = x.resolves.loads.length + 1)
    (hload : r.loadKey? x.resolves.loads.length = some e.key) :
    Marked ({ x with resolves := r }.begin e) := by
  have hlast : ∀ {w w' : Work} {n : Nat}, (x.works ++ [w])[n]? = some w' →
      x.works[n]? = some w' ∨ n = x.resolves.loads.length ∧ w' = w := by
    intro w w' n h
    rw [getElem?_concat] at h
    split at h
    · next hn => exact .inr ⟨hn.trans hx.length, (Option.some.inj h).symm⟩
    · exact .inl h
  have hlen : ∀ w : Work, (x.works ++ [w]).length = r.loads.length := by
    intro w
    rw [hlength, List.length_append, hx.length]
    rfl
  cases e with
  | account k =>
    have hstep := Coalescer.Step.make (c := x.accounts) k
    refine hx.grow ⟨hstep.grows, .refl _, hk.loadKey, Nat.le_refl _⟩ hr (hlen _) (fun n w hw => ?_)
      (hx.accounts.step hstep (by simp)) hx.transactions fun _ => .inl
    refine (hlast hw).imp id ?_
    rintro ⟨rfl, rfl⟩
    exact ⟨k, (x.accounts.keyOf?_make k _).trans (if_pos rfl), hload⟩
  | transaction k =>
    have hstep := Coalescer.Step.make (c := x.transactions) k
    refine hx.grow ⟨.refl _, hstep.grows, hk.loadKey, Nat.le_refl _⟩ hr (hlen _) (fun n w hw => ?_)
      hx.accounts (hx.transactions.step hstep (by simp)) fun _ => .inl
    refine (hlast hw).imp id ?_
    rintro ⟨rfl, rfl⟩
    exact ⟨k, (x.transactions.keyOf?_make k _).trans (if_pos rfl), hload⟩
  | block slot o =>
    refine hx.grow ⟨.refl _, .refl _, hk.loadKey, by simp [Context.begin]⟩ hr (hlen _)
      (fun n w hw => ?_) hx.accounts hx.transactions fun talk htalk => ?_
    · refine (hlast hw).imp id ?_
      rintro ⟨rfl, rfl⟩
      simp [Serves, Context.begin]
    · rcases List.mem_append.1 htalk with h | h
      · exact .inl h
      · obtain rfl := List.mem_singleton.1 h
        rw [← hx.length] at hload
        exact .inr (Dialogue.Always.map ((always_loadBlock x.client slot o).imp
          fun _ h => ⟨_, hload, h⟩))

theorem Marked.enter (hx : x.Marked) (r : Nat) : (x.enter r).Marked := by
  unfold Context.enter
  dsimp only
  have hkeeps := x.resolves.run_keeps hx.resolves.valid.count r
  have hrun := hx.resolves.run r
  cases hkey : x.resolves.keyOf? r with
  | none =>
    rw [Resolves.run_of_keyOf?_none hkey, if_neg (Nat.lt_irrefl _)]
    exact hx
  | some key =>
    have hturn := Resolves.run_turn hx.resolves.valid.count hkey
    generalize x.resolves.run r = r' at hkeeps hrun hturn
    cases hturn with
    | began _ _ =>
      obtain ⟨e, he, rfl⟩ := Option.map_eq_some_iff.1 ((hx.resolves.keys r).symm.trans hkey)
      have hlength : ((x.resolves.begun r e.key).setStage r
          (.waiting x.resolves.loads.length)).loads.length = x.resolves.loads.length + 1 := by
        simp [Resolves.setStage, Resolves.begun]
      rw [if_pos (by omega), he]
      refine hx.begin hkeeps hrun hlength ?_
      rw [Resolves.loadKey?_setStage, Resolves.loadKey?_begun hkey, if_pos rfl]
    | _ =>
      rw [if_neg (by simp [Resolves.setStage, Resolves.recorded])]
      exact hx.withResolves hkeeps hrun rfl

theorem Marked.attend (hx : x.Marked) (respond : Respondent ν) (r : Nat) :
    (x.attend respond r).Marked :=
  attend_keeps (fun _ h => h.enter r) (fun _ n h => h.pollLoad respond n) hx

/-! ### Lookups -/

/-- Lookup `l` of inquiry `i` goes by what says what it is: the resolve by which it seeks an entity
seeks it, and what it has found is what was looked up. -/
structure Recognizes (x : Context ν) (i : Inquiry) (l : Lookup) : Prop where
  sought : ∀ (r : Nat) e goal, l.resolve = some r → l.inquiry = .seeks e goal →
    x.sought[r]? = some e
  seeks : ∀ e, i = .seeks e .itself →
    l.inquiry = .seeks e .itself ∨ ∃ loaded, l.inquiry = .ended (returned loaded) ∧ e.Marks loaded

/-- What holds of a context in which the inquiries `started` were started, in this order. -/
structure Recognized (started : List Inquiry) (x : Context ν) : Prop where
  marked : x.Marked
  length : x.lookups.length = started.length
  lookups : ∀ (k : Nat) i l, started[k]? = some i → x.lookups[k]? = some l → x.Recognizes i l

variable {started : List Inquiry}

theorem recognized_ofGraph (g : Graph) (node : ν) : Recognized [] (ofGraph g node) where
  marked := marked_ofGraph g node
  length := rfl
  lookups k i l h := by simp at h

theorem Recognized.keep (hx : Recognized started x) (hm : x'.Marked) (h : x.KeepsKeys x') :
    Recognized started x' where
  marked := hm
  length := h.lookups ▸ hx.length
  lookups k i l hi hl := by
    have hrecognizes := hx.lookups k i l hi (h.lookups ▸ hl)
    exact ⟨h.sought ▸ hrecognizes.sought, hrecognizes.seeks⟩

theorem Recognized.seek (hx : Recognized started x) (e : Entity) :
    Recognized started (x.seek e) where
  marked := hx.marked.seek e
  length := hx.length
  lookups k i l hi hl := by
    have hrecognizes := hx.lookups k i l hi hl
    exact ⟨fun r e' goal hr he => getElem?_append_of_some (hrecognizes.sought r e' goal hr he) _,
      hrecognizes.seeks⟩

theorem Recognized.setLookup (hx : Recognized started x) {k : Nat} {l l' : Lookup}
    (hl : x.lookups[k]? = some l) (h : ∀ i, x.Recognizes i l → x.Recognizes i l') :
    Recognized started (x.setLookup k l') where
  marked := hx.marked.withLookups _
  length := by simp [Context.setLookup, hx.length]
  lookups j i m hi hm := by
    have hrecognizes : x.Recognizes i m := by
      rcases getElem?_set_cases hm with ⟨rfl, rfl⟩ | ⟨_, hm⟩
      · exact h i (hx.lookups k i l hi hl)
      · exact hx.lookups j i m hi hm
    exact ⟨hrecognizes.sought, hrecognizes.seeks⟩

/-- A lookup goes on with what the resolve came to that seeks what it seeks. -/
theorem Recognized.resume (hx : Recognized started x) {k r : Nat} {e : Entity} {goal : Goal}
    {resolve : Option Nat} (hl : x.lookups[k]? = some { inquiry := .seeks e goal, resolve })
    (hr : x.sought[r]? = some e) :
    Recognized started (x.setLookup k (x.lookupNext e goal r)) := by
  refine hx.setLookup hl fun i hi => ?_
  unfold lookupNext
  split
  · next loaded ho =>
    refine ⟨by simp, fun e' he' => ?_⟩
    obtain ⟨rfl, rfl⟩ : e = e' ∧ goal = .itself := by simpa using hi.seeks e' he'
    have hmarks := hx.marked.resolves.done hr (outcome?_eq_some.1 ho)
    exact .inr ⟨loaded, Inquiry.after_itself _ _, hmarks⟩
  · refine ⟨fun r' e' goal' hr' he' => ?_, hi.seeks⟩
    obtain rfl := Option.some.inj hr'
    obtain ⟨rfl, rfl⟩ := Inquiry.seeks.inj he'
    exact hr

theorem Recognized.pursue (hx : Recognized started x) (respond : Respondent ν) {k : Nat}
    {e : Entity} {goal : Goal} {resolve : Option Nat}
    (hl : x.lookups[k]? = some { inquiry := .seeks e goal, resolve }) :
    Recognized started (x.pursue respond k e goal resolve) := by
  have hattend : ∀ {y : Context ν} (r : Nat), Recognized started y →
      y.lookups[k]? = some { inquiry := .seeks e goal, resolve } → y.sought[r]? = some e →
      Recognized started ((y.attend respond r).setLookup k
        ((y.attend respond r).lookupNext e goal r)) := by
    intro y r hy hl hr
    have hkeeps := attend_keepsKeys respond y r
    exact (hy.keep (hy.marked.attend respond r) hkeeps).resume (hkeeps.lookups ▸ hl)
      (hkeeps.sought ▸ hr)
  have hk := (List.getElem?_eq_some_iff.1 hl).1
  cases resolve with
  | none =>
    refine hattend _ (hx.seek e) hl ?_
    rw [← Resolves.length_of_sought hx.marked.resolves.keys]
    simp [Context.seek]
  | some r =>
    have hi := List.getElem?_eq_getElem (hx.length ▸ hk)
    exact hattend r hx hl ((hx.lookups k _ _ hi hl).sought r e goal rfl rfl)

theorem Recognized.sweep (hx : Recognized started x) : Recognized started x.sweep :=
  hx.keep hx.marked.sweep x.sweep_keepsKeys

theorem Recognized.pollUpTo (hx : Recognized started x) (respond : Respondent ν) (fuel k : Nat) :
    Recognized started (pollUpTo respond fuel x k) :=
  pollUpTo_keeps (fun _ _ _ _ hy hl => hy.pursue respond hl) fuel hx

theorem Recognized.start (hx : Recognized started x) (i : Inquiry) :
    Recognized (started ++ [i]) (x.start i) where
  marked := hx.marked.withLookups _
  length := by simp [Context.start, hx.length]
  lookups k j l hj hl := by
    have hl : (x.lookups ++ [{ inquiry := i }])[k]? = some l := hl
    rw [getElem?_concat] at hj hl
    rw [hx.length] at hl
    split at hj
    · next heq =>
      rw [if_pos heq] at hl
      obtain rfl := Option.some.inj hl
      obtain rfl := Option.some.inj hj
      exact ⟨by simp, fun e he => .inl he⟩
    · next hne =>
      rw [if_neg hne] at hl
      exact ⟨(hx.lookups k j l hj hl).sought, (hx.lookups k j l hj hl).seeks⟩

/-- A lookup is given up, before anything is swept. -/
theorem Recognized.giveUp (hx : Recognized started x) {k : Nat} {l : Lookup}
    (hl : x.lookups[k]? = some l) :
    Recognized started ({ x with
      resolves := l.resolve.elim x.resolves x.resolves.drop }.setLookup k
        { l with dropped := true }) := by
  have hgiven : Recognized started
      { x with resolves := l.resolve.elim x.resolves x.resolves.drop } := by
    cases l.resolve with
    | none => exact hx
    | some r =>
      have hkeeps : x.resolves.Keeps (x.resolves.drop r) :=
        Resolves.apply_keeps hx.marked.resolves.valid (.drop r)
      have hloads := congrArg List.length (x.resolves.loads_drop r)
      exact hx.keep (hx.marked.withResolves hkeeps (hx.marked.resolves.drop r) hloads)
        ⟨rfl, rfl, x.resolves.keyOf?_drop r⟩
  exact hgiven.setLookup hl fun _ h => ⟨h.sought, h.seeks⟩

/-- What was found is forgotten, before anything is swept. -/
theorem Recognized.clear (hx : Recognized started x) :
    Recognized started { x with resolves := x.resolves.clear } := by
  have hkeeps : x.resolves.Keeps x.resolves.clear :=
    Resolves.apply_keeps hx.marked.resolves.valid .clear
  exact hx.keep (hx.marked.withResolves hkeeps hx.marked.resolves.clear rfl) ⟨rfl, rfl, fun _ => rfl⟩

theorem Recognized.apply (hx : Recognized started x) (respond : Respondent ν) (e : Event) :
    Recognized (started ++ e.starts) (x.apply respond e) := by
  -- no other event starts a lookup
  have hquiet : ∀ {y : Context ν}, Recognized started y → Recognized (started ++ []) y :=
    fun hy => (List.append_nil started).symm ▸ hy
  cases e with
  | start i => exact hx.start i
  | poll k => exact hquiet (hx.pollUpTo respond _ k).sweep
  | drop k =>
    refine hquiet ?_
    unfold Context.apply Context.drop
    dsimp only
    split
    · next l hl => exact (hx.giveUp hl).sweep
    · exact hx
  | runTalk t =>
    refine hquiet ?_
    unfold Context.apply
    dsimp only
    split
    · exact hx.keep (hx.marked.runTalk respond t) (runTalk_keepsKeys respond x t)
    · exact hx
  | deliver t answer =>
    exact hquiet (hx.keep (hx.marked.deliver t answer) (x.deliver_keepsKeys t answer))
  | teardown => exact hquiet hx.clear.sweep

theorem recognized_after (respond : Respondent ν) (g : Graph) (node : ν) (events : List Event) :
    Recognized (events.filterMap Event.started?) ((ofGraph g node).after respond events) := by
  induction events using List.reverseRecOn with
  | nil => exact recognized_ofGraph g node
  | append_singleton events e ih =>
    have hstarted : [e].filterMap Event.started? = e.starts := by
      cases e <;> rfl
    rw [after_concat, List.filterMap_append, hstarted]
    exact ih.apply respond e

/-- What a lookup of an entity by itself returns says what it is. -/
theorem marked_of_result (respond : Respondent ν) (g : Graph) (node : ν) {events : List Event}
    {k : Nat} {e : Entity} {v : Json}
    (hk : (events.filterMap Event.started?)[k]? = some (.seeks e .itself))
    (hresult : ((ofGraph g node).after respond events).result? k = some (.ok (.entity (some v)))) :
    e.Marks (.ok v) := by
  have hx := recognized_after respond g node events
  unfold Context.result? at hresult
  cases hl : ((ofGraph g node).after respond events).lookups[k]? with
  | none => simp [hl] at hresult
  | some l =>
    rw [hl, Option.map_some] at hresult
    rcases (hx.lookups k _ l hk hl).seeks e rfl with hseeks | ⟨loaded, hended, hmarks⟩
    · simp [hseeks] at hresult
    · rw [hended] at hresult
      have hreturned : returned loaded = .ok (.entity (some v)) := Option.some.inj hresult
      cases loaded with
      | error cause => simp [returned, Except.map] at hreturned
      | ok w =>
        obtain ⟨_, rfl⟩ : w.isNull = false ∧ w = v := by
          simpa [returned, Except.map] using hreturned
        exact hmarks

end Context

end NodeRpc
