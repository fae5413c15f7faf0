import NodeRpc.Proofs.Lookup.Loading
import NodeRpc.Proofs.Lookup.Returns

/-!
# What is asked of the node

The batches of accounts are asked for in talks, one for each batch, and each talk asks once. Where
the node keeps to a record of accounts, and a log of what it is asked, a batch that has come to an
outcome has come to what the record has of its keys. `Wired` says so; whatever happens keeps it.
-/

namespace NodeRpc

/-- A respondent that logs what every talk asks. -/
def Respondent.logged {ν : Type} (respond : Respondent ν) : Respondent (ν × List (Nat × Ask)) :=
  fun node t a =>
    let (answer, rest) := respond node.1 t a
    (answer, rest, node.2 ++ [(t, a)])

/-- Whatever is answered at once keeps to `record`. -/
def Respondent.Truthful {ν : Type} (record : AccountKey → Json) (respond : Respondent ν) : Prop :=
  ∀ node t a answer, (respond node t a).1 = some answer → a.Answered record answer

/-- What a batch comes to where the node keeps to `record`. -/
def Batch.foundBy (record : AccountKey → Json) (b : Batch AccountKey) : BatchOutcome :=
  .ok (b.keys.map fun k => .ok (NodeRpc.foundBy record k))

/-- The calls that are made by what is asked. -/
def Ask.made : Ask → List Call
  | .calls cs => cs
  | .batch cs => cs

/-- What is asked is answered when each call is. -/
theorem Ask.answered_of_calls {record : AccountKey → Json} {reply : Call → Outcome}
    (h : ∀ call : Call, call.Answered record (reply call)) (a : Ask) :
    a.Answered record (.ok (a.made.map reply)) := by
  rintro calls rfl
  refine ⟨_, rfl, ?_⟩
  rw [List.forall₂_map_right_iff]
  exact List.forall₂_same.2 fun call _ => h call

/-- The call asks for account `key`. -/
def Call.Carries (call : Call) (key : AccountKey) : Prop :=
  ∃ addresses, call = accountsCall addresses key.options ∧ key.address ∈ addresses

theorem accountsCall_inj {addresses addresses' : List String} {o o' : AccountOptions}
    (h : accountsCall addresses o = accountsCall addresses' o') : addresses = addresses' ∧ o = o' := by
  simp only [accountsCall, Call.mk.injEq, Json.arr.injEq, List.cons.injEq, and_true, true_and] at h
  exact ⟨List.map_injective_iff.2 (fun _ _ => Json.str.inj) h.1,
    AccountOptions.toJson_inj (congrArg Json.canonical h.2)⟩

theorem AccountKey.eq_of {k l : AccountKey} (haddress : k.address = l.address)
    (hoptions : k.options = l.options) : k = l := by
  cases k
  cases l
  exact congr (congrArg AccountKey.mk haddress) hoptions

/-- The call for a group asks for the accounts of the group, and for no others. -/
theorem carries_accountsCall {g : AccountOptions × List AccountKey}
    (hg : ∀ k ∈ g.2, k.options = g.1) {key : AccountKey} :
    (accountsCall (g.2.map AccountKey.address) g.1).Carries key ↔ key ∈ g.2 := by
  constructor
  · rintro ⟨addresses, hcall, hmem⟩
    obtain ⟨rfl, hoptions⟩ := accountsCall_inj hcall
    obtain ⟨k, hk, haddress⟩ := List.mem_map.1 hmem
    exact AccountKey.eq_of haddress ((hg k hk).trans hoptions) ▸ hk
  · intro hmem
    exact ⟨_, by rw [hg key hmem], List.mem_map_of_mem hmem⟩

/-- Whether a talk has asked for anything. -/
def Talk.hasAsked : Talk → Bool
  | .fresh _ => false
  | _ => true

@[simp] theorem Talk.hasAsked_fresh (d : Dialogue Conclusion) : (fresh d).hasAsked = false := rfl

@[simp] theorem Talk.hasAsked_waiting (next : Answer → Dialogue Conclusion)
    (answer : Option Answer) : (waiting next answer).hasAsked = true := rfl

@[simp] theorem Talk.hasAsked_over : over.hasAsked = true := rfl

/-- How far the talk of batch `n` has come. An answer that has arrived keeps to `record`. -/
inductive Talk.Course (record : AccountKey → Json) (c : Client) (n : Nat) (b : Batch AccountKey) :
    Talk → Prop where
  | fresh (hf : b.finished = false) :
      Course record c n b (.fresh ((loadAccounts c b.keys).map (.accounts n)))
  | waiting {answer : Option Answer} (hf : b.finished = false)
      (h : ∀ a, answer = some a → (accountsAsk c b.keys).Answered record a) :
      Course record c n b
        (.waiting (fun a => .done (.accounts n (accountsRead c b.keys a))) answer)
  | ended (hf : b.finished = true) : Course record c n b .over

namespace Context

variable {ν : Type} {record : AccountKey → Json}

/-- What holds of batches, talks and the log where the node keeps to `record`. -/
structure Wired (record : AccountKey → Json) (x : Context (ν × List (Nat × Ask))) : Prop where
  books : ∃ loads ends, x.accounts.Books loads ends ∧ ∀ n outcome, (n, outcome) ∈ ends →
    ∃ b, x.accounts.batches[n]? = some b ∧ outcome = b.foundBy record
  length : x.talks.length = x.accounts.batches.length
  talks : ∀ (n : Nat) b talk, x.accounts.batches[n]? = some b → x.talks[n]? = some talk →
    talk.Course record x.client n b
  /-- Every talk is in the log once if it has asked, and else not at all. -/
  once : (x.node.2.map (·.1)).Nodup
  logged : ∀ n a, (n, a) ∈ x.node.2 ↔ ∃ b talk, x.accounts.batches[n]? = some b ∧
    x.talks[n]? = some talk ∧ talk.hasAsked = true ∧ a = accountsAsk x.client b.keys

theorem wired_ofGraph (g : Graph) (node : ν) : Wired record (ofGraph g (node, [])) where
  books := ⟨[], [], Coalescer.books_empty g.maxBatchSize, by simp⟩
  length := rfl
  talks n b talk h := by simp [ofGraph] at h
  once := List.nodup_nil
  logged n a := by simp [ofGraph]

variable {x x' : Context (ν × List (Nat × Ask))}

/-- Where batches, talks and log stay, and the books are kept. -/
theorem Wired.congr (hw : Wired record x) (hclient : x'.client = x.client)
    (hnode : x'.node = x.node) (htalks : x'.talks = x.talks)
    (hbatches : x'.accounts.batches = x.accounts.batches)
    (hbooks : ∀ loads ends, x.accounts.Books loads ends → x'.accounts.Books loads ends) :
    Wired record x' where
  books := by
    obtain ⟨loads, ends, h, hends⟩ := hw.books
    exact ⟨loads, ends, hbooks loads ends h, by rwa [hbatches]⟩
  length := by rw [htalks, hbatches, hw.length]
  talks := by
    rw [hclient, htalks, hbatches]
    exact hw.talks
  once := by
    rw [hnode]
    exact hw.once
  logged := by
    rw [hclient, hnode, htalks, hbatches]
    exact hw.logged

theorem Wired.enter (hw : Wired record x) (hs : x.Sound) (r : Nat) : Wired record (x.enter r) := by
  obtain h | ⟨k, h⟩ := hs.enter_cases r
  · rw [h]
    exact hw.congr rfl rfl rfl rfl fun _ _ h => h
  · rw [h]
    exact hw.congr rfl rfl rfl rfl fun _ _ h => h.make k

/-- A batch that was there has the talk that it had, and a new one has a new talk. -/
theorem Wired.talk_putAccounts (hw : Wired record x) {c : Coalescer AccountKey}
    {new : List (Batch AccountKey)} (hnew : c.batches = x.accounts.batches ++ new) {n : Nat}
    {b : Batch AccountKey} {talk : Talk} (hb : c.batches[n]? = some b)
    (ht : (x.putAccounts c).talks[n]? = some talk) :
    (x.accounts.batches[n]? = some b ∧ x.talks[n]? = some talk) ∨
      (x.accounts.batches.length ≤ n ∧
        talk = .fresh ((loadAccounts x.client b.keys).map (.accounts n))) := by
  by_cases hn : n < x.talks.length
  · refine .inl ⟨?_, (List.getElem?_append_left hn).symm.trans ht⟩
    rwa [hnew, List.getElem?_append_left (hw.length ▸ hn)] at hb
  · obtain ⟨i, rfl⟩ := Nat.exists_eq_add_of_le (Nat.le_of_not_lt hn)
    rw [hnew, hw.length, List.getElem?_append_right (by omega), Nat.add_sub_cancel_left] at hb
    rw [getElem?_talks_putAccounts hnew, hb, Option.map_some] at ht
    rw [hw.length]
    exact .inr ⟨by omega, (Option.some.inj ht).symm⟩

/-- A load goes on, and new batches get new talks. -/
theorem Wired.putAccounts (hw : Wired record x) (n : Nat) (r : Resolves) :
    Wired record { x.putAccounts (x.accounts.poll n) with resolves := r } := by
  obtain ⟨loads, ends, hbooks, hends⟩ := hw.books
  have hbooks' := hbooks.step (x.accounts.step_poll n)
  rw [show x.accounts.concludes (.poll n) = [] from rfl, List.append_nil] at hbooks'
  obtain ⟨new, hnew⟩ := (x.accounts.poll_turned n).batches
  have hold : ∀ {m : Nat} {b}, x.accounts.batches[m]? = some b →
      (x.accounts.poll n).batches[m]? = some b := by
    intro m b hb
    rw [hnew]
    exact getElem?_append_of_some hb new
  refine {
    books := ⟨_, ends, hbooks', fun m outcome ho => ?books⟩
    length := ?length
    talks := ?talks
    once := hw.once
    logged := fun m a => ?logged }
  case books =>
    obtain ⟨b, hb, rfl⟩ := hends m outcome ho
    exact ⟨b, hold hb, rfl⟩
  case length =>
    unfold Context.putAccounts
    simp [hnew, hw.length]
  case talks =>
    intro m b talk hb ht
    rcases hw.talk_putAccounts hnew hb ht with ⟨hb', ht'⟩ | ⟨hm, rfl⟩
    · exact hw.talks m b talk hb' ht'
    · refine .fresh ?_
      by_contra hf
      have hlt := hbooks.batch m ((hbooks'.finished m b hb).1 (by simpa using hf))
      omega
  case logged =>
    refine (hw.logged m a).trans ⟨?_, ?_⟩
    · rintro ⟨b, talk, hb, ht, h⟩
      exact ⟨b, talk, hold hb, getElem?_append_of_some ht _, h⟩
    · rintro ⟨b, talk, hb, ht, hasked, ha⟩
      rcases hw.talk_putAccounts hnew hb ht with ⟨hb', ht'⟩ | ⟨_, rfl⟩
      · exact ⟨b, talk, hb', ht', hasked, ha⟩
      · simp at hasked

theorem Wired.pollLoad (hw : Wired record x) (hs : x.Sound)
    (respond : Respondent (ν × List (Nat × Ask))) (n : Nat) :
    Wired record (x.pollLoad respond n) := by
  obtain h | ⟨r, h, _⟩ := hs.pollLoad_cases respond n
  · rwa [h]
  · rw [h]
    exact hw.putAccounts n r

theorem Wired.attend (hw : Wired record x) (hs : x.Sound)
    (respond : Respondent (ν × List (Nat × Ask))) (r : Nat) :
    Wired record (x.attend respond r) :=
  (attend_keeps (P := fun y => y.Sound ∧ Wired record y)
    (fun _ h => ⟨h.1.enter r, h.2.enter h.1 r⟩)
    (fun _ n h => ⟨h.1.pollLoad respond n, h.2.pollLoad h.1 respond n⟩) ⟨hs, hw⟩).2

/-! ### Talks -/

theorem getElem?_set_talk {talk talk' : Talk} {n : Nat} (ht : x.talks[n]? = some talk) (m : Nat) :
    (x.talks.set n talk')[m]? = if n = m then some talk' else x.talks[m]? := by
  rw [List.getElem?_set]
  split
  · rw [if_pos (List.getElem?_eq_some_iff.1 ht).1]
  · rfl

/-- The talk of one batch may come further in its course. -/
theorem Wired.course_set (hw : Wired record x) {n : Nat} {b : Batch AccountKey} {talk talk' : Talk}
    (hb : x.accounts.batches[n]? = some b) (ht : x.talks[n]? = some talk)
    (hcourse : talk'.Course record x.client n b) (m : Nat) (b' : Batch AccountKey) (other : Talk)
    (hb' : x.accounts.batches[m]? = some b') (ho : (x.talks.set n talk')[m]? = some other) :
    other.Course record x.client m b' := by
  rw [getElem?_set_talk ht] at ho
  split at ho
  · next hm =>
    subst hm
    obtain rfl := Option.some.inj (hb.symm.trans hb')
    obtain rfl := Option.some.inj ho
    exact hcourse
  · exact hw.talks m b' other hb' ho

/-- The talk of batch `n` asks. -/
theorem Wired.ask (hw : Wired record x) {n : Nat} {b : Batch AccountKey} {talk : Talk}
    (hb : x.accounts.batches[n]? = some b) (ht : x.talks[n]? = some talk)
    (hnew : talk.hasAsked = false) (node : ν) {answer : Option Answer}
    (ha : ∀ a, answer = some a → (accountsAsk x.client b.keys).Answered record a) :
    Wired record { x with
      node := (node, x.node.2 ++ [(n, accountsAsk x.client b.keys)])
      talks := x.talks.set n
        (.waiting (fun a => .done (.accounts n (accountsRead x.client b.keys a))) answer) } where
  books := hw.books
  length := by simp [hw.length]
  talks := by
    refine hw.course_set hb ht (.waiting ?_ ha)
    cases hw.talks n b talk hb ht with
    | fresh hf => exact hf
    | waiting _ _ => simp at hnew
    | ended _ => simp at hnew
  once := by
    refine nodup_fst_concat hw.once (fun hmem => ?_) _
    obtain ⟨p, hp, rfl⟩ := List.mem_map.1 hmem
    obtain ⟨_, _, _, ht', hasked, _⟩ := (hw.logged p.1 p.2).1 hp
    obtain rfl := Option.some.inj (ht.symm.trans ht')
    simp [hnew] at hasked
  logged m a := by
    rw [List.mem_append, hw.logged, getElem?_set_talk ht, List.mem_singleton, Prod.mk.injEq]
    by_cases hm : n = m
    · subst hm
      simp [hb, ht, hnew]
    · simp [hm, Ne.symm hm]

/-- The answer to what the talk of batch `n` has asked arrives. -/
theorem Wired.arrive (hw : Wired record x) {n : Nat} {b : Batch AccountKey} {a : Answer}
    (hb : x.accounts.batches[n]? = some b) {next : Answer → Dialogue Conclusion}
    (ht : x.talks[n]? = some (.waiting next none))
    (ha : (accountsAsk x.client b.keys).Answered record a) :
    Wired record { x with talks := x.talks.set n (.waiting next (some a)) } where
  books := hw.books
  length := by simp [hw.length]
  talks := by
    refine hw.course_set hb ht ?_
    cases hw.talks n b _ hb ht with
    | waiting hf _ => exact .waiting hf fun a' h' => Option.some.inj h' ▸ ha
  once := hw.once
  logged m a := by
    rw [hw.logged, getElem?_set_talk ht]
    by_cases hm : n = m
    · subst hm
      simp [ht]
    · simp [hm]

/-- The talk of batch `n` is over, and the batch has come to what the record has of its keys. -/
theorem Wired.finish (hw : Wired record x) {n : Nat} {b : Batch AccountKey} {talk : Talk}
    (hb : x.accounts.batches[n]? = some b) (hf : b.finished = false)
    (ht : x.talks[n]? = some talk) (hasked : talk.hasAsked = true) :
    Wired record ({ x with talks := x.talks.set n .over }.conclude
      (.accounts n (b.foundBy record))) := by
  obtain ⟨loads, ends, hbooks, hends⟩ := hw.books
  have hbatches := Coalescer.getElem?_batches_finish hb hf (b.foundBy record)
  have hlength : (x.accounts.finish n (b.foundBy record)).batches.length =
      x.accounts.batches.length := by simp [Coalescer.finish_eq hb hf]
  have hbooks' := hbooks.finish hb hf (b.foundBy record)
  show Wired record { x with
    accounts := x.accounts.finish n (b.foundBy record), talks := x.talks.set n .over }
  generalize x.accounts.finish n (b.foundBy record) = c at hbatches hlength hbooks'
  refine {
    books := ⟨loads, _, hbooks', fun m outcome ho => ?books⟩
    length := ?length
    talks := ?talks
    once := hw.once
    logged := fun m a => ?logged }
  case books =>
    rw [hbatches]
    rcases List.mem_append.1 ho with ho | ho
    · obtain ⟨b', hb', rfl⟩ := hends m outcome ho
      split
      · next hm =>
        subst hm
        obtain rfl := Option.some.inj (hb.symm.trans hb')
        exact ⟨_, rfl, rfl⟩
      · exact ⟨b', hb', rfl⟩
    · obtain ⟨rfl, rfl⟩ := Prod.mk.inj (List.mem_singleton.1 ho)
      exact ⟨_, if_pos rfl, rfl⟩
  case length => simp [hlength, hw.length]
  case talks =>
    intro m b' talk' hb' ht'
    rw [hbatches] at hb'
    rw [getElem?_set_talk ht] at ht'
    split at hb'
    · next hm =>
      rw [if_pos hm] at ht'
      obtain rfl := Option.some.inj hb'
      obtain rfl := Option.some.inj ht'
      exact .ended rfl
    · next hm =>
      rw [if_neg hm] at ht'
      exact hw.talks m b' talk' hb' ht'
  case logged =>
    rw [hw.logged]
    dsimp only
    rw [hbatches, getElem?_set_talk ht]
    by_cases hm : n = m
    · subst hm
      simp [hb, ht, hasked]
    · simp [hm]

/-- The first turn of a talk that loads accounts asks for them, and is the last one if the answer
comes at once. -/
theorem converse_load (respond : Respondent ν) (x : Context (ν × List (Nat × Ask))) (n : Nat)
    (keys : List AccountKey) :
    x.converse respond.logged n ((loadAccounts x.client keys).map (.accounts n)) =
      match respond x.node.1 n (accountsAsk x.client keys) with
      | (some a, rest) => Context.conclude { x with
          node := (rest, x.node.2 ++ [(n, accountsAsk x.client keys)])
          talks := x.talks.set n .over } (.accounts n (accountsRead x.client keys a))
      | (none, rest) => { x with
          node := (rest, x.node.2 ++ [(n, accountsAsk x.client keys)])
          talks := x.talks.set n
            (.waiting (fun a => .done (.accounts n (accountsRead x.client keys a))) none) } := by
  rw [loadAccounts_eq]
  cases heq : respond x.node.1 n (accountsAsk x.client keys) with
  | mk answer rest =>
    cases answer <;>
      simp [Context.converse, Dialogue.map, Dialogue.advance, Respondent.logged, heq]

theorem Wired.runTalk (hw : Wired record x) {respond : Respondent ν}
    (htruth : respond.Truthful record) (hplain : x.client.registry = {})
    (hkeys : ∀ b ∈ x.accounts.batches, ∀ k ∈ b.keys,
      k.options.normalized x.client.commitment = k.options) (n : Nat) :
    Wired record (x.runTalk respond.logged n) := by
  have hbatch : ∀ talk, x.talks[n]? = some talk → ∃ b, x.accounts.batches[n]? = some b :=
    fun talk ht => ⟨_, List.getElem?_eq_getElem (hw.length ▸ (List.getElem?_eq_some_iff.1 ht).1)⟩
  have hread : ∀ b a, x.accounts.batches[n]? = some b →
      (accountsAsk x.client b.keys).Answered record a →
      accountsRead x.client b.keys a = b.foundBy record :=
    fun b a hb ha => accountsRead_of_answered hplain (hkeys b (List.mem_of_getElem? hb)) ha
  unfold Context.runTalk
  split
  · next d ht =>
    obtain ⟨b, hb⟩ := hbatch _ ht
    cases hw.talks n b _ hb ht with
    | fresh hf =>
      rw [converse_load]
      split
      · next a rest heq =>
        have ha : (accountsAsk x.client b.keys).Answered record a :=
          htruth x.node.1 n _ a (by rw [heq])
        have hgot : ∀ a', some a = some a' → (accountsAsk x.client b.keys).Answered record a' :=
          fun _ h => Option.some.inj h ▸ ha
        have hasked := hw.ask hb ht rfl rest hgot
        have hfinish := hasked.finish hb hf ((getElem?_set_talk ht n).trans (if_pos rfl)) rfl
        rw [hread b a hb ha]
        simpa only [List.set_set] using hfinish
      · next rest _ => exact hw.ask hb ht rfl rest (by simp)
  · next next a ht =>
    obtain ⟨b, hb⟩ := hbatch _ ht
    cases hw.talks n b _ hb ht with
    | waiting hf ha =>
      have hfinish := hw.finish hb hf ht rfl
      rw [← hread b a hb (ha a rfl)] at hfinish
      exact hfinish
  · exact hw

theorem Wired.deliver (hw : Wired record x) (n : Nat) {a : Answer}
    (ha : ∀ asked, (n, asked) ∈ x.node.2 → asked.Answered record a) :
    Wired record (x.deliver n a) := by
  unfold Context.deliver
  split
  · next next ht =>
    have hlt := (List.getElem?_eq_some_iff.1 ht).1
    have hb := List.getElem?_eq_getElem (hw.length ▸ hlt)
    exact hw.arrive hb ht (ha _ ((hw.logged n _).2 ⟨_, _, hb, ht, rfl, rfl⟩))
  · exact hw

/-! ### What has been asked -/

/-- What an account was loaded with is what the record has of it, and a batch with the account has
been asked for. -/
theorem Wired.brought (hw : Wired record x) {key : AccountKey} {r : Loaded}
    (h : x.Brought key r) : r = .ok (foundBy record key) ∧
      ∃ n b, x.accounts.batches[n]? = some b ∧ key ∈ b.keys ∧
        (n, accountsAsk x.client b.keys) ∈ x.node.2 := by
  obtain ⟨loads, ends, hbooks, hends⟩ := hw.books
  obtain ⟨k, hkey, hr⟩ := h
  obtain ⟨n, b, i, outcome, hb, hi, ho, hshare⟩ := (hbooks.answered k r).1 hr
  obtain ⟨b', hb', rfl⟩ := hends n outcome ho
  obtain rfl := Option.some.inj (hb.symm.trans hb')
  obtain ⟨y, hy, hplace, _⟩ := hbooks.join hb hi
  obtain rfl : y.key = key := by simpa [Coalescer.keyOf?, hy] using hkey
  refine ⟨?_, n, b, hb, List.mem_of_getElem? hplace, ?_⟩
  · simpa [Batch.share, Batch.foundBy, hplace, eq_comm] using hshare
  · have hf := (hbooks.finished n b hb).2 (List.mem_map_of_mem ho)
    obtain ⟨talk, ht⟩ : ∃ talk, x.talks[n]? = some talk :=
      ⟨_, List.getElem?_eq_getElem (hw.length ▸ (List.getElem?_eq_some_iff.1 hb).1)⟩
    refine (hw.logged n _).2 ⟨b, talk, hb, ht, ?_, rfl⟩
    cases hw.talks n b _ hb ht with
    | fresh hf' => simp [hf] at hf'
    | waiting hf' _ => simp [hf] at hf'
    | ended _ => rfl

/-- The calls that were made, in order. -/
def calls (x : Context (ν × List (Nat × Ask))) : List Call := x.node.2.flatMap fun p => p.2.made

/-- The groups of accounts that were asked for, in order. -/
def groupsAsked (x : Context (ν × List (Nat × Ask))) : List (AccountOptions × List AccountKey) :=
  x.node.2.flatMap fun p => accountGroups ((x.accounts.batches[p.1]?).elim [] Batch.keys)

/-- Whoever is in the log has asked for the keys of a batch. -/
theorem Wired.batch_of_logged (hw : Wired record x) {p : Nat × Ask} (hp : p ∈ x.node.2) :
    ∃ b, x.accounts.batches[p.1]? = some b ∧ p.2 = accountsAsk x.client b.keys := by
  obtain ⟨b, _, hb, _, _, ha⟩ := (hw.logged p.1 p.2).1 hp
  exact ⟨b, hb, ha⟩

theorem Wired.mem_groupsAsked (hw : Wired record x) {g : AccountOptions × List AccountKey} :
    g ∈ x.groupsAsked ↔ ∃ n b, x.accounts.batches[n]? = some b ∧
      (n, accountsAsk x.client b.keys) ∈ x.node.2 ∧ g ∈ accountGroups b.keys := by
  unfold groupsAsked
  rw [List.mem_flatMap]
  constructor
  · rintro ⟨p, hp, hg⟩
    obtain ⟨b, hb, ha⟩ := hw.batch_of_logged hp
    rw [hb] at hg
    exact ⟨p.1, b, hb, ha ▸ hp, hg⟩
  · rintro ⟨n, b, hb, hlogged, hg⟩
    exact ⟨_, hlogged, by rw [hb]; exact hg⟩

/-- A call was made for every group. -/
theorem Wired.calls_eq (hw : Wired record x) :
    x.calls = x.groupsAsked.map fun g => (groupQuestion x.client g).call := by
  unfold calls groupsAsked
  rw [List.map_flatMap, List.flatMap_def, List.flatMap_def]
  refine congrArg List.flatten (List.map_congr_left fun p hp => ?_)
  obtain ⟨b, hb, ha⟩ := hw.batch_of_logged hp
  rw [hb, ha]
  rfl

/-- No account was asked for twice. -/
theorem Wired.nodup_groupsAsked (hw : Wired record x)
    (hkeys : (x.accounts.batches.flatMap Batch.keys).Nodup) :
    (x.groupsAsked.flatMap (·.2)).Nodup := by
  unfold groupsAsked
  rw [List.flatMap_assoc, List.nodup_flatMap]
  constructor
  · intro p hp
    obtain ⟨b, hb, _⟩ := hw.batch_of_logged hp
    rw [hb]
    exact nodup_flatMap_accountGroups ((List.nodup_flatMap.1 hkeys).1 b (List.mem_of_getElem? hb))
  · have honce := hw.once
    rw [List.Nodup, List.pairwise_map] at honce
    refine honce.imp_of_mem fun {p q} hp hq hne key hk hk' => hne ?_
    obtain ⟨b, hb, _⟩ := hw.batch_of_logged hp
    obtain ⟨b', hb', _⟩ := hw.batch_of_logged hq
    simp only [hb, hb', Option.elim_some] at hk hk'
    exact eq_of_nodup_flatMap hkeys hb hb' ((mem_flatMap_accountGroups b.keys key).1 hk)
      ((mem_flatMap_accountGroups b'.keys key).1 hk')

end Context

end NodeRpc
