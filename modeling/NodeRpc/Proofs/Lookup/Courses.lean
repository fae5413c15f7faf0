import NodeRpc.Proofs.Lookup.Inquiries
import NodeRpc.Proofs.Lookup.Stranding
import NodeRpc.Proofs.Lookup.Wire

/-!
# Inquiries take their course

Inquiries for accounts are made through one context in any order, none is given up, and the node
keeps to a record of accounts. Then every lookup takes the course of its inquiry, as if the accounts
were found at once, and all that it has passed was loaded. Nothing else is asked for, and nothing
twice. `Attending` says so; whatever happens keeps it.
-/

namespace NodeRpc

namespace Context

variable {ν : Type} {record : AccountKey → Json}

/-- The inquiry that is started by an event. -/
def Event.started? : Event → Option Inquiry
  | .start i => some i
  | _ => none

/-- Whether an event neither gives a lookup up nor forgets what was found. -/
def Event.isLasting : Event → Bool
  | .drop _ => false
  | .teardown => false
  | _ => true

/-- What is answered by an event, with what was asked. -/
def delivers (x : Context (ν × List (Nat × Ask))) : Event → List (Ask × Answer)
  | .deliver n answer => (x.node.2.filter fun p => p.1 = n).map fun p => (p.2, answer)
  | _ => []

/-- What is answered later in a run, with what was asked. -/
def deliveries (respond : Respondent ν) (g : Graph) (node : ν) (events : List Event) :
    List (Ask × Answer) :=
  observed (apply respond.logged) delivers (ofGraph g (node, [])) events

/-- A run in which `inquiries` are made, in this order, and no lookup is given up. The
client changes nothing of what is asked and answered, and whatever the node answers, at once or
later, keeps to `record`. -/
structure Inquires (record : AccountKey → Json) (respond : Respondent ν) (g : Graph) (node : ν)
    (events : List Event) (inquiries : List Inquiry) : Prop where
  plain : g.client.registry = {}
  truthful : respond.Truthful record
  started : events.filterMap Event.started? = inquiries
  lasting : ∀ e ∈ events, e.isLasting = true
  delivered : ∀ d ∈ deliveries respond g node events, d.1.Answered record d.2

/-- The last event of a run starts the last lookup, or none. -/
theorem Inquires.of_concat {respond : Respondent ν} {g : Graph} {node : ν} {events : List Event}
    {e : Event} {inquiries : List Inquiry}
    (h : Inquires record respond g node (events ++ [e]) inquiries) :
    (e.started? = none ∧ Inquires record respond g node events inquiries) ∨
      ∃ before i, inquiries = before ++ [i] ∧ e = .start i ∧
        Inquires record respond g node events before := by
  have hprefix : ∀ before, events.filterMap Event.started? = before →
      Inquires record respond g node events before := by
    intro before hbefore
    refine ⟨h.plain, h.truthful, hbefore,
      fun e' he' => h.lasting e' (List.mem_append_left _ he'), fun d hd => h.delivered d ?_⟩
    unfold deliveries
    rw [observed_concat]
    exact List.mem_append_left _ hd
  have hstarted := h.started
  rw [List.filterMap_append] at hstarted
  cases he : e.started? with
  | none =>
    rw [List.filterMap_cons_none he, List.filterMap_nil, List.append_nil] at hstarted
    exact .inl ⟨rfl, hprefix inquiries hstarted⟩
  | some i =>
    rw [List.filterMap_cons_some he, List.filterMap_nil] at hstarted
    have hstart : e = .start i := by
      cases e with
      | start j => exact congrArg Event.start (Option.some.inj he)
      | _ => exact absurd he nofun
    exact .inr ⟨_, i, hstarted.symm, hstart, hprefix _ rfl⟩

/-! ### What holds at all times -/

/-- How far lookup `l` has come with inquiry `i`: it was not given up, it is on the course of the
inquiry, all that it has passed was loaded, and it seeks what is next. -/
structure InCourse (c : Client) (record : AccountKey → Json) (x : Context ν) (i : Inquiry)
    (l : Lookup) : Prop where
  kept : l.dropped = false
  passed : ∃ n, l.inquiry = (Inquiry.resume c (foundBy record))^[n] i ∧ ∀ m < n, ∀ key goal,
    (Inquiry.resume c (foundBy record))^[m] i = .seeks (.account key) goal → ∃ r, x.Brought key r
  sought : ∀ (r : Nat) e goal, l.resolve = some r → l.inquiry = .seeks e goal →
    x.sought[r]? = some e

/-- What holds of a context in which `inquiries` are made, where the client changes nothing on the
way and the node keeps to `record`. -/
structure Attending (record : AccountKey → Json) (g : Graph) (inquiries : List Inquiry)
    (x : Context (ν × List (Nat × Ask))) : Prop where
  plain : g.client.registry = {}
  filled : ∀ i ∈ inquiries, i.Filled g.client
  sound : x.Sound
  matched : x.Matched
  wired : Wired record x
  client : x.client = g.client
  limit : x.accounts.limit = g.maxBatchSize
  /-- Nothing is sought but what is on the course of an inquiry. -/
  sought : ∀ key, .account key ∈ x.sought →
    ∃ i ∈ inquiries, i.Passes g.client (foundBy record) key
  length : x.lookups.length = inquiries.length
  courses : ∀ (k : Nat) i l, inquiries[k]? = some i → x.lookups[k]? = some l →
    InCourse g.client record x i l

variable {g : Graph} {inquiries : List Inquiry} {x x' : Context (ν × List (Nat × Ask))}

theorem InCourse.mono {c : Client} {i : Inquiry} {l : Lookup} (h : InCourse c record x i l)
    (hsought : ∀ (r : Nat) e, x.sought[r]? = some e → x'.sought[r]? = some e)
    (hbrought : ∀ key r, x.Brought key r → x'.Brought key r) : InCourse c record x' i l where
  kept := h.kept
  passed := by
    obtain ⟨n, hn, hpassed⟩ := h.passed
    refine ⟨n, hn, fun m hm key goal hkey => ?_⟩
    obtain ⟨r, hr⟩ := hpassed m hm key goal hkey
    exact ⟨r, hbrought key r hr⟩
  sought r e goal hr he := hsought r e (h.sought r e goal hr he)

theorem attending_ofGraph (hplain : g.client.registry = {}) (node : ν) :
    Attending record g [] (ofGraph g (node, [])) where
  plain := hplain
  filled := by simp
  sound := sound_ofGraph g _
  matched := matched_ofGraph g _
  wired := wired_ofGraph g node
  client := rfl
  limit := rfl
  sought key h := by simp [ofGraph] at h
  length := rfl
  courses k i l h := by simp at h

/-- The options of all that is sought are filled in. -/
theorem Attending.normalized (hx : Attending record g inquiries x) {key : AccountKey}
    (h : .account key ∈ x.sought) : key.options.normalized g.client.commitment = key.options := by
  obtain ⟨i, hi, hpasses⟩ := hx.sought key h
  exact (hx.filled i hi).passes hpasses

/-! ### Steps -/

theorem Attending.start (hx : Attending record g inquiries x) {i : Inquiry}
    (hi : i.Filled g.client) : Attending record g (inquiries ++ [i]) (x.start i) where
  plain := hx.plain
  filled j hj := by
    rcases List.mem_append.1 hj with hj | hj
    · exact hx.filled j hj
    · exact List.mem_singleton.1 hj ▸ hi
  sound := hx.sound.withLookups _
  matched := ⟨hx.matched.keys, hx.matched.loads, hx.matched.outcomes⟩
  wired := hx.wired.congr rfl rfl rfl rfl fun _ _ h => h
  client := hx.client
  limit := hx.limit
  sought key h := by
    obtain ⟨j, hj, hpasses⟩ := hx.sought key h
    exact ⟨j, List.mem_append_left _ hj, hpasses⟩
  length := by simp [Context.start, hx.length]
  courses k j l hj hl := by
    have hl : (x.lookups ++ [{ inquiry := i }])[k]? = some l := hl
    rw [getElem?_concat] at hj hl
    rw [hx.length] at hl
    split at hj
    · next heq =>
      rw [if_pos heq] at hl
      obtain rfl := Option.some.inj hj
      obtain rfl := Option.some.inj hl
      exact ⟨rfl, ⟨0, rfl, fun m hm => absurd hm (Nat.not_lt_zero m)⟩, by simp⟩
    · next hne =>
      rw [if_neg hne] at hl
      exact (hx.courses k j l hj hl).mono (fun _ _ h => h) fun _ _ h => h

/-- What is done to the loads and talks keeps it. -/
theorem Attending.onward (hx : Attending record g inquiries x) (hs : x'.Sound) (hm : x'.Matched)
    (hw : Wired record x') (h : x.Onward x') : Attending record g inquiries x' where
  plain := hx.plain
  filled := hx.filled
  sound := hs
  matched := hm
  wired := hw
  client := h.client.trans hx.client
  limit := h.limit.trans hx.limit
  sought key hkey := hx.sought key (h.sought ▸ hkey)
  length := h.lookups ▸ hx.length
  courses k i l hi hl :=
    (hx.courses k i l hi (h.lookups ▸ hl)).mono (fun _ _ hr => h.sought ▸ hr) h.brought

theorem Attending.seek (hx : Attending record g inquiries x) {i : Inquiry} {key : AccountKey}
    (hi : i ∈ inquiries) (hkey : i.Passes g.client (foundBy record) key) :
    Attending record g inquiries (x.seek (.account key)) where
  plain := hx.plain
  filled := hx.filled
  sound := hx.sound.seek key
  matched := hx.matched.seek hx.sound (.account key)
  wired := hx.wired.congr rfl rfl rfl rfl fun _ _ h => h
  client := hx.client
  limit := hx.limit
  sought key' h := by
    rcases List.mem_append.1 h with h | h
    · exact hx.sought key' h
    · obtain rfl : key' = key := by simpa using h
      exact ⟨i, hi, hkey⟩
  length := hx.length
  courses k j l hj hl := by
    refine (hx.courses k j l hj hl).mono (fun r e hr => ?_) fun _ _ h => h
    exact getElem?_append_of_some hr _

theorem Attending.attend (hx : Attending record g inquiries x)
    (respond : Respondent (ν × List (Nat × Ask))) (r : Nat) :
    Attending record g inquiries (x.attend respond r) :=
  hx.onward (hx.sound.attend respond r) (hx.matched.attend hx.sound respond r)
    (hx.wired.attend hx.sound respond r) (hx.sound.attend_onward respond r)

/-- What a resolve came to is what the record has of the account that it seeks, and the inquiry goes
on as it should. -/
theorem Attending.after (hx : Attending record g inquiries x) {r : Nat} {key : AccountKey}
    {loaded : Loaded} (hr : x.sought[r]? = some (.account key)) (ho : x.outcome? r = some loaded)
    (goal : Goal) : x.Brought key loaded ∧ .after x.client goal loaded =
      Inquiry.resume g.client (foundBy record) (.seeks (.account key) goal) := by
  have hbrought := hx.matched.brought hx.sound hr ho
  refine ⟨hbrought, ?_⟩
  rw [(hx.wired.brought hbrought).1, hx.client]
  rfl

/-- A lookup whose resolve seeks what is next on its course goes on with what the resolve came
to. -/
theorem Attending.setLookup (hx : Attending record g inquiries x) {k n r : Nat} {i : Inquiry}
    {key : AccountKey} {goal : Goal} (hi : inquiries[k]? = some i)
    (hn : .seeks (.account key) goal = (Inquiry.resume g.client (foundBy record))^[n] i)
    (hpassed : ∀ m < n, ∀ key goal, (Inquiry.resume g.client (foundBy record))^[m] i =
      .seeks (.account key) goal → ∃ r, x.Brought key r)
    (hr : x.sought[r]? = some (.account key)) :
    Attending record g inquiries (x.setLookup k (x.lookupNext (.account key) goal r)) where
  plain := hx.plain
  filled := hx.filled
  sound := hx.sound.setLookup k _
  matched := ⟨hx.matched.keys, hx.matched.loads, hx.matched.outcomes⟩
  wired := hx.wired.congr rfl rfl rfl rfl fun _ _ h => h
  client := hx.client
  limit := hx.limit
  sought := hx.sought
  length := by simp [Context.setLookup, hx.length]
  courses j i' l hj hl := by
    have hcourse : InCourse g.client record x i' l := by
      rcases getElem?_set_cases hl with ⟨rfl, rfl⟩ | ⟨_, hl⟩
      · obtain rfl := Option.some.inj (hi.symm.trans hj)
        unfold lookupNext
        split
        · next loaded ho =>
          obtain ⟨hbrought, hafter⟩ := hx.after hr ho goal
          refine ⟨rfl, ⟨n + 1, ?_, fun m hm key' goal' hkey => ?_⟩, by simp⟩
          · rw [Function.iterate_succ_apply', ← hn, ← hafter]
          · rcases Nat.lt_succ_iff_lt_or_eq.1 hm with hm | rfl
            · exact hpassed m hm key' goal' hkey
            · cases hn.trans hkey
              exact ⟨_, hbrought⟩
        · refine ⟨rfl, ⟨n, hn, hpassed⟩, fun r' e goal' hr' he => ?_⟩
          obtain rfl := Option.some.inj hr'
          cases he
          exact hr
      · exact hx.courses j i' l hj hl
    exact hcourse.mono (fun _ _ h => h) fun _ _ h => h

/-- When a lookup moves the resolve by which it seeks something, it keeps to its course. -/
theorem Attending.pursue (hx : Attending record g inquiries x)
    (respond : Respondent (ν × List (Nat × Ask))) {k : Nat} {e : Entity} {goal : Goal}
    {resolve : Option Nat} (hl : x.lookups[k]? = some { inquiry := .seeks e goal, resolve }) :
    Attending record g inquiries (x.pursue respond k e goal resolve) := by
  have hk : k < inquiries.length := hx.length ▸ (List.getElem?_eq_some_iff.1 hl).1
  have hi := List.getElem?_eq_getElem hk
  have hmem := List.getElem_mem hk
  generalize inquiries[k] = i at hi hmem
  have hcourse := hx.courses k i _ hi hl
  obtain ⟨n, hn, hpassed⟩ := hcourse.passed
  obtain ⟨key, rfl, -⟩ := (hx.filled i hmem).iterate n e goal hn.symm
  cases resolve with
  | none =>
    have hy := hx.seek hmem ⟨n, goal, hn.symm⟩
    have hon := hy.sound.attend_onward respond x.resolves.resolves.length
    refine (hy.attend respond x.resolves.resolves.length).setLookup hi hn ?_ ?_
    · intro m hm key' goal' hkey
      obtain ⟨r, hr⟩ := hpassed m hm key' goal' hkey
      exact ⟨r, hon.brought key' r hr⟩
    · rw [hon.sought]
      simp [Context.seek, ← hx.sound.soughtLength]
  | some r =>
    have hon := hx.sound.attend_onward respond r
    refine (hx.attend respond r).setLookup hi hn ?_ ?_
    · intro m hm key' goal' hkey
      obtain ⟨r, hr⟩ := hpassed m hm key' goal' hkey
      exact ⟨r, hon.brought key' r hr⟩
    · rw [hon.sought]
      exact hcourse.sought r _ goal rfl rfl

theorem Attending.poll (hx : Attending record g inquiries x)
    (respond : Respondent (ν × List (Nat × Ask))) (k : Nat) :
    Attending record g inquiries (x.poll respond k) := by
  have hy : Attending record g inquiries
      (pollUpTo respond (x.scope.entries.length + 2) x k) :=
    pollUpTo_keeps (fun _ _ _ _ hy hl => hy.pursue respond hl) _ hx
  unfold Context.poll
  rwa [hy.sound.sweep_eq]

theorem Attending.runTalk (hx : Attending record g inquiries x) {respond : Respondent ν}
    (htruth : respond.Truthful record) (t : Nat) :
    Attending record g inquiries (x.runTalk respond.logged t) := by
  have hs := hx.sound
  refine hx.onward (hs.runTalk _ t) (hx.matched.runTalk hs _ t)
    (hx.wired.runTalk htruth (hx.client ▸ hx.plain) ?_ t) (hs.runTalk_onward _ t)
  intro b hb k hk
  obtain ⟨_, _, hbooks, _⟩ := hx.wired.books
  rw [hx.client]
  exact hx.normalized (hx.matched.sought_of_batch hs hbooks hb hk)

theorem Attending.deliver (hx : Attending record g inquiries x) (t : Nat) {answer : Answer}
    (h : ∀ a, (t, a) ∈ x.node.2 → a.Answered record answer) :
    Attending record g inquiries (x.deliver t answer) :=
  hx.onward (hx.sound.deliver t answer) (hx.matched.deliver t answer) (hx.wired.deliver t h)
    (x.deliver_onward t answer)

/-- What an event does that starts no lookup, gives none up and forgets nothing. -/
theorem Attending.apply (hx : Attending record g inquiries x) {respond : Respondent ν}
    (htruth : respond.Truthful record) {e : Event} (hstart : e.started? = none)
    (hlasting : e.isLasting = true) (hdelivered : ∀ d ∈ x.delivers e, d.1.Answered record d.2) :
    Attending record g inquiries (x.apply respond.logged e) := by
  cases e with
  | start i => simp [Event.started?] at hstart
  | poll k => exact hx.poll respond.logged k
  | drop k => simp [Event.isLasting] at hlasting
  | runTalk t =>
    unfold Context.apply
    dsimp only
    rw [if_pos (hx.sound.isTask t)]
    exact hx.runTalk htruth t
  | deliver t answer =>
    refine hx.deliver t fun a ha => hdelivered (a, answer) (List.mem_map.2 ⟨(t, a), ?_, rfl⟩)
    exact List.mem_filter.2 ⟨ha, by simp⟩
  | teardown => simp [Event.isLasting] at hlasting

/-- What the last event of a run answers keeps to the record. -/
theorem Inquires.delivers {respond : Respondent ν} {node : ν} {events : List Event} {e : Event}
    (h : Inquires record respond g node (events ++ [e]) inquiries) :
    ∀ d ∈ ((ofGraph g (node, [])).after respond.logged events).delivers e,
      d.1.Answered record d.2 := by
  intro d hd
  refine h.delivered d ?_
  unfold deliveries
  rw [observed_concat]
  exact List.mem_append_right _ hd

theorem Inquires.attending {respond : Respondent ν} {node : ν} {events : List Event}
    (h : Inquires record respond g node events inquiries)
    (hfilled : ∀ i ∈ inquiries, i.Filled g.client) :
    Attending record g inquiries ((ofGraph g (node, [])).after respond.logged events) := by
  induction events using List.reverseRecOn generalizing inquiries with
  | nil =>
    obtain rfl : [] = inquiries := h.started
    exact attending_ofGraph h.plain node
  | append_singleton events e ih =>
    rw [after_concat]
    have hdelivers := h.delivers
    have hlasting := h.lasting e (by simp)
    rcases h.of_concat with ⟨hnone, hrest⟩ | ⟨before, i, rfl, rfl, hrest⟩
    · exact (ih hrest hfilled).apply h.truthful hnone hlasting hdelivers
    · exact (ih hrest fun j hj => hfilled j (List.mem_append_left _ hj)).start
        (hfilled i (by simp))

theorem Inquires.rested {respond : Respondent ν} {node : ν} {events : List Event}
    (h : Inquires record respond g node events inquiries)
    (hfilled : ∀ i ∈ inquiries, i.Filled g.client) :
    ((ofGraph g (node, [])).after respond.logged events).Rested := by
  refine rested_after respond.logged g _ fun e he => ?_
  have hlasting := h.lasting e he
  cases e with
  | start i =>
    have hmem : i ∈ inquiries := by
      rw [← h.started]
      exact List.mem_filterMap.2 ⟨_, he, rfl⟩
    intro e goal hseeks
    obtain ⟨key, hkey, -⟩ := hfilled i hmem e goal hseeks
    exact ⟨key, hkey⟩
  | drop k => simp [Event.isLasting] at hlasting
  | teardown => simp [Event.isLasting] at hlasting
  | _ => trivial

/-! ### What is returned and asked -/

/-- A lookup that has returned has come to the end of the course of its inquiry, and all that is
passed there was loaded. -/
theorem Attending.result? (hx : Attending record g inquiries x) {k : Nat} {i : Inquiry}
    {result : Except LookupError Finding} (hi : inquiries[k]? = some i)
    (hresult : x.result? k = some result) :
    ∃ n, (Inquiry.resume g.client (foundBy record))^[n] i = .ended result ∧ ∀ m < n, ∀ key goal,
      (Inquiry.resume g.client (foundBy record))^[m] i = .seeks (.account key) goal →
      ∃ r, x.Brought key r := by
  unfold Context.result? at hresult
  cases hl : x.lookups[k]? with
  | none => simp [hl] at hresult
  | some l =>
    obtain ⟨n, hn, hpassed⟩ := (hx.courses k i l hi hl).passed
    rw [hl, Option.map_some, hn] at hresult
    refine ⟨n, ?_, hpassed⟩
    split at hresult
    · next heq =>
      rw [Option.some.inj heq, Option.some.inj hresult]
    · simp at hresult

/-- When nothing can go on and the node has answered everything, all lookups have returned. -/
theorem Attending.ends (hx : Attending record g inquiries x) (hrested : x.Rested)
    (hsettled : x.isSettled = true) (hanswered : x.isAnswered = true) {k : Nat}
    (hk : k < inquiries.length) : (x.result? k).isSome = true := by
  refine hrested.ends hsettled hanswered (fun l hl => ?_) (hx.length ▸ hk)
  obtain ⟨j, hj⟩ := List.getElem?_of_mem hl
  have hlt : j < inquiries.length := hx.length ▸ (List.getElem?_eq_some_iff.1 hj).1
  exact (hx.courses j _ l (List.getElem?_eq_getElem hlt) hj).kept

/-- A call was made for whatever was loaded. -/
theorem Attending.asked (hx : Attending record g inquiries x) {key : AccountKey} {r : Loaded}
    (h : x.Brought key r) : ∃ group ∈ x.groupsAsked, key ∈ group.2 := by
  obtain ⟨-, n, b, hb, hmem, hlogged⟩ := hx.wired.brought h
  obtain ⟨group, hgroup, hkey⟩ :=
    List.mem_flatMap.1 ((mem_flatMap_accountGroups b.keys key).2 hmem)
  exact ⟨group, hx.wired.mem_groupsAsked.2 ⟨n, b, hb, hlogged, hgroup⟩, hkey⟩

/-- No account is asked for twice. -/
theorem Attending.nodup_groupsAsked (hx : Attending record g inquiries x) :
    (x.groupsAsked.flatMap (·.2)).Nodup := by
  obtain ⟨_, _, hbooks, _⟩ := hx.wired.books
  exact hx.wired.nodup_groupsAsked (hx.matched.nodup_keys hx.sound hbooks)

/-- The call for a group asks for accounts with the same options that are on the course of an
inquiry, and for no more than a batch may have. -/
theorem Attending.group (hx : Attending record g inquiries x)
    {r : AccountOptions × List AccountKey} (hr : r ∈ x.groupsAsked) :
    (groupQuestion x.client r).call = accountsCall (r.2.map AccountKey.address) r.1 ∧
      (∀ k ∈ r.2, k.options = r.1 ∧ ∃ i ∈ inquiries, i.Passes g.client (foundBy record) k) ∧
      r.2.length ≤ max g.maxBatchSize 1 := by
  obtain ⟨n, b, hb, _, hgroup⟩ := hx.wired.mem_groupsAsked.1 hr
  obtain ⟨loads, ends, hbooks, _⟩ := hx.wired.books
  have hmem := List.mem_of_getElem? hb
  obtain ⟨⟨k, hk, ho⟩, hfilter⟩ := mem_accountGroups.1 hgroup
  have hkeys : ∀ k ∈ b.keys, .account k ∈ x.sought :=
    fun _ => hx.matched.sought_of_batch hx.sound hbooks hmem
  refine ⟨?_, fun k hk => ?_, ?_⟩
  · have hnormalized : r.1.normalized x.client.commitment = r.1 := by
      rw [hx.client, ← ho, hx.normalized (hkeys k hk)]
    exact groupQuestion_call (hx.client ▸ hx.plain) hnormalized r.2
  · rw [hfilter, List.mem_filter, decide_eq_true_eq] at hk
    exact ⟨hk.2, hx.sought k (hkeys k hk.1)⟩
  · have hsize := (hbooks.sizes b hmem).2.2
    rw [hx.limit] at hsize
    exact Nat.le_trans (length_accountGroups hgroup).2 hsize

/-- The addresses of a group are different. -/
theorem Attending.nodup_addresses (hx : Attending record g inquiries x)
    {r : AccountOptions × List AccountKey} (hr : r ∈ x.groupsAsked) :
    (r.2.map AccountKey.address).Nodup := by
  obtain ⟨_, hkeys, _⟩ := hx.group hr
  refine ((List.nodup_flatMap.1 hx.nodup_groupsAsked).1 r hr).map_on fun k hk l hl hkl => ?_
  exact AccountKey.eq_of hkl ((hkeys k hk).1.trans (hkeys l hl).1.symm)

/-- Which call carries an account is which group has it. -/
theorem Attending.carries_iff (hx : Attending record g inquiries x) (i : Nat) (key : AccountKey) :
    (∃ call, x.calls[i]? = some call ∧ call.Carries key) ↔
      ∃ r, x.groupsAsked[i]? = some r ∧ key ∈ r.2 := by
  rw [hx.wired.calls_eq, List.getElem?_map]
  have hcall : ∀ r ∈ x.groupsAsked,
      (groupQuestion x.client r).call.Carries key ↔ key ∈ r.2 := by
    intro r hr
    obtain ⟨hcall, hkeys, _⟩ := hx.group hr
    rw [hcall]
    exact carries_accountsCall fun k hk => (hkeys k hk).1
  constructor
  · rintro ⟨call, hget, hcarries⟩
    obtain ⟨r, hr, rfl⟩ := Option.map_eq_some_iff.1 hget
    exact ⟨r, hr, (hcall r (List.mem_of_getElem? hr)).1 hcarries⟩
  · rintro ⟨r, hr, hkey⟩
    exact ⟨_, by rw [hr]; rfl, (hcall r (List.mem_of_getElem? hr)).2 hkey⟩

/-- Two calls for an account are one. -/
theorem Attending.carries_unique (hx : Attending record g inquiries x) {i j : Nat}
    {key : AccountKey} (hi : ∃ call, x.calls[i]? = some call ∧ call.Carries key)
    (hj : ∃ call, x.calls[j]? = some call ∧ call.Carries key) : i = j := by
  obtain ⟨r, hr, hkey⟩ := (hx.carries_iff i key).1 hi
  obtain ⟨r', hr', hkey'⟩ := (hx.carries_iff j key).1 hj
  exact eq_of_nodup_flatMap hx.nodup_groupsAsked hr hr' hkey hkey'

end Context

end NodeRpc
