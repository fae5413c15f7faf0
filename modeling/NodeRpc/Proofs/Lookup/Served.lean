import NodeRpc.Proofs.Lookup.Courses

/-!
# Accounts looked up together are found as alone

Accounts are looked up through one context in any order, some of them more than once and with other
options, and the node keeps to a record of accounts. Every lookup returns what the record has of its
account, as it would alone; every account is asked for by one call, and no call asks for more
accounts than a batch may have.
-/

namespace NodeRpc

/-- What a lookup of account `k` finds where the node keeps to `record`: nothing for null, and else
the account, with its address if it is an object. -/
def servedBy (record : AccountKey → Json) (k : AccountKey) : Option Json :=
  match record k with
  | .null => none
  | .obj fields => some (.obj (Table.put fields "address" (.str k.address)))
  | v => some v

theorem returned_foundBy (record : AccountKey → Json) (k : AccountKey) :
    returned (.ok (foundBy record k)) = .ok (.entity (servedBy record k)) := by
  unfold returned foundBy servedBy
  cases record k <;> rfl

/-- Looks up an account with all its fields. -/
def Inquiry.ofAccount (c : Client) (p : String × AccountOptions) : Inquiry :=
  select (.ofAccount c p.1 p.2) .all

theorem Inquiry.ofAccount_eq (c : Client) (p : String × AccountOptions) :
    ofAccount c p = .seeks (.account (.wanted c p)) .itself := rfl

theorem Inquiry.filled_ofAccount (c : Client) (p : String × AccountOptions) :
    (ofAccount c p).Filled c := by
  intro e goal h
  obtain ⟨rfl, -⟩ := Inquiry.seeks.inj h
  exact ⟨_, rfl, rfl⟩

namespace Context

variable {ν : Type} {record : AccountKey → Json}

/-- A run in which the accounts `asked` are looked up, in this order, and no lookup is given up. The
client changes nothing of what is asked and answered, and whatever the node answers, at once or
later, keeps to `record`. -/
structure LooksUp (record : AccountKey → Json) (respond : Respondent ν) (g : Graph) (node : ν)
    (events : List Event) (asked : List (String × AccountOptions)) : Prop where
  plain : g.client.registry = {}
  truthful : respond.Truthful record
  started : events.filterMap Event.started? = asked.map (.ofAccount g.client)
  lasting : ∀ e ∈ events, e.isLasting = true
  delivered : ∀ d ∈ deliveries respond g node events, d.1.Answered record d.2

theorem LooksUp.inquires {respond : Respondent ν} {g : Graph} {node : ν} {events : List Event}
    {asked : List (String × AccountOptions)} (h : LooksUp record respond g node events asked) :
    Inquires record respond g node events (asked.map (.ofAccount g.client)) :=
  ⟨h.plain, h.truthful, h.started, h.lasting, h.delivered⟩

theorem LooksUp.attending {respond : Respondent ν} {g : Graph} {node : ν} {events : List Event}
    {asked : List (String × AccountOptions)} (h : LooksUp record respond g node events asked) :
    Attending record g (asked.map (.ofAccount g.client))
      ((ofGraph g (node, [])).after respond.logged events) :=
  h.inquires.attending (List.forall_mem_map.2 fun p _ => Inquiry.filled_ofAccount g.client p)

variable {g : Graph} {asked : List (String × AccountOptions)}

/-- The course of an inquiry for an account passes this account only. -/
theorem eq_wanted_of_passes {c : Client} {find : AccountKey → Json} {p : String × AccountOptions}
    {key : AccountKey} (h : (Inquiry.ofAccount c p).Passes c find key) : key = .wanted c p := by
  obtain ⟨n, goal, hn⟩ := h
  rw [Inquiry.ofAccount_eq] at hn
  cases n with
  | zero => exact (Entity.account.inj (Inquiry.seeks.inj hn).1).symm
  | succ n =>
    rw [Function.iterate_succ_apply, Inquiry.resume, Inquiry.after_itself,
      Inquiry.iterate_ended] at hn
    cases hn

/-- A lookup that has returned has found what the record has of its account, and a call was made for
the account. -/
theorem Attending.found {x : Context (ν × List (Nat × Ask))}
    (hx : Attending record g (asked.map (.ofAccount g.client)) x) {k : Nat}
    {p : String × AccountOptions} (hp : asked[k]? = some p)
    (hdone : (x.result? k).isSome = true) :
    x.result? k = some (.ok (.entity (servedBy record (.wanted g.client p)))) ∧
      ∃ r ∈ x.groupsAsked, .wanted g.client p ∈ r.2 := by
  have hi : (asked.map (Inquiry.ofAccount g.client))[k]? = some (.ofAccount g.client p) := by
    rw [List.getElem?_map, hp]
    rfl
  obtain ⟨result, hresult⟩ := Option.isSome_iff_exists.1 hdone
  obtain ⟨n, hend, hpassed⟩ := hx.result? hi hresult
  rw [Inquiry.ofAccount_eq] at hend hpassed
  cases n with
  | zero => cases hend
  | succ n =>
    obtain ⟨r, hbrought⟩ := hpassed 0 (Nat.succ_pos n) _ _ rfl
    rw [Function.iterate_succ_apply, Inquiry.resume, Inquiry.after_itself, Inquiry.iterate_ended,
      returned_foundBy] at hend
    rw [hresult, ← Inquiry.ended.inj hend]
    exact ⟨rfl, hx.asked hbrought⟩

/-- How accounts `asked` are found that are looked up together, in the state `x` of the run, where
the node keeps to `record`. -/
structure FoundAsAlone (record : AccountKey → Json) (g : Graph)
    (asked : List (String × AccountOptions)) (x : Context (ν × List (Nat × Ask))) : Prop where
  /-- When nothing can go on and the node has answered everything, all lookups have returned. -/
  complete : x.isSettled = true → x.isAnswered = true →
    ∀ k < asked.length, (x.result? k).isSome = true
  /-- A lookup returns what the record has of its account. -/
  found : ∀ (k : Nat) p, asked[k]? = some p → (x.result? k).isSome = true →
    x.result? k = some (.ok (.entity (servedBy record (.wanted g.client p))))
  /-- It returns what it would alone, whatever else happened there. -/
  alone : ∀ (k : Nat) p, asked[k]? = some p → (x.result? k).isSome = true →
    ∀ (μ : Type) (respond : Respondent μ) (node : μ) (events : List Event),
      LooksUp record respond g node events [p] →
      (((ofGraph g (node, [])).after respond.logged events).result? 0).isSome = true →
      x.result? k = ((ofGraph g (node, [])).after respond.logged events).result? 0
  /-- One call asks for its account. -/
  once : ∀ (k : Nat) p, asked[k]? = some p → (x.result? k).isSome = true →
    ∃! i : Nat, ∃ call, x.calls[i]? = some call ∧ call.Carries (.wanted g.client p)
  /-- A call asks for accounts that are looked up with the same options, each once, and for no more
  than a batch may have. -/
  calls : ∀ call ∈ x.calls, ∃ addresses o, call = accountsCall addresses o ∧ addresses.Nodup ∧
    (∀ a ∈ addresses, ⟨a, o⟩ ∈ asked.map (AccountKey.wanted g.client)) ∧
    addresses.length ≤ max g.maxBatchSize 1

theorem found_as_alone {respond : Respondent ν} {node : ν} {events : List Event}
    {asked : List (String × AccountOptions)} (h : LooksUp record respond g node events asked) :
    FoundAsAlone record g asked ((ofGraph g (node, [])).after respond.logged events) := by
  have hx := h.attending
  have hrested := h.inquires.rested hx.filled
  generalize (ofGraph g (node, [])).after respond.logged events = x at *
  refine ⟨fun hsettled hanswered k hk => ?_, fun k p hp hdone => (hx.found hp hdone).1,
    fun k p hp hdone μ respond node events halone hend => ?_, fun k p hp hdone => ?_,
    fun call hcall => ?_⟩
  · exact hx.ends hrested hsettled hanswered (by rwa [List.length_map])
  · have hy := halone.attending
    rw [(hx.found hp hdone).1, (hy.found rfl hend).1]
  · obtain ⟨r, hr, hmem⟩ := (hx.found hp hdone).2
    obtain ⟨i, hi⟩ := List.getElem?_of_mem hr
    have hcarries := (hx.carries_iff i _).2 ⟨r, hi, hmem⟩
    exact ⟨i, hcarries, fun j hj => hx.carries_unique hj hcarries⟩
  · rw [hx.wired.calls_eq] at hcall
    obtain ⟨r, hr, rfl⟩ := List.mem_map.1 hcall
    obtain ⟨hcall, hkeys, hsize⟩ := hx.group hr
    refine ⟨_, r.1, hcall, hx.nodup_addresses hr, fun a ha => ?_, by rwa [List.length_map]⟩
    obtain ⟨k, hk, rfl⟩ := List.mem_map.1 ha
    obtain ⟨ho, i, hi, hpasses⟩ := hkeys k hk
    obtain ⟨p, hp, rfl⟩ := List.mem_map.1 hi
    have hkey : (⟨k.address, r.1⟩ : AccountKey) = .wanted g.client p := by
      rw [← ho]
      exact eq_wanted_of_passes hpasses
    rw [hkey]
    exact List.mem_map_of_mem hp

/-- A record that has something of every account but one, depending on the options. -/
def echo (k : AccountKey) : Json :=
  if k.address = "gone" then .null else .obj [("config", k.options.toJson)]

/-- What a node answers to a call that keeps to that record. -/
def echoed (call : Call) : Outcome :=
  match call.params with
  | .arr [.arr addresses, o] => .ok (.obj [("context", .obj [("slot", .ofNat 1)]),
      ("value", .arr (addresses.map fun a =>
        if a = .str "gone" then .null else .obj [("config", o)]))])
  | _ => .error .transportClosed

theorem echoed_answered (call : Call) : call.Answered echo (echoed call) := by
  rintro addresses o rfl
  refine ⟨_, 1, rfl, rfl, ?_⟩
  simp [Table.get?, echo, Function.comp_def]

/-- What a node answers to what is asked. -/
def echoedAll (a : Ask) : Answer := .ok (a.made.map echoed)

theorem echoedAll_answered (a : Ask) : a.Answered echo (echoedAll a) :=
  a.answered_of_calls echoed_answered

/-- A node that answers the first talk at once, and the others later. -/
def halting : Respondent Unit := fun node t a => (if t = 0 then some (echoedAll a) else none, node)

/-- The accounts that are looked up: one of them twice, once more with other options, and one that
there is not. -/
def lookedUp : List (String × AccountOptions) :=
  [("A", {}), ("B", {}), ("A", {}), ("A", { commitment := some .finalized }), ("gone", {})]

/-- All of them are queued before the last one, who waits for the first, hands them over in two
batches. -/
def halfLate : List Event :=
  lookedUp.map (fun p => .start (.ofAccount {} p)) ++ [0, 1, 3, 4, 2].map .poll ++
    [.runTalk 0, .runTalk 1,
      .deliver 1 (echoedAll (accountsAsk {} ((lookedUp.drop 3).map (.wanted {})))),
      .runTalk 1] ++ (List.range 5).map .poll

/-- The account that is looked up twice is looked up alone. -/
def byItself : List Event :=
  [.start (.ofAccount {} ("A", {})), .poll 0, .poll 0, .runTalk 0, .poll 0]

theorem looksUp_halting {events : List Event} {asked : List (String × AccountOptions)}
    (hstarted : events.filterMap Event.started? = asked.map (.ofAccount {}))
    (hlasting : ∀ e ∈ events, e.isLasting = true)
    (hdelivered : ∀ d ∈ deliveries halting ⟨{}, 2⟩ () events, d.2 = echoedAll d.1) :
    LooksUp echo halting ⟨{}, 2⟩ () events asked where
  plain := rfl
  truthful := by
    intro node t a answer h
    unfold halting at h
    split at h
    · obtain rfl := Option.some.inj h
      exact echoedAll_answered a
    · simp at h
  started := hstarted
  lasting := hlasting
  delivered d hd := by
    rw [hdelivered d hd]
    exact echoedAll_answered d.1

/-- The account with other options is found with these, the one that there is not is not found, and
the one that is looked up twice is asked for by one call and found as alone. -/
theorem found_as_alone_half_late :
    LooksUp echo halting ⟨{}, 2⟩ () halfLate lookedUp ∧
    ((ofGraph ⟨{}, 2⟩ ((), [])).after halting.logged halfLate).result? 3 =
      some (.ok (.entity (servedBy echo ⟨"A", { commitment := some .finalized }⟩))) ∧
    ((ofGraph ⟨{}, 2⟩ ((), [])).after halting.logged halfLate).result? 4 =
      some (.ok (.entity none)) ∧
    (∃! i : Nat, ∃ call,
      ((ofGraph ⟨{}, 2⟩ ((), [])).after halting.logged halfLate).calls[i]? = some call ∧
        call.Carries ⟨"A", { commitment := some .confirmed }⟩) ∧
    ((ofGraph ⟨{}, 2⟩ ((), [])).after halting.logged halfLate).result? 2 =
      ((ofGraph ⟨{}, 2⟩ ((), [])).after halting.logged byItself).result? 0 := by
  have hrun : LooksUp echo halting ⟨{}, 2⟩ () halfLate lookedUp :=
    looksUp_halting (by decide +kernel) (by decide +kernel) (by decide +kernel)
  have halone : LooksUp echo halting ⟨{}, 2⟩ () byItself [("A", {})] :=
    looksUp_halting (by decide +kernel) (by decide +kernel) (by decide +kernel)
  have h := found_as_alone hrun
  exact ⟨hrun, h.found 3 _ rfl (by decide +kernel), h.found 4 _ rfl (by decide +kernel),
    h.once 2 _ rfl (by decide +kernel),
    h.alone 2 _ rfl (by decide +kernel) Unit halting () byItself halone (by decide +kernel)⟩

end Context

end NodeRpc
