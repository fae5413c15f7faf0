import NodeRpc.Proofs.Lookup.Chains
import NodeRpc.Proofs.Lookup.Effort

/-!
# Chains of owners are followed to the end

Chains of owners are asked for through one context in any order, and the node keeps to a record of
accounts. Where owners lead to finitely many addresses, everybody who can go on does so for a
limited number of times, and then all chains have been returned, each as the record has it; no
account is asked for twice.
-/

namespace NodeRpc.Context

variable {ν : Type} {record : AccountKey → Json}

/-- How the chains of owners `asked` are followed, in the state `x` of the run, where the node keeps
to `record`. -/
structure OwnersFollowed (record : AccountKey → Json) (g : Graph)
    (asked : List (String × AccountOptions)) (x : Context (ν × List (Nat × Ask))) : Prop where
  /-- When no event finds anything to do, all chains have been returned. -/
  complete : (∀ e, x.finds e = false) → ∀ k < asked.length, (x.result? k).isSome = true
  /-- What is returned is what the chain comes to, and nothing else. -/
  outcome : ∀ (k : Nat) p result, asked[k]? = some p → x.result? k = some result → ∀ other,
    ChainOutcome (g.client.accountAt p.2 record) (g.client.accountAt p.2 (foundBy record)) p.1 other ↔
      other = result
  /-- An account is asked for by one call at most. -/
  once : ∀ (i j : Nat) key, (∃ call, x.calls[i]? = some call ∧ call.Carries key) →
    (∃ call, x.calls[j]? = some call ∧ call.Carries key) → i = j
  /-- A call asks for accounts that owners lead to in one of the chains, with its options, and for
  each of them once. -/
  calls : ∀ call ∈ x.calls, ∃ addresses o, call = accountsCall addresses o ∧ addresses.Nodup ∧
    ∀ a ∈ addresses, ∃ p ∈ asked, a ∈ reachedFrom (g.client.accountAt p.2 record) p.1 ∧
      o = p.2.normalized g.client.commitment

/-- Where owners lead to finitely many addresses, no more than eight events for each of them find
anything to do, and the chains are followed. -/
theorem follows_owners {respond : Respondent ν} {g : Graph} {node : ν} {events : List Event}
    {asked : List (String × AccountOptions)}
    (h : Inquires record respond g node events (asked.map fun p => .chain g.client p.1 p.2))
    (hfinite : ∀ p ∈ asked, (reachedFrom (g.client.accountAt p.2 record) p.1).Finite) :
    (moves respond.logged (ofGraph g (node, [])) events).length ≤
      8 * (asked.map fun p => (reachedFrom (g.client.accountAt p.2 record) p.1).ncard).sum ∧
    OwnersFollowed record g asked ((ofGraph g (node, [])).after respond.logged events) := by
  have hfilled : ∀ i ∈ asked.map fun p => Inquiry.chain g.client p.1 p.2, i.Filled g.client :=
    List.forall_mem_map.2 fun p _ => Inquiry.filled_chain g.client p.1 p.2
  have hends : ∀ p ∈ asked, ∃ result, (Inquiry.resume g.client (foundBy record))^[
      (reachedFrom (g.client.accountAt p.2 record) p.1).ncard] (.chain g.client p.1 p.2) =
        .ended result := fun p hp => chain_ends (hfinite p hp)
  have hmoves := h.effort_after hfilled
    (List.forall_mem_map.2 fun p hp => ⟨_, hends p hp⟩)
  have hx := h.attending hfilled
  have hrested := h.rested hfilled
  generalize (ofGraph g (node, [])).after respond.logged events = x at *
  refine ⟨?_, fun hidle k hk => ?_, fun k p result hp hresult other => ?_, fun i j key => ?_,
    fun call hcall => ?_⟩
  · have hleft : ∀ p ∈ asked, (Inquiry.chain g.client p.1 p.2).left g.client (foundBy record) ≤
        (reachedFrom (g.client.accountAt p.2 record) p.1).ncard := by
      intro p hp
      obtain ⟨result, hend⟩ := hends p hp
      exact Inquiry.left_le hend
    rw [List.map_map] at hmoves
    exact Nat.le_trans (Nat.le_of_add_right_le hmoves)
      (Nat.mul_le_mul_left 8 (List.sum_le_sum hleft))
  · obtain ⟨hsettled, hanswered⟩ := isSettled_of_finds hidle
    exact hx.ends hrested hsettled hanswered (by rwa [List.length_map])
  · obtain ⟨n, hend, -⟩ := hx.result? (by rw [List.getElem?_map, hp]; rfl) hresult
    rw [chainOutcome_iff]
    exact ⟨fun ⟨m, hother⟩ => Inquiry.end_unique hother hend, fun heq => heq ▸ ⟨n, hend⟩⟩
  · exact hx.carries_unique
  · rw [hx.wired.calls_eq] at hcall
    obtain ⟨r, hr, rfl⟩ := List.mem_map.1 hcall
    obtain ⟨hcall, hkeys, -⟩ := hx.group hr
    refine ⟨_, r.1, hcall, hx.nodup_addresses hr, fun a ha => ?_⟩
    obtain ⟨key, hkey, rfl⟩ := List.mem_map.1 ha
    obtain ⟨ho, i, hi, hpasses⟩ := hkeys key hkey
    obtain ⟨p, hp, rfl⟩ := List.mem_map.1 hi
    obtain ⟨a, hreached, rfl⟩ := reached_of_passes hpasses
    exact ⟨p, hp, hreached, ho.symm⟩

/-- Accounts with their owners: a tail that leads into a ring, an account whose owner is missing,
and one whose owner is no address. -/
def owners : List (String × Json) :=
  [("A", .str "B"), ("B", .str "C"), ("C", .str "B"), ("D", .str "gone"), ("E", .ofNat 7)]

/-- The account at an address, whatever the options. -/
def owned (a : String) : Json :=
  match Table.get? owners a with
  | some owner => .obj [("owner", owner)]
  | none => .null

theorem reachedFrom_owned_finite (start : String) : (reachedFrom owned start).Finite := by
  refine (Set.toFinite {start, "B", "C", "gone"}).subset fun b hb => ?_
  rcases Relation.ReflTransGen.cases_tail hb with rfl | ⟨a, -, howned⟩
  · simp
  · have howner : Table.get? owners a = some (.str b) := by
      unfold OwnedBy owned at howned
      cases h : Table.get? owners a with
      | none => simp [h, Json.get?, Json.fields, Table.get?] at howned
      | some v => simpa [h, Json.get?, Json.fields, Table.get?] using howned
    have hmem := Table.mem_of_get? howner
    simp [owners, Json.ofNat] at hmem
    tauto

/-- What a node answers to a call that keeps to these accounts. -/
def ownedReply (call : Call) : Outcome :=
  match call.params with
  | .arr [.arr addresses, _] => .ok (.obj [("context", .obj [("slot", .ofNat 1)]),
      ("value", .arr (addresses.map fun a => (a.str?.map owned).getD .null))])
  | _ => .error .transportClosed

theorem ownedReply_answered (call : Call) :
    call.Answered (fun k => owned k.address) (ownedReply call) := by
  rintro addresses o rfl
  refine ⟨_, 1, rfl, rfl, ?_⟩
  simp [Table.get?, Json.str?, Function.comp_def]

/-- A node that answers the second talk later, and the others at once. -/
def tardy : Respondent Unit := fun node t a =>
  (if t = 1 then none else some (.ok (a.made.map ownedReply)), node)

theorem tardy_truthful : tardy.Truthful fun k => owned k.address := by
  intro node t a answer h
  unfold tardy at h
  split at h
  · simp at h
  · obtain rfl := Option.some.inj h
    exact a.answered_of_calls ownedReply_answered

/-- The chains that are asked for; the last one is the rest of the first one. -/
def followed : List (String × AccountOptions) := [("A", {}), ("D", {}), ("E", {}), ("B", {})]

/-- A turn for everybody. -/
def turns : List Event := (List.range 4).map .poll

/-- The chains are followed in turns. The batch with the first three accounts is answered at once,
and the one with the fourth account only when the second and the third chain have been returned. -/
def inTurns : List Event :=
  followed.map (fun p => .start (.chain {} p.1 p.2)) ++ turns ++ turns ++
    [.runTalk 0, .runTalk 1] ++ turns ++ turns ++ [.runTalk 2] ++ turns ++
    [.deliver 1 (.ok ((accountsAsk {} [.wanted {} ("B", {})]).made.map ownedReply)), .runTalk 1] ++
    turns ++ turns ++ [.runTalk 3] ++ turns

theorem inquires_tardy {events : List Event} {inquiries : List Inquiry}
    (hstarted : events.filterMap Event.started? = inquiries)
    (hlasting : ∀ e ∈ events, e.isLasting = true)
    (hdelivered : ∀ d ∈ deliveries tardy ⟨{}, 3⟩ () events, d.2 = .ok (d.1.made.map ownedReply)) :
    Inquires (fun k => owned k.address) tardy ⟨{}, 3⟩ () events inquiries where
  plain := rfl
  truthful := tardy_truthful
  started := hstarted
  lasting := hlasting
  delivered d hd := by
    rw [hdelivered d hd]
    exact d.1.answered_of_calls ownedReply_answered

/-- The first chain ends where it comes back to its second account, the second one before the
account that is missing, and the third one with an error. -/
theorem follows_owners_in_turns :
    OwnersFollowed (fun k => owned k.address) ⟨{}, 3⟩ followed
      ((ofGraph ⟨{}, 3⟩ ((), [])).after tardy.logged inTurns) ∧
    ChainOutcome owned (fun a => (owned a).set "address" (.str a)) "A"
      (.ok (.chain [.obj [("owner", .str "B"), ("address", .str "A")],
        .obj [("owner", .str "C"), ("address", .str "B")],
        .obj [("owner", .str "B"), ("address", .str "C")]])) ∧
    ChainOutcome owned (fun a => (owned a).set "address" (.str a)) "D"
      (.ok (.chain [.obj [("owner", .str "gone"), ("address", .str "D")]])) ∧
    ChainOutcome owned (fun a => (owned a).set "address" (.str a)) "E"
      (.error (.decode "account" "owner is not an address: 7")) := by
  have hrun : Inquires (fun k => owned k.address) tardy ⟨{}, 3⟩ () inTurns
      (followed.map fun p => .chain {} p.1 p.2) :=
    inquires_tardy (by decide +kernel) (by decide +kernel) (by decide +kernel)
  obtain ⟨-, h⟩ := follows_owners hrun fun p _ => reachedFrom_owned_finite p.1
  exact ⟨h, (h.outcome 0 _ _ rfl (by decide +kernel) _).2 rfl,
    (h.outcome 1 _ _ rfl (by decide +kernel) _).2 rfl,
    (h.outcome 2 _ _ rfl (by decide +kernel) _).2 rfl⟩

end NodeRpc.Context
