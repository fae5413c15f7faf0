import NodeRpc.Proofs.Http.Agreement

/-!
# A batch over HTTP is answered by ids

The entries of an array are told apart by their ids alone. So where the responses of an array have
ids of their own, every call of the batch comes to the response with its id, in whatever order the
responses come and whatever else is in the array.
-/

namespace NodeRpc

namespace HttpClient

/-- What call `id` should come to by some responses: the outcome of the one that carries this id,
and an error that names the id if there is none. -/
def AnsweredBy (responses : List Response) (id : Nat) (outcome : Outcome) : Prop :=
  (∃ r ∈ responses, r.id = id ∧ outcome = r.result) ∨
    ((∀ r ∈ responses, r.id ≠ id) ∧ outcome = .error (.malformed (.missingFromBatch id)))

/-- Whether an entry of an array is a response to one of the calls `ids`. -/
def isFor (ids : List Nat) (entry : Json) : Bool :=
  (Incoming.response? entry).any fun r => r.id ∈ ids

theorem calls_number (h : HttpClient) (calls : List Call) :
    (h.number calls).1.map Request.call = calls := by
  unfold number
  rw [List.map_zipWith]
  exact List.ext_getElem (by simp) fun i _ _ => by simp

/-- What is posted for a batch. -/
theorem batch_posted (h : HttpClient) {calls : List Call} (hne : calls ≠ []) :
    (h.batch calls).1 = some (h.post (.batch (h.number calls).1)) := by
  unfold batch
  rw [if_neg (by simpa using hne)]

theorem answeredBy_entryOutcome (responses : List Response) (id : Nat) :
    AnsweredBy responses id (entryOutcome responses id) := by
  unfold entryOutcome
  cases hlast : (responses.filter fun r => r.id = id).getLast? with
  | some r =>
    obtain ⟨hmem, hid⟩ := List.mem_filter.1 (List.mem_of_getLast? hlast)
    exact .inl ⟨r, hmem, by simpa using hid, rfl⟩
  | none =>
    have hnone := List.filter_eq_nil_iff.1 (List.getLast?_eq_none_iff.1 hlast)
    exact .inr ⟨fun r hr => by simpa using hnone r hr, rfl⟩

/-- The responses to some calls are those of the entries that are for them. -/
theorem filterMap_filter_isFor (ids : List Nat) (entries : List Json) :
    (entries.filter (isFor ids)).filterMap Incoming.response? =
      (entries.filterMap Incoming.response?).filter fun r => r.id ∈ ids := by
  induction entries with
  | nil => rfl
  | cons entry entries ih =>
    cases hr : Incoming.response? entry with
    | none => simp [isFor, hr, ih]
    | some r => by_cases hid : r.id ∈ ids <;> simp [isFor, hr, hid, ih]

/-- Where ids are distinct, no call is answered in two ways. -/
theorem AnsweredBy.unique {responses : List Response} (hd : (responses.map Response.id).Nodup)
    {id : Nat} {o o' : Outcome} (h : AnsweredBy responses id o) (h' : AnsweredBy responses id o') :
    o = o' := by
  rcases h with ⟨r, hr, hid, rfl⟩ | ⟨hnone, rfl⟩
  · rcases h' with ⟨r', hr', hid', rfl⟩ | ⟨hnone, -⟩
    · rw [List.inj_on_of_nodup_map hd hr hr' (hid.trans hid'.symm)]
    · exact absurd hid (hnone r hr)
  · rcases h' with ⟨r', hr', hid', -⟩ | ⟨-, rfl⟩
    · exact absurd hid' (hnone r' hr')
    · rfl

/-- How a call is answered depends on the responses to it, and not on their order. -/
theorem AnsweredBy.of_perm {ids : List Nat} {responses responses' : List Response}
    (hperm : (responses'.filter fun r => r.id ∈ ids).Perm (responses.filter fun r => r.id ∈ ids))
    {id : Nat} (hid : id ∈ ids) {o : Outcome} (h : AnsweredBy responses' id o) :
    AnsweredBy responses id o := by
  have hmem : ∀ r : Response, r.id = id → (r ∈ responses' ↔ r ∈ responses) := by
    rintro r rfl
    simpa [List.mem_filter, hid] using hperm.mem_iff (a := r)
  rcases h with ⟨r, hr, hr', rfl⟩ | ⟨hnone, rfl⟩
  · exact .inl ⟨r, (hmem r hr').1 hr, hr', rfl⟩
  · exact .inr ⟨fun r hr hr' => hnone r ((hmem r hr').2 hr) hr', rfl⟩

/-- A batch is replied to with an array whose responses have distinct ids, with any status. Then its
calls come, in the order in which they are sent, to the responses with their ids, or to errors that
name their ids. An array with the same responses to these calls, in another order and among other
entries, comes to the same. -/
theorem batch_by_ids (h : HttpClient) {calls : List Call} (hne : calls ≠ []) {text : String}
    {entries : List Json} (hparse : Json.parse text = some (.arr entries))
    (hd : ((entries.filterMap Incoming.response?).map Response.id).Nodup) (status : Nat) :
    ∃ requests results, (h.batch calls).1 = some (h.post (.batch requests)) ∧
      requests.map Request.call = calls ∧
      requests.map Request.id = List.range' h.nextId calls.length ∧
      (h.batch calls).2.1 (.replied status text) = .ok results ∧ results.length = calls.length ∧
      List.Forall₂ (fun q o => AnsweredBy (entries.filterMap Incoming.response?) q.id o)
        requests results ∧
      ∀ status' text' entries', Json.parse text' = some (.arr entries') →
        (entries'.filter (isFor (requests.map Request.id))).Perm
          (entries.filter (isFor (requests.map Request.id))) →
        (h.batch calls).2.1 (.replied status' text') = .ok results := by
  have hids := h.ids_number calls
  refine ⟨_, _, h.batch_posted hne, h.calls_number calls, hids,
    h.batch_replied hne hparse status, by simp, ?_, ?_⟩
  · rw [← hids, List.map_map, List.forall₂_map_right_iff]
    exact List.forall₂_same.2 fun q _ => answeredBy_entryOutcome _ q.id
  · intro status' text' entries' hparse' hperm
    rw [h.batch_replied hne hparse' status', Except.ok.injEq]
    refine List.map_congr_left fun id hid => ?_
    have hresponses := hperm.filterMap Incoming.response?
    rw [filterMap_filter_isFor, filterMap_filter_isFor, hids] at hresponses
    have hsame := (answeredBy_entryOutcome (entries'.filterMap Incoming.response?) id).of_perm
      hresponses hid
    exact hsame.unique hd (answeredBy_entryOutcome _ id)

/-- A client that has made four calls. -/
def afterFour : HttpClient := { endpoint := nodeTest, nextId := 5 }

/-- A response to call `id`. -/
def slotReply (id : Int) : Json := .obj [("id", .int id), ("result", .int (100 + id))]

/-- The responses to calls 5 and 6, in the other order and among entries that are not for them. -/
def outOfOrder : List Json := [slotReply 6, slotReply 9, .str "5", slotReply 5]

/-- The calls come to the responses to them, as if nothing else were in the array. -/
theorem batch_by_ids_scattered : ∃ results,
    (afterFour.batch twoSlots).2.1 (.replied 200 (Json.arr outOfOrder).compact) = .ok results ∧
      List.Forall₂ (AnsweredBy (outOfOrder.filterMap Incoming.response?)) [5, 6] results ∧
      (afterFour.batch twoSlots).2.1 (.replied 200 (Json.arr [slotReply 5, slotReply 6]).compact) =
        .ok results := by
  have hparse : Json.parse (Json.arr outOfOrder).compact = some (.arr outOfOrder) := by
    decide +kernel
  have hparse' : Json.parse (Json.arr [slotReply 5, slotReply 6]).compact =
      some (.arr [slotReply 5, slotReply 6]) := by decide +kernel
  obtain ⟨requests, results, -, -, hids, hreplied, -, hall, hsame⟩ :=
    afterFour.batch_by_ids (by decide : twoSlots ≠ []) hparse (by decide) 200
  refine ⟨results, hreplied, ?_, hsame 200 _ _ hparse' ?_⟩
  · have hfive : requests.map Request.id = [5, 6] := hids
    rwa [← hfive, List.forall₂_map_left_iff]
  · rw [hids]
    decide

end HttpClient

end NodeRpc
