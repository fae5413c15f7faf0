import NodeRpc.Proofs.Lookup.Statuses

/-!
# A batch is its calls

A client can make calls one by one or in one exchange. In both ways the parameters of a call pass
through the registry before it is made, and its result passes through the registry when it comes. In
an exchange the results are told apart by nothing but their places, so this has to be the transform
of the method at the same place.
-/

namespace NodeRpc

namespace Client

/-- A call as it goes to the node. -/
def onWire (c : Client) (q : Call) : Call :=
  ⟨q.method, c.registry.transformParams q.method q.params⟩

/-- Makes a call by itself, whose result is taken as it is. -/
def alone (c : Client) (q : Call) : Dialogue Outcome := (c.ask some q.method q.params).dialogue

/-- Makes calls in one exchange. -/
def together (c : Client) (calls : List Call) : Dialogue (Except CallError (List Outcome)) :=
  exchange c calls .error fun results => .done (.ok results)

theorem batchCalls_eq (c : Client) (calls : List Call) : c.batchCalls calls = calls.map c.onWire :=
  rfl

/-- Results that are there for every call are transformed each by the method of its own call. -/
theorem batchResults_map (c : Client) (calls : List Call) (outcome : Call → Outcome) :
    c.batchResults calls (calls.map outcome) =
      calls.map fun q => (outcome q).map (c.registry.transformResponse q.method) := by
  unfold batchResults
  induction calls with
  | nil => rfl
  | cons q calls ih => rw [List.map_cons, List.zipWith_cons_cons, ih, List.map_cons]

/-- An outcome that is taken as it is is transformed if it is a result, and stays if it is none. -/
theorem read_ask_some (c : Client) (q : Call) (outcome : Outcome) :
    (c.ask some q.method q.params).read outcome =
      outcome.map (c.registry.transformResponse q.method) := by
  cases outcome <;> rfl

theorem run_alone (c : Client) (q : Call) (node : List (Ask × Answer) → Ask → Answer)
    (log : List (Ask × Answer)) : (c.alone q).run node log =
      (log ++ [(.calls [c.onWire q], node log (.calls [c.onWire q]))],
        (node log (.calls [c.onWire q])).outcome.map (c.registry.transformResponse q.method)) := by
  rw [← read_ask_some]
  rfl

theorem run_together (c : Client) {calls : List Call}
    {node : List (Ask × Answer) → Ask → Answer} {log : List (Ask × Answer)} {reply : List Outcome}
    (h : node log (.batch (calls.map c.onWire)) = .ok reply) :
    (c.together calls).run node log =
      (log ++ [(.batch (calls.map c.onWire), .ok reply)], .ok (c.batchResults calls reply)) := by
  unfold together
  rw [run_exchange, batchCalls_eq, h]
  rfl

end Client

/-- After what was asked and answered before, the node answers an exchange of `calls` with what it
would answer to each of them by itself. -/
def AnswersAlike (node : List (Ask × Answer) → Ask → Answer) (log : List (Ask × Answer))
    (calls : List Call) : Prop :=
  node log (.batch calls) = .ok (calls.map fun q => (node log (.calls [q])).outcome)

/-- With a node that answers an exchange as it would answer its calls, calls that are made in one
exchange come each, in order, to what it would come to by itself, and go to the node as they would
by themselves. -/
theorem together_eq_alone (c : Client) (calls : List Call)
    (node : List (Ask × Answer) → Ask → Answer) (log : List (Ask × Answer))
    (h : AnswersAlike node log (calls.map c.onWire)) :
    ((c.together calls).run node log).2 = .ok (calls.map fun q => ((c.alone q).run node log).2) ∧
      ∃ sent reply, ((c.together calls).run node log).1 = log ++ [(.batch sent, .ok reply)] ∧
        calls.map (fun q => ((c.alone q).run node log).1) =
          sent.map fun q => log ++ [(.calls [q], node log (.calls [q]))] := by
  have hreply : (calls.map c.onWire).map (fun q => (node log (.calls [q])).outcome) =
      calls.map fun q => (node log (.calls [c.onWire q])).outcome := List.map_map
  rw [AnswersAlike, hreply] at h
  rw [c.run_together h]
  refine ⟨?_, _, _, rfl, ?_⟩
  · rw [c.batchResults_map]
    simp only [c.run_alone]
  · rw [List.map_map]
    simp only [c.run_alone, Function.comp_def]

/-- A client that wraps the parameters of one method, and takes the results of two apart. -/
def wrapping : Client where
  registry := (((({} : Registry).withParams "getBalance" fun v => .arr [v]).withResponse "getBalance"
    fun v => (v.get? "value").getD .null).withResponse "getSlot" fun v => .obj [("slot", v)])

/-- A node that knows balances and the slot, and answers an exchange call by call. -/
def balances (_ : List (Ask × Answer)) : Ask → Answer
  | .calls calls => .ok (calls.map reply)
  | .batch calls => .ok (calls.map reply)
where
  reply (q : Call) : Outcome :=
    if q.method = "getBalance" then .ok (.obj [("value", q.params)])
    else if q.method = "getSlot" then .ok (.int 17)
    else .error (.protocol ⟨-32601, "Method not found", none⟩)

/-- Four calls: two of one method, one that fails, and one of another method. -/
def mixedCalls : List Call :=
  [⟨"getBalance", .str "a"⟩, ⟨"getFee", .null⟩, ⟨"getSlot", .arr []⟩, ⟨"getBalance", .str "b"⟩]

/-- They come together to what they come to alone. -/
theorem together_eq_alone_mixed : AnswersAlike balances [] (mixedCalls.map wrapping.onWire) ∧
    ((wrapping.together mixedCalls).run balances []).2 = .ok [.ok (.arr [.str "a"]),
      .error (.protocol ⟨-32601, "Method not found", none⟩), .ok (.obj [("slot", .int 17)]),
      .ok (.arr [.str "b"])] := by
  have halike : AnswersAlike balances [] (mixedCalls.map wrapping.onWire) := by
    unfold AnswersAlike
    decide +kernel
  have halone : mixedCalls.map (fun q => ((wrapping.alone q).run balances []).2) =
      [.ok (.arr [.str "a"]), .error (.protocol ⟨-32601, "Method not found", none⟩),
        .ok (.obj [("slot", .int 17)]), .ok (.arr [.str "b"])] := by decide +kernel
  exact ⟨halike, (together_eq_alone wrapping mixedCalls balances [] halike).1.trans
    (congrArg _ halone)⟩

end NodeRpc
