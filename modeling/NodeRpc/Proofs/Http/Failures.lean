import NodeRpc.Proofs.Frame.Kinds
import NodeRpc.Proofs.Http.Agreement

/-!
# Replies with a status that is no success

Such a reply should be told to the caller as the error object of its body, if the body turns the
call down, and as its status otherwise. But the status is looked at only where the body is no frame.
So it is told so if and only if the body turns the call down or is no frame: the result of a frame
that answers the call is returned whatever the status says, and any other frame is told as
malformed.
-/

namespace NodeRpc

namespace HttpClient

variable {id status : Nat} {body : String}

/-- A body that is a frame. -/
def IsFrame (body : String) : Prop := ∃ frame, Incoming.parse body = .ok frame

/-- A body that turns call `id` down with `e`: an object with this error that names the call, or
none. -/
def TurnsDown (id : Nat) (e : ErrorObject) (body : String) : Prop :=
  ∃ fields, Json.parse body = some (.obj fields) ∧ CarriesError e fields ∧
    (NamesCall id fields ∨ NamesNoCall fields)

/-- A body that grants call `id` the result `v`. -/
def Grants (id : Nat) (v : Json) (body : String) : Prop :=
  ∃ fields, Json.parse body = some (.obj fields) ∧ CarriesResult v fields ∧ NamesCall id fields

/-- What the caller of `id` should come to by a reply with a status that is no success: the error of
the body if it turns the call down, and else the status with the body. -/
def TellsFailure (id status : Nat) (body : String) (outcome : Outcome) : Prop :=
  (∃ e, TurnsDown id e body ∧ outcome = .error (.protocol e)) ∨
    ((¬ ∃ e, TurnsDown id e body) ∧
      outcome = .error (.transport (.status (Http.statusLine status) body)))

theorem turnsDown_iff {e : ErrorObject} : TurnsDown id e body ↔
    Incoming.parse body = .ok (.response ⟨id, .error e⟩) ∨
      Incoming.parse body = .ok (.rejected e) := by
  have hresponse : ∀ fields, Incoming.ofObject (.obj fields) = .ok (.response ⟨id, .error e⟩) ↔
      NamesCall id fields ∧ CarriesError e fields := fun fields => by
    simp [Incoming.ofObject_eq_response_iff]
  have hrejected : ∀ fields, Incoming.ofObject (.obj fields) = .ok (.rejected e) ↔
      NamesNoCall fields ∧ CarriesError e fields := fun fields =>
    Incoming.ofObject_eq_rejected_iff
  rw [Incoming.parse_eq_ok_iff (by simp), Incoming.parse_eq_ok_iff (by simp), ← exists_or]
  refine exists_congr fun fields => ?_
  rw [hresponse, hrejected, ← and_or_left, ← or_and_right, and_comm (a := _ ∨ _)]

theorem grants_iff {v : Json} :
    Grants id v body ↔ Incoming.parse body = .ok (.response ⟨id, .ok v⟩) := by
  rw [Incoming.parse_eq_ok_iff (by simp)]
  refine exists_congr fun fields => ?_
  have hresponse : Incoming.ofObject (.obj fields) = .ok (.response ⟨id, .ok v⟩) ↔
      NamesCall id fields ∧ CarriesResult v fields := by
    simp [Incoming.ofObject_eq_response_iff]
  rw [hresponse, and_comm (a := CarriesResult v fields)]

/-- A call comes to what the frame says; without a frame, to the status. -/
theorem call_replied (h : HttpClient) (c : Call) (hstatus : Http.isSuccess status = false) :
    (h.call c).2.1 (.replied status body) = match Incoming.parse body with
      | .ok frame => callOutcome h.nextId frame
      | .error _ => .error (.transport (.status (Http.statusLine status) body)) := by
  unfold call frameOf
  dsimp only
  cases Incoming.parse body with
  | ok frame => rfl
  | error cause => simp only [hstatus]; rfl

/-- A reply with a status that is no success is told as the error object that turns the call down,
or else as the status with the body, if and only if a body that is a frame turns the call down.
Otherwise the call succeeds with the result that a frame grants it, and any other frame is malformed
to it. -/
theorem tells_failure_iff (h : HttpClient) (c : Call) (hstatus : Http.isSuccess status = false)
    (body : String) :
    let outcome := (h.call c).2.1 (.replied status body)
    (TellsFailure h.nextId status body outcome ↔
      (IsFrame body → ∃ e, TurnsDown h.nextId e body)) ∧
    (∀ v, outcome = .ok v ↔ Grants h.nextId v body) ∧
    (∀ cause, outcome = .error (.malformed cause) ↔ cause = .noResponse h.nextId ∧
      IsFrame body ∧ (∀ e, ¬ TurnsDown h.nextId e body) ∧ ∀ v, ¬ Grants h.nextId v body) := by
  simp only [call_replied h c hstatus, TellsFailure, IsFrame, turnsDown_iff, grants_iff]
  cases hparse : Incoming.parse body with
  | error cause => simp
  | ok frame =>
    cases frame with
    | batch responses => simp [callOutcome, eq_comm]
    | notification n => simp [callOutcome, eq_comm]
    | rejected e => simp [callOutcome]
    | response r =>
      obtain ⟨n, outcome⟩ := r
      by_cases hn : n = h.nextId
      · cases outcome with
        | error e =>
          have hresult : Response.result ⟨h.nextId, .error e⟩ = .error (.protocol e) := rfl
          simp [callOutcome, hresult, hn]
        | ok v =>
          have hresult : Response.result ⟨h.nextId, .ok v⟩ = .ok v := rfl
          simp [callOutcome, hresult, hn]
      · simp [callOutcome, hn, eq_comm]

/-- The node says that it is behind. -/
def behind : List (String × Json) :=
  [("jsonrpc", .str "2.0"), ("id", .int 1),
    ("error", .obj [("code", .int (-32005)), ("message", .str "Node is behind")])]

/-- The error of such a reply is told. -/
theorem tells_failure_behind :
    Http.isSuccess 500 = false ∧ TellsFailure 1 500 (Json.obj behind).compact
      ((call { endpoint := nodeTest } ⟨"getSlot", .arr []⟩).2.1
        (.replied 500 (Json.obj behind).compact)) := by
  have hparse : Json.parse (Json.obj behind).compact = some (.obj behind) := by decide +kernel
  have hdown : TurnsDown 1 ⟨-32005, "Node is behind", none⟩ (Json.obj behind).compact :=
    ⟨behind, hparse, by decide, .inl (by decide)⟩
  have h := tells_failure_iff { endpoint := nodeTest } ⟨"getSlot", .arr []⟩
    (by decide : Http.isSuccess 500 = false) (Json.obj behind).compact
  exact ⟨by decide, h.1.2 fun _ => ⟨_, hdown⟩⟩

/-- A result is returned although the status says that the node is unavailable. -/
theorem failed_reply_succeeds :
    ¬ ∀ (h : HttpClient) (c : Call) (status : Nat) (body : String),
      Http.isSuccess status = false →
        TellsFailure h.nextId status body ((h.call c).2.1 (.replied status body)) := by
  intro h
  have htold := h { endpoint := nodeTest } ⟨"getSlot", .arr []⟩ 503
    (Json.obj [("jsonrpc", .str "2.0"), ("id", .int 1), ("result", .int 4242)]).compact (by decide)
  have hsucceeds : (call { endpoint := nodeTest } ⟨"getSlot", .arr []⟩).2.1 (.replied 503
      (Json.obj [("jsonrpc", .str "2.0"), ("id", .int 1), ("result", .int 4242)]).compact) =
      .ok (.int 4242) := by decide +kernel
  rw [hsucceeds] at htold
  obtain ⟨e, _, he⟩ | ⟨_, he⟩ := htold
  · cases he
  · cases he

end HttpClient

end NodeRpc
