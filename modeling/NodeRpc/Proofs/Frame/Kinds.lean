import NodeRpc.Frame.Incoming

/-!
# Which texts are frames of which kind

A text is told apart by the fields of the object that it is: a response by its id, a rejection by an
error where there is no id. What other fields there are does not matter.
-/

namespace NodeRpc

theorem Json.get?_obj (fields : List (String × Json)) (k : String) :
    (Json.obj fields).get? k = Table.get? fields k := rfl

variable {fields : Table String Json}

/-- The fields name no call. -/
def NamesNoCall (fields : Table String Json) : Prop :=
  fields.get? "id" = none ∨ fields.get? "id" = some .null

/-- The fields name call `id`. -/
def NamesCall (id : Nat) (fields : Table String Json) : Prop :=
  (fields.get? "id").bind Json.nat? = some id

/-- The fields carry `e` as their error. -/
def CarriesError (e : ErrorObject) (fields : Table String Json) : Prop :=
  (fields.get? "error").bind ErrorObject.ofJson? = some e

/-- The fields carry `v` as their result, and no error. -/
def CarriesResult (v : Json) (fields : Table String Json) : Prop :=
  fields.get? "error" = none ∧ fields.get? "result" = some v

instance : Decidable (NamesNoCall fields) := inferInstanceAs (Decidable (_ ∨ _))

instance (id : Nat) : Decidable (NamesCall id fields) := inferInstanceAs (Decidable (_ = _))

instance (e : ErrorObject) : Decidable (CarriesError e fields) :=
  inferInstanceAs (Decidable (_ = _))

instance (v : Json) : Decidable (CarriesResult v fields) := inferInstanceAs (Decidable (_ ∧ _))

theorem NamesCall.not_namesNoCall {id : Nat} (h : NamesCall id fields) : ¬ NamesNoCall fields := by
  rintro (hnone | hnull)
  · simp [NamesCall, hnone] at h
  · simp [NamesCall, hnull, Json.nat?] at h

theorem errorOf_eq_ok_iff {e : ErrorObject} : errorOf (.obj fields) = .ok e ↔
    CarriesError e fields := by
  unfold errorOf CarriesError
  rw [Json.get?_obj]
  cases (Table.get? fields "error").bind ErrorObject.ofJson? with
  | none => simp
  | some error => simp

/-- What an object with an id says: its error, and its result if it has no error. -/
theorem Response.ofJson_eq_ok_iff {id : Json} {r : Response} :
    Response.ofJson id (.obj fields) = .ok r ↔ id.nat? = some r.id ∧
      ((∃ e, r.outcome = .error e ∧ CarriesError e fields) ∨
        ∃ v, r.outcome = .ok v ∧ CarriesResult v fields) := by
  obtain ⟨n, outcome⟩ := r
  unfold Response.ofJson
  simp only [Json.get?_obj]
  cases hn : id.nat? with
  | none => simp
  | some m =>
    cases he : Table.get? fields "error" with
    | some error =>
      have hresult : ∀ v, ¬ CarriesResult v fields := fun v h => by simp [CarriesResult, he] at h
      cases hread : errorOf (.obj fields) with
      | error cause =>
        have herror : ∀ e, ¬ CarriesError e fields := fun e h => by
          simp [errorOf_eq_ok_iff.2 h] at hread
        simp [Except.map, hresult, herror]
      | ok e =>
        have herror : ∀ e', CarriesError e' fields ↔ e = e' := fun e' => by
          rw [← errorOf_eq_ok_iff, hread, Except.ok.injEq]
        simp [Except.map, hresult, herror, eq_comm]
    | none =>
      have herror : ∀ e, ¬ CarriesError e fields := fun e h => by simp [CarriesError, he] at h
      cases hr : Table.get? fields "result" with
      | none => simp [CarriesResult, herror, hr]
      | some v => simp [CarriesResult, herror, he, hr, eq_comm]

namespace Incoming

theorem ofObject_of_namesNoCall (h : NamesNoCall fields) :
    ofObject (.obj fields) = match fields.get? "error" with
      | some _ => (errorOf (.obj fields)).map .rejected
      | none => (Notification.ofJson (.obj fields)).map .notification := by
  rcases h with h | h
  · cases he : fields.get? "error" <;> simp [ofObject, Json.get?_obj, h, he]
  · cases he : fields.get? "error" <;> simp [ofObject, Json.get?_obj, h, he]

theorem ofObject_of_id {id : Json} (h : fields.get? "id" = some id) (hnull : id ≠ .null) :
    ofObject (.obj fields) = (Response.ofJson id (.obj fields)).map .response := by
  unfold ofObject
  simp only [Json.get?_obj]
  rw [h]
  cases id with
  | null => exact absurd rfl hnull
  | _ => rfl

/-- An object is a rejection if it names no call and carries an error. -/
theorem ofObject_eq_rejected_iff {e : ErrorObject} :
    ofObject (.obj fields) = .ok (.rejected e) ↔ NamesNoCall fields ∧ CarriesError e fields := by
  by_cases hnone : NamesNoCall fields
  · rw [ofObject_of_namesNoCall hnone]
    cases he : fields.get? "error" with
    | none =>
      cases Notification.ofJson (.obj fields) <;> simp [Except.map, CarriesError, he]
    | some error =>
      rw [← errorOf_eq_ok_iff]
      cases errorOf (.obj fields) <;> simp [Except.map, hnone]
  · obtain ⟨id, hid⟩ : ∃ id, fields.get? "id" = some id :=
      Option.ne_none_iff_exists'.1 fun h => hnone (.inl h)
    rw [ofObject_of_id hid fun h => hnone (.inr (h ▸ hid))]
    cases Response.ofJson id (.obj fields) <;> simp [Except.map, hnone]

/-- An object is a response to call `id` if it names that call, and says what it came to. -/
theorem ofObject_eq_response_iff {r : Response} :
    ofObject (.obj fields) = .ok (.response r) ↔ NamesCall r.id fields ∧
      ((∃ e, r.outcome = .error e ∧ CarriesError e fields) ∨
        ∃ v, r.outcome = .ok v ∧ CarriesResult v fields) := by
  by_cases hnone : NamesNoCall fields
  · rw [ofObject_of_namesNoCall hnone]
    have hnames : ¬ NamesCall r.id fields := fun h => h.not_namesNoCall hnone
    cases fields.get? "error" with
    | none => cases Notification.ofJson (.obj fields) <;> simp [Except.map, hnames]
    | some error => cases errorOf (.obj fields) <;> simp [Except.map, hnames]
  · obtain ⟨id, hid⟩ : ∃ id, fields.get? "id" = some id :=
      Option.ne_none_iff_exists'.1 fun h => hnone (.inl h)
    have hnames : NamesCall r.id fields ↔ id.nat? = some r.id := by simp [NamesCall, hid]
    rw [ofObject_of_id hid fun h => hnone (.inr (h ▸ hid)), hnames, ← Response.ofJson_eq_ok_iff]
    cases Response.ofJson id (.obj fields) <;> simp [Except.map]

/-- A text that is a frame, and not a batch, is an object. -/
theorem parse_eq_ok_iff {text : String} {frame : Incoming} (hbatch : ∀ rs, frame ≠ .batch rs) :
    parse text = .ok frame ↔ ∃ fields, Json.parse text = some (.obj fields) ∧
      ofObject (.obj fields) = .ok frame := by
  unfold parse
  cases hparse : Json.parse text with
  | none => simp
  | some v =>
    cases v with
    | arr entries => simp [ofJson, (hbatch _).symm]
    | obj fields => simp [ofJson]
    | _ => simp [ofJson, ofObject]

end Incoming

end NodeRpc
