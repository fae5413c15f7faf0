import NodeRpc.Calls.Basic
import NodeRpc.Session.Node
import NodeRpc.Proofs.Frame.Kinds
import NodeRpc.Proofs.Json.Reading

/-!
# Frames are read back

What either end writes is what the other end reads. Both directions go through compact text, so they
come down to two facts: a value that does not nest too deep is read back from its text, and the
object that a frame is written as is classified as that frame. The second one does not look at what
is carried: a result or a payload may itself look like any other frame.
-/

namespace NodeRpc

/-- A value with distinct keys, whose numbers are read back from their texts. -/
structure Json.Readable (v : Json) : Prop where
  wellFormed : v.WellFormed
  legible : v.Legible

namespace Json

theorem Readable.parse_compact {v : Json} (h : v.Readable) (hd : v.depth ≤ Reader.deepest) :
    parse v.compact = some v :=
  Json.parse_compact h.wellFormed h.legible hd

theorem readable_str (s : String) : (Json.str s).Readable := ⟨trivial, trivial⟩

theorem readable_int {n : Int} (hlow : -2 ^ 63 ≤ n) (hhigh : n < 2 ^ 64) : (Json.int n).Readable :=
  ⟨trivial, hlow, hhigh⟩

theorem readable_ofNat {n : Nat} (h : n < 2 ^ 64) : (Json.ofNat n).Readable :=
  readable_int (by omega) (by omega)

/-- An object is readable if its keys are distinct and what they stand for is readable. -/
theorem readable_obj {fields : List (String × Json)} (hk : (fields.map (·.1)).Nodup)
    (h : ∀ p ∈ fields, p.2.Readable) : (Json.obj fields).Readable :=
  ⟨⟨hk, (wellFormedFields_iff fields).2 fun p hp => (h p hp).wellFormed⟩,
    (legibleFields_iff fields).2 fun p hp => (h p hp).legible⟩

theorem readable_arr {items : List Json} (h : ∀ v ∈ items, v.Readable) :
    (Json.arr items).Readable :=
  ⟨(wellFormedItems_iff items).2 fun v hv => (h v hv).wellFormed,
    (legibleItems_iff items).2 fun v hv => (h v hv).legible⟩

theorem nat?_ofNat {n : Nat} (h : n < 2 ^ 64) : (Json.ofNat n).nat? = some n := by
  have hrange : (0 : Int) ≤ n ∧ (n : Int) < Nat.pow 2 64 := ⟨by omega, by exact_mod_cast h⟩
  rw [ofNat, nat?, if_pos hrange, Int.toNat_natCast]

theorem int?_int {n : Int} (hlow : -2 ^ 63 ≤ n) (hhigh : n < 2 ^ 63) :
    (Json.int n).int? = some n :=
  if_pos ⟨hlow, hhigh⟩

end Json

/-! ### Responses -/

/-- An error object of the node: its code has 64 bits, and its data, if any, is a value. -/
structure ErrorObject.Sendable (e : ErrorObject) : Prop where
  low : -2 ^ 63 ≤ e.code
  high : e.code < 2 ^ 63
  data : ∀ v, e.data = some v → v.Readable ∧ v ≠ .null

namespace ErrorObject

variable {e : ErrorObject}

theorem Sendable.readable (h : e.Sendable) : e.toJson.Readable := by
  have hcode : (Json.int e.code).Readable := Json.readable_int h.low (by have := h.high; omega)
  unfold toJson
  cases hdata : e.data with
  | none =>
    refine Json.readable_obj (by simp [Json.given]) ?_
    simp [Json.given, hcode, Json.readable_str]
  | some v =>
    refine Json.readable_obj (by simp [Json.given]) ?_
    simp [Json.given, hcode, Json.readable_str, (h.data v hdata).1]

theorem Sendable.ofJson?_toJson (h : e.Sendable) : ofJson? e.toJson = some e := by
  obtain ⟨code, message, data⟩ := e
  have hcode := Json.int?_int h.low h.high
  cases data with
  | none =>
    simp [ofJson?, toJson, Json.members?, Json.given, Table.get?, Json.required, Json.optional,
      hcode, Json.str?]
  | some v =>
    have hnull := (h.data v rfl).2
    cases v <;>
      simp_all [ofJson?, toJson, Json.members?, Json.given, Table.get?, Json.required,
        Json.optional, Json.str?]

end ErrorObject

/-- A response that a node can send. -/
structure Response.Sendable (r : Response) : Prop where
  id : r.id < 2 ^ 64
  result : ∀ v, r.outcome = .ok v → v.Readable
  error : ∀ e, r.outcome = .error e → e.Sendable

theorem Response.Sendable.readable {r : Response} (h : r.Sendable) : r.toJson.Readable := by
  have hid := Json.readable_ofNat h.id
  unfold toJson
  cases houtcome : r.outcome with
  | ok v =>
    refine Json.readable_obj (by simp) ?_
    simp [Json.readable_str, hid, h.result v houtcome]
  | error e =>
    refine Json.readable_obj (by simp) ?_
    simp [Json.readable_str, hid, (h.error e houtcome).readable]

theorem Incoming.ofJson_obj (fields : List (String × Json)) :
    ofJson (.obj fields) = ofObject (.obj fields) := rfl

/-- The object that a response is written as is that response, whatever it carries. -/
theorem Response.Sendable.ofJson_toJson {r : Response} (h : r.Sendable) :
    Incoming.ofJson r.toJson = .ok (.response r) := by
  have hid := Json.nat?_ofNat h.id
  have hnames : ∀ p : String × Json,
      NamesCall r.id [("jsonrpc", .str "2.0"), ("id", .ofNat r.id), p] := by
    intro p
    have hget : Table.get? [("jsonrpc", .str "2.0"), ("id", .ofNat r.id), p] "id" =
        some (.ofNat r.id) := rfl
    rw [NamesCall, hget, Option.bind_some, hid]
  unfold toJson
  cases houtcome : r.outcome with
  | ok v =>
    simp only [envelope, Incoming.ofJson_obj, Incoming.ofObject_eq_response_iff]
    exact ⟨hnames _, .inr ⟨v, houtcome, rfl, rfl⟩⟩
  | error e =>
    simp only [envelope, Incoming.ofJson_obj, Incoming.ofObject_eq_response_iff]
    exact ⟨hnames _, .inl ⟨e, houtcome, (h.error e houtcome).ofJson?_toJson⟩⟩

/-! ### Notifications -/

/-- A notification that a node can send. -/
structure Notification.Sendable (n : Notification) : Prop where
  number : ∀ k, n.subscription = .number k → k < 2 ^ 64
  result : n.result.Readable

theorem Notification.Sendable.readable {n : Notification} (h : n.Sendable) :
    n.toJson.Readable := by
  have hsubscription : n.subscription.toJson.Readable := by
    cases hs : n.subscription with
    | number k => exact Json.readable_ofNat (h.number k hs)
    | text s => exact Json.readable_str s
  have hparams : (Json.obj [("subscription", n.subscription.toJson),
      ("result", n.result)]).Readable := by
    refine Json.readable_obj (by simp) ?_
    simp [hsubscription, h.result]
  refine Json.readable_obj (by simp) ?_
  simp [Json.readable_str, hparams]

/-- The object that a notification is written as is that notification, whatever it carries. -/
theorem Notification.Sendable.ofJson_toJson {n : Notification} (h : n.Sendable) :
    Incoming.ofJson n.toJson = .ok (.notification n) := by
  obtain ⟨method, subscription, result⟩ := n
  have hsubscription : SubscriptionId.ofJson? subscription.toJson = some subscription := by
    cases subscription with
    | number k =>
      have hk := Json.nat?_ofNat (h.number k rfl)
      rw [Json.ofNat] at hk
      simp [SubscriptionId.toJson, SubscriptionId.ofJson?, Json.ofNat, hk]
    | text s => rfl
  have hread : Notification.ofJson (Notification.mk method subscription result).toJson =
      .ok ⟨method, subscription, result⟩ := by
    simp [Notification.ofJson, Notification.toJson, envelope, Json.get?_obj, Table.get?,
      hsubscription]
  rw [Notification.toJson, envelope] at hread ⊢
  rw [Incoming.ofJson_obj, Incoming.ofObject_of_namesNoCall (.inl (by simp [Table.get?])),
    hread]
  simp [Table.get?, Except.map]

/-! ### Requests -/

/-- A request that a client can write. -/
structure Request.Sendable (r : Request) : Prop where
  id : r.id < 2 ^ 64
  params : r.call.params.Readable

theorem Request.Sendable.readable {r : Request} (h : r.Sendable) : r.toJson.Readable := by
  have hid := Json.readable_ofNat h.id
  refine Json.readable_obj (by simp) ?_
  simp [Json.readable_str, hid, h.params]

theorem Request.ofJson?_envelope {id method params : Json} {n : Nat} {s : String}
    (hid : id.nat? = some n) (hmethod : method.str? = some s) :
    Request.ofJson? (envelope [("id", id), ("method", method), ("params", params)]) =
      some ⟨n, ⟨s, params⟩⟩ := by
  simp [Request.ofJson?, envelope, Json.members?, Table.get?, Json.required, hid, hmethod]

theorem Request.Sendable.ofJson?_toJson {r : Request} (h : r.Sendable) :
    Request.ofJson? r.toJson = some r :=
  Request.ofJson?_envelope (Json.nat?_ofNat h.id) rfl

namespace Outgoing

/-- What the node reads when a frame is read as what it is. -/
def received : Outgoing → Received
  | .single r => .request r
  | .batch rs => .batch rs

/-- As what a frame has to be read. -/
def reading : Outgoing → Reading
  | .single _ => .request
  | .batch _ => .batch

theorem readable_toJson {f : Outgoing} (h : ∀ r ∈ f.requests, r.Sendable) : f.toJson.Readable := by
  cases f with
  | single r => exact (h r (by simp [requests])).readable
  | batch rs =>
    refine Json.readable_arr fun v hv => ?_
    obtain ⟨r, hr, rfl⟩ := List.mem_map.1 hv
    exact (h r hr).readable

/-- A frame of the client is read back, its requests in their order. -/
theorem ofText_text {f : Outgoing} (h : ∀ r ∈ f.requests, r.Sendable)
    (hd : f.toJson.depth ≤ Json.Reader.deepest) : Received.ofText f.reading f.text = f.received := by
  have hframe : readFrame f.text = f.toJson := by
    rw [readFrame, text, (readable_toJson h).parse_compact hd, Option.getD_some]
  cases f with
  | single r =>
    have hread : Request.ofJson? r.toJson = some r := (h r (by simp [requests])).ofJson?_toJson
    simp [reading, Received.ofText, readRequest?, hframe, toJson, hread, received]
  | batch rs =>
    have hread : (rs.map Request.toJson).mapM Request.ofJson? = some rs := by
      clear hd hframe
      induction rs with
      | nil => rfl
      | cons r rs ih =>
        have hr : Request.ofJson? r.toJson = some r := (h r List.mem_cons_self).ofJson?_toJson
        have hrest := ih fun r' hr' => h r' (List.mem_cons_of_mem _ hr')
        simp [List.mapM_cons, hr, hrest]
    simp [reading, Received.ofText, readBatch?, hframe, toJson, Json.list?, Json.items?, hread,
      received]

end Outgoing

/-! ### Both directions -/

/-- What the client makes of the text that a step of the node sends. -/
def NodeStep.incoming? : NodeStep → Option (Except FrameError Incoming)
  | .send (.text t) => some (Incoming.parse t)
  | _ => none

theorem NodeStep.incoming?_push {frame : Json} (h : frame.Readable)
    (hd : frame.depth ≤ Json.Reader.deepest) :
    (NodeStep.push frame).incoming? = some (Incoming.ofJson frame) := by
  simp only [push, incoming?, Incoming.parse, h.parse_compact hd]

theorem NodeStep.incoming?_respond {r : Response} (h : r.Sendable)
    (hd : r.toJson.depth ≤ Json.Reader.deepest) :
    (NodeStep.respond r).incoming? = some (.ok (.response r)) := by
  rw [respond, incoming?_push h.readable hd, h.ofJson_toJson]

theorem NodeStep.incoming?_notify {n : Notification} (h : n.Sendable)
    (hd : n.toJson.depth ≤ Json.Reader.deepest) :
    (NodeStep.notify n).incoming? = some (.ok (.notification n)) := by
  rw [notify, incoming?_push h.readable hd, h.ofJson_toJson]

/-- The frame of a batch is read back as the requests it was made of. -/
theorem Exchange.ofText_frame {x : Exchange} (hbatched : x.batched = true)
    (hlength : x.ids.length = x.calls.length) (hids : ∀ id ∈ x.ids, id < 2 ^ 64)
    (hparams : ∀ call ∈ x.calls, call.params.Readable)
    (hd : x.frame.toJson.depth ≤ Json.Reader.deepest) :
    ∃ rs, Received.ofText .batch x.frame.text = .batch rs ∧ rs.map Request.id = x.ids ∧
      rs.map Request.call = x.calls := by
  have hframe : x.frame = .batch ((x.ids.zip x.calls).map (Function.uncurry Request.mk)) := by
    rw [List.map_uncurry_zip_eq_zipWith]
    simp [frame, hbatched]
  have hsendable : ∀ r ∈ x.frame.requests, r.Sendable := by
    rw [hframe]
    intro r hr
    obtain ⟨⟨id, call⟩, hmem, rfl⟩ := List.mem_map.1 hr
    exact ⟨hids id (List.of_mem_zip hmem).1, hparams call (List.of_mem_zip hmem).2⟩
  have hread := Outgoing.ofText_text hsendable hd
  rw [hframe] at hread ⊢
  refine ⟨_, hread, ?_, ?_⟩
  · rw [List.map_map]
    exact List.map_fst_zip hlength.le
  · rw [List.map_map]
    exact List.map_snd_zip hlength.ge

/-- Decoding undoes encoding, in both directions: results, errors and notifications of the node are
read back by the client, and calls and batches of the client by the node. -/
theorem frames_read_back :
    (∀ (id : Nat) (result : Json), id < 2 ^ 64 → result.Readable →
      (Response.mk id (.ok result)).toJson.depth ≤ Json.Reader.deepest →
      (NodeStep.respond ⟨id, .ok result⟩).incoming? = some (.ok (.response ⟨id, .ok result⟩))) ∧
    (∀ (id : Nat) (code : Int) (message : String), id < 2 ^ 64 → -2 ^ 63 ≤ code → code < 2 ^ 63 →
      (NodeStep.respond ⟨id, .error ⟨code, message, none⟩⟩).incoming? =
        some (.ok (.response ⟨id, .error ⟨code, message, none⟩⟩))) ∧
    (∀ n : Notification, n.Sendable → n.toJson.depth ≤ Json.Reader.deepest →
      (NodeStep.notify n).incoming? = some (.ok (.notification n))) ∧
    (∀ r : Request, r.Sendable → r.toJson.depth ≤ Json.Reader.deepest →
      Received.ofText .request (Outgoing.single r).text = .request r) ∧
    ∀ x : Exchange, x.batched = true → x.ids.length = x.calls.length →
      (∀ id ∈ x.ids, id < 2 ^ 64) → (∀ call ∈ x.calls, call.params.Readable) →
      x.frame.toJson.depth ≤ Json.Reader.deepest →
      ∃ rs, Received.ofText .batch x.frame.text = .batch rs ∧ rs.map Request.id = x.ids ∧
        rs.map Request.call = x.calls := by
  refine ⟨?_, ?_, ?_, ?_, ?_⟩
  · intro id result hid hresult hd
    refine NodeStep.incoming?_respond ⟨hid, ?_, ?_⟩ hd
    · rintro v ⟨⟩
      exact hresult
    · simp
  · intro id code message hid hlow hhigh
    have hsendable : (ErrorObject.mk code message none).Sendable := ⟨hlow, hhigh, by simp⟩
    have hdepth : (Response.mk id (.error ⟨code, message, none⟩)).toJson.depth = 2 := rfl
    refine NodeStep.incoming?_respond ⟨hid, by simp, ?_⟩ (hdepth.trans_le (by decide))
    rintro e ⟨⟩
    exact hsendable
  · exact fun n h hd => NodeStep.incoming?_notify h hd
  · intro r h hd
    exact Outgoing.ofText_text (f := .single r) (by simpa [Outgoing.requests] using h) hd
  · exact fun x hbatched hlength hids hparams hd =>
      Exchange.ofText_frame hbatched hlength hids hparams hd

/-- A payload that looks like a notification itself: a quote and a line break in a key, a double, a
null and nested containers are carried like anything else. -/
def lookalike : Json :=
  .obj [("id", .null), ("method", .str "slotNotification"),
    ("params", .obj [("subscription", .int (-1)), ("result", .arr [.float ⟨0x3FF8000000000000⟩,
      .arr [], .obj []])]), ("a \"key\"\n", .bool true)]

theorem frames_read_back_lookalike :
    lookalike.Readable ∧
      (NodeStep.respond ⟨7, .ok lookalike⟩).incoming? = some (.ok (.response ⟨7, .ok lookalike⟩)) ∧
      (NodeStep.notify ⟨"m", .text "7", lookalike⟩).incoming? =
        some (.ok (.notification ⟨"m", .text "7", lookalike⟩)) ∧
      Received.ofText .request (Outgoing.single ⟨1, ⟨"m", lookalike⟩⟩).text =
        .request ⟨1, ⟨"m", lookalike⟩⟩ := by
  have hdouble : Json.number? (Binary64.mk 0x3FF8000000000000).chars =
      some (.float ⟨0x3FF8000000000000⟩) := by
    decide +kernel
  have hreadable : lookalike.Readable := by
    refine ⟨by simp [lookalike, Json.WellFormed, Json.WellFormedItems, Json.WellFormedFields], ?_⟩
    simp [lookalike, Json.Legible, Json.LegibleItems, Json.LegibleFields, hdouble]
  obtain ⟨hresponse, -, hnotification, hrequest, -⟩ := frames_read_back
  refine ⟨hreadable, hresponse 7 lookalike (by decide) hreadable (by decide),
    hnotification _ ⟨by simp, hreadable⟩ (by decide),
    hrequest _ ⟨by decide, hreadable⟩ (by decide)⟩

end NodeRpc
