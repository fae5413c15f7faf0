import NodeRpc.Proofs.Frame.Kinds
import NodeRpc.Proofs.Json.Entries

/-!
# What a frame is routed by

A batch comes to the responses that its entries would be as frames of their own; what else is in it
is left out. And a frame that is an object is routed by five of its fields: neither their order, nor
the order of its parameters, nor any other field changes what it comes to.
-/

namespace NodeRpc

/-! ### Batches -/

/-- The response that a text is as a frame of its own, if it is one. -/
def Incoming.responseOf? (text : String) : Option Response :=
  match Incoming.parse text with
  | .ok (.response r) => some r
  | _ => none

/-- An entry of a batch is a response if it is one on its own. -/
theorem Incoming.responseOf?_eq (text : String) :
    responseOf? text = (Json.parse text).bind response? := by
  unfold responseOf? parse
  cases Json.parse text with
  | none => rfl
  | some v => cases v <;> rfl

/-- A batch is the responses among its entries, in their order. -/
theorem Incoming.parse_batch {text : String} {entries : List Json}
    (h : Json.parse text = some (.arr entries)) :
    ∃ texts, Json.IsArrayOf texts text ∧ texts.map Json.parse = entries.map some ∧
      Incoming.parse text = .ok (.batch (texts.filterMap responseOf?)) := by
  obtain ⟨texts, htexts, hentries⟩ := Json.isArrayOf_of_parse h
  refine ⟨texts, htexts, hentries, ?_⟩
  have hresponses : texts.filterMap responseOf? = entries.filterMap response? :=
    calc texts.filterMap responseOf?
        = (texts.map Json.parse).filterMap fun v => v.bind response? := by
          rw [List.filterMap_map]
          exact List.filterMap_congr fun t _ => responseOf?_eq t
      _ = entries.filterMap response? := by
          rw [hentries, List.filterMap_map]
          rfl
  rw [parse, h, hresponses]
  rfl

/-! ### Fields -/

/-- The fields that a frame is routed by. -/
def routingFields : List String := ["id", "error", "result", "method", "params"]

/-- The same field, the parameters possibly in another order. -/
inductive SameField : String × Json → String × Json → Prop where
  | refl (p : String × Json) : SameField p p
  | params {ps qs : List (String × Json)} (h : qs.Perm ps) :
      SameField ("params", .obj ps) ("params", .obj qs)

/-- `gs` are the fields `fs` in any order, their parameters in any order, with any other fields by
which no frame is routed. -/
def Rearranged (fs gs : Table String Json) : Prop :=
  ∃ same extra, List.Forall₂ SameField fs same ∧ (∀ p ∈ extra, p.1 ∉ routingFields) ∧
    gs.Perm (same ++ extra)

variable {fs gs : Table String Json}

/-- Two tables have the same under `k`, or the same parameters in another order. -/
def SameUnder (k : String) (fs gs : Table String Json) : Prop :=
  gs.get? k = fs.get? k ∨ k = "params" ∧ ∃ ps qs, fs.get? k = some (.obj ps) ∧
    gs.get? k = some (.obj qs) ∧ qs.Perm ps

theorem sameUnder_of_forall₂ (h : List.Forall₂ SameField fs gs) (k : String) :
    SameUnder k fs gs := by
  induction h with
  | nil => exact .inl rfl
  | @cons p q fs gs hp _ ih =>
    cases hp with
    | refl p =>
      obtain ⟨l, v⟩ := p
      by_cases hl : l = k
      · exact .inl (by simp [Table.get?, hl])
      · simpa [SameUnder, Table.get?, hl] using ih
    | @params ps qs hperm =>
      by_cases hl : "params" = k
      · exact .inr ⟨hl.symm, ps, qs, by simp [Table.get?, hl], by simp [Table.get?, hl], hperm⟩
      · simpa [SameUnder, Table.get?, hl] using ih

theorem Rearranged.sameUnder (h : Rearranged fs gs) (hd : (gs.map (·.1)).Nodup) {k : String}
    (hk : k ∈ routingFields) : SameUnder k fs gs := by
  obtain ⟨same, extra, hsame, hextra, hperm⟩ := h
  have hnone : Table.get? extra k = none := by
    rw [Table.get?_eq_none_iff]
    intro hmem
    obtain ⟨p, hp, rfl⟩ := List.mem_map.1 hmem
    exact hextra p hp hk
  have hkeys : ((same ++ extra).map (·.1)).Nodup := (hperm.map (·.1)).nodup hd
  have hget : gs.get? k = Table.get? same k := by
    rw [Json.get?_of_perm hperm hkeys, Table.get?_append, hnone,
      Option.or_none]
  have hunder := sameUnder_of_forall₂ hsame k
  rwa [SameUnder, ← hget] at hunder

theorem Rearranged.get?_eq (h : Rearranged fs gs) (hd : (gs.map (·.1)).Nodup) {k : String}
    (hk : k ∈ routingFields) (hne : k ≠ "params") : gs.get? k = fs.get? k :=
  (h.sameUnder hd hk).resolve_right fun hparams => hne hparams.1

/-- A notification is read from its method and two of its parameters. -/
theorem Rearranged.notification_eq (h : Rearranged fs gs) (hw : (Json.obj gs).WellFormed) :
    Notification.ofJson (.obj gs) = Notification.ofJson (.obj fs) := by
  have hmethod : gs.get? "method" = fs.get? "method" := h.get?_eq hw.1 (by decide) (by decide)
  simp only [Notification.ofJson, Json.get?_obj, hmethod]
  rcases h.sameUnder hw.1 (k := "params") (by decide) with heq | ⟨-, ps, qs, hps, hqs, hperm⟩
  · rw [heq]
  · have hkeys : (qs.map (·.1)).Nodup :=
      ((Json.wellFormedFields_iff gs).1 hw.2 _ (Table.mem_of_get? hqs)).1
    have hget : ∀ k, Table.get? qs k = Table.get? ps k :=
      Json.get?_of_perm hperm ((hperm.map (·.1)).nodup hkeys)
    simp only [hps, hqs, hget]

theorem Rearranged.ofObject_eq (h : Rearranged fs gs) (hw : (Json.obj gs).WellFormed) :
    Incoming.ofObject (.obj gs) = Incoming.ofObject (.obj fs) := by
  have hid : gs.get? "id" = fs.get? "id" := h.get?_eq hw.1 (by decide) (by decide)
  have herror : gs.get? "error" = fs.get? "error" := h.get?_eq hw.1 (by decide) (by decide)
  have hresult : gs.get? "result" = fs.get? "result" := h.get?_eq hw.1 (by decide) (by decide)
  simp only [Incoming.ofObject, Response.ofJson, errorOf, Json.get?_obj, hid, herror, hresult,
    h.notification_eq hw]

/-- A frame comes to the same with its fields rearranged, errors included. -/
theorem Rearranged.parse_eq (h : Rearranged fs gs) {text text' : String}
    (hparse : Json.parse text = some (.obj fs)) (hparse' : Json.parse text' = some (.obj gs)) :
    Incoming.parse text' = Incoming.parse text := by
  rw [Incoming.parse, Incoming.parse, hparse, hparse']
  exact h.ofObject_eq (Json.parse_wellFormed hparse')

/-! ### Both -/

/-- A batch comes to the responses that its entries are as frames of their own, in their order, and
an object to what it comes to with its fields and parameters in any other order and other fields
besides. -/
theorem routing_of_frames :
    (∀ (text : String) (entries : List Json), Json.parse text = some (.arr entries) →
      ∃ texts, Json.IsArrayOf texts text ∧ texts.map Json.parse = entries.map some ∧
        Incoming.parse text = .ok (.batch (texts.filterMap Incoming.responseOf?))) ∧
    ∀ (text text' : String) (fs gs : Table String Json), Json.parse text = some (.obj fs) →
      Json.parse text' = some (.obj gs) → Rearranged fs gs →
      Incoming.parse text' = Incoming.parse text :=
  ⟨fun _ _ h => Incoming.parse_batch h, fun _ _ _ _ hparse hparse' h => h.parse_eq hparse hparse'⟩

/-- A response, a notification, an array and an object that says nothing, in one batch. -/
def mixedEntries : List Json :=
  [.obj [("result", .arr []), ("id", .int 7)], .obj [("method", .str "m")], .arr [],
    .obj [("id", .int 8)]]

def mixedBatch : String :=
  "[\x7b\"result\":[ ],\"id\":7\x7d , \x7b\"method\":\"m\"\x7d,[ ], \x7b\"id\":8\x7d ]"

/-- A notification, and the same one with its fields and parameters in another order. -/
def plainNotification : String :=
  "\x7b\"method\":\"m\",\"params\":\x7b\"subscription\":3,\"result\":null\x7d\x7d"

def turnedNotification : String :=
  "\x7b\"v\":2,\"params\":\x7b\"result\":null,\"subscription\":3\x7d,\"method\":\"m\"\x7d"

theorem routing_of_frames_mixed :
    (∃ texts, Json.IsArrayOf texts mixedBatch ∧ texts.map Json.parse = mixedEntries.map some ∧
        Incoming.parse mixedBatch = .ok (.batch (texts.filterMap Incoming.responseOf?))) ∧
      Incoming.parse mixedBatch = .ok (.batch [⟨7, .ok (.arr [])⟩]) ∧
      Incoming.parse turnedNotification = Incoming.parse plainNotification := by
  have hbatch : Json.parse mixedBatch = some (.arr mixedEntries) := by decide +kernel
  have hplain : Json.parse plainNotification = some (.obj [("method", .str "m"),
      ("params", .obj [("subscription", .int 3), ("result", .null)])]) := by decide +kernel
  have hturned : Json.parse turnedNotification = some (.obj [("v", .int 2),
      ("params", .obj [("result", .null), ("subscription", .int 3)]), ("method", .str "m")]) := by
    decide +kernel
  refine ⟨routing_of_frames.1 _ _ hbatch, by decide +kernel,
    routing_of_frames.2 _ _ _ _ hplain hturned ?_⟩
  exact ⟨_, [("v", .int 2)], .cons (.refl _) (.cons (.params (.swap _ _ [])) .nil), by decide,
    by decide⟩

end NodeRpc
