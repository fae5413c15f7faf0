import NodeRpc.Proofs.Lookup.Sweeps

/-!
# The identity alone

Nobody has to look an account, a transaction or a block up to tell its identity: what is returned at
once is what is left of the whole entity, whenever and however that was loaded, if nothing but the
field of the identity is taken from it. Nothing is asked for it, and the scope and the queues stay
as they are.
-/

namespace NodeRpc

/-- The fields `names` of a value, as far as it has them. -/
def Json.project (v : Json) (names : List String) : Json :=
  .obj (names.filterMap fun name => (v.get? name).map (name, ·))

/-- What says which entity it is has the entity reduced to its identity as a projection. -/
theorem Entity.Marks.project {e : Entity} {fields : Table String Json}
    (h : e.Marks (.ok (.obj fields))) : (Json.obj fields).project [e.field] = e.bare := by
  have hid : (Json.obj fields).get? e.field = some e.id := h fields rfl
  simp [Json.project, hid, Entity.bare]

namespace Context

variable {ν μ : Type}

/-- Where nothing but the identity is wanted, a lookup returns it when it is started. -/
theorem start_identity (x : Context ν) {e : Entity} {selection : Selection}
    (h : selection.only e.field = true) : x.start (.select e selection) =
      { x with lookups := x.lookups ++ [{ inquiry := .ended (.ok (.entity (some e.bare))) }] } := by
  rw [start, Inquiry.select, if_pos h]

theorem result?_start_ended (x : Context ν) (result : Except LookupError Finding) :
    (x.start (.ended result)).result? x.lookups.length = some result := by
  simp [start, result?]

/-- If an account, a transaction or a block was looked up as a whole and came to an object, then in
every state of every context of the graph a lookup of its identity alone returns the projection of
that object to the identity, as soon as it is started. Nothing else of the context changes: no call
is made, and scope, queues and talks stay as they are, also when the lookup is polled. -/
theorem identity_is_projection (respond : Respondent ν) (g : Graph) (node : ν)
    {events : List Event} {w : Wanted} {k : Nat} {fields : Table String Json}
    (hstarted : (events.filterMap Event.started?)[k]? = some (.select (w.entity g.client) .all))
    (hresult : ((ofGraph g node).after respond events).result? k =
      some (.ok (.entity (some (.obj fields)))))
    (selection : Selection) (honly : selection.only (w.entity g.client).field = true)
    (respond' : Respondent μ) (node' : μ) (events' : List Event) :
    let x := (ofGraph g node').after respond' events'
    let y := x.start (.select (w.entity g.client) selection)
    let identity := (Json.obj fields).project [(w.entity g.client).field]
    y.result? x.lookups.length = some (.ok (.entity (some identity))) ∧
      y = { x with lookups := x.lookups ++ [{ inquiry := .ended (.ok (.entity (some identity))) }] } ∧
      y.poll respond' x.lookups.length = y := by
  intro x y identity
  have hmarks : (w.entity g.client).Marks (.ok (.obj fields)) :=
    marked_of_result respond g node hstarted hresult
  have hidentity : identity = (w.entity g.client).bare := hmarks.project
  have hy : y = { x with
      lookups := x.lookups ++ [{ inquiry := .ended (.ok (.entity (some identity))) }] } := by
    rw [hidentity]
    exact x.start_identity honly
  have hreturns : y.result? x.lookups.length = some (.ok (.entity (some identity))) := by
    rw [hy]
    exact x.result?_start_ended (.ok (.entity (some identity)))
  refine ⟨hreturns, hy, ?_⟩
  -- the lookup is started by one more event
  have hafter : y = (ofGraph g node').after respond'
      (events' ++ [.start (.select (w.entity g.client) selection)]) := by
    rw [after_concat]
    rfl
  have hpolled := poll_of_result respond' g node'
    (events' ++ [.start (.select (w.entity g.client) selection)]) (k := x.lookups.length)
  rw [← hafter] at hpolled
  exact hpolled (by rw [hreturns]; rfl)

/-- A node that finds the same under every address, which it calls "B". -/
def misnaming : Respondent Unit := fun node _ a =>
  (some (.ok (a.made.map fun _ => .ok (.obj [("context", .obj [("slot", .ofNat 1)]),
    ("value", .arr [.obj [("address", .str "B"), ("lamports", .ofNat 5)]])]))), node)

/-- Account "A" is looked up as a whole. -/
def wholeOfA : List Event :=
  [.start (.select ((Wanted.account "A" {}).entity {}) .all), .poll 0, .poll 0, .runTalk 0, .poll 0]

/-- The whole account says that it is "A", and so does its identity alone in a context where the
load of the account has just been queued and stays so. -/
theorem identity_of_misnamed :
    ((ofGraph ⟨{}, 3⟩ ()).after misnaming wholeOfA).result? 0 =
      some (.ok (.entity (some (.obj [("address", .str "A"), ("lamports", .ofNat 5)])))) ∧
    ∃ x : Context Unit, x = (ofGraph ⟨{}, 3⟩ ()).after misnaming (wholeOfA.take 2) ∧
      x.accounts.queue.length = 1 ∧ x.scope.entries.length = 1 ∧
      (x.start (.select ((Wanted.account "A" {}).entity {}) (.fields ["address"]))).result? 1 =
        some (.ok (.entity (some (.obj [("address", .str "A")])))) ∧
      x.start (.select ((Wanted.account "A" {}).entity {}) (.fields ["address"])) =
        { x with lookups := x.lookups ++
          [{ inquiry := .ended (.ok (.entity (some (.obj [("address", .str "A")])))) }] } := by
  have hwhole : ((ofGraph ⟨{}, 3⟩ ()).after misnaming wholeOfA).result? 0 =
      some (.ok (.entity (some (.obj [("address", .str "A"), ("lamports", .ofNat 5)])))) := by
    decide +kernel
  obtain ⟨hreturns, hsame, -⟩ := identity_is_projection misnaming ⟨{}, 3⟩ () (w := .account "A" {})
    (k := 0) rfl hwhole (.fields ["address"]) rfl misnaming () (wholeOfA.take 2)
  exact ⟨hwhole, _, rfl, by decide +kernel, by decide +kernel, hreturns, hsame⟩

end Context

end NodeRpc
