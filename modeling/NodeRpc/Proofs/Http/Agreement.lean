import NodeRpc.Http.Basic
import NodeRpc.Proofs.Session.OneBatch

/-!
# One batch, over HTTP and over a session

The same array answers a batch over HTTP and over a session in the same way, but for a call with
more than one response: over a session the first one counts, and over HTTP the last one. So the two
answers are the same if and only if, for each call, the first and the last response say the same.
-/

namespace NodeRpc

namespace HttpClient

/-- The last response to call `id`. -/
def lastResponseTo? (responses : List Response) (id : Nat) : Option Response :=
  (responses.filter fun r => r.id = id).getLast?

theorem ids_number (h : HttpClient) (calls : List Call) :
    (h.number calls).1.map Request.id = List.range' h.nextId calls.length := by
  unfold number
  rw [List.map_zipWith]
  exact List.ext_getElem (by simp) fun i _ _ => by simp

/-- A batch that is replied to with an array comes to what its responses say. -/
theorem batch_replied (h : HttpClient) {calls : List Call} (hne : calls ≠ []) {text : String}
    {entries : List Json} (hparse : Json.parse text = some (.arr entries)) (status : Nat) :
    (h.batch calls).2.1 (.replied status text) = .ok ((List.range' h.nextId calls.length).map
      (entryOutcome (entries.filterMap Incoming.response?))) := by
  have hframe : h.frameOf (.replied status text) =
      .ok (.batch (entries.filterMap Incoming.response?)) := by
    unfold frameOf
    dsimp only
    rw [Incoming.parse_of_arr hparse]
  unfold batch
  rw [if_neg (by simpa using hne), ← h.ids_number calls]
  dsimp only
  rw [hframe]
  rfl

/-- A call is answered by an array in the same way over a session and over HTTP if and only if the
first and the last response to it say the same. -/
theorem entryOutcome_eq_iff (responses : List Response) (id : Nat) :
    Calls.entryOutcome responses id = entryOutcome responses id ↔
      (Calls.responseTo? responses id).map Response.result =
        (lastResponseTo? responses id).map Response.result := by
  have hfirst : Calls.responseTo? responses id = (responses.filter fun r => r.id = id).head? :=
    (List.head?_filter ..).symm
  unfold Calls.entryOutcome entryOutcome lastResponseTo?
  rw [hfirst]
  cases responses.filter fun r => r.id = id with
  | nil => simp
  | cons r rs => simp [List.getLast?_cons]

/-- A batch is posted as the first thing over HTTP, and replied to with an array that has a response
to one of its calls; the same batch is all that is asked on a session, and the same array all that
arrives there, once the frame has been handed over. The two answers are the same if and only if, for
each call, the first and the last response to it say the same. -/
theorem batch_eq_session_iff (endpoint : Url) (buffer : Nat) (policy : Backpressure) (token : Token)
    {calls : List Call} (hne : calls ≠ []) (sending later : List Session.Event)
    (hquiet : ∀ e ∈ sending ++ later, e.isQuiet = true) (hsent : .run (.exchange 0) ∈ sending)
    {text : String} {entries : List Json} (hparse : Json.parse text = some (.arr entries))
    (hany : ∃ r ∈ entries.filterMap Incoming.response?, r.id ∈ List.range' 1 calls.length) :
    let s := (Session.start buffer policy).after
      (.act (.batch calls token) :: sending ++ .arrive (.text text) :: later)
    let responses := entries.filterMap Incoming.response?
    let replied := (batch { endpoint } calls).2.1 (.replied 200 text)
    ∃ x, s.link.calls.exchanges = [x] ∧
      (s.isSettled = true → x.stage ≠ .writing none → x.result?.isSome = true) ∧
      ∀ answer, x.result? = some answer →
        (answer = replied ↔ ∀ i ∈ List.range' 1 calls.length,
          (Calls.responseTo? responses i).map Response.result =
            (lastResponseTo? responses i).map Response.result) := by
  have hheard := Session.heard_after buffer policy token hne hquiet hsent hparse hany
  obtain ⟨x, hx, hanswer, hreturns⟩ := hheard.returns hne
  refine ⟨x, hx, hreturns, fun answer hresult => ?_⟩
  rw [hanswer answer hresult, batch_replied { endpoint } hne hparse 200, Except.ok.injEq,
    List.map_inj_left]
  exact forall₂_congr fun i _ => entryOutcome_eq_iff _ i

/-- An endpoint. -/
def nodeTest : Url where
  scheme := "http"
  authority := some ⟨"", "", .name "node.test", none⟩
  path := "/"
  query := none
  fragment := none

/-- Two calls. -/
def twoSlots : List Call := [⟨"getSlot", .arr []⟩, ⟨"getSlot", .arr []⟩]

/-- Two responses to the second call, one to nobody, and an entry that is no response. -/
def oddReply (first last : Int) : List Json :=
  [.obj [("id", .int 2), ("result", .int first)], .obj [("id", .int 9), ("result", .int 1)],
    .str "2", .obj [("id", .int 2), ("result", .int last)]]

/-- The frame of the batch is taken, but its write does not end. -/
def stalled : List Session.Event := [.sink .stalls, .run (.exchange 0)]

/-- The array is read before the write ends. -/
def resumed : List Session.Event := [.run .reader, .resume 0 (.ok ()), .run (.exchange 0)]

/-- A session on which the two calls are answered by `entries`. -/
def answeredBy (entries : List Json) : Session :=
  (Session.start 1 .pauseReads).after (.act (.batch twoSlots (.caller 0)) :: stalled ++
    .arrive (.text (Json.arr entries).compact) :: resumed)

/-- Two responses that say the same do no harm. -/
theorem batch_eq_session_of_repeated :
    ∃ x, (answeredBy (oddReply 7 7)).link.calls.exchanges = [x] ∧
      x.result? = some ((batch { endpoint := nodeTest } twoSlots).2.1
        (.replied 200 (Json.arr (oddReply 7 7)).compact)) := by
  have hne : twoSlots ≠ [] := by decide
  have hparse : Json.parse (Json.arr (oddReply 7 7)).compact = some (.arr (oddReply 7 7)) := by
    decide +kernel
  obtain ⟨x, hx, hreturns, hiff⟩ := batch_eq_session_iff nodeTest 1 .pauseReads (.caller 0) hne
    stalled resumed (by decide) (by decide) hparse
    ⟨⟨2, .ok (.int 7)⟩, by decide +kernel, by decide⟩
  have hwritten : ∀ y ∈ (answeredBy (oddReply 7 7)).link.calls.exchanges,
      y.stage ≠ .writing none := by decide +kernel
  obtain ⟨answer, hanswer⟩ := Option.isSome_iff_exists.1
    (hreturns (by decide +kernel) (hwritten x (hx ▸ List.mem_singleton.2 rfl)))
  refine ⟨x, hx, ?_⟩
  rw [hanswer, (hiff answer hanswer).2 (by decide +kernel)]

/-- Over a session the first of two responses counts, and over HTTP the last one. -/
theorem batch_differs_from_session :
    ¬ ∀ (endpoint : Url) (buffer : Nat) (policy : Backpressure) (token : Token)
      (calls : List Call) (sending later : List Session.Event) (text : String)
      (entries : List Json), calls ≠ [] → (∀ e ∈ sending ++ later, e.isQuiet = true) →
      .run (.exchange 0) ∈ sending → Json.parse text = some (.arr entries) →
      (∃ r ∈ entries.filterMap Incoming.response?, r.id ∈ List.range' 1 calls.length) →
      ∀ x answer, ((Session.start buffer policy).after
          (.act (.batch calls token) :: sending ++ .arrive (.text text) :: later)
        ).link.calls.exchanges = [x] → x.result? = some answer →
        answer = (batch { endpoint } calls).2.1 (.replied 200 text) := by
  intro h
  let slot : Call := ⟨"getSlot", .arr []⟩
  let entries : List Json :=
    [.obj [("id", .int 1), ("result", .int 1)], .obj [("id", .int 1), ("result", .int 2)]]
  let x : Exchange := {
    calls := [slot], batched := true, token := .caller 0, ids := [1]
    answers := [(1, .ok (.int 1))], stage := .finished (.ok [.ok (.int 1)]) }
  have hsame := h nodeTest 1 .pauseReads (.caller 0) [slot] [.run (.exchange 0)]
    [.run .reader, .run (.exchange 0)] (Json.arr entries).compact entries (by decide) (by decide)
    (by decide) (by decide +kernel) ⟨⟨1, .ok (.int 1)⟩, by decide +kernel, by decide⟩ x
    (.ok [.ok (.int 1)]) (by decide +kernel) rfl
  exact absurd hsame (by decide +kernel)

end HttpClient

end NodeRpc
