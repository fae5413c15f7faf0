import NodeRpc.Duplex.Run
import NodeRpc.Proofs.Session.Stopped

/-!
# What a turn does to a shared connection

What a session goes through while its owner neither connects it nor lets go of it is said once
(`Session.Lasts`): an idle session stays idle, and one that is over stays over. On top of that a
turn of a use is one of a few things (`Duplex.Turned`): the use waits for the lock or for a
connection, it ends, or it goes on in the session that is in use or in the one that has just been
connected.
-/

namespace NodeRpc

namespace Session

variable {s s' s'' : Session}

/-- Whether the session was closed on this side or has closed its calls. In contrast to `isClosed`
it is not asked who keeps the session. -/
def isOver (s : Session) : Bool := s.closing || s.link.calls.closed

/-- What a session becomes while its owner neither connects it nor lets go of it. -/
structure Lasts (s s' : Session) : Prop where
  idle : s'.reader = .idle ↔ s.reader = .idle
  owned : s'.owned = s.owned
  staysOver : s.isOver = true → s'.isOver = true

theorem Lasts.refl (s : Session) : Lasts s s := ⟨Iff.rfl, rfl, id⟩

theorem isClosed_of_isOver (h : s.isOver = true) : s.isClosed = true := by
  simp only [isOver, isClosed, isClosing, Bool.or_eq_true] at h ⊢
  tauto

theorem isOver_of_isClosed (howned : s.owned = true) (h : s.isClosed = true) : s.isOver = true := by
  simpa [isOver, isClosed, isClosing, howned] using h

theorem lasts_onLink (s : Session) {f : Link → Link} (es : List Link.Event)
    (hf : f s.link = s.link.after es) : Lasts s (s.onLink f) where
  idle := Iff.rfl
  owned := rfl
  staysOver h := by
    simp only [isOver, onLink, Bool.or_eq_true] at h ⊢
    rw [hf]
    exact h.imp id fun h => Link.stable_after Calls.closed_stable h es

@[simp] theorem isOver_close (s : Session) : s.close.isOver = true := rfl

theorem lasts_close (s : Session) : Lasts s s.close := ⟨Iff.rfl, rfl, fun _ => s.isOver_close⟩

theorem owned_readOn (s : Session) :
    s.readOn.owned = s.owned ∧ s.readOn.closing = s.closing := by
  have hdeliver : ∀ (s : Session) (d : Nat),
      (s.deliver d).owned = s.owned ∧ (s.deliver d).closing = s.closing := by
    intro s d
    unfold deliver
    dsimp only
    split <;> exact ⟨rfl, rfl⟩
  unfold readOn
  split
  · exact ⟨rfl, rfl⟩
  · exact ⟨rfl, rfl⟩
  · split
    · unfold handle
      split
      · exact ⟨rfl, rfl⟩
      · exact ⟨rfl, rfl⟩
      · split
        · exact ⟨rfl, rfl⟩
        · exact ⟨rfl, rfl⟩
        · exact ⟨rfl, rfl⟩
        · exact hdeliver _ _
        · exact ⟨rfl, rfl⟩
    · split <;> exact ⟨rfl, rfl⟩
  · exact hdeliver s _

theorem owned_read (s : Session) : s.read.owned = s.owned ∧ s.read.closing = s.closing := by
  unfold read
  split
  · unfold leave
    split <;> exact ⟨rfl, rfl⟩
  · exact s.owned_readOn

theorem owned_apply (s : Session) {e : Event} (he : e ≠ .letGo) :
    (s.apply e).owned = s.owned ∧ (s.closing = true → (s.apply e).closing = true) := by
  cases e with
  | letGo => exact absurd rfl he
  | run t =>
    cases t with
    | reader => exact ⟨s.owned_read.1, fun h => s.owned_read.2.trans h⟩
    | exchange k => exact ⟨rfl, id⟩
  | readOn => exact ⟨s.owned_readOn.1, fun h => s.owned_readOn.2.trans h⟩
  | disconnect => exact ⟨rfl, id⟩
  | resume k reply => exact ⟨rfl, id⟩
  | close =>
    unfold apply
    dsimp only
    split
    · exact ⟨rfl, fun _ => rfl⟩
    · exact ⟨rfl, id⟩
  | _ =>
    unfold apply
    dsimp only [arrive]
    split <;> exact ⟨rfl, id⟩

theorem deliver_ne_idle (s : Session) (d : Nat) : (s.deliver d).reader ≠ .idle := by
  unfold deliver
  dsimp only
  split
  · dsimp only
    split <;> simp
  · simp

theorem idle_apply (s : Session) (e : Event) :
    (s.apply e).reader = .idle ↔ s.reader = .idle := by
  cases turn_apply s e with
  | idle _ _ _ hreader => rw [hreader]
  | event _ _ _ _ _ hreader => rw [hreader]
  | poll _ _ _ hreader => rw [hreader]
  | stop _ _ hreading _ hreader => simp [hreader, hreading]
  | giveUp d _ hwaits _ hreader => simp [hreader, hwaits]
  | handOver n _ _ hreading _ hreader => simp [hreader, hreading, deliver_ne_idle]
  | again d _ hwaits _ hreader => simp [hreader, hwaits, deliver_ne_idle]

theorem lasts_apply (s : Session) {e : Event} (he : e ≠ .letGo) : Lasts s (s.apply e) where
  idle := s.idle_apply e
  owned := (s.owned_apply he).1
  staysOver h := by
    simp only [isOver, Bool.or_eq_true] at h ⊢
    obtain ⟨es, h'⟩ := amounts_apply s e
    have hlink : (s.apply e).link = s.link.after es := h'.link
    rw [hlink]
    exact h.imp (s.owned_apply he).2 fun h => Link.stable_after Calls.closed_stable h es

end Session

namespace UseStage

/-- The session that a use goes on in. -/
def session? : UseStage → Option Nat
  | .within n _ | .opened n _ => some n
  | _ => none

/-- The connection that a use waits for. -/
def dialing? : UseStage → Option Nat
  | .dialing n _ => some n
  | _ => none

/-- Whether a use holds the lock or waits for it. -/
def isQueued : UseStage → Bool
  | .queued | .dialing .. => true
  | _ => false

theorem dialing?_of_session? {st : UseStage} {n : Nat} (h : st.session? = some n) :
    st.dialing? = none ∧ st.isQueued = false := by
  cases st <;> simp [session?, dialing?, isQueued] at h ⊢

theorem isQueued_of_dialing? {st : UseStage} {n : Nat} (h : st.dialing? = some n) :
    st.isQueued = true := by
  cases st <;> simp [dialing?, isQueued] at h ⊢

end UseStage

namespace Duplex

variable {d d' : Duplex} {u v n m : Nat} {x : Use}

/-! ### Uses and sessions -/

/-- How far use `u` has come. -/
def stageOf? (d : Duplex) (u : Nat) : Option UseStage := d.uses[u]?.map Use.stage

/-- What use `u` is for. -/
def purposeOf? (d : Duplex) (u : Nat) : Option Purpose := d.uses[u]?.map Use.purpose

/-- Session `n` has been handed to use `u`. -/
def HandedTo (d : Duplex) (u n : Nat) : Prop := (d.stageOf? u).bind UseStage.session? = some n

/-- Use `u` waits for connection `n`. -/
def Dialing (d : Duplex) (u n : Nat) : Prop := (d.stageOf? u).bind UseStage.dialing? = some n

/-- Use `u` holds the lock or waits for it. -/
def Queued (d : Duplex) (u : Nat) : Prop := (d.stageOf? u).any UseStage.isQueued = true

/-- Whether session `n` has not been connected. -/
def idle? (d : Duplex) (n : Nat) : Option Bool := d.sessions[n]?.map fun s => s.reader = .idle

/-- Whether the shared connection keeps session `n`. -/
def owned? (d : Duplex) (n : Nat) : Option Bool := d.sessions[n]?.map Session.owned

/-- Whether session `n` is over. -/
def over? (d : Duplex) (n : Nat) : Option Bool := d.sessions[n]?.map Session.isOver

theorem stageOf?_congr (h : d'.uses = d.uses) : d'.stageOf? = d.stageOf? := by
  funext u
  rw [stageOf?, stageOf?, h]

theorem stageOf?_setStage (d : Duplex) (u : Nat) (st : UseStage) (v : Nat) :
    (d.setStage u st).stageOf? v = if v = u then (d.stageOf? u).map fun _ => st else d.stageOf? v := by
  unfold stageOf? setStage
  rw [List.getElem?_modify]
  by_cases h : v = u
  · rw [if_pos h, h]
    cases d.uses[u]? <;> simp
  · rw [if_neg h]
    have hne : ¬ u = v := fun he => h he.symm
    cases d.uses[v]? <;> simp [hne]

theorem purposeOf?_setStage (d : Duplex) (u : Nat) (st : UseStage) (v : Nat) :
    (d.setStage u st).purposeOf? v = d.purposeOf? v := by
  unfold purposeOf? setStage
  rw [List.getElem?_modify]
  cases d.uses[v]? with
  | none => rfl
  | some x =>
    by_cases h : u = v <;> simp [h]

@[simp] theorem lock_finish (d : Duplex) (u : Nat) (st : UseStage) :
    (d.finish u st).lock = d.lock.filter (· ≠ u) := rfl

@[simp] theorem stageOf?_finish (d : Duplex) (u : Nat) (st : UseStage) (v : Nat) :
    (d.finish u st).stageOf? v = if v = u then (d.stageOf? u).map fun _ => st else d.stageOf? v :=
  stageOf?_setStage _ _ _ _

/-! ### What happens besides turns -/

/-- Nothing has changed but what sessions do on their own: no session is connected or let go of, and
no use gets a session, or the lock, or loses it. -/
structure Stays (d d' : Duplex) : Prop where
  size : d'.sessions.length = d.sessions.length
  plan : d'.plan = d.plan
  current : d'.current = d.current
  dials : d'.dials = d.dials
  lock : d'.lock = d.lock
  idle : ∀ n, d'.idle? n = d.idle? n
  owned : ∀ n, d'.owned? n = d.owned? n
  staysOver : ∀ n, d.over? n = some true → d'.over? n = some true
  handed : ∀ u n, d'.HandedTo u n ↔ d.HandedTo u n
  dialing : ∀ u n, d'.Dialing u n ↔ d.Dialing u n
  queued : ∀ u, d'.Queued u ↔ d.Queued u
  purpose : ∀ u p, d.purposeOf? u = some p → d'.purposeOf? u = some p

theorem Stays.refl (d : Duplex) : Stays d d :=
  ⟨rfl, rfl, rfl, rfl, rfl, fun _ => rfl, fun _ => rfl, fun _ => id, fun _ _ => Iff.rfl,
    fun _ _ => Iff.rfl, fun _ => Iff.rfl, fun _ _ => id⟩

theorem stays_of_sessions {sessions : List Session} (hsize : sessions.length = d.sessions.length)
    (h : ∀ n : Nat, d.sessions[n]? = none ∧ sessions[n]? = none ∨
      ∃ s s', d.sessions[n]? = some s ∧ sessions[n]? = some s' ∧ Session.Lasts s s') :
    Stays d { d with sessions } := by
  refine ⟨hsize, rfl, rfl, rfl, rfl, fun n => ?_, fun n => ?_, fun n hn => ?_,
    fun _ _ => Iff.rfl, fun _ _ => Iff.rfl, fun _ => Iff.rfl, fun _ _ => id⟩
  · obtain ⟨hs, hs'⟩ | ⟨s, s', hs, hs', hlasts⟩ := h n
    · simp [idle?, hs, hs']
    · simp [idle?, hs, hs', hlasts.idle]
  · obtain ⟨hs, hs'⟩ | ⟨s, s', hs, hs', hlasts⟩ := h n
    · simp [owned?, hs, hs']
    · simp [owned?, hs, hs', hlasts.owned]
  · obtain ⟨hs, hs'⟩ | ⟨s, s', hs, hs', hlasts⟩ := h n
    · simp [over?, hs] at hn
    · simp only [over?, hs, hs', Option.map_some, Option.some.injEq] at hn ⊢
      exact hlasts.staysOver hn

theorem stays_onSession (d : Duplex) (n : Nat) {f : Session → Session}
    (hf : ∀ s, Session.Lasts s (f s)) : Stays d (d.onSession n f) := by
  refine stays_of_sessions (List.length_modify ..) fun m => ?_
  rw [List.getElem?_modify]
  cases hm : d.sessions[m]? with
  | none => exact .inl ⟨rfl, rfl⟩
  | some s =>
    refine .inr ⟨s, _, rfl, rfl, ?_⟩
    split
    · exact hf s
    · exact .refl s

theorem stays_make (d : Duplex) (purpose : Purpose) (token : Token) :
    Stays d (d.make purpose token) := by
  have hstage : ∀ u, (d.make purpose token).stageOf? u = d.stageOf? u ∨
      d.stageOf? u = none ∧ (d.make purpose token).stageOf? u = some .fresh := by
    intro u
    unfold stageOf? make
    dsimp only
    rw [getElem?_concat]
    split
    · next h =>
      rw [h]
      exact .inr ⟨by simp, rfl⟩
    · exact .inl rfl
  refine ⟨rfl, rfl, rfl, rfl, rfl, fun _ => rfl, fun _ => rfl, fun _ => id, fun u n => ?_,
    fun u n => ?_, fun u => ?_, fun u p hp => ?_⟩
  · rcases hstage u with h | ⟨h, h'⟩
    · rw [HandedTo, HandedTo, h]
    · simp [HandedTo, h, h', UseStage.session?]
  · rcases hstage u with h | ⟨h, h'⟩
    · rw [Dialing, Dialing, h]
    · simp [Dialing, h, h', UseStage.dialing?]
  · rcases hstage u with h | ⟨h, h'⟩
    · rw [Queued, Queued, h]
    · simp [Queued, h, h', UseStage.isQueued]
  · obtain ⟨x, hx, rfl⟩ := Option.map_eq_some_iff.1 hp
    rw [purposeOf?, make, getElem?_append_of_some hx, Option.map_some]

theorem stays_resume (d : Duplex) : Stays d d.resume := by
  refine ⟨rfl, rfl, rfl, rfl, rfl, fun _ => rfl, fun _ => rfl, fun _ => id, fun u n => ?_,
    fun u n => ?_, fun u => ?_, fun u p => ?_⟩
  all_goals
    cases hx : d.uses[u]? with
    | none => simp [HandedTo, Dialing, Queued, stageOf?, purposeOf?, resume, hx]
    | some x =>
      cases hs : x.stage <;>
        simp [HandedTo, Dialing, Queued, stageOf?, purposeOf?, resume, hx, hs, UseStage.session?,
          UseStage.dialing?, UseStage.isQueued]

theorem stays_cancel (d : Duplex) (t : Token) : Stays d (d.cancel t) := by
  have hsessions : Stays d { d with sessions := d.sessions.map fun s => s.onLink (·.cancel t) } := by
    refine stays_of_sessions (List.length_map ..) fun n => ?_
    rw [List.getElem?_map]
    cases hn : d.sessions[n]? with
    | none => exact .inl ⟨rfl, rfl⟩
    | some s =>
      exact .inr ⟨s, _, rfl, rfl, s.lasts_onLink [.act (.cancel t)] rfl⟩
  exact ⟨hsessions.size, rfl, rfl, rfl, rfl, hsessions.idle, hsessions.owned, hsessions.staysOver,
    fun _ _ => Iff.rfl, fun _ _ => Iff.rfl, fun _ => Iff.rfl, fun _ _ => id⟩

/-! ### Turns -/

/-- Connection `n` is made, and its session is the one in use. -/
def connect (d : Duplex) (n : Nat) : Duplex :=
  { d.onSession n fun s => { s with reader := .reading, owned := true } with current := some n }

/-- The session in use is let go of, and a connection is begun. -/
def begin (d : Duplex) : Duplex := { d.letGo with dials := d.dials + 1 }

/-- The session in use is closed. -/
def closeCurrent (d : Duplex) : Duplex :=
  match d.current with
  | some n => d.onSession n Session.close
  | none => d

@[simp] theorem letGo_frame (d : Duplex) :
    d.letGo.plan = d.plan ∧ d.letGo.dials = d.dials ∧ d.letGo.lock = d.lock ∧
      d.letGo.uses = d.uses ∧ d.letGo.current = none ∧
      d.letGo.sessions.length = d.sessions.length := by
  unfold letGo
  split
  · next h => exact ⟨rfl, rfl, rfl, rfl, h, rfl⟩
  · exact ⟨rfl, rfl, rfl, rfl, rfl, List.length_modify ..⟩

/-- What `f` leaves alone can be read off the sessions as before. -/
theorem map_onSession {α : Type} (g : Session → α) (d : Duplex) (n : Nat) {f : Session → Session}
    (hf : ∀ s, g (f s) = g s) (m : Nat) :
    (d.onSession n f).sessions[m]?.map g = d.sessions[m]?.map g := by
  have hmap : (d.onSession n f).sessions.map g = d.sessions.map g :=
    map_modify_of_eq hf n d.sessions
  rw [← List.getElem?_map, ← List.getElem?_map, hmap]

theorem idle?_letGo (d : Duplex) (n : Nat) : d.letGo.idle? n = d.idle? n := by
  unfold letGo idle?
  split
  · rfl
  · refine map_onSession _ _ _ (fun _ => ?_) n
    rfl

theorem over?_letGo (d : Duplex) (n : Nat) : d.letGo.over? n = d.over? n := by
  unfold letGo over?
  split
  · rfl
  · refine map_onSession _ _ _ (fun _ => ?_) n
    rfl

@[simp] theorem current_begin (d : Duplex) : d.begin.current = none := d.letGo_frame.2.2.2.2.1

@[simp] theorem uses_begin (d : Duplex) : d.begin.uses = d.uses := d.letGo_frame.2.2.2.1

@[simp] theorem lock_begin (d : Duplex) : d.begin.lock = d.lock := d.letGo_frame.2.2.1

theorem purposeOf?_begin (d : Duplex) (u : Nat) : d.begin.purposeOf? u = d.purposeOf? u := by
  rw [purposeOf?, purposeOf?, uses_begin]

theorem idle?_begin (d : Duplex) (n : Nat) : d.begin.idle? n = d.idle? n := idle?_letGo d n

theorem idle?_connect (d : Duplex) (n m : Nat) :
    (d.connect n).idle? m = if m = n then (d.idle? n).map fun _ => false else d.idle? m := by
  unfold connect idle? onSession
  dsimp only
  rw [List.getElem?_modify]
  by_cases h : m = n
  · rw [if_pos h, h]
    cases d.sessions[n]? <;> simp
  · have hne : ¬n = m := fun he => h he.symm
    rw [if_neg h]
    cases d.sessions[m]? <;> simp [hne]

theorem owned?_connect (d : Duplex) (n : Nat) :
    (d.connect n).owned? n = (d.idle? n).map fun _ => true := by
  unfold connect idle? owned? onSession
  dsimp only
  rw [List.getElem?_modify]
  cases d.sessions[n]? <;> simp

theorem over?_connect (d : Duplex) (n m : Nat) : (d.connect n).over? m = d.over? m := by
  refine map_onSession _ _ _ (fun _ => ?_) m
  rfl

theorem stays_closeCurrent (d : Duplex) : Stays d d.closeCurrent := by
  unfold closeCurrent
  split
  · exact stays_onSession d _ Session.lasts_close
  · exact .refl d

theorem uses_closeCurrent (d : Duplex) : d.closeCurrent.uses = d.uses := by
  unfold closeCurrent
  split <;> rfl

theorem over?_closeCurrent (hn : d.current = some n) (hs : d.idle? n ≠ none) :
    d.closeCurrent.over? n = some true := by
  unfold closeCurrent over? onSession
  rw [hn]
  dsimp only
  rw [List.getElem?_modify]
  cases h : d.sessions[n]? with
  | none => simp [idle?, h] at hs
  | some s => simp

/-- The lock is `l` when use `u` has its turn with it. -/
structure Takes (d : Duplex) (u : Nat) (x : Use) (l : List Nat) : Prop where
  head : l.head? = some u
  stage : x.stage = .fresh ∧ l = d.lock ++ [u] ∨ x.stage = .queued ∧ l = d.lock

/-- What a turn makes of a shared connection. -/
inductive Turned (d : Duplex) (u : Nat) (x : Use) : Duplex → Prop where
  | idle : Turned d u x d
  | queues (hfresh : x.stage = .fresh) (hbehind : (d.lock ++ [u]).head? ≠ some u) :
      Turned d u x ({ d with lock := d.lock ++ [u] }.setStage u .queued)
  | fails {cause : CallError} (hcause : cause = .cancelled ∨ cause = refusal) :
      Turned d u x (d.finish u (.failed cause))
  | closes {l : List Nat} (ht : d.Takes u x l) :
      Turned d u x ({ d with lock := l }.closeCurrent.letGo.finish u .closed)
  /-- The use goes on in the session that is in use. -/
  | shares {l : List Nat} {n : Nat} {st : UseStage} {f : Session → Session} (ht : d.Takes u x l)
      (hlive : d.live? = some n) (hst : st.session? = some n)
      (hf : ∀ s, Session.Lasts s (f s)) :
      Turned d u x (({ d with lock := l }.finish u st).onSession n f)
  /-- The use begins to wait for a connection. -/
  | awaits {l : List Nat} (ht : d.Takes u x l) (hlive : d.live? = none)
      (hplan : d.dials < d.plan.length) (hp : x.purpose ≠ .close) :
      Turned d u x ({ d with lock := l }.begin.setStage u (.dialing d.dials false))
  /-- The connection that the use begins is refused at once. -/
  | refused {l : List Nat} (ht : d.Takes u x l) (hlive : d.live? = none) :
      Turned d u x ({ d with lock := l }.begin.finish u (.failed refusal))
  /-- The connection that the use begins is made at once. -/
  | connects {l : List Nat} {st : UseStage} {f : Session → Session} (ht : d.Takes u x l)
      (hlive : d.live? = none) (hplan : d.dials < d.plan.length)
      (hst : st.session? = some d.dials) (hf : ∀ s, Session.Lasts s (f s)) :
      Turned d u x ((({ d with lock := l }.begin.connect d.dials).finish u st).onSession d.dials f)
  /-- The connection that the use has waited for is made. -/
  | arrives {n : Nat} {st : UseStage} {f : Session → Session} (hn : x.stage.dialing? = some n)
      (hst : st.session? = some n) (hf : ∀ s, Session.Lasts s (f s)) :
      Turned d u x (((d.connect n).finish u st).onSession n f)

/-- A use that is no close goes on in a session. -/
theorem enter_eq (d : Duplex) (u : Nat) {n : Nat} {x : Use} (hn : n < d.sessions.length)
    (hp : x.purpose ≠ .close) :
    ∃ (st : UseStage) (f : Session → Session), st.session? = some n ∧
      (∀ s, Session.Lasts s (f s)) ∧ d.enter u n x = (d.finish u st).onSession n f := by
  have hs : d.sessions[n]? = some d.sessions[n] := List.getElem?_eq_getElem hn
  unfold enter
  rw [hs]
  dsimp only
  cases hpurpose : x.purpose with
  | close => exact absurd hpurpose hp
  | call call =>
    exact ⟨.within n _, _, rfl, fun s => s.lasts_onLink
      [.act (.call call x.token), .run (.exchange _)] rfl, rfl⟩
  | batch calls =>
    exact ⟨.within n _, _, rfl, fun s => s.lasts_onLink
      [.act (.batch calls x.token), .run (.exchange _)] rfl, rfl⟩
  | subscribe request kept =>
    refine ⟨.opened n _, _, rfl, fun s => s.lasts_onLink
      (.act (.open request x.token) :: if kept then [] else
        [.act (.dropStream d.sessions[n].link.subscriptions.nextHandle true)]) ?_, rfl⟩
    cases kept <;> rfl

theorem lt_of_live? (h : d.live? = some n) : n < d.sessions.length := by
  unfold live? at h
  split at h
  · simp at h
  · split at h
    · next m _ s hs =>
      split at h
      · simp at h
      · obtain rfl := Option.some.inj h
        exact (List.getElem?_eq_some_iff.1 hs).1
    · simp at h

theorem connected_eq (d : Duplex) (u : Nat) {n : Nat} {x : Use} (hn : n < d.sessions.length)
    (hp : x.purpose ≠ .close) :
    ∃ (st : UseStage) (f : Session → Session), st.session? = some n ∧
      (∀ s, Session.Lasts s (f s)) ∧
      d.connected u n x = ((d.connect n).finish u st).onSession n f := by
  refine enter_eq (d.connect n) u ?_ hp
  simpa [connect, onSession] using hn

theorem dial_letGo (d : Duplex) (u : Nat) (x : Use) :
    d.letGo.dial u x =
      match d.plan[d.dials]? with
      | some .connects => d.begin.connected u d.dials x
      | some .stalls | some .lapses => d.begin.setStage u (.dialing d.dials false)
      | _ => d.begin.finish u (.failed refusal) := by
  unfold dial begin letGo
  cases d.current <;> rfl

theorem turned_proceed {l : List Nat} (hl : d.Takes u x l)
    (hsize : d.sessions.length = d.plan.length) :
    Turned d u x ({ d with lock := l }.proceed u x) := by
  by_cases hp : x.purpose = .close
  · have hclose : { d with lock := l }.proceed u x =
        { d with lock := l }.closeCurrent.letGo.finish u .closed := by
      unfold proceed
      rw [hp]
      rfl
    rw [hclose]
    exact .closes hl
  · have hproceed : { d with lock := l }.proceed u x =
        match d.live? with
        | some n => { d with lock := l }.enter u n x
        | none => { d with lock := l }.letGo.dial u x := by
      unfold proceed
      split
      · next h => exact absurd h hp
      · rfl
    rw [hproceed]
    split
    · next n hn =>
      obtain ⟨st, f, hst, hf, heq⟩ := enter_eq { d with lock := l } u (lt_of_live? hn) hp
      rw [heq]
      exact .shares hl hn hst hf
    · next hn =>
      rw [dial_letGo]
      dsimp only
      split
      · next hplan =>
        have hlt := (List.getElem?_eq_some_iff.1 hplan).1
        obtain ⟨st, f, hst, hf, heq⟩ := connected_eq { d with lock := l }.begin u (n := d.dials)
          (by simpa [begin] using hsize ▸ hlt) hp
        rw [heq]
        exact .connects hl hn hlt hst hf
      · next hplan => exact .awaits hl hn (List.getElem?_eq_some_iff.1 hplan).1 hp
      · next hplan => exact .awaits hl hn (List.getElem?_eq_some_iff.1 hplan).1 hp
      · exact .refused hl hn

/-- A turn of a use is one of these things, provided that no use waits for a connection that is not
planned or has nothing to do in a session. -/
theorem turned_runUse (hx : d.uses[u]? = some x) (hsize : d.sessions.length = d.plan.length)
    (hdial : ∀ n, x.stage.dialing? = some n → n < d.plan.length ∧ x.purpose ≠ .close) :
    Turned d u x (d.runUse u) := by
  unfold runUse
  rw [hx]
  dsimp only
  split
  · next hstage =>
    split
    · exact .fails (.inl rfl)
    · split
      · next hhead => exact turned_proceed ⟨hhead, .inl ⟨hstage, rfl⟩⟩ hsize
      · next hhead => exact .queues hstage hhead
  · next hstage =>
    split
    · exact .fails (.inl rfl)
    · split
      · next hhead => exact turned_proceed (l := d.lock) ⟨hhead, .inr ⟨hstage, rfl⟩⟩ hsize
      · exact .idle
  · next n ready hstage =>
    split
    · exact .fails (.inl rfl)
    · split
      · obtain ⟨hlt, hp⟩ := hdial n (by rw [hstage]; rfl)
        unfold dialed
        split
        · exact .fails (.inr rfl)
        · obtain ⟨st, f, hst, hf, heq⟩ := connected_eq d u (n := n) (hsize ▸ hlt) hp
          rw [heq]
          exact .arrives (by rw [hstage]; rfl) hst hf
      · exact .idle
  · exact .idle

end Duplex

end NodeRpc
