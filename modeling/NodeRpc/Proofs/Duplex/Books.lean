import NodeRpc.Proofs.Duplex.Turns

/-!
# Who waits, and which session is in use

Whatever happens to a shared connection, the uses in its queue are those that wait (`Queue`), and
its numbers say which session is in use and which connection is being made (`Books`). Both are kept
by every turn and every other event.
-/

namespace NodeRpc.Duplex

variable {d d' : Duplex} {u v n m : Nat} {x : Use}

/-! ### The lock -/

/-- The uses that hold the lock or wait for it are in its queue, each once, and one that makes a
connection is the first. -/
structure Queue (d : Duplex) : Prop where
  nodup : d.lock.Nodup
  mem : ∀ u, u ∈ d.lock ↔ d.Queued u
  head : ∀ u n, d.Dialing u n → d.lock.head? = some u

theorem queued_of_dialing (h : d.Dialing u n) : d.Queued u := by
  obtain ⟨st, hst, hn⟩ := Option.bind_eq_some_iff.1 h
  simpa [Queued, hst] using UseStage.isQueued_of_dialing? hn

/-- At most one connection is being made. -/
theorem Queue.alone (h : d.Queue) (hu : d.Dialing u n) (hv : d.Dialing v m) : u = v :=
  Option.some.inj ((h.head u n hu).symm.trans (h.head v m hv))

theorem Queue.stays (h : d.Queue) (hs : Stays d d') : d'.Queue where
  nodup := hs.lock ▸ h.nodup
  mem u := by rw [hs.lock, hs.queued, h.mem]
  head u n hu := by
    rw [hs.lock]
    exact h.head u n ((hs.dialing u n).1 hu)

theorem Queue.congr (h : d.Queue) (hlock : d'.lock = d.lock) (huses : d'.uses = d.uses) :
    d'.Queue := by
  have hstage := stageOf?_congr huses
  refine ⟨hlock ▸ h.nodup, fun u => ?_, fun u n hu => ?_⟩
  · rw [hlock, Queued, hstage]
    exact h.mem u
  · rw [Dialing, hstage] at hu
    rw [hlock]
    exact h.head u n hu

/-- What is known of a lock when use `u` has its turn with it. -/
structure Held (d : Duplex) (u : Nat) (l : List Nat) : Prop where
  nodup : l.Nodup
  mem : ∀ v, v ≠ u → (v ∈ l ↔ d.Queued v)
  head : ∀ v n, v ≠ u → d.Dialing v n → l.head? = some v

theorem Queue.held (h : d.Queue) (u : Nat) : d.Held u d.lock :=
  ⟨h.nodup, fun v _ => h.mem v, fun v n _ => h.head v n⟩

/-- A use that has its turn with the lock has it alone, and no connection is being made. -/
theorem Queue.takes (h : d.Queue) (hx : d.uses[u]? = some x) {l : List Nat} (ht : d.Takes u x l) :
    d.Held u l ∧ ∀ v n, ¬d.Dialing v n := by
  have hstage : d.stageOf? u = some x.stage := by rw [stageOf?, hx, Option.map_some]
  rcases ht.stage with ⟨hfresh, rfl⟩ | ⟨hqueued, rfl⟩
  · have hnot : u ∉ d.lock := by
      rw [h.mem, Queued, hstage, hfresh]
      simp [UseStage.isQueued]
    have hempty : d.lock = [] := by
      cases hl : d.lock with
      | nil => rfl
      | cons w ws =>
        have hhead := ht.head
        rw [hl, List.cons_append, List.head?_cons, Option.some.injEq] at hhead
        exact absurd (by simp [hl, hhead]) hnot
    have hnone : ∀ v n, ¬d.Dialing v n := by
      intro v n hv
      have hhead := h.head v n hv
      simp [hempty] at hhead
    refine ⟨⟨by simp [hempty], fun v hv => ?_, fun v n _ hd => absurd hd (hnone v n)⟩, hnone⟩
    rw [← h.mem, hempty]
    simpa using hv
  · refine ⟨h.held u, fun v n hv => ?_⟩
    obtain rfl : v = u := Option.some.inj ((h.head v n hv).symm.trans ht.head)
    simp [Dialing, hstage, hqueued, UseStage.dialing?] at hv

/-- A use that ends, or goes on in a session, leaves the queue. -/
theorem Held.finish {l : List Nat} (h : d.Held u l) {st : UseStage} (hst : st.isQueued = false) :
    ({ d with lock := l }.finish u st).Queue := by
  have hstage : ∀ v, v ≠ u → ({ d with lock := l }.finish u st).stageOf? v = d.stageOf? v := by
    intro v hv
    rw [stageOf?_finish, if_neg hv]
    rfl
  have hleft : ¬({ d with lock := l }.finish u st).Queued u := by
    rw [Queued, stageOf?_finish, if_pos rfl]
    cases stageOf? { d with lock := l } u <;> simp [hst]
  refine ⟨h.nodup.filter _, fun v => ?_, fun v n hv => ?_⟩
  · by_cases hvu : v = u
    · subst hvu
      exact ⟨fun hm => by simp at hm, fun hq => absurd hq hleft⟩
    · rw [Queued, hstage v hvu, ← Queued, ← h.mem v hvu]
      simp [hvu]
  · by_cases hvu : v = u
    · subst hvu
      exact absurd (queued_of_dialing hv) hleft
    · rw [Dialing, hstage v hvu] at hv
      obtain ⟨ws, hl⟩ := List.head?_eq_some_iff.1 (h.head v n hvu hv)
      simp [hl, hvu]

theorem Queue.finish (h : d.Queue) (u : Nat) {st : UseStage} (hst : st.isQueued = false) :
    (d.finish u st).Queue :=
  (h.held u).finish hst

/-- A use that comes to the lock while others have it waits behind them. -/
theorem Queue.join (h : d.Queue) (hx : d.uses[u]? = some x) (hfresh : x.stage = .fresh)
    (hbehind : (d.lock ++ [u]).head? ≠ some u) :
    ({ d with lock := d.lock ++ [u] }.setStage u .queued).Queue := by
  have hstage : d.stageOf? u = some .fresh := by rw [stageOf?, hx, Option.map_some, hfresh]
  have hnot : u ∉ d.lock := by
    rw [h.mem, Queued, hstage]
    simp [UseStage.isQueued]
  have hlock : ({ d with lock := d.lock ++ [u] }.setStage u .queued).lock = d.lock ++ [u] := rfl
  have hof : ∀ v, ({ d with lock := d.lock ++ [u] }.setStage u .queued).stageOf? v =
      if v = u then some .queued else d.stageOf? v := by
    intro v
    rw [stageOf?_setStage]
    have hu : stageOf? { d with lock := d.lock ++ [u] } u = some .fresh := hstage
    rw [hu]
    rfl
  refine ⟨?_, fun v => ?_, fun v n hv => ?_⟩
  · rw [hlock]
    exact List.nodup_append.2 ⟨h.nodup, by simp, fun a ha b hb => by
      obtain rfl := List.mem_singleton.1 hb
      exact fun he => hnot (he ▸ ha)⟩
  · rw [hlock, Queued, hof, List.mem_append, List.mem_singleton, h.mem, Queued]
    split
    · next hvu => simp [hvu, UseStage.isQueued]
    · next hvu => simp [hvu]
  · rw [Dialing, hof] at hv
    split at hv
    · simp [UseStage.dialing?] at hv
    · have hhead := h.head v n hv
      rw [hlock]
      cases hl : d.lock with
      | nil => simp [hl] at hhead
      | cons w ws => simpa [hl] using hhead

/-- A use that has its turn with the lock and begins to wait for a connection keeps it. -/
theorem Queue.await (h : d.Queue) (hx : d.uses[u]? = some x) {l : List Nat} (ht : d.Takes u x l)
    (n : Nat) (d' : Duplex) (hlock : d'.lock = l) (huses : d'.uses = d.uses) (ready : Bool) :
    (d'.setStage u (.dialing n ready)).Queue := by
  obtain ⟨hheld, hnone⟩ := h.takes hx ht
  have hof : ∀ v, (d'.setStage u (.dialing n ready)).stageOf? v =
      if v = u then some (.dialing n ready) else d.stageOf? v := by
    intro v
    rw [stageOf?_setStage, stageOf?, stageOf?, huses, hx]
    rfl
  refine ⟨hlock ▸ hheld.nodup, fun v => ?_, fun v m hv => ?_⟩
  · show v ∈ d'.lock ↔ _
    rw [hlock, Queued, hof]
    split
    · next hvu => simp [hvu, UseStage.isQueued, List.mem_of_head? ht.head]
    · next hvu => exact hheld.mem v hvu
  · rw [Dialing, hof] at hv
    split at hv
    · next hvu =>
      rw [hvu]
      exact hlock ▸ ht.head
    · exact absurd hv (hnone v m)

/-! ### The sessions -/

/-- What the numbers of sessions tell at all times. -/
structure Books (d : Duplex) : Prop where
  size : d.sessions.length = d.plan.length
  /-- The session in use is the one that was connected last. -/
  current : ∀ n, d.current = some n →
    n + 1 = d.dials ∧ d.idle? n = some false ∧ d.owned? n = some true
  /-- While a connection is being made no session is in use. -/
  dialing : ∀ u n, d.Dialing u n → n + 1 = d.dials ∧ d.current = none ∧ d.idle? n = some true
  ahead : ∀ n, d.dials ≤ n → d.idle? n ≠ some false
  /-- A session that is no longer in use is over. -/
  left : ∀ n, d.idle? n = some false → d.current = some n ∨ d.over? n = some true
  handed : ∀ u n, d.HandedTo u n → d.idle? n = some false
  asks : ∀ u n, d.Dialing u n → ∃ p, d.purposeOf? u = some p ∧ p ≠ .close

theorem Books.stays (h : d.Books) (hs : Stays d d') : d'.Books where
  size := by rw [hs.size, hs.plan, h.size]
  current n hn := by
    rw [hs.dials, hs.idle, hs.owned]
    exact h.current n (hs.current ▸ hn)
  dialing u n hu := by
    rw [hs.dials, hs.current, hs.idle]
    exact h.dialing u n ((hs.dialing u n).1 hu)
  ahead n hn := by
    rw [hs.idle]
    exact h.ahead n (hs.dials ▸ hn)
  left n hn := by
    rw [hs.current]
    exact (h.left n (hs.idle n ▸ hn)).imp id (hs.staysOver n)
  handed u n hu := by
    rw [hs.idle]
    exact h.handed u n ((hs.handed u n).1 hu)
  asks u n hu := by
    obtain ⟨p, hp, hne⟩ := h.asks u n ((hs.dialing u n).1 hu)
    exact ⟨p, hs.purpose u p hp, hne⟩

theorem Books.lock (h : d.Books) (l : List Nat) : ({ d with lock := l } : Duplex).Books :=
  ⟨h.size, h.current, h.dialing, h.ahead, h.left, h.handed, h.asks⟩

/-- A session that is over is let go of. -/
theorem Books.letGo (h : d.Books) (hover : ∀ n, d.current = some n → d.over? n = some true) :
    d.letGo.Books := by
  obtain ⟨hplan, hdials, _, huses, hcurrent, hsize⟩ := d.letGo_frame
  have hstage := stageOf?_congr huses
  refine {
    size := by rw [hsize, hplan, h.size]
    current := fun n hn => ?current
    dialing := fun u n hu => ?dialing
    ahead := fun n hn => ?ahead
    left := fun n hn => ?left
    handed := fun u n hu => ?handed
    asks := fun u n hu => ?asks }
  case current => simp at hn
  case dialing =>
    rw [Dialing, hstage] at hu
    rw [hdials, idle?_letGo]
    exact ⟨(h.dialing u n hu).1, hcurrent, (h.dialing u n hu).2.2⟩
  case ahead =>
    rw [idle?_letGo]
    exact h.ahead n (hdials ▸ hn)
  case left =>
    rw [idle?_letGo] at hn
    rw [over?_letGo]
    exact .inr ((h.left n hn).elim (hover n) id)
  case handed =>
    rw [HandedTo, hstage] at hu
    rw [idle?_letGo]
    exact h.handed u n hu
  case asks =>
    rw [Dialing, hstage] at hu
    rw [purposeOf?, huses]
    exact h.asks u n hu

/-- A use that ends, or goes on in a session that has been connected, makes no connection. -/
theorem Books.setStage (h : d.Books) (u : Nat) {st : UseStage}
    (hs : ∀ n, st.session? = some n → d.idle? n = some false) (hd : st.dialing? = none) :
    (d.setStage u st).Books := by
  have hdialing : ∀ v n, (d.setStage u st).Dialing v n → d.Dialing v n := by
    intro v n hv
    rw [Dialing, stageOf?_setStage] at hv
    split at hv
    · cases hu : d.stageOf? u <;> simp [hu, hd] at hv
    · exact hv
  refine { h with
    dialing := fun v n hv => h.dialing v n (hdialing v n hv)
    handed := fun v n hv => ?handed
    asks := fun v n hv => ?asks }
  case handed =>
    rw [HandedTo, stageOf?_setStage] at hv
    split at hv
    · cases hu : d.stageOf? u with
      | none => simp [hu] at hv
      | some _ => exact hs n (by simpa [hu] using hv)
    · exact h.handed v n hv
  case asks =>
    rw [purposeOf?_setStage]
    exact h.asks v n (hdialing v n hv)

theorem Books.finish (h : d.Books) (u : Nat) {st : UseStage}
    (hs : ∀ n, st.session? = some n → d.idle? n = some false) (hd : st.dialing? = none) :
    (d.finish u st).Books :=
  (h.lock (d.lock.filter (· ≠ u))).setStage u hs hd

theorem dialing_begin (hnone : ∀ v n, ¬d.Dialing v n) : ∀ v n, ¬d.begin.Dialing v n := by
  intro v n hv
  rw [Dialing, stageOf?, uses_begin] at hv
  exact hnone v n hv

/-- A connection is begun where there is no session in use. -/
theorem Books.begin (h : d.Books) (hover : ∀ n, d.current = some n → d.over? n = some true)
    (hnone : ∀ v n, ¬d.Dialing v n) : d.begin.Books := by
  have hl := h.letGo hover
  have hno := dialing_begin hnone
  refine {
    size := hl.size
    current := fun n hn => ?current
    dialing := fun u n hu => absurd hu (hno u n)
    ahead := fun n hn => ?ahead
    left := hl.left
    handed := hl.handed
    asks := fun u n hu => absurd hu (hno u n) }
  case current => simp [current_begin] at hn
  case ahead =>
    have hn' : d.dials + 1 ≤ n := hn
    exact hl.ahead n (by rw [d.letGo_frame.2.1]; omega)

/-- The session of the connection that is begun next is idle. -/
theorem Books.idle_next (h : d.Books) (hplan : d.dials < d.plan.length) :
    d.idle? d.dials = some true := by
  have hlt : d.dials < d.sessions.length := h.size ▸ hplan
  have hnot := h.ahead d.dials (Nat.le_refl _)
  simpa [idle?, List.getElem?_eq_getElem hlt] using hnot

/-- A use begins to wait for the connection that is begun. -/
theorem Books.await (h : d.Books) {n : Nat} (hdials : n + 1 = d.dials) (hcurrent : d.current = none)
    (hidle : d.idle? n = some true) (hnone : ∀ v m, ¬d.Dialing v m)
    (hp : ∀ p, d.purposeOf? u = some p → p ≠ .close) (ready : Bool) :
    (d.setStage u (.dialing n ready)).Books := by
  have hdialing : ∀ v m, (d.setStage u (.dialing n ready)).Dialing v m →
      v = u ∧ m = n ∧ ∃ p, d.purposeOf? u = some p := by
    intro v m hv
    rw [Dialing, stageOf?_setStage] at hv
    split at hv
    · next hvu =>
      cases hx : d.uses[u]? with
      | none => simp [stageOf?, hx] at hv
      | some x =>
        have hm : n = m := by simpa [stageOf?, hx, UseStage.dialing?] using hv
        exact ⟨hvu, hm.symm, x.purpose, by simp [purposeOf?, hx]⟩
    · exact absurd hv (hnone v m)
  refine {
    size := h.size
    current := h.current
    dialing := fun v m hv => ?dialing
    ahead := h.ahead
    left := h.left
    handed := fun v m hv => ?handed
    asks := fun v m hv => ?asks }
  case dialing =>
    obtain ⟨rfl, rfl, _⟩ := hdialing v m hv
    exact ⟨hdials, hcurrent, hidle⟩
  case handed =>
    rw [HandedTo, stageOf?_setStage] at hv
    split at hv
    · cases hu : d.stageOf? u <;> simp [hu, UseStage.session?] at hv
    · exact h.handed v m hv
  case asks =>
    obtain ⟨rfl, _, p, hpurpose⟩ := hdialing v m hv
    rw [purposeOf?_setStage]
    exact ⟨p, hpurpose, hp p hpurpose⟩

/-- The connection that was begun last is made for the use that has waited for it. -/
theorem Books.connect (h : d.Books) {n : Nat} (hdials : n + 1 = d.dials)
    (hcurrent : d.current = none) (hidle : d.idle? n = some true)
    (halone : ∀ v m, d.Dialing v m → v = u) {st : UseStage} (hst : st.session? = some n) :
    ((d.connect n).finish u st).Books := by
  have hof : ∀ v, ((d.connect n).finish u st).stageOf? v =
      if v = u then (d.stageOf? u).map fun _ => st else d.stageOf? v := fun v =>
    stageOf?_finish (d.connect n) u st v
  have hidle' : ∀ m, ((d.connect n).finish u st).idle? m =
      if m = n then some false else d.idle? m := by
    intro m
    have hm := d.idle?_connect n m
    rw [hidle, Option.map_some] at hm
    exact hm
  have hno : ∀ v m, ¬((d.connect n).finish u st).Dialing v m := by
    intro v m hv
    rw [Dialing, hof] at hv
    split at hv
    · cases hu : d.stageOf? u <;> simp [hu, (UseStage.dialing?_of_session? hst).1] at hv
    · next hvu => exact hvu (halone v m hv)
  refine {
    size := ?size
    current := fun m hm => ?current
    dialing := fun v m hv => absurd hv (hno v m)
    ahead := fun m hm => ?ahead
    left := fun m hm => ?left
    handed := fun v m hv => ?handed
    asks := fun v m hv => absurd hv (hno v m) }
  case size => exact (List.length_modify ..).trans h.size
  case current =>
    obtain rfl : n = m := Option.some.inj hm
    refine ⟨hdials, by rw [hidle', if_pos rfl], ?_⟩
    have howned := d.owned?_connect n
    rw [hidle, Option.map_some] at howned
    exact howned
  case ahead =>
    have hlt : d.dials ≤ m := hm
    rw [hidle', if_neg (by omega)]
    exact h.ahead m hlt
  case left =>
    rw [hidle'] at hm
    split at hm
    · next hmn => exact .inl (by rw [hmn]; rfl)
    · rcases h.left m hm with hc | hover
      · simp [hcurrent] at hc
      · exact .inr ((d.over?_connect n m).trans hover)
  case handed =>
    rw [HandedTo, hof] at hv
    rw [hidle']
    split
    · rfl
    · next hmn =>
      split at hv
      · cases hu : d.stageOf? u with
        | none => simp [hu] at hv
        | some _ =>
          have hnm : n = m := by simpa [hu, hst] using hv
          exact absurd hnm.symm hmn
      · exact h.handed v m hv

/-! ### Both at all times -/

/-- Session `n` was connected and has ended, or is about to. -/
def HasEnded (d : Duplex) (n : Nat) : Prop :=
  ∃ s, d.sessions[n]? = some s ∧ s.reader ≠ .idle ∧ s.isClosed = true

/-- The session that a use can go on in is the one in use, and has not ended. -/
theorem live?_eq_some (h : d.live? = some n) : d.current = some n ∧ ¬d.HasEnded n := by
  unfold live? at h
  split at h
  · simp at h
  · next m hm =>
    split at h
    · next s hs =>
      split at h
      · simp at h
      · next hopen =>
        obtain rfl := Option.some.inj h
        refine ⟨hm, fun ⟨s', hs', _, hclosed⟩ => hopen ?_⟩
        obtain rfl := Option.some.inj (hs.symm.trans hs')
        exact hclosed
    · simp at h

theorem Books.ended_of_live? (h : d.Books) (hlive : d.live? = none) (hn : d.current = some n) :
    d.HasEnded n ∧ d.over? n = some true := by
  obtain ⟨_, hidle, howned⟩ := h.current n hn
  obtain ⟨s, hs, hreader⟩ := Option.map_eq_some_iff.1 hidle
  have hs' : s.owned = true := by simpa [owned?, hs] using howned
  have hclosed : s.isClosed = true := by
    rw [live?, hn] at hlive
    dsimp only at hlive
    rw [hs] at hlive
    by_contra hopen
    simp [hopen] at hlive
  exact ⟨⟨s, hs, of_decide_eq_false hreader, hclosed⟩,
    by simp [over?, hs, Session.isOver_of_isClosed hs' hclosed]⟩

/-- What holds of a shared connection at all times. -/
structure Sound (d : Duplex) : Prop where
  queue : d.Queue
  books : d.Books

theorem Sound.stays (h : d.Sound) (hs : Stays d d') : d'.Sound :=
  ⟨h.queue.stays hs, h.books.stays hs⟩

theorem Sound.finish (h : d.Sound) (u : Nat) {st : UseStage} (hs : st.session? = none)
    (hd : st.dialing? = none) (hq : st.isQueued = false) : (d.finish u st).Sound :=
  ⟨h.queue.finish u hq, h.books.finish u (by simp [hs]) hd⟩

theorem Queue.onSession (h : d.Queue) (n : Nat) (f : Session → Session) :
    (d.onSession n f).Queue :=
  h.congr rfl rfl

/-- A use that finds no session at the lock begins a connection while no other one is being made. -/
theorem Sound.begun (h : d.Sound) (hx : d.uses[u]? = some x) {l : List Nat} (hl : d.Takes u x l)
    (hlive : d.live? = none) :
    ({ d with lock := l } : Duplex).begin.Books ∧
      ∀ v n, ¬({ d with lock := l } : Duplex).begin.Dialing v n := by
  have hnone : ∀ v n, ¬({ d with lock := l } : Duplex).Dialing v n := (h.queue.takes hx hl).2
  exact ⟨(h.books.lock l).begin (fun n hn => (h.books.ended_of_live? hlive hn).2) hnone,
    dialing_begin hnone⟩

theorem Turned.books (ht : Turned d u x d') (hx : d.uses[u]? = some x) (h : d.Sound) :
    d'.Books := by
  have hpurpose : d.purposeOf? u = some x.purpose := by rw [purposeOf?, hx, Option.map_some]
  have hidle : ∀ l, d.dials < d.plan.length →
      ({ d with lock := l } : Duplex).begin.idle? d.dials = some true := fun l hplan =>
    (idle?_begin _ _).trans (h.books.idle_next hplan)
  cases ht with
  | idle => exact h.books
  | queues _ _ => exact (h.books.lock _).setStage u (by simp [UseStage.session?]) rfl
  | fails _ => exact h.books.finish u (by simp [UseStage.session?]) rfl
  | @closes l _ =>
    have hbooks := h.books.lock l
    refine ((hbooks.stays (stays_closeCurrent _)).letGo fun n hn => ?_).finish u
      (by simp [UseStage.session?]) rfl
    have hn' : d.current = some n :=
      (stays_closeCurrent { d with lock := l }).current.symm.trans hn
    exact over?_closeCurrent hn' (by rw [(hbooks.current n hn').2.1]; simp)
  | @shares l n st f _ hlive hst hf =>
    obtain ⟨hn, _⟩ := live?_eq_some hlive
    refine ((h.books.lock l).finish u (fun m hm => ?_) (UseStage.dialing?_of_session? hst).1).stays
      (stays_onSession _ n hf)
    obtain rfl := Option.some.inj (hst.symm.trans hm)
    exact (h.books.current n hn).2.1
  | @awaits l hl hlive hplan hp =>
    obtain ⟨hbooks, hnone⟩ := h.begun hx hl hlive
    refine hbooks.await rfl (current_begin _) (hidle l hplan) hnone (fun p hp' => ?_) false
    rw [purposeOf?_begin] at hp'
    obtain rfl := Option.some.inj (hpurpose.symm.trans hp')
    exact hp
  | refused hl hlive => exact (h.begun hx hl hlive).1.finish u (by simp [UseStage.session?]) rfl
  | @connects l st f hl hlive hplan hst hf =>
    obtain ⟨hbooks, hnone⟩ := h.begun hx hl hlive
    exact (hbooks.connect rfl (current_begin _) (hidle l hplan)
      (fun v m hv => absurd hv (hnone v m)) hst).stays (stays_onSession _ d.dials hf)
  | @arrives n st f hn hst hf =>
    have hdial : d.Dialing u n := by
      rw [Dialing, stageOf?, hx]
      exact hn
    obtain ⟨hdials, hcurrent, hidle⟩ := h.books.dialing u n hdial
    exact (h.books.connect hdials hcurrent hidle (fun v m hv => h.queue.alone hv hdial) hst).stays
      (stays_onSession _ n hf)

theorem Turned.queue (ht : Turned d u x d') (hx : d.uses[u]? = some x) (h : d.Sound) :
    d'.Queue := by
  have hdone : ∀ {l : List Nat} (d'' : Duplex) {st : UseStage}, d.Takes u x l →
      st.isQueued = false → d''.lock = l → d''.uses = d.uses → (d''.finish u st).Queue := by
    intro l d'' st hl hst hlock huses
    refine ((h.queue.takes hx hl).1.finish hst).congr ?_ ?_
    · rw [lock_finish, lock_finish, hlock]
    · simp [finish, unlock, setStage, huses]
  have hst' : ∀ {st : UseStage} {n : Nat}, st.session? = some n → st.isQueued = false :=
    fun hst => (UseStage.dialing?_of_session? hst).2
  cases ht with
  | idle => exact h.queue
  | queues hfresh hbehind => exact h.queue.join hx hfresh hbehind
  | fails _ => exact h.queue.finish u rfl
  | @closes l hl =>
    refine hdone ({ d with lock := l } : Duplex).closeCurrent.letGo hl rfl ?_ ?_
    · rw [(letGo_frame _).2.2.1, (stays_closeCurrent _).lock]
    · rw [(letGo_frame _).2.2.2.1, uses_closeCurrent]
  | @shares l n st f hl hlive hst hf =>
    exact (hdone { d with lock := l } hl (hst' hst) rfl rfl).onSession n f
  | @awaits l hl hlive hplan hp =>
    exact h.queue.await hx hl d.dials ({ d with lock := l } : Duplex).begin (lock_begin _)
      (uses_begin _) false
  | @refused l hl hlive =>
    exact hdone ({ d with lock := l } : Duplex).begin hl rfl (lock_begin _) (uses_begin _)
  | @connects l st f hl hlive hplan hst hf =>
    exact (hdone (({ d with lock := l } : Duplex).begin.connect d.dials) hl (hst' hst) (lock_begin _)
      (uses_begin _)).onSession d.dials f
  | @arrives n st f hn hst hf =>
    have hconnect : (d.connect n).Queue := h.queue.congr rfl rfl
    exact (hconnect.finish u (hst' hst)).onSession n f

/-- What an event makes of a shared connection. -/
inductive Changed (d : Duplex) (e : Event) (d' : Duplex) : Prop where
  | stays (hs : Stays d d')
  | givenUp (u : Nat) (he : e = .abandon u) (hd : d' = d.finish u .abandoned)
  | turned (u : Nat) (x : Use) (he : e = .turn u) (hx : d.uses[u]? = some x)
      (ht : Turned d u x d')

theorem Sound.changed (h : d.Sound) (e : Event) : Changed d e (d.apply e) := by
  cases e with
  | make purpose token => exact .stays (d.stays_make purpose token)
  | cancel token => exact .stays (d.stays_cancel token)
  | resume => exact .stays d.stays_resume
  | session n e =>
    unfold apply
    dsimp only
    split
    · exact .stays (.refl d)
    · next he => exact .stays (d.stays_onSession n fun s => s.lasts_apply he)
  | abandon u =>
    unfold apply abandon
    dsimp only
    split
    · exact .stays (.refl d)
    · split
      · exact .givenUp u rfl rfl
      · exact .givenUp u rfl rfl
      · exact .givenUp u rfl rfl
      · next n k _ =>
        exact .stays (d.stays_onSession n fun s => s.lasts_onLink [.act (.drop k)] rfl)
      · exact .stays (.refl d)
  | turn u =>
    cases hx : d.uses[u]? with
    | none =>
      have hidle : d.apply (.turn u) = d := by
        unfold apply runUse
        dsimp only
        rw [hx]
      rw [hidle]
      exact .stays (.refl d)
    | some x =>
      refine .turned u x rfl hx (turned_runUse hx h.books.size fun n hn => ?_)
      have hdial : d.Dialing u n := by
        rw [Dialing, stageOf?, hx]
        exact hn
      obtain ⟨_, _, hidle⟩ := h.books.dialing u n hdial
      obtain ⟨s, hs, _⟩ := Option.map_eq_some_iff.1 hidle
      obtain ⟨p, hp, hne⟩ := h.books.asks u n hdial
      refine ⟨h.books.size ▸ (List.getElem?_eq_some_iff.1 hs).1, ?_⟩
      rw [purposeOf?, hx] at hp
      rwa [Option.some.inj hp]

theorem Sound.apply (h : d.Sound) (e : Event) : (d.apply e).Sound := by
  cases h.changed e with
  | stays hs => exact h.stays hs
  | givenUp u _ hd =>
    rw [hd]
    exact h.finish u rfl rfl rfl
  | turned u x _ hx ht => exact ⟨ht.queue hx h, ht.books hx h⟩

theorem Sound.after (h : d.Sound) (events : List Event) : (d.after events).Sound := by
  induction events using List.reverseRecOn with
  | nil => exact h
  | append_singleton events e ih =>
    rw [after_concat]
    exact ih.apply e

theorem sound_ofPlan (plan : List Dial) (link : Link) : (ofPlan plan link).Sound where
  queue := ⟨.nil, fun u => by simp [ofPlan, Queued, stageOf?],
    fun u n hu => by simp [ofPlan, Dialing, stageOf?] at hu⟩
  books := by
    have hidle : ∀ n, (ofPlan plan link).idle? n ≠ some false := by
      intro n hn
      obtain ⟨s, hs, hreader⟩ := Option.map_eq_some_iff.1 hn
      obtain ⟨_, _, rfl⟩ := Option.map_eq_some_iff.1 ((List.getElem?_map ..).symm.trans hs)
      simp at hreader
    exact {
      size := List.length_map ..
      current := fun n hn => by simp [ofPlan] at hn
      dialing := fun u n hu => by simp [ofPlan, Dialing, stageOf?] at hu
      ahead := fun n _ => hidle n
      left := fun n hn => absurd hn (hidle n)
      handed := fun u n hu => by simp [ofPlan, HandedTo, stageOf?] at hu
      asks := fun u n hu => by simp [ofPlan, Dialing, stageOf?] at hu }

end NodeRpc.Duplex
