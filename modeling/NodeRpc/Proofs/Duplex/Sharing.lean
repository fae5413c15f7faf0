import NodeRpc.Proofs.Duplex.Books

/-!
# One session for all uses

Connections are made one at a time and only where no session is in use that has not ended, so all
uses between two connections share one session. A connection that is not made is the loss of the use
that began it and of no other one; the next one in the queue begins its own. What has ended is
handed to nobody.
-/

namespace NodeRpc.Duplex

variable {d d' : Duplex} {u v n m : Nat} {x : Use}

/-! ### What a turn hands out -/

/-- Only the use that has its turn gets a session by it. -/
theorem handedTo_setStage {st : UseStage} (huses : d'.uses = d.uses)
    (h : (d'.setStage u st).HandedTo v n) : d.HandedTo v n ∨ v = u ∧ st.session? = some n := by
  rw [HandedTo, stageOf?_setStage, stageOf?_congr huses] at h
  split at h
  · next hvu =>
    cases hu : d.stageOf? u with
    | none => simp [hu] at h
    | some _ => exact .inr ⟨hvu, by simpa [hu] using h⟩
  · exact .inl h

/-- A session that a turn hands out is the one connected last, and has not ended before. -/
theorem Turned.hands (ht : Turned d u x d') (hx : d.uses[u]? = some x) (h : d.Sound)
    (hv : d'.HandedTo v n) : d.HandedTo v n ∨ n + 1 = d'.dials ∧ ¬d.HasEnded n := by
  have hnot : ∀ {n}, d.idle? n ≠ some false → ¬d.HasEnded n := by
    rintro n hidle ⟨s, hs, hreader, _⟩
    exact hidle (by simp [idle?, hs, hreader])
  have hnone : ∀ {st : UseStage} {p : Prop}, st.session? = none →
      d.HandedTo v n ∨ v = u ∧ st.session? = some n → d.HandedTo v n ∨ p := by
    rintro st p hst (hold | ⟨_, hnew⟩)
    · exact .inl hold
    · simp [hst] at hnew
  have hgiven : ∀ {st : UseStage} {m : Nat}, st.session? = some m →
      d.HandedTo v n ∨ v = u ∧ st.session? = some n → d.HandedTo v n ∨ n = m := by
    rintro st m hst (hold | ⟨_, hnew⟩)
    · exact .inl hold
    · exact .inr (Option.some.inj (hnew.symm.trans hst))
  cases ht with
  | idle => exact .inl hv
  | queues _ _ => exact hnone rfl (handedTo_setStage rfl hv)
  | fails _ => exact hnone rfl (handedTo_setStage rfl hv)
  | closes _ =>
    refine hnone rfl (handedTo_setStage ?_ hv)
    exact (letGo_frame _).2.2.2.1.trans (uses_closeCurrent _)
  | shares _ hlive hst _ =>
    obtain ⟨hcurrent, hopen⟩ := live?_eq_some hlive
    refine (hgiven hst (handedTo_setStage rfl hv)).imp id ?_
    rintro rfl
    exact ⟨(h.books.current _ hcurrent).1, hopen⟩
  | @awaits l _ _ _ _ =>
    exact hnone (show UseStage.session? (.dialing d.dials false) = none from rfl)
      (handedTo_setStage (uses_begin { d with lock := l }) hv)
  | @refused l _ _ =>
    exact hnone (show UseStage.session? (.failed refusal) = none from rfl)
      (handedTo_setStage (uses_begin { d with lock := l }) hv)
  | @connects l _ _ _ _ _ hst _ =>
    refine (hgiven hst (handedTo_setStage (uses_begin { d with lock := l }) hv)).imp id ?_
    rintro rfl
    exact ⟨rfl, hnot (h.books.ahead _ (Nat.le_refl _))⟩
  | @arrives m st f hn hst _ =>
    refine (hgiven hst (handedTo_setStage rfl hv)).imp id ?_
    rintro rfl
    obtain ⟨hdials, _, hidle⟩ := h.books.dialing u n (by rw [Dialing, stageOf?, hx]; exact hn)
    exact ⟨hdials, hnot (by simp [hidle])⟩

/-- Where a turn begins a connection, none is being made and no session is in use that has not
ended. -/
theorem Turned.dials (ht : Turned d u x d') (hx : d.uses[u]? = some x) (h : d.Sound) :
    d'.dials = d.dials ∨
      d'.dials = d.dials + 1 ∧ d.live? = none ∧ ∀ v n, ¬d.Dialing v n := by
  cases ht with
  | closes _ => exact .inl ((letGo_frame _).2.1.trans (stays_closeCurrent _).dials)
  | awaits hl hlive _ _ => exact .inr ⟨rfl, hlive, (h.queue.takes hx hl).2⟩
  | refused hl hlive => exact .inr ⟨rfl, hlive, (h.queue.takes hx hl).2⟩
  | connects hl hlive _ _ _ => exact .inr ⟨rfl, hlive, (h.queue.takes hx hl).2⟩
  | _ => exact .inl rfl

/-- What has been connected and is over stays so. -/
theorem Turned.keeps (ht : Turned d u x d') (hidle : d.idle? n = some false)
    (hover : d.over? n = some true) : d'.idle? n = some false ∧ d'.over? n = some true := by
  have hsession : ∀ {d'' : Duplex} {m : Nat} {f : Session → Session}, d''.idle? n = some false →
      d''.over? n = some true → (∀ s, Session.Lasts s (f s)) →
      (d''.onSession m f).idle? n = some false ∧ (d''.onSession m f).over? n = some true := by
    intro d'' m f hidle hover hf
    have hs := d''.stays_onSession m hf
    exact ⟨(hs.idle n).trans hidle, hs.staysOver n hover⟩
  have hbegin : ∀ l, ({ d with lock := l } : Duplex).begin.idle? n = some false ∧
      ({ d with lock := l } : Duplex).begin.over? n = some true := fun l =>
    ⟨(idle?_begin _ n).trans hidle, (over?_letGo _ n).trans hover⟩
  have hconnect : ∀ {d'' : Duplex} {m : Nat}, d''.idle? n = some false →
      d''.over? n = some true →
      (d''.connect m).idle? n = some false ∧ (d''.connect m).over? n = some true := by
    intro d'' m hidle hover
    refine ⟨?_, (over?_connect d'' m n).trans hover⟩
    rw [idle?_connect]
    split
    · next hnm => rw [← hnm, hidle, Option.map_some]
    · exact hidle
  cases ht with
  | @closes l _ =>
    have hs := stays_closeCurrent { d with lock := l }
    exact ⟨(idle?_letGo _ n).trans ((hs.idle n).trans hidle),
      (over?_letGo _ n).trans (hs.staysOver n hover)⟩
  | shares _ _ _ hf => exact hsession hidle hover hf
  | awaits _ _ _ _ => exact hbegin _
  | refused _ _ => exact hbegin _
  | @connects l _ _ _ _ _ _ hf =>
    obtain ⟨hidle', hover'⟩ := hconnect (hbegin l).1 (hbegin l).2
    exact hsession hidle' hover' hf
  | arrives _ _ hf =>
    obtain ⟨hidle', hover'⟩ := hconnect hidle hover
    exact hsession hidle' hover' hf
  | _ => exact ⟨hidle, hover⟩

theorem Books.hasEnded_iff (h : d.Books) :
    d.HasEnded n ↔ d.idle? n = some false ∧ d.over? n = some true := by
  constructor
  · rintro ⟨s, hs, hreader, hclosed⟩
    have hidle : d.idle? n = some false := by simp [idle?, hs, hreader]
    refine ⟨hidle, (h.left n hidle).elim (fun hcurrent => ?_) id⟩
    have howned : s.owned = true := by simpa [owned?, hs] using (h.current n hcurrent).2.2
    simp [over?, hs, Session.isOver_of_isClosed howned hclosed]
  · rintro ⟨hidle, hover⟩
    obtain ⟨s, hs, hreader⟩ := Option.map_eq_some_iff.1 hidle
    exact ⟨s, hs, of_decide_eq_false hreader,
      Session.isClosed_of_isOver (by simpa [over?, hs] using hover)⟩

/-! ### What an event hands out -/

theorem Sound.hands (h : d.Sound) {e : Event} (hv : (d.apply e).HandedTo v n) :
    d.HandedTo v n ∨ n + 1 = (d.apply e).dials ∧ ¬d.HasEnded n := by
  cases h.changed e with
  | stays hs => exact .inl ((hs.handed v n).1 hv)
  | givenUp u _ hd =>
    rw [hd] at hv
    rcases handedTo_setStage rfl hv with hold | ⟨_, hnew⟩
    · exact .inl hold
    · simp [UseStage.session?] at hnew
  | turned u x _ hx ht => exact ht.hands hx h hv

theorem Sound.ended_apply (h : d.Sound) (e : Event) (hn : d.HasEnded n) :
    (d.apply e).HasEnded n := by
  obtain ⟨hidle, hover⟩ := h.books.hasEnded_iff.1 hn
  rw [(h.apply e).books.hasEnded_iff]
  cases h.changed e with
  | stays hs => exact ⟨(hs.idle n).trans hidle, hs.staysOver n hover⟩
  | givenUp u _ hd =>
    rw [hd]
    exact ⟨hidle, hover⟩
  | turned u x _ _ ht => exact ht.keeps hidle hover

/-- A session that has ended is handed to nobody any more. -/
theorem Sound.ended_after (h : d.Sound) (hn : d.HasEnded n) (more : List Event)
    (hv : (d.after more).HandedTo v n) : d.HandedTo v n := by
  have hended : ∀ more : List Event, (d.after more).HasEnded n := by
    intro more
    induction more using List.reverseRecOn with
    | nil => exact hn
    | append_singleton more e ih =>
      rw [after_concat]
      exact (h.after more).ended_apply e ih
  induction more using List.reverseRecOn with
  | nil => exact hv
  | append_singleton more e ih =>
    rw [after_concat] at hv
    rcases (h.after more).hands hv with hold | ⟨_, hopen⟩
    · exact ih hold
    · exact absurd (hended more) hopen

/-- Where an event begins a connection, all sessions handed out have ended. -/
theorem Sound.begins (h : d.Sound) {e : Event} (he : (d.apply e).dials ≠ d.dials) :
    (∃ u, e = .turn u) ∧ (d.apply e).dials = d.dials + 1 ∧ (∀ u n, ¬d.Dialing u n) ∧
      (∀ n, d.current = some n → d.HasEnded n) ∧ ∀ u n, d.HandedTo u n → d.HasEnded n := by
  cases h.changed e with
  | stays hs => exact absurd hs.dials he
  | givenUp u _ hd => exact absurd (by rw [hd]; rfl) he
  | turned u x hturn hx ht =>
    obtain hsame | ⟨hmore, hlive, hnone⟩ := ht.dials hx h
    · exact absurd hsame he
    · refine ⟨⟨u, hturn⟩, hmore, hnone, fun n hn => (h.books.ended_of_live? hlive hn).1,
        fun v n hv => ?_⟩
      have hidle := h.books.handed v n hv
      rcases h.books.left n hidle with hcurrent | hover
      · exact (h.books.ended_of_live? hlive hcurrent).1
      · exact h.books.hasEnded_iff.2 ⟨hidle, hover⟩

/-! ### Connections that are not made -/

/-- The connection that use `u` was waiting for, or begins in its turn, comes to an end by an event
without a session for the use. -/
def LosesDial (d : Duplex) (e : Event) (u : Nat) : Prop :=
  ((∃ n, d.Dialing u n) ∨ e = .turn u ∧ (d.apply e).dials ≠ d.dials) ∧
    ∀ n, ¬(d.apply e).Dialing u n ∧ ¬(d.apply e).HandedTo u n

/-- No session is in use, and no connection is being made. -/
structure Vacant (d : Duplex) : Prop where
  current : d.current = none
  dialing : ∀ u n, ¬d.Dialing u n

theorem uses_setStage (st : UseStage) (huses : d'.uses = d.uses) (hv : v ≠ u) :
    (d'.setStage u st).uses[v]? = d.uses[v]? := by
  have hne : ¬u = v := fun he => hv he.symm
  unfold setStage
  rw [huses, List.getElem?_modify]
  cases d.uses[v]? <;> simp [hne]

/-- A turn of a use makes no difference to the other ones. -/
theorem Turned.others (ht : Turned d u x d') (hv : v ≠ u) : d'.uses[v]? = d.uses[v]? := by
  cases ht with
  | idle => rfl
  | closes _ => exact uses_setStage _ ((letGo_frame _).2.2.2.1.trans (uses_closeCurrent _)) hv
  | @awaits l _ _ _ _ => exact uses_setStage _ (uses_begin { d with lock := l }) hv
  | @refused l _ _ => exact uses_setStage _ (uses_begin { d with lock := l }) hv
  | @connects l _ _ _ _ _ _ _ => exact uses_setStage _ (uses_begin { d with lock := l }) hv
  | _ => exact uses_setStage _ rfl hv

theorem dialing_of_uses (h : d'.uses[v]? = d.uses[v]?) : d'.Dialing v n ↔ d.Dialing v n := by
  rw [Dialing, Dialing, stageOf?, stageOf?, h]

/-- Whoever loses its connection in its turn has failed, and no session is in use. -/
theorem Turned.loses (ht : Turned d u x d') (hx : d.uses[u]? = some x) (h : d.Sound)
    (hdial : (∃ n, d.Dialing u n) ∨ d'.dials ≠ d.dials)
    (hlost : ∀ n, ¬d'.Dialing u n ∧ ¬d'.HandedTo u n) :
    (d'.stageOf? u = some (.failed .cancelled) ∨ d'.stageOf? u = some (.failed refusal)) ∧
      d'.current = none := by
  have hof : ∀ (d'' : Duplex) (st : UseStage), d''.uses = d.uses →
      (d''.setStage u st).stageOf? u = some st := by
    intro d'' st huses
    rw [stageOf?_setStage, if_pos rfl, stageOf?, huses, hx]
    rfl
  have hhanded : ∀ {d'' : Duplex} {st : UseStage} {n m : Nat} {f : Session → Session},
      d''.uses = d.uses → st.session? = some n →
      ((d''.finish u st).onSession m f).HandedTo u n := by
    intro d'' st n m f huses hst
    show (((d''.unlock u).setStage u st).stageOf? u).bind _ = _
    rw [hof (d''.unlock u) st huses]
    exact hst
  have hbusy : ∀ {l}, d.Takes u x l → ¬∃ n, d.Dialing u n := by
    rintro l hl ⟨n, hn⟩
    exact (h.queue.takes hx hl).2 u n hn
  cases ht with
  | idle =>
    rcases hdial with ⟨n, hn⟩ | hne
    · exact absurd hn (hlost n).1
    · exact absurd rfl hne
  | queues hfresh _ =>
    rcases hdial with ⟨n, hn⟩ | hne
    · simp [Dialing, stageOf?, hx, hfresh, UseStage.dialing?] at hn
    · exact absurd rfl hne
  | @fails cause hcause =>
    obtain ⟨n, hn⟩ := hdial.resolve_right fun hne => hne rfl
    refine ⟨?_, (h.books.dialing u n hn).2.1⟩
    have hstage := hof (d.unlock u) (.failed cause) rfl
    rcases hcause with rfl | rfl
    · exact .inl hstage
    · exact .inr hstage
  | @closes l hl =>
    refine absurd hdial (not_or.2 ⟨hbusy hl, fun hne => hne ?_⟩)
    exact (letGo_frame _).2.1.trans (stays_closeCurrent { d with lock := l }).dials
  | shares _ _ hst _ => exact ((hlost _).2 (hhanded rfl hst)).elim
  | @awaits l _ _ _ _ =>
    have hstage := hof _ (.dialing d.dials false) (uses_begin { d with lock := l })
    exact absurd (by rw [Dialing, hstage]; rfl) (hlost d.dials).1
  | @refused l _ _ =>
    exact ⟨.inr (hof (({ d with lock := l } : Duplex).begin.unlock u) _ (uses_begin _)),
      current_begin { d with lock := l }⟩
  | @connects l st f _ _ _ hst _ =>
    exact ((hlost _).2 (hhanded (uses_begin { d with lock := l }) hst)).elim
  | arrives _ hst _ => exact ((hlost _).2 (hhanded rfl hst)).elim

/-- A connection that is not made fails only the use that began it. -/
theorem Sound.loses (h : d.Sound) {e : Event} (hl : d.LosesDial e u) :
    (d.apply e).stageOf? u ∈
        [some (.failed .cancelled), some (.failed refusal), some .abandoned] ∧
      (∀ v, v ≠ u → (d.apply e).uses[v]? = d.uses[v]?) ∧ (d.apply e).Vacant := by
  obtain ⟨hdial, hlost⟩ := hl
  have hvacant : (∀ v, v ≠ u → (d.apply e).uses[v]? = d.uses[v]?) → (d.apply e).current = none →
      (d.apply e).Vacant := by
    refine fun hothers hcurrent => ⟨hcurrent, fun v n hv => ?_⟩
    by_cases hvu : v = u
    · exact (hlost n).1 (hvu ▸ hv)
    · have hv' := (dialing_of_uses (hothers v hvu)).1 hv
      rcases hdial with ⟨m, hm⟩ | ⟨_, hne⟩
      · exact hvu (h.queue.alone hv' hm)
      · exact (h.begins hne).2.2.1 v n hv'
  cases h.changed e with
  | stays hs =>
    rcases hdial with ⟨n, hn⟩ | ⟨_, hne⟩
    · exact absurd ((hs.dialing u n).2 hn) (hlost n).1
    · exact absurd hs.dials hne
  | givenUp w he hd =>
    rcases hdial with ⟨n, hn⟩ | ⟨hturn, _⟩
    · have hothers : ∀ v, v ≠ w → (d.apply e).uses[v]? = d.uses[v]? := fun v hv => by
        rw [hd]
        exact uses_setStage _ rfl hv
      obtain rfl : u = w := by
        by_contra hne
        exact (hlost n).1 ((dialing_of_uses (hothers u hne)).2 hn)
      obtain ⟨st, hst, _⟩ := Option.bind_eq_some_iff.1 hn
      have hstage : (d.apply e).stageOf? u = some .abandoned := by
        rw [hd, stageOf?_finish, if_pos rfl, hst, Option.map_some]
      exact ⟨by simp [hstage], hothers,
        hvacant hothers (by rw [hd]; exact (h.books.dialing u n hn).2.1)⟩
    · simp [he] at hturn
  | turned w x he hx ht =>
    obtain rfl : u = w := by
      rcases hdial with ⟨n, hn⟩ | ⟨hturn, _⟩
      · by_contra hne
        exact (hlost n).1 ((dialing_of_uses (ht.others hne)).2 hn)
      · exact Event.turn.inj (hturn.symm.trans he)
    obtain ⟨hstage, hcurrent⟩ := ht.loses hx h (hdial.imp id (·.2)) hlost
    refine ⟨?_, fun v hv => ht.others hv, hvacant (fun v hv => ht.others hv) hcurrent⟩
    rcases hstage with hstage | hstage <;> simp [hstage]

/-! ### Who is next -/

theorem Sound.dials_le (h : d.Sound) (e : Event) : d.dials ≤ (d.apply e).dials := by
  by_cases he : (d.apply e).dials = d.dials
  · exact Nat.le_of_eq he.symm
  · rw [(h.begins he).2.1]
    exact Nat.le_succ _

theorem Vacant.apply (hv : d.Vacant) (h : d.Sound) {e : Event}
    (he : (d.apply e).dials = d.dials) : (d.apply e).Vacant := by
  have hstage : ∀ {d'' : Duplex} {w : Nat} {st : UseStage}, d''.uses = d.uses →
      st.dialing? = none → ∀ v n, ¬(d''.setStage w st).Dialing v n := by
    intro d'' w st huses hst v n hd
    rw [Dialing, stageOf?_setStage, stageOf?_congr huses] at hd
    split at hd
    · cases hw : d.stageOf? w <;> simp [hw, hst] at hd
    · exact hv.dialing v n hd
  have hlive : ∀ n, d.live? ≠ some n := fun n hn => by
    have hcurrent := (live?_eq_some hn).1
    simp [hv.current] at hcurrent
  cases h.changed e with
  | stays hs =>
    exact ⟨hs.current.trans hv.current, fun v n hd => hv.dialing v n ((hs.dialing v n).1 hd)⟩
  | givenUp w _ hd =>
    rw [hd]
    exact ⟨hv.current, hstage rfl rfl⟩
  | turned w x _ hx ht =>
    generalize d.apply e = d' at he ht ⊢
    cases ht with
    | idle => exact hv
    | queues _ _ => exact ⟨hv.current, hstage rfl rfl⟩
    | fails _ => exact ⟨hv.current, hstage rfl rfl⟩
    | closes _ =>
      exact ⟨(letGo_frame _).2.2.2.2.1,
        hstage ((letGo_frame _).2.2.2.1.trans (uses_closeCurrent _)) rfl⟩
    | shares _ hl _ _ => exact absurd hl (hlive _)
    | awaits _ _ _ _ => exact absurd he (Nat.succ_ne_self _)
    | refused _ _ => exact absurd he (Nat.succ_ne_self _)
    | connects _ _ _ _ _ => exact absurd he (Nat.succ_ne_self _)
    | @arrives n _ _ hn _ _ =>
      exact absurd (by rw [Dialing, stageOf?, hx]; exact hn) (hv.dialing w n)

/-- No session comes to be in use without a new connection. -/
theorem Vacant.after (hv : d.Vacant) (h : d.Sound) {more : List Event}
    (hmore : (d.after more).dials = d.dials) : (d.after more).Vacant := by
  have hle : ∀ more : List Event, d.dials ≤ (d.after more).dials := by
    intro more
    induction more using List.reverseRecOn with
    | nil => exact Nat.le_refl _
    | append_singleton more e ih =>
      rw [after_concat]
      exact Nat.le_trans ih ((h.after more).dials_le e)
  induction more using List.reverseRecOn with
  | nil => exact hv
  | append_singleton more e ih =>
    rw [after_concat] at hmore ⊢
    have hstep := (h.after more).dials_le e
    have hbefore := hle more
    exact (ih (by omega)).apply (h.after more) (by omega)

theorem dials_enter (d : Duplex) (u n : Nat) (x : Use) : (d.enter u n x).dials = d.dials := by
  unfold enter
  split
  · rfl
  · cases x.purpose <;> rfl

theorem dials_dial (d : Duplex) (u : Nat) (x : Use) : (d.letGo.dial u x).dials = d.dials + 1 := by
  rw [dial_letGo]
  split
  · exact dials_enter _ _ _ _
  · rfl
  · rfl
  · rfl

/-- Where no session is in use and no connection is being made, the first in the queue can run, and
begins a connection if it still wants one. -/
theorem Vacant.next (hv : d.Vacant) (h : d.Sound) (hhead : d.lock.head? = some v) :
    d.canUse v = true ∧ ∀ x, d.uses[v]? = some x → d.isCancelled x.token = false →
      x.purpose ≠ .close → (d.apply (.turn v)).dials = d.dials + 1 := by
  obtain ⟨st, hst, hqueued⟩ : ∃ st, d.stageOf? v = some st ∧ st.isQueued = true := by
    have hq := (h.queue.mem v).1 (List.mem_of_head? hhead)
    rwa [Queued, Option.any_eq_true] at hq
  obtain ⟨x, hx, hstage⟩ := Option.map_eq_some_iff.1 hst
  have hwaits : x.stage = .queued := by
    cases hs : x.stage with
    | queued => rfl
    | dialing n ready =>
      exact absurd (by rw [Dialing, stageOf?, hx, Option.map_some, hs]; rfl) (hv.dialing v n)
    | _ => simp [← hstage, hs, UseStage.isQueued] at hqueued
  refine ⟨by simp [canUse, hx, hwaits, hhead], fun y hy hnot hp => ?_⟩
  obtain rfl := Option.some.inj (hx.symm.trans hy)
  have hlive : d.live? = none := by rw [live?, hv.current]
  have hturn : d.apply (.turn v) = d.letGo.dial v x := by
    unfold Duplex.apply runUse proceed
    dsimp only
    rw [hx]
    dsimp only
    rw [hwaits]
    dsimp only
    rw [hnot, if_neg (by simp), if_pos hhead]
    split
    · next hclose => exact absurd hclose hp
    · rw [hlive]
  rw [hturn]
  exact dials_dial d v x

/-! ### Sharing -/

/-- How the uses of a shared connection share its sessions. -/
structure Shares (d : Duplex) : Prop where
  /-- At most one connection is being made. -/
  alone : ∀ u v m n, d.Dialing u m → d.Dialing v n → u = v ∧ m = n
  /-- In the queue is exactly who holds the lock or waits for it. -/
  line : ∀ u, u ∈ d.lock ↔ d.Queued u
  /-- One is begun only by the turn of a use, where none is being made and no session is in use that
  has not ended; all sessions handed out until then have ended. -/
  begins : ∀ e, (d.apply e).dials ≠ d.dials →
    (∃ u, e = .turn u) ∧ (d.apply e).dials = d.dials + 1 ∧ (∀ u n, ¬d.Dialing u n) ∧
      (∀ n, d.current = some n → d.HasEnded n) ∧ ∀ u n, d.HandedTo u n → d.HasEnded n
  /-- What a use gets is the session connected last. -/
  shared : ∀ e u n, (d.apply e).HandedTo u n → ¬d.HandedTo u n → n + 1 = (d.apply e).dials
  /-- A connection that is not made fails the use that began it, changes no other use, and leaves no
  session in use. -/
  loses : ∀ e u, d.LosesDial e u →
    (d.apply e).stageOf? u ∈
        [some (.failed .cancelled), some (.failed refusal), some .abandoned] ∧
      (∀ v, v ≠ u → (d.apply e).uses[v]? = d.uses[v]?) ∧ (d.apply e).Vacant
  /-- None comes to be in use until somebody begins a connection of its own; the first in the queue
  can, and does in its turn unless it has been cancelled or only wants to close. -/
  next : ∀ e u, d.LosesDial e u → ∀ more : List Event,
    let later := (d.apply e).after more
    later.dials = (d.apply e).dials → later.Vacant ∧ ∀ v, later.lock.head? = some v →
      later.canUse v = true ∧ ∀ x, later.uses[v]? = some x → later.isCancelled x.token = false →
        x.purpose ≠ .close → (later.apply (.turn v)).dials = later.dials + 1
  /-- A session that has ended is handed to no use that does not have it. -/
  forGood : ∀ n, d.HasEnded n → ∀ (more : List Event) (u : Nat),
    (d.after more).HandedTo u n → d.HandedTo u n

/-- Whatever happens to a shared connection and its sessions, its uses share them so. -/
theorem shares_one_session (plan : List Dial) (link : Link) (events : List Event) :
    Shares ((ofPlan plan link).after events) := by
  have h : ((ofPlan plan link).after events).Sound := (sound_ofPlan plan link).after events
  generalize (ofPlan plan link).after events = d at h
  exact {
    alone := fun u v m n hu hv => by
      have hm := (h.books.dialing u m hu).1
      have hn := (h.books.dialing v n hv).1
      exact ⟨h.queue.alone hu hv, by omega⟩
    line := h.queue.mem
    begins := fun e he => h.begins he
    shared := fun e u n hnew hold => ((h.hands hnew).resolve_left hold).1
    loses := fun e u hl => h.loses hl
    next := fun e u hl more hmore => by
      have hlater := ((h.loses hl).2.2).after (h.apply e) hmore
      exact ⟨hlater, fun v hhead => hlater.next ((h.apply e).after more) hhead⟩
    forGood := fun n hn more u hu => h.ended_after hn more hu }

/-- The first caller is cancelled while it waits for a connection that stalls, and a second one has
queued behind it. -/
def stalledForTwo : List Event :=
  [.make (.call ⟨"getSlot", .arr []⟩) (.caller 0), .make (.call ⟨"getSlot", .arr []⟩) (.caller 1),
    .turn 0, .turn 1, .cancel (.caller 0)]

/-- The first caller fails in its next turn. The second one, which is then the first in the queue,
begins a connection of its own. -/
theorem second_begins_its_own :
    let d := (ofPlan [.stalls, .connects] (Link.ofOptions 1 .pauseReads)).after stalledForTwo
    d.LosesDial (.turn 0) 0 ∧ (d.apply (.turn 0)).lock = [1] ∧ (d.apply (.turn 0)).Vacant ∧
      ((d.apply (.turn 0)).apply (.turn 1)).dials = 2 := by
  intro d
  have hstage : (d.apply (.turn 0)).stageOf? 0 = some (.failed .cancelled) := by decide
  have hloses : d.LosesDial (.turn 0) 0 := by
    refine ⟨.inl ⟨0, show (d.stageOf? 0).bind UseStage.dialing? = some 0 by decide⟩, fun n => ?_⟩
    simp [Dialing, HandedTo, hstage, UseStage.dialing?, UseStage.session?]
  have hlock : (d.apply (.turn 0)).lock = [1] := by decide
  have hshares := shares_one_session [.stalls, .connects] (Link.ofOptions 1 .pauseReads)
    stalledForTwo
  obtain ⟨hvacant, hnext⟩ := hshares.next (.turn 0) 0 hloses [] rfl
  have hbegins := (hnext 1 (congrArg List.head? hlock)).2
    ⟨.call ⟨"getSlot", .arr []⟩, .caller 1, .queued⟩ (by decide) (by decide) (by simp)
  exact ⟨hloses, hlock, hvacant, hbegins⟩

end NodeRpc.Duplex
