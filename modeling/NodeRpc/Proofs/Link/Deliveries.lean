import NodeRpc.Proofs.Link.Endings
import NodeRpc.Proofs.Link.OwnIds

/-!
# What goes into a buffer and what comes out

A poll takes out the first item of a buffer or leaves all buffers as they are (`poll_cases`). A
notification goes to the buffer of its target, is dropped, or waits (`Handed`); one that waits goes
in as soon as there is room (`run_blocked`).
-/

namespace NodeRpc

/-- Handles are given out in order. One that is not registered any more never is again, and one that
still is keeps the tag of its notifications. -/
structure Subscriptions.Onward (s s' : Subscriptions) : Prop where
  next : s.nextHandle ≤ s'.nextHandle
  kept : ∀ (h : Nat) (r' : Registration), h < s.nextHandle → s'.registrations.get? h = some r' →
    ∃ r, s.registrations.get? h = some r ∧ r.notification = r'.notification

namespace Subscriptions

theorem Onward.refl (s : Subscriptions) : s.Onward s := ⟨Nat.le_refl _, fun _ r _ h => ⟨r, h, rfl⟩⟩

theorem Onward.trans {s s' s'' : Subscriptions} (h : s.Onward s') (h' : s'.Onward s'') :
    s.Onward s'' where
  next := Nat.le_trans h.next h'.next
  kept i r'' hi hr'' := by
    obtain ⟨r', hr', htag'⟩ := h'.kept i r'' (Nat.lt_of_lt_of_le hi h.next) hr''
    obtain ⟨r, hr, htag⟩ := h.kept i r' hi hr'
    exact ⟨r, hr, htag.trans htag'⟩

theorem Onward.isOpen {s s' : Subscriptions} (h : s.Onward s') {i : Nat} (hi : i < s.nextHandle)
    (ho : s'.isOpen i = true) : s.isOpen i = true := by
  obtain ⟨r', hr'⟩ := Option.isSome_iff_exists.1 ho
  obtain ⟨r, hr, _⟩ := h.kept i r' hi hr'
  exact Option.isSome_iff_exists.2 ⟨r, hr⟩

theorem onward_close (s : Subscriptions) : s.Onward s.close :=
  ⟨Nat.le_refl _, fun _ _ _ hr => by simp [close, Table.get?] at hr⟩

theorem onward_confirm (s : Subscriptions) (handle : Nat) (id : SubscriptionId) :
    s.Onward (s.confirm handle id) := by
  refine ⟨Nat.le_of_eq (nextHandle_confirm _ _ _).symm, fun i r' _ hr' => ?_⟩
  unfold confirm at hr'
  split at hr'
  · next r hr =>
    rw [Table.get?_put] at hr'
    split at hr'
    · next he => exact ⟨r, he ▸ hr, by rw [← Option.some.inj hr']⟩
    · exact ⟨r', hr', rfl⟩
  · exact ⟨r', hr', rfl⟩

theorem Moved.onward {s s' : Subscriptions} (h : s.Moved s') : s.Onward s' := by
  cases h with
  | same => exact .refl s
  | registered names =>
    have hnext := nextHandle_register s names
    refine ⟨by omega, fun i r' hlt hr' => ⟨r', ?_, rfl⟩⟩
    unfold register at hr'
    split at hr'
    · exact hr'
    · rwa [Table.get?_put, if_neg (Nat.ne_of_gt hlt)] at hr'
  | released handle =>
    refine ⟨Nat.le_refl _, fun i r' _ hr' => ⟨r', ?_, rfl⟩⟩
    simp only [release, Table.get?_erase] at hr'
    split at hr'
    · simp at hr'
    · exact hr'

end Subscriptions

namespace Link

variable {l : Link}

theorem answer_onward (l : Link) (i : Nat) (o : Outcome) :
    l.subscriptions.Onward (l.answer i o).subscriptions := by
  rcases l.subscriptions_answer i o with hs | ⟨_, handle, _, id, _, _, _, hs⟩
  · rw [hs]
    exact .refl _
  · rw [hs]
    exact l.subscriptions.onward_confirm handle id

theorem answerAll_onward (as : List (Nat × Outcome)) (l : Link) :
    l.subscriptions.Onward (l.answerAll as).subscriptions := by
  induction as generalizing l with
  | nil => exact .refl _
  | cons a as ih => exact (l.answer_onward a.1 a.2).trans (ih _)

/-- No event gives a handle out again. -/
theorem onward_apply (l : Link) (e : Event) : l.subscriptions.Onward (l.apply e).subscriptions := by
  cases e with
  | route r => exact answerAll_onward _ l
  | routeBatch responses => exact answerAll_onward _ l
  | reject error => exact answerAll_onward _ l
  | closeSubscriptions => exact l.subscriptions.onward_close
  | _ => exact (l.moved_apply rfl (by simp)).onward

/-- What holds of a link where handles are released only as subscriptions end. -/
structure Sound (l : Link) : Prop where
  valid : l.Valid
  tied : l.Tied
  streamed : l.Streamed

theorem Sound.apply (hs : l.Sound) {e : Event} (he : ∀ h, e ≠ .release h) : (l.apply e).Sound :=
  ⟨valid_apply hs.valid e, tied_apply hs.tied e, streamed_apply hs.streamed hs.tied hs.valid he⟩

theorem sound_ofOptions (buffer : Nat) (policy : Backpressure) : (ofOptions buffer policy).Sound :=
  ⟨valid_ofOptions buffer policy, tied_ofOptions buffer policy, streamed_ofOptions buffer policy⟩

/-! ### Polls -/

theorem take_cases {handle : Nat} {s t : Stream} (hs : l.streams.get? handle = some s)
    (hbuffer : t.buffer = s.buffer) :
    (∀ value, (l.take handle t).1 ≠ .item value) ∧ l.Retains (l.take handle t).2 ∨
    ∃ (value : Json) (u : Stream), (l.take handle t).1 = .item value ∧
      l.bufferOf handle = value :: u.buffer ∧ (l.take handle t).2 = l.setStream handle u := by
  unfold take
  split
  · next value buffer hb =>
    exact .inr ⟨value, { t with buffer }, rfl, by simp [bufferOf, hs, ← hbuffer, hb], rfl⟩
  · split
    · exact .inl ⟨by simp, retains_setStream hs hbuffer⟩
    · exact .inl ⟨by simp, retains_setStream (t := { t with phase := .closed }) hs hbuffer⟩

/-- A poll takes the first item out of the buffer of its stream, or leaves all buffers alone. -/
theorem poll_cases (l : Link) (handle : Nat) :
    (∀ value, (l.poll handle).1 ≠ .item value) ∧ l.Retains (l.poll handle).2 ∨
    ∃ (value : Json) (s : Stream), (l.poll handle).1 = .item value ∧
      l.bufferOf handle = value :: s.buffer ∧ (l.poll handle).2 = l.setStream handle s := by
  unfold poll
  split
  · exact .inl ⟨by simp, .refl l⟩
  · next s hs =>
    split
    · exact .inl ⟨by simp, .refl l⟩
    · split
      · exact .inl ⟨by simp, l.closeStream_retains handle true⟩
      · split
        · exact .inl ⟨by simp, retains_setStream
            (t := { s with phase := .closed, receiving := false }) hs rfl⟩
        · split
          · exact .inl ⟨by simp, .refl l⟩
          · exact .inl ⟨by simp, retains_setStream (t := { s with phase := .closed }) hs rfl⟩
          · next id _ _ => exact take_cases (t := { s with phase := .active id }) hs rfl
          · exact take_cases hs rfl

/-! ### Deliveries -/

theorem deliveries_setDelivery (l : Link) (d : Nat) (stage : DeliveryStage) (i : Nat) :
    (l.setDelivery d stage).deliveries[i]? =
      if d = i then (l.deliveries[i]?).map fun x => { x with stage } else l.deliveries[i]? := by
  unfold setDelivery
  dsimp only
  rw [List.getElem?_modify]
  split <;> simp

theorem bufferOf_enqueue {handle : Nat} {s : Stream} (hs : l.streams.get? handle = some s)
    (value : Json) (h : Nat) :
    (l.enqueue handle value).bufferOf h =
      if handle = h then l.bufferOf h ++ [value] else l.bufferOf h := by
  refine (l.bufferOf_update handle _ h).trans ?_
  split
  · next he =>
    subst he
    simp [bufferOf, hs]
  · rfl

theorem hasRoom_iff {handle : Nat} {s : Stream} (hs : l.streams.get? handle = some s)
    (ahead : Nat) :
    l.hasRoom handle ahead = true ↔ (l.bufferOf handle).length + ahead < l.capacity := by
  simp [hasRoom, bufferOf, hs]

/-- What becomes of a notification that is dispatched while nothing waits: the streams afterwards,
and how far its delivery has come. -/
inductive Handed (l : Link) (n : Notification) (streams : Table Nat Stream) :
    DeliveryStage → Prop where
  /-- It has no target. -/
  | astray (ht : l.subscriptions.target? n = none) (hs : streams = l.streams) :
      Handed l n streams .done
  | taken {h : Nat} (ht : l.subscriptions.target? n = some h)
      (hroom : (l.bufferOf h).length < l.capacity)
      (hs : streams = (l.enqueue h n.result).streams) : Handed l n streams .done
  | waits {h : Nat} (ht : l.subscriptions.target? n = some h)
      (hfull : (l.bufferOf h).length = l.capacity) (hp : l.policy = .pauseReads)
      (hs : streams = l.streams) : Handed l n streams (.blocked h)
  | dropped {h : Nat} (ht : l.subscriptions.target? n = some h)
      (hfull : (l.bufferOf h).length = l.capacity) (hp : l.policy = .dropNewest)
      (hs : streams = l.streams) : Handed l n streams .done

theorem handOver_handed (hs : l.Streamed) (hidle : ∀ h, blockedOn l.deliveries h = 0)
    (n : Notification) : ∃ (streams : Table Nat Stream) (stage : DeliveryStage),
      Handed l n streams stage ∧
      l.handOver n = { l with streams, deliveries := l.deliveries ++ [⟨n, stage⟩] } := by
  have hset : ∀ (l' : Link) stage, l'.deliveries = l.deliveries ++ [{ notification := n }] →
      l'.setDelivery l.deliveries.length stage =
        { l' with deliveries := l.deliveries ++ [⟨n, stage⟩] } := by
    intro l' stage hd
    simp [setDelivery, hd, List.modify_eq_take_drop]
  rw [handOver_eq]
  cases ht : l.subscriptions.target? n with
  | none => exact ⟨l.streams, .done, .astray ht rfl, hset _ _ rfl⟩
  | some h =>
    obtain ⟨s, hget, hrec⟩ := hs.receiving h (Subscriptions.target?_isOpen ht)
    have hreceiving : (l.dispatch n).isReceiving h = true := by
      simp [isReceiving, dispatch, hget, hrec]
    have hroom := hasRoom_iff (l := l.dispatch n) hget 0
    dsimp only
    unfold deliver
    rw [hreceiving, hidle h]
    simp only [Bool.not_true, Bool.false_eq_true, if_false]
    split
    · next hr => exact ⟨_, .done, .taken ht (hroom.1 hr) rfl, hset _ _ rfl⟩
    · next hr =>
      have hfull : (l.bufferOf h).length = l.capacity :=
        Nat.le_antisymm (hs.bounded h) (Nat.not_lt.1 fun hlt => hr (hroom.2 hlt))
      split
      · next hp => exact ⟨l.streams, .blocked h, .waits ht hfull hp rfl, hset _ _ rfl⟩
      · next hp => exact ⟨l.streams, .done, .dropped ht hfull hp rfl, hset _ _ rfl⟩

/-- A turn of a delivery that waits, when nothing waits before it. -/
theorem run_blocked {d h : Nat} {n : Notification}
    (hd : l.deliveries[d]? = some ⟨n, .blocked h⟩)
    (hfirst : blockedOn (l.deliveries.take d) h = 0) :
    l.run (.delivery d) =
      if l.isReceiving h = false then l.setDelivery d .done
      else if l.hasRoom h 0 = true then (l.enqueue h n.result).setDelivery d .done
      else l := by
  unfold run canRun runDelivery deliver
  simp only [hd, hfirst]
  cases l.isReceiving h <;> cases l.hasRoom h 0 <;> simp

end Link

end NodeRpc
