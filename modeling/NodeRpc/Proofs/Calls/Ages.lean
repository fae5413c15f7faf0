import NodeRpc.Proofs.Calls.Batches
import NodeRpc.Proofs.Calls.Writes

/-!
# Calls as they age

What every event but the making of an exchange keeps: no exchange is added or starts anew, one that
is over stays so, and nothing enters the table of pending calls but by a first turn. `Ages` is that
relation, for developments in which a step does more than one thing to the calls.
-/

namespace NodeRpc.Calls

/-- What calls keep when no exchange is made. -/
structure Ages (c c' : Calls) : Prop where
  valid : c'.Valid
  length : c'.exchanges.length = c.exchanges.length
  exchange : ∀ (k : Nat) (x' : Exchange), c'.exchanges[k]? = some x' →
    ∃ x : Exchange, c.exchanges[k]? = some x ∧ x'.calls = x.calls ∧
      (x'.stage = .fresh → x.stage = .fresh) ∧ (x'.isLive = true → x.isLive = true)
  pending : ∀ (i : Nat) (entry : Entry), c'.pending.get? i = some entry →
    c.pending.get? i = some entry ∨
      ∃ x : Exchange, c.exchanges[entry.exchange]? = some x ∧ x.stage = .fresh
  cancelled : ∀ t, c.isCancelled t = true → c'.isCancelled t = true

theorem Ages.refl {c : Calls} (hv : c.Valid) : c.Ages c :=
  ⟨hv, rfl, fun _ x' h => ⟨x', h, rfl, id, id⟩, fun _ _ h => .inl h, fun _ h => h⟩

theorem Ages.trans {c c' c'' : Calls} (h : c.Ages c') (h' : c'.Ages c'') : c.Ages c'' where
  valid := h'.valid
  length := h'.length.trans h.length
  exchange k x'' hx'' := by
    obtain ⟨x', hx', hcalls', hfresh', hlive'⟩ := h'.exchange k x'' hx''
    obtain ⟨x, hx, hcalls, hfresh, hlive⟩ := h.exchange k x' hx'
    exact ⟨x, hx, hcalls'.trans hcalls, hfresh ∘ hfresh', hlive ∘ hlive'⟩
  pending i entry hp := by
    rcases h'.pending i entry hp with hp | ⟨x', hx', hf⟩
    · exact h.pending i entry hp
    · obtain ⟨x, hx, _, hfresh, _⟩ := h.exchange _ x' hx'
      exact .inr ⟨x, hx, hfresh hf⟩
  cancelled t ht := h'.cancelled t (h.cancelled t ht)

/-- Every event but the making of an exchange. -/
theorem ages_apply {c : Calls} (hv : c.Valid) {e : Event}
    (hmake : (c.apply e).exchanges.length = c.exchanges.length) : c.Ages (c.apply e) := by
  refine ⟨valid_apply hv e, hmake, fun k x' hx' => ?_, fun i entry hp => ?_, fun t ht => ?_⟩
  · have hlt := (List.getElem?_eq_some_iff.1 hx').1
    rw [hmake] at hlt
    have hx := List.getElem?_eq_getElem hlt
    refine ⟨_, hx, ?_⟩
    -- what is over stays as it is, so what is live was live
    have hlive : x'.isLive = true → (c.exchanges[k]).isLive = true := by
      intro h
      cases hover : (c.exchanges[k]).isLive with
      | true => rfl
      | false =>
        have hsame := (apply_of_over hv hx hover e).symm.trans hx'
        rw [← Option.some.inj hsame, hover] at h
        exact h
    have hfresh : x'.stage = .fresh → (c.exchanges[k]).stage = .fresh := by
      intro h
      by_contra hs
      exact (onward_apply hv hx hs hx').started h
    have hb := became hv hx'
    rw [hx] at hb
    refine ⟨?_, hfresh, hlive⟩
    cases hb with
    | answered hsame => rw [hsame]
    | _ => rfl
  · refine (pending_apply hp).imp_right ?_
    rintro ⟨k, _, x, hx, hf, _, rfl⟩
    exact ⟨x, hx, hf⟩
  · exact (isCancelled_apply c e t).2 (.inl ht)

/-- An answer by itself. -/
theorem answer_ages {c : Calls} (hv : c.Valid) (i : Nat) (o : Outcome) : c.Ages (c.answer i o) := by
  refine ⟨hv.answer i o, length_answerAll [(i, o)] c, fun k x' hx' => ?_, fun j entry hp => ?_,
    fun t ht => ?_⟩
  · rw [exchanges_answer] at hx'
    obtain ⟨x, hx, rfl⟩ := Option.map_eq_some_iff.1 hx'
    refine ⟨x, hx, ?_⟩
    split <;> exact ⟨rfl, id, id⟩
  · rw [pending_answer] at hp
    split at hp
    · simp at hp
    · exact .inl hp
  · unfold isCancelled at ht ⊢
    rwa [answer_frame]

end NodeRpc.Calls
