import NodeRpc.Proofs.Lookup.Joins
import NodeRpc.Proofs.Lookup.Lives

/-!
# Contexts that look accounts up

What holds of a context whose lookups seek accounts only, and that is not torn down, at all times.
Load `n` waits for load `n` of the coalescer, and has an outcome as soon as that has taken its
answer; until then it has an entry in the scope, so no load is ever dropped; and every batch without
an outcome has a talk that will bring it one. `Sound` says so, and every part of a step keeps it.
-/

namespace NodeRpc

/-! ### What talks bring -/

/-- Whatever the node answers, the dialogue comes to an outcome of batch `b` of the accounts. -/
def Dialogue.Brings (b : Nat) : Dialogue Conclusion → Prop
  | .done c => ∃ outcome, c = .accounts b outcome
  | .ask _ next => ∀ answer, (next answer).Brings b

theorem Dialogue.brings_map (d : Dialogue BatchOutcome) (b : Nat) :
    (d.map (.accounts b)).Brings b := by
  induction d with
  | done outcome => exact ⟨outcome, rfl⟩
  | ask a next ih => exact ih

/-- The same of a dialogue that has come so far. -/
def Progress.Brings (b : Nat) : Progress Conclusion → Prop
  | .done c => ∃ outcome, c = .accounts b outcome
  | .waiting next => ∀ answer, (next answer).Brings b

theorem Dialogue.Brings.advance {ν : Type} (respond : Respondent ν) (t : Nat) {b : Nat}
    {d : Dialogue Conclusion} (h : d.Brings b) (node : ν) :
    (d.advance respond t node).1.Brings b := by
  induction d generalizing node with
  | done c => exact h
  | ask a next ih =>
    unfold Dialogue.advance
    split
    · next answer node _ => exact ih answer (h answer) node
    · exact h

/-- The same of a talk that is not over. -/
def Talk.Brings (b : Nat) : Talk → Prop
  | .fresh d => d.Brings b
  | .waiting next _ => ∀ answer, (next answer).Brings b
  | .over => False

namespace Resolves

theorem Turn.resolves_length {r r' : Resolves} {k : Nat} {key : LookupKey} (h : Turn r k key r') :
    r'.resolves.length = r.resolves.length := by
  cases h <;> simp [setStage, begun, recorded]

/-- A turn gives no load an outcome. -/
theorem Turn.outcomeOf? {r r' : Resolves} {k : Nat} {key : LookupKey} (h : Turn r k key r')
    (n : Nat) : r'.outcomeOf? n = r.outcomeOf? n := by
  cases h with
  | began _ _ =>
    have hloads : ((r.begun k key).setStage k (.waiting r.loads.length)).loads =
        r.loads ++ [{ starter := k }] := rfl
    unfold Resolves.outcomeOf?
    rw [hloads, getElem?_concat]
    split
    · next hn => simp [hn]
    · rfl
  | _ => rfl

theorem outcomeOf?_finish {r : Resolves} {n : Nat} (hn : n < r.loads.length) (o : Loaded) :
    ((r.finish n o).outcomeOf? n).isSome = true ∧
      ∀ m, n ≠ m → (r.finish n o).outcomeOf? m = r.outcomeOf? m := by
  unfold outcomeOf? finish
  dsimp only
  refine ⟨?_, ?_⟩
  · simp [hn]
  · intro m hm
    rw [List.getElem?_modify]
    cases r.loads[m]? <;> simp [hm]

end Resolves

namespace Context

variable {ν : Type}

/-- What holds at all times of a context that looks accounts up. -/
structure Sound (x : Context ν) : Prop where
  accounts : x.accounts.Valid
  works : x.works = (List.range x.accounts.joins.length).map .account
  loads : x.resolves.loads.length = x.accounts.joins.length
  resolves : ∃ events, .clear ∉ events ∧ x.resolves = Resolves.after events
  soughtLength : x.sought.length = x.resolves.resolves.length
  sought : ∀ e ∈ x.sought, ∃ key, e = .account key
  kept : ∀ n, x.accounts.stageOf? n ≠ some .dropped
  /-- A load has an outcome as soon as it has taken its answer. -/
  told : ∀ n, (x.resolves.outcomeOf? n).isSome = true ↔ x.accounts.stageOf? n = some .done
  talks : ∀ talk ∈ x.talks, talk = .over ∨ ∃ b, talk.Brings b
  batches : ∀ (b : Nat) (batch : Batch AccountKey), x.accounts.batches[b]? = some batch →
    batch.finished = false → ∃ (t : Nat) (talk : Talk), x.talks[t]? = some talk ∧ talk.Brings b

theorem sound_ofGraph (g : Graph) (node : ν) : (ofGraph g node).Sound where
  accounts := Coalescer.valid_empty _
  works := rfl
  loads := rfl
  resolves := ⟨[], by simp, rfl⟩
  soughtLength := rfl
  sought e h := by simp [ofGraph] at h
  kept n := by simp [ofGraph, Coalescer.stageOf?]
  told n := by simp [ofGraph, Coalescer.stageOf?, Resolves.outcomeOf?]
  talks talk h := by simp [ofGraph] at h
  batches b batch h := by simp [ofGraph] at h

/-- A load without an outcome has an entry in the scope. -/
theorem Sound.entry_of_outcome {x : Context ν} (hs : x.Sound) {n : Nat} {key : LookupKey}
    (hkey : x.resolves.loadKey? n = some key) (ho : x.resolves.outcomeOf? n = none) :
    x.resolves.entryOf? key = some (.inFlight n) := by
  obtain ⟨events, hclear, he⟩ := hs.resolves
  have hlife := Resolves.life_after (.inl rfl) hclear key
  rw [List.nil_append, ← he] at hlife
  have hn : Resolves.BegunAfter [] x.resolves key n := ⟨Nat.zero_le n, hkey⟩
  cases hlife with
  | untouched _ hb _ => exact absurd hn (hb n)
  | loading he hb _ => rw [he, (hb n).1 hn]
  | kept _ hb _ ho' => rw [← (hb n).1 hn, ho] at ho'; simp at ho'
  | @overtaken _ m _ _ _ hb' _ =>
    -- nothing is older than the beginning
    obtain ⟨_, _, _, _, hm⟩ := (hb' m).2 rfl
    exact absurd hm.older (Nat.not_lt_zero m)

theorem Sound.valid {x : Context ν} (hs : x.Sound) : x.resolves.Valid := by
  obtain ⟨events, _, he⟩ := hs.resolves
  rw [he]
  exact Resolves.valid_after events

/-- Nothing is ever swept away. -/
theorem Sound.sweep_eq {x : Context ν} (hs : x.Sound) : x.sweep = x := by
  have hnone : (x.resolves.loads.zipIdx.filter fun p =>
      p.1.outcome.isNone && !x.isKept p.2) = [] := by
    refine List.filter_eq_nil_iff.2 fun p hp hkept => ?_
    obtain ⟨l, n⟩ := p
    have hl : x.resolves.loads[n]? = some l := by
      have := List.mem_zipIdx_iff_getElem?.1 hp
      simpa using this
    rw [Bool.and_eq_true] at hkept
    obtain ⟨hout, hkept⟩ := hkept
    have ho : x.resolves.outcomeOf? n = none := by
      simpa [Resolves.outcomeOf?, hl] using hout
    have hlt := (List.getElem?_eq_some_iff.1 hl).1
    obtain ⟨key, hkey⟩ := Option.isSome_iff_exists.1 (hs.valid.starter n hlt)
    have hmem := Table.mem_of_get? (hs.entry_of_outcome hkey ho)
    have hin : x.isKept n = true := by
      unfold isKept
      rw [Bool.or_eq_true]
      exact .inl (List.any_eq_true.2 ⟨_, hmem, by simp⟩)
    simp [hin] at hkept
  unfold sweep
  rw [hnone]
  rfl

/-! ### Parts of steps -/

/-- Something happens to the scope that neither begins a load nor ends one. -/
theorem Sound.resolve {x : Context ν} (hs : x.Sound) {e : Resolves.Event} (he : e ≠ .clear)
    (hloads : (x.resolves.apply e).loads.length = x.resolves.loads.length)
    (hout : ∀ n, (x.resolves.apply e).outcomeOf? n = x.resolves.outcomeOf? n)
    (hlen : (x.resolves.apply e).resolves.length = x.resolves.resolves.length) :
    Sound { x with resolves := x.resolves.apply e } where
  accounts := hs.accounts
  works := hs.works
  loads := hloads.trans hs.loads
  resolves := by
    obtain ⟨events, hclear, hx⟩ := hs.resolves
    refine ⟨events ++ [e], by simp [hclear, Ne.symm he], ?_⟩
    rw [Resolves.after_concat, ← hx]
  soughtLength := hs.soughtLength.trans hlen.symm
  sought := hs.sought
  kept := hs.kept
  told n := by
    rw [hout]
    exact hs.told n
  talks := hs.talks
  batches := hs.batches

theorem Sound.seek {x : Context ν} (hs : x.Sound) (key : AccountKey) :
    (x.seek (.account key)).Sound where
  accounts := hs.accounts
  works := hs.works
  loads := hs.loads
  resolves := by
    obtain ⟨events, hclear, hx⟩ := hs.resolves
    refine ⟨events ++ [.make (Entity.account key).key], by simp [hclear], ?_⟩
    rw [Resolves.after_concat, ← hx]
    rfl
  soughtLength := by simp [Context.seek, Resolves.make, hs.soughtLength]
  sought e he := by
    rcases List.mem_append.1 he with he | he
    · exact hs.sought e he
    · exact ⟨key, by simpa using he⟩
  kept := hs.kept
  told := hs.told
  talks := hs.talks
  batches := hs.batches

/-- A load is begun, and the coalescer makes the load that it waits for. -/
theorem Sound.begin {x : Context ν} (hs : x.Sound) {r : Nat} {key : LookupKey} (e : AccountKey)
    (hrun : x.resolves.run r =
      (x.resolves.begun r key).setStage r (.waiting x.resolves.loads.length))
    (hout : ∀ n, (x.resolves.run r).outcomeOf? n = x.resolves.outcomeOf? n) :
    Sound ({ x with resolves := x.resolves.run r }.begin (.account e)) where
  accounts := hs.accounts.make e
  works := by
    simp [Context.begin, Coalescer.make, hs.works, List.range_succ]
  loads := by
    simp [Context.begin, Coalescer.make, hrun, Resolves.setStage, Resolves.begun, hs.loads]
  resolves := by
    obtain ⟨events, hclear, hx⟩ := hs.resolves
    refine ⟨events ++ [.run r], by simp [hclear], ?_⟩
    rw [Resolves.after_concat, ← hx]
    rfl
  soughtLength := by
    simp [Context.begin, hrun, Resolves.setStage, Resolves.begun, hs.soughtLength]
  sought := hs.sought
  kept n h := by
    have h := (x.accounts.stageOf?_make e n).symm.trans h
    split at h
    · simp at h
    · exact hs.kept n h
  told n := by
    show ((x.resolves.run r).outcomeOf? n).isSome = true ↔
      (x.accounts.make e).stageOf? n = some .done
    rw [hout, hs.told, x.accounts.stageOf?_make]
    split
    · next hn => simp [Coalescer.stageOf?, hn]
    · rfl
  talks := hs.talks
  batches := hs.batches

theorem Sound.enter {x : Context ν} (hs : x.Sound) (r : Nat) : (x.enter r).Sound := by
  unfold Context.enter
  dsimp only
  cases hkey : x.resolves.keyOf? r with
  | none =>
    rw [Resolves.run_of_keyOf?_none hkey, if_neg (Nat.lt_irrefl _)]
    exact hs
  | some key =>
    have hturn := Resolves.run_turn hs.valid.count hkey
    have hquiet : (x.resolves.run r).loads.length = x.resolves.loads.length →
        Sound (if x.resolves.loads.length < (x.resolves.run r).loads.length then
          (x.sought[r]?).elim { x with resolves := x.resolves.run r }
            ({ x with resolves := x.resolves.run r } : Context ν).begin
          else { x with resolves := x.resolves.run r }) := by
      intro hlen
      rw [if_neg (by omega)]
      exact hs.resolve (e := .run r) (by simp) hlen hturn.outcomeOf? hturn.resolves_length
    have hout := hturn.outcomeOf?
    generalize hrun : x.resolves.run r = r' at hturn hquiet
    cases hturn with
    | idle _ _ => exact hquiet rfl
    | read _ _ => exact hquiet rfl
    | waits _ _ => exact hquiet rfl
    | takes _ _ => exact hquiet rfl
    | began _ _ =>
      have hlt : r < x.sought.length := by
        rw [hs.soughtLength]
        obtain ⟨y, hy, _⟩ := Option.map_eq_some_iff.1 hkey
        exact (List.getElem?_eq_some_iff.1 hy).1
      obtain ⟨e, he⟩ := hs.sought _ (List.getElem_mem hlt)
      rw [if_pos (by simp [Resolves.setStage, Resolves.begun]), List.getElem?_eq_getElem hlt, he,
        ← hrun]
      exact hs.begin e hrun hout

/-- The talks that are begun for new batches. -/
theorem getElem?_talks_putAccounts {x : Context ν} {c : Coalescer AccountKey}
    {new : List (Batch AccountKey)} (hnew : c.batches = x.accounts.batches ++ new) (t : Nat) :
    (x.putAccounts c).talks[x.talks.length + t]? = (new[t]?).map fun batch => .fresh
      ((loadAccounts x.client batch.keys).map (.accounts (x.accounts.batches.length + t))) := by
  unfold Context.putAccounts
  dsimp only
  rw [List.getElem?_append_right (by omega), hnew, List.drop_left]
  simp only [Nat.add_sub_cancel_left, List.getElem?_map, List.getElem?_zipIdx, Nat.zero_add]
  cases new[t]? <;> rfl

/-- A load goes on, and gets an outcome if it takes its answer. -/
theorem Sound.putAccounts {x : Context ν} (hs : x.Sound) {c : Coalescer AccountKey}
    (hv : c.Valid) {n : Nat} (ht : x.accounts.Turned c n) {r : Resolves}
    (hr : r = x.resolves ∨ n < x.resolves.loads.length ∧ ∃ o, r = x.resolves.finish n o)
    (hn : (r.outcomeOf? n).isSome = true ↔ c.stageOf? n = some .done) :
    Sound { x.putAccounts c with resolves := r } := by
  obtain ⟨new, hnew⟩ := ht.batches
  have hlen : r.loads.length = x.resolves.loads.length ∧
      r.resolves.length = x.resolves.resolves.length := by
    rcases hr with rfl | ⟨_, o, rfl⟩
    · exact ⟨rfl, rfl⟩
    · exact ⟨by simp [Resolves.finish], rfl⟩
  refine {
    accounts := hv
    works := ?works
    loads := ?loads
    resolves := ?resolves
    soughtLength := ?soughtLength
    sought := hs.sought
    kept := ?kept
    told := ?told
    talks := ?talks
    batches := ?batches }
  case works => exact hs.works.trans (by rw [← ht.length]; rfl)
  case loads => exact hlen.1.trans (hs.loads.trans ht.length.symm)
  case resolves =>
    obtain ⟨events, hclear, hx⟩ := hs.resolves
    rcases hr with rfl | ⟨_, o, rfl⟩
    · exact ⟨events, hclear, hx⟩
    · refine ⟨events ++ [.finish n o], by simp [hclear], ?_⟩
      rw [Resolves.after_concat, ← hx]
      rfl
  case soughtLength => exact hs.soughtLength.trans hlen.2.symm
  case kept =>
    intro m h
    by_cases hm : n = m
    · subst hm
      exact hs.kept n (ht.dropped h)
    · exact hs.kept m ((ht.others m hm).symm.trans h)
  case told =>
    intro m
    by_cases hm : n = m
    · subst hm
      exact hn
    · have hstage : c.stageOf? m = x.accounts.stageOf? m := ht.others m hm
      have hout : r.outcomeOf? m = x.resolves.outcomeOf? m := by
        rcases hr with rfl | ⟨hlt, o, rfl⟩
        · rfl
        · exact (Resolves.outcomeOf?_finish hlt o).2 m hm
      show (r.outcomeOf? m).isSome = true ↔ c.stageOf? m = some .done
      rw [hout, hstage]
      exact hs.told m
  case talks =>
    intro talk htalk
    rcases List.mem_append.1 htalk with h | h
    · exact hs.talks talk h
    · obtain ⟨⟨batch, b⟩, _, rfl⟩ := List.mem_map.1 h
      exact .inr ⟨_, Dialogue.brings_map _ _⟩
  case batches =>
    intro b batch hb hf
    have hb : (x.accounts.batches ++ new)[b]? = some batch := by rw [← hnew]; exact hb
    by_cases hlt : b < x.accounts.batches.length
    · rw [List.getElem?_append_left hlt] at hb
      obtain ⟨t, talk, ht', hbrings⟩ := hs.batches b batch hb hf
      exact ⟨t, talk, getElem?_append_of_some ht' _, hbrings⟩
    · rw [List.getElem?_append_right (by omega)] at hb
      have htalk := getElem?_talks_putAccounts hnew (b - x.accounts.batches.length)
      have hidx : x.accounts.batches.length + (b - x.accounts.batches.length) = b := by omega
      rw [hb, hidx] at htalk
      exact ⟨_, _, htalk, Dialogue.brings_map _ _⟩

theorem Sound.getElem?_works {x : Context ν} (hs : x.Sound) {n : Nat} {w : Work}
    (h : x.works[n]? = some w) : w = .account n ∧ n < x.accounts.joins.length := by
  rw [hs.works, List.getElem?_map] at h
  obtain ⟨m, hm, rfl⟩ := Option.map_eq_some_iff.1 h
  obtain ⟨hlt, hget⟩ := List.getElem?_eq_some_iff.1 hm
  have hm : n = m := by simpa using hget
  exact ⟨by rw [hm], by simpa using hlt⟩

theorem Sound.pollLoad {x : Context ν} (hs : x.Sound) (respond : Respondent ν) (n : Nat) :
    (x.pollLoad respond n).Sound := by
  unfold Context.pollLoad
  cases hw : x.works[n]? with
  | none => exact hs
  | some w =>
    obtain ⟨rfl, hlt⟩ := hs.getElem?_works hw
    have ht := x.accounts.poll_turned n
    have hv := hs.accounts.poll n
    have hlt : n < x.resolves.loads.length := hs.loads ▸ hlt
    dsimp only
    cases hr : (x.putAccounts (x.accounts.poll n)).accounts.result? n with
    | none =>
      have hnot : (x.accounts.poll n).stageOf? n ≠ some .done := by
        intro hdone
        have hsome := hv.result?_of_done hdone
        rw [show (x.accounts.poll n).result? n = none from hr] at hsome
        simp at hsome
      refine hs.putAccounts hv ht (.inl rfl) (iff_of_false (fun ho => hnot ?_) hnot)
      -- who has an outcome was done before
      have hdone := (hs.told n).1 ho
      rw [Coalescer.poll_of_done hdone]
      exact hdone
    | some o =>
      exact hs.putAccounts hv ht (.inr ⟨hlt, o, rfl⟩)
        (iff_of_true (Resolves.outcomeOf?_finish hlt o).1 (Coalescer.done_of_result? hr))

/-! ### Talks -/

theorem Sound.setTalk {x : Context ν} (hs : x.Sound) (node : ν) {t : Nat} {talk talk' : Talk}
    (ht : x.talks[t]? = some talk) (hbrings : talk' = .over ∨ ∃ b, talk'.Brings b)
    (hkeep : ∀ b, talk.Brings b → talk'.Brings b) :
    Sound { x with node, talks := x.talks.set t talk' } := by
  refine ⟨hs.accounts, hs.works, hs.loads, hs.resolves, hs.soughtLength, hs.sought, hs.kept,
    hs.told, ?_, ?_⟩
  · intro other h
    rcases List.mem_or_eq_of_mem_set h with h | rfl
    · exact hs.talks other h
    · exact hbrings
  · intro b batch hb hf
    obtain ⟨t', other, ht', hb'⟩ := hs.batches b batch hb hf
    by_cases heq : t = t'
    · subst heq
      rw [ht] at ht'
      obtain rfl := Option.some.inj ht'
      exact ⟨t, talk', by simp [(List.getElem?_eq_some_iff.1 ht).1], hkeep b hb'⟩
    · exact ⟨t', other, by simp [heq, ht'], hb'⟩

/-- A talk that has come to the outcome of its batch hands it out. -/
theorem Sound.conclude {x : Context ν} (hs : x.Sound) (node : ν) {t b : Nat} {talk : Talk}
    (outcome : BatchOutcome) (ht : x.talks[t]? = some talk) (hb : ∀ m, talk.Brings m → m = b) :
    Sound ({ x with node, talks := x.talks.set t .over }.conclude (.accounts b outcome)) := by
  have hlen := x.accounts.length_finish b outcome
  refine {
    accounts := hs.accounts.finish b outcome
    works := ?works
    loads := ?loads
    resolves := hs.resolves
    soughtLength := hs.soughtLength
    sought := hs.sought
    kept := ?kept
    told := ?told
    talks := ?talks
    batches := ?batches }
  case works => exact hs.works.trans (by rw [← hlen]; rfl)
  case loads => exact hs.loads.trans hlen.symm
  case kept =>
    intro n h
    exact hs.kept n ((x.accounts.stageOf?_finish b outcome n).symm.trans h)
  case told =>
    intro n
    show (x.resolves.outcomeOf? n).isSome = true ↔
      (x.accounts.finish b outcome).stageOf? n = some .done
    rw [x.accounts.stageOf?_finish]
    exact hs.told n
  case talks =>
    intro other h
    rcases List.mem_or_eq_of_mem_set h with h | rfl
    · exact hs.talks other h
    · exact .inl rfl
  case batches =>
    intro m batch hm hf
    obtain ⟨hne, hm⟩ := Coalescer.unfinished_finish hm hf
    obtain ⟨t', other, ht', hbrings⟩ := hs.batches m batch hm hf
    have hne' : t ≠ t' := by
      rintro rfl
      rw [ht] at ht'
      exact hne (hb m (Option.some.inj ht' ▸ hbrings)).symm
    refine ⟨t', other, ?_, hbrings⟩
    exact (List.getElem?_set_ne hne').trans ht'

theorem Sound.converse {x : Context ν} (hs : x.Sound) (respond : Respondent ν) {t b : Nat}
    {talk : Talk} {d : Dialogue Conclusion} (ht : x.talks[t]? = some talk)
    (hd : ∀ m, talk.Brings m → d.Brings m) (hb : d.Brings b) :
    (x.converse respond t d).Sound := by
  have hadvance : ∀ m, d.Brings m → (d.advance respond t x.node).1.Brings m :=
    fun m h => h.advance respond t x.node
  unfold Context.converse
  split
  · next c node heq =>
    rw [heq] at hadvance
    obtain ⟨outcome, rfl⟩ := hadvance b hb
    refine hs.conclude node outcome ht fun m hm => ?_
    obtain ⟨_, h⟩ := hadvance m (hd m hm)
    exact (Conclusion.accounts.inj h).1.symm
  · next next node heq =>
    rw [heq] at hadvance
    exact hs.setTalk node ht (.inr ⟨b, hadvance b hb⟩) fun m hm => hadvance m (hd m hm)

theorem Sound.runTalk {x : Context ν} (hs : x.Sound) (respond : Respondent ν) (t : Nat) :
    (x.runTalk respond t).Sound := by
  unfold Context.runTalk
  split
  · next d ht =>
    rcases hs.talks _ (List.mem_of_getElem? ht) with h | ⟨b, hb⟩
    · simp at h
    · exact hs.converse respond ht (fun _ h => h) hb
  · next next answer ht =>
    rcases hs.talks _ (List.mem_of_getElem? ht) with h | ⟨b, hb⟩
    · simp at h
    · exact hs.converse respond ht (fun _ h => h answer) (hb answer)
  · exact hs

theorem Sound.deliver {x : Context ν} (hs : x.Sound) (t : Nat) (answer : Answer) :
    (x.deliver t answer).Sound := by
  unfold Context.deliver
  split
  · next next ht =>
    refine hs.setTalk x.node ht ?_ fun _ h => h
    rcases hs.talks _ (List.mem_of_getElem? ht) with h | ⟨b, hb⟩
    · simp at h
    · exact .inr ⟨b, hb⟩
  · exact hs

/-- Moving a resolve is turns of it and of the load that it waits for. -/
theorem attend_keeps {P : Context ν → Prop} {respond : Respondent ν} {r : Nat}
    (henter : ∀ y, P y → P (y.enter r)) (hpoll : ∀ y n, P y → P (y.pollLoad respond n))
    {x : Context ν} (hx : P x) : P (x.attend respond r) := by
  unfold Context.attend
  dsimp only
  split
  · next n _ => exact henter _ (hpoll _ n (henter x hx))
  · exact henter x hx

/-- What a lookup that seeks `e` by resolve `r` comes to when the resolve was moved. -/
def lookupNext (x : Context ν) (e : Entity) (goal : Goal) (r : Nat) : Lookup :=
  match x.outcome? r with
  | some loaded => { inquiry := .after x.client goal loaded }
  | none => { inquiry := .seeks e goal, resolve := some r }

/-- Lookup `k` moves the resolve by which it seeks `e`, a new one if it has none. -/
def pursue (respond : Respondent ν) (x : Context ν) (k : Nat) (e : Entity) (goal : Goal)
    (resolve : Option Nat) : Context ν :=
  let r := resolve.getD x.resolves.resolves.length
  let y := (if resolve.isSome then x else x.seek e).attend respond r
  y.setLookup k (y.lookupNext e goal r)

/-- A turn of lookup `k` that seeks something moves its resolve, and ends there or goes on. -/
theorem pollUpTo_pursue (respond : Respondent ν) (fuel : Nat) {x : Context ν} {k : Nat} {e : Entity}
    {goal : Goal} {resolve : Option Nat}
    (hl : x.lookups[k]? = some { inquiry := .seeks e goal, resolve }) :
    pollUpTo respond (fuel + 1) x k = x.pursue respond k e goal resolve ∨
      pollUpTo respond (fuel + 1) x k =
        pollUpTo respond fuel (x.pursue respond k e goal resolve) k := by
  rw [pollUpTo, hl]
  unfold pursue lookupNext
  dsimp only
  cases (attend respond (if resolve.isSome then x else x.seek e)
      (resolve.getD x.resolves.resolves.length)).outcome?
      (resolve.getD x.resolves.resolves.length) with
  | some loaded => exact .inr rfl
  | none => exact .inl rfl

/-- What holds whenever a lookup has moved a resolve holds after its turn. -/
theorem pollUpTo_keeps {P : Context ν → Prop} {respond : Respondent ν} {k : Nat}
    (h : ∀ y e goal resolve, P y → y.lookups[k]? = some { inquiry := .seeks e goal, resolve } →
      P (y.pursue respond k e goal resolve)) (fuel : Nat) {x : Context ν} (hx : P x) :
    P (pollUpTo respond fuel x k) := by
  induction fuel generalizing x with
  | zero => exact hx
  | succ fuel ih =>
    rcases heq : x.lookups[k]? with - | ⟨inquiry, resolve, dropped⟩
    · rwa [pollUpTo, heq]
    · cases inquiry with
      | ended result => rwa [pollUpTo, heq]
      | seeks e goal =>
        cases dropped with
        | true => rwa [pollUpTo, heq]
        | false =>
          have hy := h x e goal resolve hx heq
          rcases pollUpTo_pursue respond fuel heq with hp | hp
          · rwa [hp]
          · rw [hp]
            exact ih hy

theorem Sound.attend {x : Context ν} (hs : x.Sound) (respond : Respondent ν) (r : Nat) :
    (x.attend respond r).Sound :=
  attend_keeps (fun _ h => h.enter r) (fun _ n h => h.pollLoad respond n) hs

end Context

end NodeRpc
