import NodeRpc.Proofs.Lookup.Accounts

/-!
# Resolves belong to lookups

Every lookup has resolves of its own, one after the other. Between events, a lookup that was not
given up and has a resolve waits for a load with it, and a lookup that was given up has given up its
resolve; everybody who waits, or was given up, belongs to a lookup. `Rested` says so, together with
`Sound`; `rested_apply` shows that an event keeps it.
-/

namespace NodeRpc

/-! ### What is sought -/

/-- If the inquiry seeks anything, it is an account. -/
def Inquiry.SeeksAccounts (i : Inquiry) : Prop :=
  ∀ e goal, i = .seeks e goal → ∃ key, e = .account key

theorem Inquiry.eq_ofAccount_of_select {c : Client} {address : String} {o : AccountOptions}
    {selection : Selection} {e : Entity} {goal : Goal}
    (h : select (.ofAccount c address o) selection = .seeks e goal) :
    e = .ofAccount c address o := by
  unfold select at h
  split at h
  · cases h
  · exact (Inquiry.seeks.inj h).1.symm

theorem Inquiry.seeksAccounts_select (c : Client) (address : String) (o : AccountOptions)
    (selection : Selection) : (select (.ofAccount c address o) selection).SeeksAccounts :=
  fun _ _ h => ⟨_, eq_ofAccount_of_select h⟩

/-- What is sought after the lookup of an account is an account again, with options filled in. -/
theorem Inquiry.eq_ofAccount_of_after {c : Client} {goal goal' : Goal} {loaded : KeyResult}
    {e : Entity} (h : after c goal loaded = .seeks e goal') :
    ∃ address o, e = .ofAccount c address o := by
  unfold after at h
  split at h
  · cases h
  · cases h
  · cases h
  · cases h
  · cases h
  · split at h
    · unfold afterOwner at h
      split at h
      · cases h
      · split at h
        · exact ⟨_, _, eq_ofAccount_of_select h⟩
        · cases h
      · dsimp only at h
        split at h
        · split at h
          · cases h
          · exact ⟨_, _, (Inquiry.seeks.inj h).1.symm⟩
        · cases h
    · cases h

theorem Inquiry.seeksAccounts_after (c : Client) (goal : Goal) (loaded : KeyResult) :
    (after c goal loaded).SeeksAccounts := by
  intro e goal' h
  obtain ⟨address, o, rfl⟩ := eq_ofAccount_of_after h
  exact ⟨_, rfl⟩

/-! ### Stages of resolves -/

namespace Resolves

/-- A turn changes no other stage, and its own to one that waits or is done. -/
theorem Turn.stages {r r' : Resolves} {k : Nat} {key : LookupKey} (h : Turn r k key r') :
    (∀ j, k ≠ j → r'.stageOf? j = r.stageOf? j) ∧
      ∀ s, r.stageOf? k = some s → s ≠ .dropped →
        (∃ n, r'.stageOf? k = some (.waiting n)) ∨ ∃ o, r'.stageOf? k = some (.done o) := by
  have hset : ∀ {q : Resolves} {stage}, q.stageOf? = r.stageOf? →
      (∀ j, k ≠ j → (q.setStage k stage).stageOf? j = r.stageOf? j) ∧
        ∀ s, r.stageOf? k = some s → (q.setStage k stage).stageOf? k = some stage := by
    intro q stage hq
    refine ⟨?_, ?_⟩
    · intro j hj
      rw [stageOf?_setStage, if_neg hj, hq]
    · intro s hs
      rw [stageOf?_setStage, if_pos rfl, hq, hs]
      rfl
  cases h with
  | idle hno hf =>
    refine ⟨fun _ _ => rfl, fun s hs hd => ?_⟩
    cases s with
    | fresh => exact absurd hs hf
    | waiting n => exact absurd (.waiting hs) (hno n)
    | done o => exact .inr ⟨o, hs⟩
    | dropped => exact absurd rfl hd
  | read _ _ => exact ⟨(hset rfl).1, fun s hs _ => .inr ⟨_, (hset rfl).2 s hs⟩⟩
  | @began _ _ =>
    exact ⟨(hset (q := r.begun k key) rfl).1,
      fun s hs _ => .inl ⟨_, (hset (q := r.begun k key) rfl).2 s hs⟩⟩
  | waits _ _ => exact ⟨(hset rfl).1, fun s hs _ => .inl ⟨_, (hset rfl).2 s hs⟩⟩
  | @takes n o _ _ =>
    exact ⟨(hset (q := r.recorded key o) rfl).1,
      fun s hs _ => .inr ⟨_, (hset (q := r.recorded key o) rfl).2 s hs⟩⟩

end Resolves

namespace Context

variable {ν : Type}

/-- What loads and talks leave alone: the lookups, and how far the resolves have come. -/
structure Leaves (x x' : Context ν) : Prop where
  lookups : x'.lookups = x.lookups
  stages : ∀ r, x'.resolves.stageOf? r = x.resolves.stageOf? r

theorem conclude_leaves (x : Context ν) (c : Conclusion) : x.Leaves (x.conclude c) := by
  cases c <;> exact ⟨rfl, fun _ => rfl⟩

theorem converse_leaves (respond : Respondent ν) (x : Context ν) (t : Nat)
    (d : Dialogue Conclusion) : x.Leaves (x.converse respond t d) := by
  unfold converse
  split
  · next c node _ =>
    have h := conclude_leaves { x with node, talks := x.talks.set t .over } c
    exact ⟨h.lookups, h.stages⟩
  · exact ⟨rfl, fun _ => rfl⟩

theorem runTalk_leaves (respond : Respondent ν) (x : Context ν) (t : Nat) :
    x.Leaves (x.runTalk respond t) := by
  unfold runTalk
  split
  · exact converse_leaves respond x t _
  · exact converse_leaves respond x t _
  · exact ⟨rfl, fun _ => rfl⟩

theorem deliver_leaves (x : Context ν) (t : Nat) (answer : Answer) :
    x.Leaves (x.deliver t answer) := by
  unfold deliver
  split <;> exact ⟨rfl, fun _ => rfl⟩

theorem pollLoad_leaves (respond : Respondent ν) (x : Context ν) (n : Nat) :
    x.Leaves (x.pollLoad respond n) := by
  unfold pollLoad
  split
  · dsimp only
    cases (x.putAccounts _).accounts.result? _ <;> exact ⟨rfl, fun _ => rfl⟩
  · dsimp only
    cases (x.putTransactions _).transactions.result? _ <;> exact ⟨rfl, fun _ => rfl⟩
  · exact runTalk_leaves respond x _
  · exact ⟨rfl, fun _ => rfl⟩

/-- Giving resolve `r` a turn is that and, if it began a load, the beginning of the load. -/
theorem enter_leaves (x : Context ν) (r : Nat) :
    (x.enter r).lookups = x.lookups ∧ (x.enter r).resolves = x.resolves.run r := by
  have hbegin : ∀ (y : Context ν) (e : Entity), (y.begin e).lookups = y.lookups ∧
      (y.begin e).resolves = y.resolves := by
    intro y e
    cases e <;> exact ⟨rfl, rfl⟩
  unfold enter
  dsimp only
  split
  · cases x.sought[r]? with
    | none => exact ⟨rfl, rfl⟩
    | some e => exact hbegin { x with resolves := x.resolves.run r } e
  · exact ⟨rfl, rfl⟩

theorem Sound.enter_stages {x : Context ν} (hs : x.Sound) (r : Nat) :
    (∀ j, r ≠ j → (x.enter r).resolves.stageOf? j = x.resolves.stageOf? j) ∧
      ∀ s, x.resolves.stageOf? r = some s → s ≠ .dropped →
        (∃ n, (x.enter r).resolves.stageOf? r = some (.waiting n)) ∨
        ∃ o, (x.enter r).resolves.stageOf? r = some (.done o) := by
  rw [(x.enter_leaves r).2]
  cases hkey : x.resolves.keyOf? r with
  | none =>
    rw [Resolves.run_of_keyOf?_none hkey]
    refine ⟨fun _ _ => rfl, fun s hstage _ => ?_⟩
    simp [Resolves.keyOf?_eq_none.1 hkey] at hstage
  | some key => exact (Resolves.run_turn hs.valid.count hkey).stages

/-- Moving a resolve changes no lookup and no other resolve; it waits then, or is done. -/
theorem Sound.attend_stages {x : Context ν} (hs : x.Sound) (respond : Respondent ν) (r : Nat) :
    (x.attend respond r).lookups = x.lookups ∧
      (∀ j, r ≠ j → (x.attend respond r).resolves.stageOf? j = x.resolves.stageOf? j) ∧
      ∀ s, x.resolves.stageOf? r = some s → s ≠ .dropped →
        (∃ n, (x.attend respond r).resolves.stageOf? r = some (.waiting n)) ∨
        ∃ o, (x.attend respond r).resolves.stageOf? r = some (.done o) := by
  have h := hs.enter_stages r
  have hl := (x.enter_leaves r).1
  unfold Context.attend
  dsimp only
  split
  · next n _ =>
    have hpoll := pollLoad_leaves respond (x.enter r) n
    have h' := ((hs.enter r).pollLoad respond n).enter_stages r
    refine ⟨?_, ?_, ?_⟩
    · rw [(enter_leaves _ r).1, hpoll.lookups, hl]
    · intro j hj
      rw [h'.1 j hj, hpoll.stages, h.1 j hj]
    · intro s hstage hd
      rcases h.2 s hstage hd with ⟨m, hm⟩ | ⟨o, ho⟩
      · exact h'.2 _ ((hpoll.stages r).trans hm) (by simp)
      · exact h'.2 _ ((hpoll.stages r).trans ho) (by simp)
  · exact ⟨hl, h.1, h.2⟩

/-! ### Who owns which resolve -/

/-- What holds of a lookup at all times. -/
structure LookupValid (l : Lookup) : Prop where
  accounts : l.inquiry.SeeksAccounts
  /-- A lookup with a resolve seeks something. -/
  seeks : ∀ r, l.resolve = some r → ∃ e goal, l.inquiry = .seeks e goal

/-- Every lookup has resolves of its own. A lookup waits with its resolve, or has given it up; the
resolve `hole`, if there is one, may be at any other stage. -/
structure Owned (lookups : List Lookup) (r : Resolves) (hole : Option Nat) : Prop where
  lookup : ∀ l ∈ lookups, LookupValid l
  apart : ∀ (k k' : Nat) (l l' : Lookup) (i : Nat), lookups[k]? = some l →
    lookups[k']? = some l' → l.resolve = some i → l'.resolve = some i → k = k'
  alive : ∀ (k : Nat) (l : Lookup) (i : Nat), lookups[k]? = some l → l.resolve = some i →
    l.dropped = false → (∃ n, r.stageOf? i = some (.waiting n)) ∨ some i = hole
  given : ∀ (k : Nat) (l : Lookup) (i : Nat), lookups[k]? = some l → l.resolve = some i →
    l.dropped = true → r.stageOf? i = some .dropped
  owner : ∀ i s, r.stageOf? i = some s → s = .dropped ∨ (∃ n, s = .waiting n) →
    ∃ (k : Nat) (l : Lookup), lookups[k]? = some l ∧ l.resolve = some i

/-- A lookup at the place `k` of a changed list is the new one there, or an old one elsewhere. -/
theorem getElem?_set_cases {lookups : List Lookup} {k j : Nat} {l l' : Lookup}
    (h : (lookups.set k l')[j]? = some l) : k = j ∧ l = l' ∨ k ≠ j ∧ lookups[j]? = some l := by
  rw [List.getElem?_set] at h
  split at h
  · next hj =>
    split at h
    · exact .inl ⟨hj, (Option.some.inj h).symm⟩
    · simp at h
  · next hj => exact .inr ⟨hj, h⟩

theorem set_self {lookups : List Lookup} {k : Nat} {l : Lookup} (h : lookups[k]? = some l) :
    lookups.set k l = lookups := by
  obtain ⟨hlt, rfl⟩ := List.getElem?_eq_some_iff.1 h
  exact List.set_getElem_self hlt

/-- At rest, whatever belongs to a lookup waits or was given up. -/
theorem Owned.undone {lookups : List Lookup} {r : Resolves} (ho : Owned lookups r none)
    {k i : Nat} {l : Lookup} (hl : lookups[k]? = some l) (hi : l.resolve = some i) :
    (∃ n, r.stageOf? i = some (.waiting n)) ∨ r.stageOf? i = some .dropped := by
  cases hd : l.dropped with
  | true => exact .inr (ho.given k l i hl hi hd)
  | false =>
    rcases ho.alive k l i hl hi hd with hw | h
    · exact .inl hw
    · simp at h

theorem Owned.lt {lookups : List Lookup} {r : Resolves} (ho : Owned lookups r none) {k i : Nat}
    {l : Lookup} (hl : lookups[k]? = some l) (hi : l.resolve = some i) :
    i < r.resolves.length := by
  refine Nat.lt_of_not_le fun hle => ?_
  have hnone : r.stageOf? i = none := by simp [Resolves.stageOf?, List.getElem?_eq_none hle]
  rcases ho.undone hl hi with ⟨n, hn⟩ | hd
  · simp [hnone] at hn
  · simp [hnone] at hd

/-- A lookup gets a new resolve. -/
theorem Owned.assign {lookups : List Lookup} {r : Resolves} (ho : Owned lookups r none) {k : Nat}
    {e : Entity} {goal : Goal} (hl : lookups[k]? = some ⟨.seeks e goal, none, false⟩)
    (key : LookupKey) :
    Owned (lookups.set k ⟨.seeks e goal, some r.resolves.length, false⟩) (r.make key)
      (some r.resolves.length) := by
  have hstage : ∀ i, i ≠ r.resolves.length → (r.make key).stageOf? i = r.stageOf? i := by
    intro i hi
    unfold Resolves.stageOf?
    rw [Resolves.getElem?_make, if_neg hi]
  have hold : ∀ {j i : Nat} {l : Lookup}, lookups[j]? = some l → l.resolve = some i →
      i ≠ r.resolves.length := fun hl hi => Nat.ne_of_lt (ho.lt hl hi)
  constructor
  case lookup =>
    intro l h
    rcases List.mem_or_eq_of_mem_set h with h | rfl
    · exact ho.lookup l h
    · exact ⟨(ho.lookup _ (List.mem_of_getElem? hl)).accounts, fun _ _ => ⟨e, goal, rfl⟩⟩
  case apart =>
    intro j j' l l' i h h' hi hi'
    rcases getElem?_set_cases h with ⟨hj, rfl⟩ | ⟨_, h⟩ <;>
      rcases getElem?_set_cases h' with ⟨hj', rfl⟩ | ⟨_, h'⟩
    · exact hj.symm.trans hj'
    · exact absurd (Option.some.inj hi).symm (hold h' hi')
    · exact absurd (Option.some.inj hi').symm (hold h hi)
    · exact ho.apart j j' l l' i h h' hi hi'
  case alive =>
    intro j l i h hi hd
    rcases getElem?_set_cases h with ⟨_, rfl⟩ | ⟨_, h⟩
    · exact .inr hi.symm
    · rw [hstage i (hold h hi)]
      rcases ho.alive j l i h hi hd with hw | hnone
      · exact .inl hw
      · simp at hnone
  case given =>
    intro j l i h hi hd
    rcases getElem?_set_cases h with ⟨_, rfl⟩ | ⟨_, h⟩
    · simp at hd
    · rw [hstage i (hold h hi)]
      exact ho.given j l i h hi hd
  case owner =>
    intro i s h hs
    by_cases hi : i = r.resolves.length
    · have hfresh : (r.make key).stageOf? i = some .fresh := by
        unfold Resolves.stageOf?
        rw [Resolves.getElem?_make, if_pos hi]
        rfl
      rw [hfresh] at h
      obtain rfl := Option.some.inj h
      simp at hs
    · rw [hstage i hi] at h
      obtain ⟨j, l, hj, hli⟩ := ho.owner i s h hs
      have hne : k ≠ j := by
        rintro rfl
        rw [hl] at hj
        obtain rfl := Option.some.inj hj
        simp at hli
      exact ⟨j, l, by rw [List.getElem?_set_ne hne]; exact hj, hli⟩

/-- The resolve of a lookup that is not given up may come to another stage. -/
theorem Owned.move {lookups : List Lookup} {r r' : Resolves} {k i : Nat} {l : Lookup}
    (ho : Owned lookups r (some i)) (hl : lookups[k]? = some l) (hi : l.resolve = some i)
    (hd : l.dropped = false) (h : ∀ j, i ≠ j → r'.stageOf? j = r.stageOf? j) :
    Owned lookups r' (some i) where
  lookup := ho.lookup
  apart := ho.apart
  alive j l' i' hj hi' hd' := by
    by_cases hne : i = i'
    · exact .inr (by rw [hne])
    · rw [h i' hne]
      exact ho.alive j l' i' hj hi' hd'
  given j l' i' hj hi' hd' := by
    have hne : i ≠ i' := by
      rintro rfl
      obtain rfl := ho.apart k j l l' i hl hj hi hi'
      rw [hl] at hj
      obtain rfl := Option.some.inj hj
      simp [hd] at hd'
    rw [h i' hne]
    exact ho.given j l' i' hj hi' hd'
  owner i' s hs hw := by
    by_cases hne : i = i'
    · exact ⟨k, l, hl, hne ▸ hi⟩
    · rw [h i' hne] at hs
      exact ho.owner i' s hs hw

/-- A lookup whose resolve waits is at rest. -/
theorem Owned.rest {lookups : List Lookup} {r : Resolves} {i n : Nat}
    (ho : Owned lookups r (some i)) (h : r.stageOf? i = some (.waiting n)) :
    Owned lookups r none where
  lookup := ho.lookup
  apart := ho.apart
  alive j l i' hj hi' hd := by
    rcases ho.alive j l i' hj hi' hd with hw | heq
    · exact .inl hw
    · obtain rfl := Option.some.inj heq
      exact .inl ⟨n, h⟩
  given := ho.given
  owner := ho.owner

/-- A lookup whose resolve is done goes on without it. -/
theorem Owned.goOn {lookups : List Lookup} {r : Resolves} {k i : Nat} {o : Loaded} {l : Lookup}
    (ho : Owned lookups r (some i)) (hl : lookups[k]? = some l) (hi : l.resolve = some i)
    (h : r.stageOf? i = some (.done o)) {inquiry : Inquiry} (hq : inquiry.SeeksAccounts) :
    Owned (lookups.set k { inquiry }) r none := by
  constructor
  case lookup =>
    intro l' h'
    rcases List.mem_or_eq_of_mem_set h' with h' | rfl
    · exact ho.lookup l' h'
    · exact ⟨hq, fun _ h => by simp at h⟩
  case apart =>
    intro j j' l₁ l₂ i' h₁ h₂ hi₁ hi₂
    rcases getElem?_set_cases h₁ with ⟨_, rfl⟩ | ⟨_, h₁⟩
    · simp at hi₁
    · rcases getElem?_set_cases h₂ with ⟨_, rfl⟩ | ⟨_, h₂⟩
      · simp at hi₂
      · exact ho.apart j j' l₁ l₂ i' h₁ h₂ hi₁ hi₂
  case alive =>
    intro j l' i' h' hi' hd
    rcases getElem?_set_cases h' with ⟨_, rfl⟩ | ⟨hne, h'⟩
    · simp at hi'
    · rcases ho.alive j l' i' h' hi' hd with hw | heq
      · exact .inl hw
      · obtain rfl := Option.some.inj heq
        exact absurd (ho.apart k j l l' i' hl h' hi hi') hne
  case given =>
    intro j l' i' h' hi' hd
    rcases getElem?_set_cases h' with ⟨_, rfl⟩ | ⟨_, h'⟩
    · simp at hd
    · exact ho.given j l' i' h' hi' hd
  case owner =>
    intro i' s hs hw
    obtain ⟨j, l', hj, hli⟩ := ho.owner i' s hs hw
    have hne : k ≠ j := by
      rintro rfl
      rw [hl] at hj
      obtain rfl := Option.some.inj hj
      rw [hi] at hli
      obtain rfl := Option.some.inj hli
      rw [h] at hs
      obtain rfl := Option.some.inj hs
      simp at hw
    exact ⟨j, l', by rw [List.getElem?_set_ne hne]; exact hj, hli⟩

/-! ### Steps -/

/-- What holds between events. -/
structure Rested (x : Context ν) : Prop where
  sound : x.Sound
  owned : Owned x.lookups x.resolves none

theorem rested_ofGraph (g : Graph) (node : ν) : (ofGraph g node).Rested where
  sound := sound_ofGraph g node
  owned := {
    lookup := fun l h => by simp [ofGraph] at h
    apart := fun k k' l l' i h => by simp [ofGraph] at h
    alive := fun k l i h => by simp [ofGraph] at h
    given := fun k l i h => by simp [ofGraph] at h
    owner := fun i s h => by simp [ofGraph, Resolves.stageOf?] at h }

/-- The lookups change, and nothing else. -/
theorem Sound.withLookups {x : Context ν} (hs : x.Sound) (lookups : List Lookup) :
    Sound { x with lookups } :=
  ⟨hs.accounts, hs.works, hs.loads, hs.resolves, hs.soughtLength, hs.sought, hs.kept, hs.told,
    hs.talks, hs.batches⟩

theorem Sound.setLookup {x : Context ν} (hs : x.Sound) (k : Nat) (l : Lookup) :
    (x.setLookup k l).Sound :=
  hs.withLookups _

theorem outcome?_eq_some {x : Context ν} {r : Nat} {o : Loaded} :
    x.outcome? r = some o ↔ x.resolves.stageOf? r = some (.done o) := by
  unfold outcome? Resolves.stageOf?
  cases (x.resolves.resolves[r]?).map Resolve.stage with
  | none => simp
  | some s => cases s <;> simp

/-- Lookup `k` moves its resolve: then it waits with it, or goes on without it. -/
theorem Sound.attended {x : Context ν} (hs : x.Sound) (respond : Respondent ν) {k r : Nat}
    {e : Entity} {goal : Goal} {s : ResolveStage} (hk : k < x.lookups.length)
    (ho : Owned (x.lookups.set k ⟨.seeks e goal, some r, false⟩) x.resolves (some r))
    (hr : x.resolves.stageOf? r = some s) (hd : s ≠ .dropped) :
    ((x.attend respond r).setLookup k ((x.attend respond r).lookupNext e goal r)).Rested := by
  obtain ⟨hlookups, hothers, hstage⟩ := hs.attend_stages respond r
  have hs' := hs.attend respond r
  have hl : (x.lookups.set k ⟨.seeks e goal, some r, false⟩)[k]? =
      some ⟨.seeks e goal, some r, false⟩ := by simp [hk]
  have ho' := ho.move hl rfl rfl hothers
  generalize x.attend respond r = y at hlookups hstage hs' ho'
  refine ⟨hs'.setLookup k _, ?_⟩
  unfold Context.setLookup
  dsimp only
  rw [hlookups]
  cases h : y.outcome? r with
  | some o =>
    have hgo := ho'.goOn hl rfl (outcome?_eq_some.1 h) (Inquiry.seeksAccounts_after y.client goal o)
    rw [List.set_set] at hgo
    rwa [lookupNext, h]
  | none =>
    rw [lookupNext, h]
    rcases hstage s hr hd with ⟨n, hn⟩ | ⟨o, hdone⟩
    · exact ho'.rest hn
    · rw [outcome?_eq_some.2 hdone] at h
      simp at h

/-- A lookup that has a resolve and was not given up waits with it. -/
theorem Rested.waits {x : Context ν} (hx : x.Rested) {k r : Nat} {l : Lookup}
    (hl : x.lookups[k]? = some l) (hr : l.resolve = some r) (hd : l.dropped = false) :
    ∃ n, x.resolves.stageOf? r = some (.waiting n) := by
  rcases hx.owned.alive k l r hl hr hd with h | h
  · exact h
  · simp at h

theorem Rested.pursue {x : Context ν} (hx : x.Rested) (respond : Respondent ν) {k : Nat}
    {e : Entity} {goal : Goal} {resolve : Option Nat}
    (hl : x.lookups[k]? = some { inquiry := .seeks e goal, resolve }) :
    (x.pursue respond k e goal resolve).Rested := by
  have hk := (List.getElem?_eq_some_iff.1 hl).1
  obtain ⟨key, rfl⟩ := (hx.owned.lookup _ (List.mem_of_getElem? hl)).accounts e goal rfl
  cases resolve with
  | none =>
    have hfresh : (x.seek (.account key)).resolves.stageOf? x.resolves.resolves.length =
        some .fresh := by
      unfold seek Resolves.stageOf?
      dsimp only
      rw [Resolves.getElem?_make, if_pos rfl]
      rfl
    exact (hx.sound.seek key).attended respond hk (hx.owned.assign hl _) hfresh (by simp)
  | some r =>
    obtain ⟨n, hn⟩ := hx.waits hl rfl rfl
    have ho : Owned (x.lookups.set k ⟨.seeks (.account key) goal, some r, false⟩) x.resolves
        (some r) := by
      rw [set_self hl]
      exact ⟨hx.owned.lookup, hx.owned.apart,
        fun j l i hj hi hd => (hx.owned.alive j l i hj hi hd).imp_right fun h => by simp at h,
        hx.owned.given, hx.owned.owner⟩
    exact hx.sound.attended respond hk ho hn (by simp)

theorem Rested.pollUpTo (respond : Respondent ν) (fuel : Nat) {x : Context ν} (hx : x.Rested)
    (k : Nat) : (pollUpTo respond fuel x k).Rested :=
  pollUpTo_keeps (fun _ _ _ _ hy hl => hy.pursue respond hl) fuel hx

theorem Rested.poll {x : Context ν} (hx : x.Rested) (respond : Respondent ν) (k : Nat) :
    (x.poll respond k).Rested := by
  have h := hx.pollUpTo respond (x.scope.entries.length + 2) k
  unfold Context.poll
  rw [h.sound.sweep_eq]
  exact h

/-- A lookup is given up with its resolve. -/
theorem Owned.giveUp {lookups : List Lookup} {r r' : Resolves} {k : Nat} {l : Lookup}
    (ho : Owned lookups r none) (hl : lookups[k]? = some l)
    (hown : ∀ i, l.resolve = some i → r'.stageOf? i = some .dropped)
    (hothers : ∀ i, l.resolve ≠ some i → r'.stageOf? i = r.stageOf? i) :
    Owned (lookups.set k { l with dropped := true }) r' none := by
  have hback : ∀ {j : Nat} {l' : Lookup},
      (lookups.set k { l with dropped := true })[j]? = some l' →
      ∃ l₀, lookups[j]? = some l₀ ∧ l₀.resolve = l'.resolve := by
    intro j l' h
    rcases getElem?_set_cases h with ⟨rfl, rfl⟩ | ⟨_, h⟩
    · exact ⟨l, hl, rfl⟩
    · exact ⟨l', h, rfl⟩
  have hne : ∀ {j i : Nat} {l' : Lookup}, k ≠ j → lookups[j]? = some l' → l'.resolve = some i →
      l.resolve ≠ some i := fun hj h hi hli => hj (ho.apart _ _ _ _ _ hl h hli hi)
  constructor
  case lookup =>
    intro l' h
    rcases List.mem_or_eq_of_mem_set h with h | rfl
    · exact ho.lookup l' h
    · have hv := ho.lookup l (List.mem_of_getElem? hl)
      exact ⟨hv.accounts, hv.seeks⟩
  case apart =>
    intro j j' l₁ l₂ i h₁ h₂ hi₁ hi₂
    obtain ⟨m₁, h₁, hm₁⟩ := hback h₁
    obtain ⟨m₂, h₂, hm₂⟩ := hback h₂
    exact ho.apart j j' m₁ m₂ i h₁ h₂ (hm₁.trans hi₁) (hm₂.trans hi₂)
  case alive =>
    intro j l' i h hi hd
    rcases getElem?_set_cases h with ⟨_, rfl⟩ | ⟨hj, h⟩
    · simp at hd
    · rw [hothers i (hne hj h hi)]
      exact ho.alive j l' i h hi hd
  case given =>
    intro j l' i h hi hd
    rcases getElem?_set_cases h with ⟨_, rfl⟩ | ⟨hj, h⟩
    · exact hown i hi
    · rw [hothers i (hne hj h hi)]
      exact ho.given j l' i h hi hd
  case owner =>
    intro i s hs hw
    by_cases hi : l.resolve = some i
    · have hlt := (List.getElem?_eq_some_iff.1 hl).1
      exact ⟨k, { l with dropped := true }, by simp [hlt], hi⟩
    · rw [hothers i hi] at hs
      obtain ⟨j, l', hj, hli⟩ := ho.owner i s hs hw
      have hkj : k ≠ j := by
        rintro rfl
        rw [hl] at hj
        exact hi (Option.some.inj hj ▸ hli)
      exact ⟨j, l', by rw [List.getElem?_set_ne hkj]; exact hj, hli⟩

theorem Rested.drop {x : Context ν} (hx : x.Rested) (k : Nat) : (x.drop k).Rested := by
  unfold Context.drop
  split
  · next l hl =>
    have hs : Sound { x with resolves := l.resolve.elim x.resolves x.resolves.drop } := by
      cases l.resolve with
      | none => exact hx.sound
      | some r =>
        exact hx.sound.resolve (e := .drop r) (by simp) (x.resolves.loads_drop r ▸ rfl)
          (fun n => congrArg (fun loads => (loads[n]?).bind Load.outcome) (x.resolves.loads_drop r))
          (x.resolves.length_drop r)
    dsimp only
    rw [(hs.setLookup k _).sweep_eq]
    refine ⟨hs.setLookup k _, hx.owned.giveUp hl (fun i hi => ?_) fun i hi => ?_⟩
    · simp only [setLookup, hi, Option.elim_some]
      rw [Resolves.stageOf?_drop, if_pos rfl]
      rcases hx.owned.undone hl hi with ⟨n, hn⟩ | hd
      · rw [hn]
        rfl
      · rw [hd]
        rfl
    · cases hr : l.resolve with
      | none => rfl
      | some r =>
        have hne : r ≠ i := fun h => hi (h ▸ hr)
        simp only [setLookup, Option.elim_some]
        rw [Resolves.stageOf?_drop, if_neg hne]
  · exact hx

theorem Rested.start {x : Context ν} (hx : x.Rested) {i : Inquiry} (hi : i.SeeksAccounts) :
    (x.start i).Rested := by
  have ho := hx.owned
  have hback : ∀ {j r : Nat} {l : Lookup}, (x.lookups ++ [{ inquiry := i }])[j]? = some l →
      l.resolve = some r → x.lookups[j]? = some l := by
    intro j r l h hr
    rw [getElem?_concat] at h
    split at h
    · obtain rfl := Option.some.inj h
      simp at hr
    · exact h
  refine ⟨hx.sound.withLookups _, ?_, ?_, ?_, ?_, ?_⟩
  · intro l h
    rcases List.mem_append.1 h with h | h
    · exact ho.lookup l h
    · rw [List.mem_singleton] at h
      subst h
      exact ⟨hi, fun _ hr => by simp at hr⟩
  · intro j j' l l' r h h' hr hr'
    exact ho.apart j j' l l' r (hback h hr) (hback h' hr') hr hr'
  · intro j l r h hr hd
    exact ho.alive j l r (hback h hr) hr hd
  · intro j l r h hr hd
    exact ho.given j l r (hback h hr) hr hd
  · intro r s hstage hw
    obtain ⟨j, l, hj, hl⟩ := ho.owner r s hstage hw
    exact ⟨j, l, getElem?_append_of_some hj _, hl⟩

theorem Rested.of_leaves {x x' : Context ν} (hx : x.Rested) (hs : x'.Sound) (h : x.Leaves x') :
    x'.Rested where
  sound := hs
  owned := by
    have ho := hx.owned
    rw [h.lookups]
    refine ⟨ho.lookup, ho.apart, ?_, ?_, ?_⟩
    · intro k l i hl hi hd
      rw [h.stages]
      exact ho.alive k l i hl hi hd
    · intro k l i hl hi hd
      rw [h.stages]
      exact ho.given k l i hl hi hd
    · intro i s hs hw
      rw [h.stages] at hs
      exact ho.owner i s hs hw

/-- The lookups that are started seek accounts, and nothing is forgotten. -/
def Event.LooksUpAccounts : Event → Prop
  | .start i => i.SeeksAccounts
  | .teardown => False
  | _ => True

/-- An event keeps a context at rest. -/
theorem rested_apply {x : Context ν} (hx : x.Rested) (respond : Respondent ν) {e : Event}
    (he : e.LooksUpAccounts) : (x.apply respond e).Rested := by
  cases e with
  | start i => exact hx.start he
  | poll k => exact hx.poll respond k
  | drop k => exact hx.drop k
  | runTalk t =>
    unfold Context.apply
    dsimp only
    split
    · exact hx.of_leaves (hx.sound.runTalk respond t) (runTalk_leaves respond x t)
    · exact hx
  | deliver t answer => exact hx.of_leaves (hx.sound.deliver t answer) (deliver_leaves x t answer)
  | teardown => exact absurd he id

theorem rested_after (respond : Respondent ν) (g : Graph) (node : ν) {events : List Event}
    (he : ∀ e ∈ events, e.LooksUpAccounts) : ((ofGraph g node).after respond events).Rested := by
  induction events using List.reverseRecOn with
  | nil => exact rested_ofGraph g node
  | append_singleton events e ih =>
    rw [after_concat]
    exact rested_apply (ih fun e h => he e (List.mem_append_left _ h)) respond (he e (by simp))

end Context

end NodeRpc
