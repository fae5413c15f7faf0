import Mathlib.Data.List.Induction
import NodeRpc.Lookup.Run

/-!
# What a turn of a resolve does

A turn reads the entry of the key, begins a load, waits for one, or takes the outcome of one and
records it in the entry: `Turn` lists these, and `run_turn` shows that there is nothing else. Keys,
starters and outcomes stay what they are, whatever happens: `Keeps` says so.
-/

namespace NodeRpc

namespace Scope

theorem entries_settle (s : Scope) (key : LookupKey) (outcome : Loaded) (key' : LookupKey) :
    (s.settle key outcome).entries.get? key' =
      match s.entries.get? key' with
      | some (.inFlight n) => if key = key' then some (.settled outcome) else some (.inFlight n)
      | entry => entry := by
  unfold settle
  split
  · next n hn =>
    dsimp only
    rw [Table.get?_put]
    by_cases hk : key = key'
    · subst hk
      simp [hn]
    · simp only [hk, if_false]
      split <;> simp_all
  · next hne =>
    split
    · next n hn =>
      by_cases hk : key = key'
      · subst hk
        exact absurd hn (hne n)
      · rw [if_neg hk, hn]
    · rfl

theorem loads_settle (s : Scope) (key : LookupKey) (outcome : Loaded) :
    (s.settle key outcome).loads = s.loads := by
  unfold settle
  split <;> rfl

end Scope

namespace Resolves

/-! ### What is seen of the state -/

/-- What resolve `k` asks for. -/
def keyOf? (r : Resolves) (k : Nat) : Option LookupKey := (r.resolves[k]?).map Resolve.key

/-- How far resolve `k` has come. -/
def stageOf? (r : Resolves) (k : Nat) : Option ResolveStage := (r.resolves[k]?).map Resolve.stage

/-- The key that load `n` was begun for. -/
def loadKey? (r : Resolves) (n : Nat) : Option LookupKey :=
  (r.loads[n]?).bind fun l => r.keyOf? l.starter

/-- What load `n` has come to. -/
def outcomeOf? (r : Resolves) (n : Nat) : Option Loaded := (r.loads[n]?).bind Load.outcome

/-- The entry of a key. -/
def entryOf? (r : Resolves) (key : LookupKey) : Option ScopeEntry := r.scope.entries.get? key

theorem keyOf?_setStage (r : Resolves) (k : Nat) (stage : ResolveStage) (j : Nat) :
    (r.setStage k stage).keyOf? j = r.keyOf? j := by
  unfold keyOf? setStage
  rw [List.getElem?_modify]
  cases r.resolves[j]? with
  | none => rfl
  | some x => by_cases h : k = j <;> simp [h]

theorem stageOf?_setStage (r : Resolves) (k : Nat) (stage : ResolveStage) (j : Nat) :
    (r.setStage k stage).stageOf? j =
      if k = j then (r.stageOf? j).map fun _ => stage else r.stageOf? j := by
  unfold stageOf? setStage
  rw [List.getElem?_modify]
  cases r.resolves[j]? with
  | none => simp
  | some x => by_cases h : k = j <;> simp [h]

theorem loadKey?_setStage (r : Resolves) (k : Nat) (stage : ResolveStage) (n : Nat) :
    (r.setStage k stage).loadKey? n = r.loadKey? n := by
  have h : (r.setStage k stage).keyOf? = r.keyOf? := funext (r.keyOf?_setStage k stage)
  unfold loadKey?
  rw [h]
  rfl

/-! ### Giving up -/

theorem loads_drop (r : Resolves) (k : Nat) : (r.drop k).loads = r.loads := by
  unfold drop
  split
  · split <;> rfl
  · rfl

theorem scope_drop (r : Resolves) (k : Nat) : (r.drop k).scope = r.scope := by
  unfold drop
  split
  · split <;> rfl
  · rfl

theorem length_drop (r : Resolves) (k : Nat) :
    (r.drop k).resolves.length = r.resolves.length := by
  unfold drop
  split
  · split <;> simp [setStage]
  · rfl

theorem keyOf?_drop (r : Resolves) (k j : Nat) : (r.drop k).keyOf? j = r.keyOf? j := by
  unfold drop
  split
  · split
    · exact r.keyOf?_setStage k _ j
    · exact r.keyOf?_setStage k _ j
    · rfl
    · rfl
  · rfl

theorem stageOf?_drop (r : Resolves) (k j : Nat) :
    (r.drop k).stageOf? j =
      if k = j then (r.stageOf? j).map fun s =>
        match s with
        | .done o => .done o
        | _ => .dropped
      else r.stageOf? j := by
  unfold drop
  cases hx : r.resolves[k]? with
  | none =>
    by_cases hj : k = j
    · subst hj
      simp [stageOf?, hx]
    · simp [hj]
  | some x =>
    have hstage : r.stageOf? k = some x.stage := by simp [stageOf?, hx]
    have hgive : x.stage = .fresh ∨ (∃ n, x.stage = .waiting n) →
        (r.setStage k .dropped).stageOf? j = if k = j then (r.stageOf? j).map fun s =>
          match s with
          | .done o => .done o
          | _ => .dropped
        else r.stageOf? j := by
      intro hs
      rw [stageOf?_setStage]
      by_cases hj : k = j
      · subst hj
        rcases hs with hs | ⟨n, hs⟩ <;> simp [hstage, hs]
      · simp [hj]
    dsimp only
    split
    · next hs => exact hgive (.inl hs)
    · next n hs => exact hgive (.inr ⟨n, hs⟩)
    · next o hs =>
      by_cases hj : k = j
      · subst hj
        simp [hstage, hs]
      · simp [hj]
    · next hs =>
      by_cases hj : k = j
      · subst hj
        simp [hstage, hs]
      · simp [hj]

/-! ### Turns -/

/-- Load `n` is the one that resolve `k`, which asks for `key`, hangs on: it waits for it, or finds
it under way. -/
inductive HangsOn (r : Resolves) (k : Nat) (key : LookupKey) (n : Nat) : Prop where
  | fresh (h : r.stageOf? k = some .fresh) (he : r.entryOf? key = some (.inFlight n))
  | waiting (h : r.stageOf? k = some (.waiting n))

/-- The scope after load `n` was begun for `key` by resolve `k`. -/
def begun (r : Resolves) (k : Nat) (key : LookupKey) : Resolves :=
  { r with
    scope := ⟨r.scope.entries.put key (.inFlight r.scope.loads), r.scope.loads + 1⟩
    loads := r.loads ++ [{ starter := k }] }

/-- The scope after an outcome of `key` was recorded. -/
def recorded (r : Resolves) (key : LookupKey) (outcome : Loaded) : Resolves :=
  { r with scope := r.scope.settle key outcome }

/-- What a turn of resolve `k`, which asks for `key`, can do. -/
inductive Turn (r : Resolves) (k : Nat) (key : LookupKey) : Resolves → Prop where
  | idle (h : ∀ n, ¬ r.HangsOn k key n) (hf : r.stageOf? k ≠ some .fresh) : Turn r k key r
  | read {outcome : Loaded} (h : r.stageOf? k = some .fresh)
      (he : r.entryOf? key = some (.settled outcome)) :
      Turn r k key (r.setStage k (.done outcome))
  | began (h : r.stageOf? k = some .fresh) (he : r.entryOf? key = none) :
      Turn r k key ((r.begun k key).setStage k (.waiting r.loads.length))
  | waits {n : Nat} (h : r.HangsOn k key n) (ho : r.outcomeOf? n = none) :
      Turn r k key (r.setStage k (.waiting n))
  | takes {n : Nat} {outcome : Loaded} (h : r.HangsOn k key n)
      (ho : r.outcomeOf? n = some outcome) :
      Turn r k key ((r.recorded key outcome).setStage k (.done outcome))

theorem take_turn {r : Resolves} {k n : Nat} {x : Resolve} (h : r.HangsOn k x.key n) :
    Turn r k x.key (r.take k x n) := by
  unfold take
  split
  · next outcome ho => exact .takes h ho
  · next ho => exact .waits h ho

theorem keyOf?_eq_none {r : Resolves} {k : Nat} : r.keyOf? k = none ↔ r.stageOf? k = none := by
  simp [keyOf?, stageOf?]

/-- A resolve that is not there does nothing. -/
theorem run_of_keyOf?_none {r : Resolves} {k : Nat} (h : r.keyOf? k = none) : r.run k = r := by
  have hx : r.resolves[k]? = none := by simpa [keyOf?] using h
  simp [run, hx]

/-- A turn of a resolve that is there does one of these things. -/
theorem run_turn {r : Resolves} (hcount : r.scope.loads = r.loads.length) {k : Nat}
    {key : LookupKey} (hkey : r.keyOf? k = some key) : Turn r k key (r.run k) := by
  obtain ⟨x, hx, rfl⟩ := Option.map_eq_some_iff.1 hkey
  have hstage : r.stageOf? k = some x.stage := by simp [stageOf?, hx]
  unfold run
  rw [hx]
  dsimp only
  split
  · next hf =>
    rw [hf] at hstage
    unfold Scope.enter
    cases he : r.scope.entries.get? x.key with
    | none =>
      have htake : (r.begun k x.key).take k x r.scope.loads =
          (r.begun k x.key).setStage k (.waiting r.loads.length) := by
        simp [take, begun, hcount]
      simp only [Nat.succ_ne_self, if_false]
      have hbegan := Turn.began hstage he
      rw [← htake] at hbegan
      exact hbegan
    | some entry =>
      cases entry with
      | inFlight n =>
        simp only [if_true]
        exact take_turn (.fresh hstage he)
      | settled outcome => exact .read hstage he
  · next n hw => exact take_turn (.waiting (by rw [hstage, hw]))
  · next o hd =>
    refine .idle (fun n h => ?_) (by simp [hstage, hd])
    cases h <;> simp_all
  · next hd =>
    refine .idle (fun n h => ?_) (by simp [hstage, hd])
    cases h <;> simp_all

/-! ### What stays -/

/-- Keys, the keys of loads, and their outcomes stay. -/
structure Keeps (r r' : Resolves) : Prop where
  key : ∀ k key, r.keyOf? k = some key → r'.keyOf? k = some key
  loadKey : ∀ n key, r.loadKey? n = some key → r'.loadKey? n = some key
  outcome : ∀ n o, r.outcomeOf? n = some o → r'.outcomeOf? n = some o

theorem Keeps.refl (r : Resolves) : r.Keeps r := ⟨fun _ _ h => h, fun _ _ h => h, fun _ _ h => h⟩

theorem Keeps.trans {r r' r'' : Resolves} (h : r.Keeps r') (h' : r'.Keeps r'') : r.Keeps r'' :=
  ⟨fun k key hk => h'.key k key (h.key k key hk),
    fun n key hn => h'.loadKey n key (h.loadKey n key hn),
    fun n o hn => h'.outcome n o (h.outcome n o hn)⟩

theorem keeps_of_loads {r r' : Resolves} (hkey : ∀ k key, r.keyOf? k = some key →
    r'.keyOf? k = some key) (hloads : ∀ (n : Nat) (l : Load), r.loads[n]? = some l →
      ∃ l' : Load, r'.loads[n]? = some l' ∧ l'.starter = l.starter ∧
        ∀ o, l.outcome = some o → l'.outcome = some o) : r.Keeps r' := by
  refine ⟨hkey, ?_, ?_⟩
  · intro n key h
    obtain ⟨l, hl, hk⟩ := Option.bind_eq_some_iff.1 h
    obtain ⟨l', hl', hstarter, _⟩ := hloads n l hl
    exact Option.bind_eq_some_iff.2 ⟨l', hl', hkey _ _ (hstarter ▸ hk)⟩
  · intro n o h
    obtain ⟨l, hl, ho⟩ := Option.bind_eq_some_iff.1 h
    obtain ⟨l', hl', _, houtcome⟩ := hloads n l hl
    exact Option.bind_eq_some_iff.2 ⟨l', hl', houtcome o ho⟩

theorem getElem?_make (r : Resolves) (key : LookupKey) (k : Nat) :
    (r.make key).resolves[k]? = if k = r.resolves.length then some { key } else r.resolves[k]? :=
  getElem?_concat r.resolves { key } k

theorem make_keeps (r : Resolves) (key : LookupKey) : r.Keeps (r.make key) := by
  refine keeps_of_loads (fun k key' h => ?_) fun n l h => ⟨l, h, rfl, fun _ ho => ho⟩
  have hk : k ≠ r.resolves.length := by
    rintro rfl
    simp [keyOf?] at h
  unfold keyOf?
  rw [getElem?_make, if_neg hk]
  exact h

theorem setStage_keeps (r : Resolves) (k : Nat) (stage : ResolveStage) :
    r.Keeps (r.setStage k stage) :=
  keeps_of_loads (fun j _ h => (r.keyOf?_setStage k stage j).trans h)
    fun _ l h => ⟨l, h, rfl, fun _ ho => ho⟩

theorem begun_keeps (r : Resolves) (k : Nat) (key : LookupKey) : r.Keeps (r.begun k key) :=
  keeps_of_loads (fun _ _ h => h) fun _ l h =>
    ⟨l, getElem?_append_of_some h _, rfl, fun _ ho => ho⟩

theorem recorded_keeps (r : Resolves) (key : LookupKey) (outcome : Loaded) :
    r.Keeps (r.recorded key outcome) :=
  ⟨fun _ _ h => h, fun _ _ h => h, fun _ _ h => h⟩

theorem finish_keeps (r : Resolves) (n : Nat) (outcome : Loaded) :
    r.Keeps (r.finish n outcome) := by
  refine keeps_of_loads (fun _ _ h => h) fun m l h => ?_
  unfold finish
  dsimp only
  rw [List.getElem?_modify, h]
  by_cases hn : n = m
  · exact ⟨{ l with outcome := some (l.outcome.getD outcome) }, by simp [hn], rfl,
      fun o ho => by simp [ho]⟩
  · exact ⟨l, by simp [hn], rfl, fun _ ho => ho⟩

theorem Turn.keeps {r r' : Resolves} {k : Nat} {key : LookupKey} (h : Turn r k key r') :
    r.Keeps r' := by
  cases h with
  | idle _ _ => exact .refl r
  | read _ _ => exact r.setStage_keeps k _
  | began _ _ => exact (r.begun_keeps k key).trans (setStage_keeps _ k _)
  | waits _ _ => exact r.setStage_keeps k _
  | takes _ _ => exact (r.recorded_keeps key _).trans (setStage_keeps _ k _)

/-! ### What holds at all times -/

/-- What holds of a scope and those who ask at all times. -/
structure Valid (r : Resolves) : Prop where
  count : r.scope.loads = r.loads.length
  starter : ∀ n, n < r.loads.length → (r.loadKey? n).isSome = true
  /-- The load of an entry was begun for its key. -/
  entry : ∀ key n, r.entryOf? key = some (.inFlight n) → r.loadKey? n = some key
  /-- Who waits for a load asks for the key that it was begun for. -/
  waiting : ∀ k key n, r.keyOf? k = some key → r.stageOf? k = some (.waiting n) →
    r.loadKey? n = some key

theorem valid_empty : Valid {} where
  count := rfl
  starter n h := absurd h (Nat.not_lt_zero n)
  entry key n h := by simp [entryOf?, Table.get?] at h
  waiting k key n h := by simp [keyOf?] at h

theorem Valid.hangsOn {r : Resolves} (hv : r.Valid) {k n : Nat} {key : LookupKey}
    (hkey : r.keyOf? k = some key) (h : r.HangsOn k key n) : r.loadKey? n = some key := by
  cases h with
  | fresh _ he => exact hv.entry key n he
  | waiting h => exact hv.waiting k key n hkey h

theorem run_keeps (r : Resolves) (hcount : r.scope.loads = r.loads.length) (k : Nat) :
    r.Keeps (r.run k) := by
  cases hkey : r.keyOf? k with
  | none =>
    rw [run_of_keyOf?_none hkey]
    exact .refl r
  | some key => exact (run_turn hcount hkey).keeps

theorem apply_keeps {r : Resolves} (hv : r.Valid) (e : Event) : r.Keeps (r.apply e) := by
  cases e with
  | make key => exact r.make_keeps key
  | run k => exact r.run_keeps hv.count k
  | finish n outcome => exact r.finish_keeps n outcome
  | drop k =>
    unfold apply drop
    dsimp only
    split
    · split
      · exact r.setStage_keeps k _
      · exact r.setStage_keeps k _
      · exact .refl r
      · exact .refl r
    · exact .refl r
  | clear => exact ⟨fun _ _ h => h, fun _ _ h => h, fun _ _ h => h⟩

/-- Where no load is begun, every load keeps its key, and none gets a new one. -/
theorem Valid.loadKey?_eq {r r' : Resolves} (hv : r.Valid) (hk : r.Keeps r')
    (hlen : r'.loads.length = r.loads.length) (n : Nat) : r'.loadKey? n = r.loadKey? n := by
  by_cases hn : n < r.loads.length
  · obtain ⟨key, hkey⟩ := Option.isSome_iff_exists.1 (hv.starter n hn)
    rw [hkey, hk.loadKey n key hkey]
  · have hnone : r.loads[n]? = none := List.getElem?_eq_none (by omega)
    have hnone' : r'.loads[n]? = none := List.getElem?_eq_none (by omega)
    simp [loadKey?, hnone, hnone']

/-- A step that begins no load keeps the scope valid, if every entry that names a load and everybody
who waits for one did so before, or does so rightly. -/
theorem Valid.step {r r' : Resolves} (hv : r.Valid) (hk : r.Keeps r')
    (hlen : r'.loads.length = r.loads.length) (hloads : r'.scope.loads = r.scope.loads)
    (hentry : ∀ key n, r'.entryOf? key = some (.inFlight n) → r.entryOf? key = some (.inFlight n))
    (hwaiting : ∀ k key n, r'.keyOf? k = some key → r'.stageOf? k = some (.waiting n) →
      r.loadKey? n = some key) : r'.Valid where
  count := by rw [hloads, hlen, hv.count]
  starter n hn := by
    rw [hv.loadKey?_eq hk hlen]
    exact hv.starter n (hlen ▸ hn)
  entry key n h := hk.loadKey n key (hv.entry key n (hentry key n h))
  waiting k key n hkey h := hk.loadKey n key (hwaiting k key n hkey h)

theorem Valid.setStage {r : Resolves} (hv : r.Valid) {k : Nat} {stage : ResolveStage}
    (h : ∀ key n, r.keyOf? k = some key → stage = .waiting n → r.loadKey? n = some key) :
    (r.setStage k stage).Valid := by
  refine hv.step (r.setStage_keeps k stage) rfl rfl (fun _ _ he => he) fun j key n hkey hw => ?_
  rw [keyOf?_setStage] at hkey
  rw [stageOf?_setStage] at hw
  split at hw
  · next hj =>
    obtain ⟨_, _, hstage⟩ := Option.map_eq_some_iff.1 hw
    exact h key n (hj ▸ hkey) hstage
  · exact hv.waiting j key n hkey hw

theorem loadKey?_begun {r : Resolves} {k : Nat} {key : LookupKey} (hkey : r.keyOf? k = some key)
    (n : Nat) : (r.begun k key).loadKey? n =
      if n = r.loads.length then some key else r.loadKey? n := by
  have hloads : (r.begun k key).loads = r.loads ++ [{ starter := k }] := rfl
  have hkeys : (r.begun k key).keyOf? = r.keyOf? := rfl
  unfold loadKey?
  rw [hloads, hkeys, getElem?_concat]
  split
  · exact hkey
  · rfl

theorem entryOf?_begun (r : Resolves) (k : Nat) (key key' : LookupKey) :
    (r.begun k key).entryOf? key' =
      if key = key' then some (.inFlight r.scope.loads) else r.entryOf? key' := by
  unfold entryOf? begun
  dsimp only
  rw [Table.get?_put]

theorem Valid.begun {r : Resolves} (hv : r.Valid) {k : Nat} {key : LookupKey}
    (hkey : r.keyOf? k = some key) : (r.begun k key).Valid where
  count := by simp [Resolves.begun, hv.count]
  starter n hn := by
    rw [loadKey?_begun hkey]
    split
    · rfl
    · next hne =>
      have hlen : n < r.loads.length + 1 := by simpa [Resolves.begun] using hn
      exact hv.starter n (by omega)
  entry key' n h := by
    rw [entryOf?_begun] at h
    split at h
    · next heq =>
      have hn : r.scope.loads = n := by simpa using h
      rw [loadKey?_begun hkey, if_pos (by rw [← hn, hv.count]), heq]
    · exact (r.begun_keeps k key).loadKey n key' (hv.entry key' n h)
  waiting j key' n hj h := (r.begun_keeps k key).loadKey n key' (hv.waiting j key' n hj h)

theorem Valid.recorded {r : Resolves} (hv : r.Valid) (key : LookupKey) (outcome : Loaded) :
    (r.recorded key outcome).Valid := by
  refine hv.step (r.recorded_keeps key outcome) rfl (Scope.loads_settle _ _ _)
    (fun key' n h => ?_) hv.waiting
  unfold entryOf? Resolves.recorded at h
  dsimp only at h
  rw [Scope.entries_settle] at h
  split at h
  · next m hm =>
    split at h
    · simp at h
    · exact hm.trans h
  · exact h

theorem Turn.valid {r r' : Resolves} (hv : r.Valid) {k : Nat} {key : LookupKey}
    (hkey : r.keyOf? k = some key) (h : Turn r k key r') : r'.Valid := by
  cases h with
  | idle _ _ => exact hv
  | read _ _ => exact hv.setStage (by simp)
  | began _ _ =>
    refine (hv.begun hkey).setStage fun key' n hkey' hn => ?_
    obtain rfl := ResolveStage.waiting.inj hn
    rw [loadKey?_begun hkey, if_pos rfl]
    exact hkey.symm.trans hkey'
  | waits h _ =>
    refine hv.setStage fun key' n hkey' hn => ?_
    obtain rfl := ResolveStage.waiting.inj hn
    rw [hv.hangsOn hkey h]
    exact hkey.symm.trans hkey'
  | takes _ _ => exact (hv.recorded key _).setStage (by simp)

theorem valid_apply {r : Resolves} (hv : r.Valid) (e : Event) : (r.apply e).Valid := by
  have hkeeps := apply_keeps hv e
  cases e with
  | make key =>
    refine hv.step hkeeps rfl rfl (fun _ _ h => h) fun k key' n hkey h => ?_
    unfold keyOf? stageOf? apply at *
    dsimp only at hkey h
    rw [getElem?_make] at hkey h
    split at h
    · simp at h
    · next hne =>
      rw [if_neg hne] at hkey
      exact hv.waiting k key' n hkey h
  | run k =>
    cases hkey : r.keyOf? k with
    | none =>
      unfold apply
      dsimp only
      rwa [run_of_keyOf?_none hkey]
    | some key => exact (run_turn hv.count hkey).valid hv hkey
  | finish n outcome =>
    have hlen : (r.finish n outcome).loads.length = r.loads.length := by simp [finish]
    exact hv.step hkeeps hlen rfl (fun _ _ h => h) hv.waiting
  | drop k =>
    unfold apply drop
    dsimp only
    split
    · split
      · exact hv.setStage (by simp)
      · exact hv.setStage (by simp)
      · exact hv
      · exact hv
    · exact hv
  | clear =>
    refine hv.step hkeeps rfl rfl (fun key n h => ?_) hv.waiting
    simp [entryOf?, apply, clear, Scope.clear, Table.get?] at h

theorem valid_after (events : List Event) : (after events).Valid := by
  induction events using List.reverseRecOn with
  | nil => exact valid_empty
  | append_singleton events e ih =>
    rw [after_concat]
    exact valid_apply ih e

theorem after_append_keeps (events more : List Event) :
    (after events).Keeps (after (events ++ more)) := by
  induction more using List.reverseRecOn with
  | nil => simpa using Keeps.refl _
  | append_singleton more e ih =>
    rw [← List.append_assoc, after_concat]
    exact ih.trans (apply_keeps (valid_after _) e)

/-! ### Where outcomes come from -/

/-- A load of `key` has come to `o`. -/
def LoadedAs (r : Resolves) (key : LookupKey) (o : Loaded) : Prop :=
  ∃ n, r.loadKey? n = some key ∧ r.outcomeOf? n = some o

/-- What is remembered of a key, or was returned to somebody who asked for it, is what a load of the
key has come to. -/
structure Sourced (r : Resolves) : Prop where
  entry : ∀ key o, r.entryOf? key = some (.settled o) → r.LoadedAs key o
  done : ∀ k key o, r.keyOf? k = some key → r.stageOf? k = some (.done o) → r.LoadedAs key o

theorem Keeps.loadedAs {r r' : Resolves} (h : r.Keeps r') {key : LookupKey} {o : Loaded}
    (hl : r.LoadedAs key o) : r'.LoadedAs key o := by
  obtain ⟨n, hkey, ho⟩ := hl
  exact ⟨n, h.loadKey n key hkey, h.outcome n o ho⟩

/-- Where entries and stages stay, so does where they come from. -/
theorem Sourced.of_keeps {r r' : Resolves} (hs : r.Sourced) (h : r.Keeps r')
    (hentry : ∀ key o, r'.entryOf? key = some (.settled o) →
      r.entryOf? key = some (.settled o) ∨ r.LoadedAs key o)
    (hdone : ∀ k key o, r'.keyOf? k = some key → r'.stageOf? k = some (.done o) →
      r.keyOf? k = some key ∧ (r.stageOf? k = some (.done o) ∨ r.LoadedAs key o)) : r'.Sourced where
  entry key o he := by
    rcases hentry key o he with he | hl
    · exact h.loadedAs (hs.entry key o he)
    · exact h.loadedAs hl
  done k key o hkey hd := by
    obtain ⟨hkey, hd | hl⟩ := hdone k key o hkey hd
    · exact h.loadedAs (hs.done k key o hkey hd)
    · exact h.loadedAs hl

theorem Turn.sourced {r r' : Resolves} (hv : r.Valid) (hs : r.Sourced) {j : Nat} {key : LookupKey}
    (hkey : r.keyOf? j = some key) (h : Turn r j key r') : r'.Sourced := by
  have hkeeps := h.keeps
  -- the stage of `j` alone changes, to one that is done only with what `key` was loaded as
  have hstage : ∀ {q : Resolves} {stage : ResolveStage}, (∀ k, q.keyOf? k = r.keyOf? k) →
      (∀ k, q.stageOf? k = r.stageOf? k) → (∀ o, stage = .done o → r.LoadedAs key o) →
      ∀ k key' o, (q.setStage j stage).keyOf? k = some key' →
        (q.setStage j stage).stageOf? k = some (.done o) →
        r.keyOf? k = some key' ∧ (r.stageOf? k = some (.done o) ∨ r.LoadedAs key' o) := by
    intro q stage hqkey hqstage hload k key' o hk hd
    rw [keyOf?_setStage, hqkey] at hk
    rw [stageOf?_setStage, hqstage] at hd
    refine ⟨hk, ?_⟩
    split at hd
    · next hjk =>
      subst hjk
      obtain ⟨_, _, rfl⟩ := Option.map_eq_some_iff.1 hd
      obtain rfl := Option.some.inj (hk.symm.trans hkey)
      exact .inr (hload o rfl)
    · exact .inl hd
  cases h with
  | idle _ _ => exact hs
  | read _ he =>
    refine hs.of_keeps hkeeps (fun _ _ h => .inl h)
      (hstage (fun _ => rfl) (fun _ => rfl) fun o ho => ?_)
    obtain rfl := ResolveStage.done.inj ho
    exact hs.entry key _ he
  | began _ _ =>
    refine hs.of_keeps hkeeps (fun key' o h => ?_)
      (hstage (q := r.begun j key) (fun _ => rfl) (fun _ => rfl) fun o ho => by simp at ho)
    have h := (r.entryOf?_begun j key key').symm.trans h
    split at h
    · simp at h
    · exact .inl h
  | waits _ _ =>
    exact hs.of_keeps hkeeps (fun _ _ h => .inl h)
      (hstage (fun _ => rfl) (fun _ => rfl) fun o ho => by simp at ho)
  | @takes n o hon ho =>
    have hload : r.LoadedAs key o := ⟨n, hv.hangsOn hkey hon, ho⟩
    refine hs.of_keeps hkeeps (fun key' o' h => ?_)
      (hstage (q := r.recorded key o) (fun _ => rfl) (fun _ => rfl) fun o' ho' => ?_)
    · have h := (Scope.entries_settle r.scope key o key').symm.trans h
      split at h
      · split at h
        · next hk =>
          obtain rfl := ScopeEntry.settled.inj (Option.some.inj h)
          exact .inr (hk ▸ hload)
        · simp at h
      · exact .inl h
    · obtain rfl := ResolveStage.done.inj ho'
      exact hload

theorem sourced_apply {r : Resolves} (hv : r.Valid) (hs : r.Sourced) (e : Event) :
    (r.apply e).Sourced := by
  have hkeeps := apply_keeps hv e
  cases e with
  | make key =>
    refine hs.of_keeps hkeeps (fun _ _ h => .inl h) fun k key' o hkey hd => ?_
    unfold keyOf? stageOf? apply at *
    dsimp only at hkey hd
    rw [getElem?_make] at hkey hd
    split at hd
    · simp at hd
    · next hne => exact ⟨by rwa [if_neg hne] at hkey, .inl hd⟩
  | run k =>
    cases hkey : r.keyOf? k with
    | none =>
      rw [show r.apply (.run k) = r from run_of_keyOf?_none hkey]
      exact hs
    | some key => exact (run_turn hv.count hkey).sourced hv hs hkey
  | finish n o => exact hs.of_keeps hkeeps (fun _ _ h => .inl h) fun _ _ _ hk hd => ⟨hk, .inl hd⟩
  | drop j =>
    refine hs.of_keeps hkeeps (fun key o h => .inl ?_) fun k key o hk hd => ?_
    · rw [← h]
      exact (congrArg (fun s : Scope => s.entries.get? key) (r.scope_drop j)).symm
    · have hd := (r.stageOf?_drop j k).symm.trans hd
      refine ⟨(r.keyOf?_drop j k).symm.trans hk, .inl ?_⟩
      split at hd
      · obtain ⟨s, hs, hgiven⟩ := Option.map_eq_some_iff.1 hd
        cases s <;> simp_all
      · exact hd
  | clear =>
    refine hs.of_keeps hkeeps (fun key o h => ?_) fun _ _ _ hk hd => ⟨hk, .inl hd⟩
    simp [entryOf?, apply, clear, Scope.clear, Table.get?] at h

theorem sourced_after (events : List Event) : (after events).Sourced := by
  induction events using List.reverseRecOn with
  | nil =>
    refine ⟨fun key o h => ?_, fun k key o h _ => ?_⟩
    · simp [after, entryOf?, Table.get?] at h
    · simp [after, keyOf?] at h
  | append_singleton events e ih =>
    rw [after_concat]
    exact sourced_apply (valid_after events) ih e

end Resolves

end NodeRpc
