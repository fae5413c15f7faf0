import NodeRpc.Proofs.Lookup.Lives

/-!
# One load between two clears

Between two clears the first one who comes for a key begins its load, and nobody else does. Whoever
comes later reads the settled entry, or gets what that load comes to, even if the one who began it
has been given up meanwhile.
-/

namespace NodeRpc.Resolves

/-! ### Who comes, and who begins a load -/

/-- Who has his first turn by an event, and asks for `key`. -/
def comes (key : LookupKey) (r : Resolves) : Event → List Nat
  | .run k => if r.keyOf? k = some key ∧ r.stageOf? k = some .fresh then [k] else []
  | _ => []

/-- Who begins a load by an event. -/
def begins (r : Resolves) (e : Event) : List Nat :=
  ((r.apply e).loads.drop r.loads.length).map Load.starter

/-- Who comes for `key` in the course of `a`, which comes after `pre`, in this order. -/
def comers (pre a : List Event) (key : LookupKey) : List Nat :=
  observed apply (comes key) (after pre) a

/-- Who begins a load in the course of `a`, which comes after `pre`. -/
def beginners (pre a : List Event) : List Nat := observed apply begins (after pre) a

/-- Who begins a load of `key` in the course of `a`, which comes after `pre`. -/
def beginnersOf (pre a : List Event) (key : LookupKey) : List Nat :=
  (beginners pre a).filter fun k => (after (pre ++ a)).keyOf? k = some key

theorem after_append (pre a : List Event) : after (pre ++ a) = a.foldl apply (after pre) :=
  List.foldl_append

theorem observed_after_concat {α : Type} (see : Resolves → Event → List α) (pre a : List Event)
    (e : Event) : observed apply see (after pre) (a ++ [e]) =
      observed apply see (after pre) a ++ see (after (pre ++ a)) e := by
  rw [after_append, observed_concat]

/-! ### One event -/

variable {r : Resolves}

theorem length_comes_le (key : LookupKey) (r : Resolves) (e : Event) :
    (r.comes key e).length ≤ 1 := by
  cases e with
  | run k =>
    dsimp only [comes]
    split <;> simp
  | _ => exact Nat.zero_le 1

theorem HangsOn.known {k n : Nat} {key : LookupKey} (h : r.HangsOn k key n)
    (hf : r.stageOf? k = some .fresh) : r.entryOf? key = some (.inFlight n) := by
  cases h with
  | fresh _ he => exact he
  | waiting hw => simp [hf] at hw

theorem mem_comes {key : LookupKey} {k j : Nat} :
    j ∈ r.comes key (.run k) ↔ j = k ∧ r.keyOf? k = some key ∧ r.stageOf? k = some .fresh := by
  dsimp only [comes]
  split
  · next h => simp [h]
  · next h => simp [h]

/-- Only a turn begins a load. -/
theorem begins_of_not_run {e : Event} (he : ∀ k, e ≠ .run k) : r.begins e = [] := by
  have hlen : (r.apply e).loads.length = r.loads.length := by
    cases e with
    | run k => exact absurd rfl (he k)
    | finish n o => simp [apply, finish]
    | drop k => exact congrArg List.length (r.loads_drop k)
    | make key => rfl
    | clear => rfl
  rw [begins, List.drop_eq_nil_of_le (Nat.le_of_eq hlen), List.map_nil]

/-- Only a turn or a clear changes an entry. -/
theorem entryOf?_of_not_run {e : Event} (he : ∀ k, e ≠ .run k) (hc : e ≠ .clear)
    (key : LookupKey) : (r.apply e).entryOf? key = r.entryOf? key := by
  cases e with
  | run k => exact absurd rfl (he k)
  | drop k => exact congrArg (fun s : Scope => s.entries.get? key) (r.scope_drop k)
  | make key => rfl
  | finish n o => rfl
  | clear => exact absurd rfl hc

/-- A turn begins a load if it is the first one and nothing is known of the key. -/
theorem begins_run (hv : r.Valid) {k : Nat} {key : LookupKey} (hkey : r.keyOf? k = some key) :
    r.begins (.run k) =
      if r.stageOf? k = some .fresh ∧ r.entryOf? key = none then [k] else [] := by
  have hturn : Turn r k key (r.apply (.run k)) := run_turn hv.count hkey
  have hnone : ∀ {loads : List Load}, (loads = r.loads) →
      ¬ (r.stageOf? k = some .fresh ∧ r.entryOf? key = none) →
      (loads.drop r.loads.length).map Load.starter =
        if r.stageOf? k = some .fresh ∧ r.entryOf? key = none then [k] else [] := by
    rintro loads rfl hne
    rw [if_neg hne, List.drop_length, List.map_nil]
  have hon : ∀ {n}, r.HangsOn k key n →
      ¬ (r.stageOf? k = some .fresh ∧ r.entryOf? key = none) := by
    rintro n h ⟨hf, he⟩
    have hknown := h.known hf
    simp [he] at hknown
  unfold begins
  generalize r.apply (.run k) = r' at hturn
  cases hturn with
  | idle _ hf => exact hnone rfl fun h => hf h.1
  | read _ he => exact hnone rfl fun h => by simp [he] at h
  | began hf he =>
    rw [if_pos ⟨hf, he⟩]
    simp [begun, setStage]
  | waits h _ => exact hnone rfl (hon h)
  | takes h _ => exact hnone rfl (hon h)

theorem recorded_eq_none_iff (r : Resolves) (key : LookupKey) (o : Loaded) (key' : LookupKey) :
    (r.recorded key o).entryOf? key' = none ↔ r.entryOf? key' = none := by
  rw [entryOf?_recorded]
  cases r.entryOf? key' with
  | none => simp
  | some entry =>
    cases entry with
    | inFlight n => by_cases h : key = key' <;> simp [h]
    | settled o => simp

/-- After the first turn of somebody who asks for a key, it is known. -/
theorem known_run (hv : r.Valid) {k : Nat} {key : LookupKey} (hkey : r.keyOf? k = some key) :
    (r.run k).entryOf? key = none ↔ r.entryOf? key = none ∧ r.stageOf? k ≠ some .fresh := by
  have hturn := run_turn hv.count hkey
  generalize r.run k = r' at hturn
  have hon : ∀ {n}, r.HangsOn k key n → r.entryOf? key = none → r.stageOf? k ≠ some .fresh := by
    intro n h he hf
    have hknown := h.known hf
    simp [he] at hknown
  cases hturn with
  | idle _ hf => exact (and_iff_left hf).symm
  | read _ he =>
    refine (and_iff_left_of_imp fun hnone : r.entryOf? key = none => ?_).symm
    simp [he] at hnone
  | began hf _ =>
    have hentry := (r.entryOf?_begun k key key).trans (if_pos rfl)
    refine iff_of_false (fun hnone => ?_) fun h => h.2 hf
    exact absurd (hentry.symm.trans hnone) (by simp)
  | waits h _ => exact (and_iff_left_of_imp (hon h)).symm
  | @takes n o h _ =>
    exact (r.recorded_eq_none_iff key o key).trans (and_iff_left_of_imp (hon h)).symm

/-- A key becomes known when somebody comes for it, and he begins its load if it was unknown. -/
theorem known_apply (hv : r.Valid) (key : LookupKey) {e : Event} (hc : e ≠ .clear) :
    ((r.apply e).entryOf? key = none ↔ r.entryOf? key = none ∧ r.comes key e = []) ∧
      ((r.begins e).filter fun k => r.keyOf? k = some key) =
        if r.entryOf? key = none then r.comes key e else [] := by
  have hquiet : (r.apply e).entryOf? key = r.entryOf? key →
      ((r.begins e).filter fun k => r.keyOf? k = some key) = [] → r.comes key e = [] →
      ((r.apply e).entryOf? key = none ↔ r.entryOf? key = none ∧ r.comes key e = []) ∧
        ((r.begins e).filter fun k => r.keyOf? k = some key) =
          if r.entryOf? key = none then r.comes key e else [] := by
    intro hentry hbegins hcomes
    rw [hentry, hbegins, hcomes, ite_self]
    exact ⟨(and_iff_left rfl).symm, rfl⟩
  by_cases hrun : ∃ k, e = .run k
  · obtain ⟨k, rfl⟩ := hrun
    cases hkey : r.keyOf? k with
    | none =>
      have hsame : r.apply (.run k) = r := run_of_keyOf?_none hkey
      refine hquiet (by rw [hsame]) ?_ (by simp [comes, hkey])
      rw [begins, hsame, List.drop_length, List.map_nil, List.filter_nil]
    | some key' =>
      by_cases hne : key' = key
      · subst hne
        refine ⟨(known_run hv hkey).trans (and_congr_right fun _ => ?_), ?_⟩
        · by_cases hf : r.stageOf? k = some .fresh <;> simp [comes, hkey, hf]
        · by_cases hf : r.stageOf? k = some .fresh <;>
            by_cases he : r.entryOf? key' = none <;>
            simp [begins_run hv hkey, comes, hkey, hf, he]
      · refine hquiet ((run_turn hv.count hkey).other hkey hne).1 ?_ (by simp [comes, hkey, hne])
        rw [begins_run hv hkey, List.filter_eq_nil_iff]
        intro j hj
        split at hj
        · obtain rfl := List.mem_singleton.1 hj
          simp [hkey, hne]
        · simp at hj
  · have hrun : ∀ k, e ≠ .run k := fun k he => hrun ⟨k, he⟩
    refine hquiet (entryOf?_of_not_run hrun hc key) ?_ ?_
    · rw [begins_of_not_run hrun, List.filter_nil]
    cases e with
    | run k => exact absurd rfl (hrun k)
    | _ => rfl

/-- A settled entry stays until a clear. -/
theorem settled_apply (hv : r.Valid) {key : LookupKey} {o : Loaded}
    (h : r.entryOf? key = some (.settled o)) {e : Event} (hc : e ≠ .clear) :
    (r.apply e).entryOf? key = some (.settled o) := by
  by_cases hrun : ∃ k, e = .run k
  · obtain ⟨k, rfl⟩ := hrun
    cases hkey : r.keyOf? k with
    | none =>
      have hsame : r.apply (.run k) = r := run_of_keyOf?_none hkey
      rw [hsame, h]
    | some key' =>
      have hturn : Turn r k key' (r.apply (.run k)) := run_turn hv.count hkey
      generalize r.apply (.run k) = r' at hturn
      cases hturn with
      | idle _ _ => exact h
      | read _ _ => exact h
      | began _ he =>
        refine (r.entryOf?_begun k key' key).trans ?_
        rw [if_neg, h]
        rintro rfl
        simp [h] at he
      | waits _ _ => exact h
      | takes _ _ =>
        refine (r.entryOf?_recorded key' _ key).trans ?_
        rw [h]
  · rw [entryOf?_of_not_run (fun k he => hrun ⟨k, he⟩) hc, h]

/-- An event adds those who begin a load by it to those who have begun one. -/
theorem starters_apply (hv : r.Valid) (e : Event) :
    (r.apply e).loads.map Load.starter = r.loads.map Load.starter ++ r.begins e := by
  have hold : ((r.apply e).loads.take r.loads.length).map Load.starter =
      r.loads.map Load.starter := by
    cases e with
    | make key => simp [apply, make]
    | finish n o =>
      have hmap : (r.finish n o).loads.map Load.starter = r.loads.map Load.starter :=
        map_modify_of_eq (g := fun l => { l with outcome := some (l.outcome.getD o) })
          (fun _ => rfl) n r.loads
      rw [show r.apply (.finish n o) = r.finish n o from rfl, ← hmap, List.take_of_length_le]
      simp [finish]
    | drop k => simp [apply, r.loads_drop k]
    | clear => simp [apply, clear]
    | run k =>
      cases hkey : r.keyOf? k with
      | none =>
        have hsame : r.apply (.run k) = r := run_of_keyOf?_none hkey
        rw [hsame, List.take_length]
      | some key =>
        have hturn : Turn r k key (r.apply (.run k)) := run_turn hv.count hkey
        generalize r.apply (.run k) = r' at hturn
        cases hturn <;> simp [setStage, begun, recorded]
  rw [begins, ← hold, ← List.map_append, List.take_append_drop]

/-- Who begins a load asks for a key. -/
theorem begins_asks (hv : r.Valid) {e : Event} {k : Nat} (hk : k ∈ r.begins e) :
    (r.keyOf? k).isSome = true := by
  by_cases hrun : ∃ j, e = .run j
  · obtain ⟨j, rfl⟩ := hrun
    cases hkey : r.keyOf? j with
    | none =>
      have hsame : r.apply (.run j) = r := run_of_keyOf?_none hkey
      simp [begins, hsame] at hk
    | some key =>
      rw [begins_run hv hkey] at hk
      split at hk
      · obtain rfl := List.mem_singleton.1 hk
        rw [hkey]
        rfl
      · simp at hk
  · rw [begins_of_not_run fun j he => hrun ⟨j, he⟩] at hk
    simp at hk

/-! ### A run -/

variable {pre a : List Event}

theorem comers_concat (key : LookupKey) (e : Event) :
    comers pre (a ++ [e]) key = comers pre a key ++ (after (pre ++ a)).comes key e :=
  observed_after_concat (comes key) pre a e

theorem beginners_concat (e : Event) :
    beginners pre (a ++ [e]) = beginners pre a ++ (after (pre ++ a)).begins e :=
  observed_after_concat begins pre a e

/-- The loads are those that were begun before and those that are begun in the course of a run. -/
theorem starters_after (pre a : List Event) : (after (pre ++ a)).loads.map Load.starter =
    (after pre).loads.map Load.starter ++ beginners pre a := by
  induction a using List.reverseRecOn with
  | nil => simp [beginners, observed]
  | append_singleton a e ih =>
    rw [beginners_concat, ← List.append_assoc, after_concat, starters_apply (valid_after _), ih,
      List.append_assoc]

/-- Who has begun a load asks for a key. -/
theorem beginners_ask {k : Nat} (hk : k ∈ beginners pre a) :
    ((after (pre ++ a)).keyOf? k).isSome = true := by
  have hk : k ∈ (after (pre ++ a)).loads.map Load.starter := by
    rw [starters_after]
    exact List.mem_append_right _ hk
  obtain ⟨n, hn⟩ := List.getElem?_of_mem hk
  rw [List.getElem?_map] at hn
  obtain ⟨l, hl, rfl⟩ := Option.map_eq_some_iff.1 hn
  have hkey := (valid_after (pre ++ a)).starter n (List.getElem?_eq_some_iff.1 hl).1
  simpa [loadKey?, hl] using hkey

theorem beginnersOf_concat (key : LookupKey) (e : Event) :
    beginnersOf pre (a ++ [e]) key = beginnersOf pre a key ++
      ((after (pre ++ a)).begins e).filter fun k => (after (pre ++ a)).keyOf? k = some key := by
  have hv := valid_after (pre ++ a)
  have hsame : ∀ k, ((after (pre ++ a)).keyOf? k).isSome = true →
      (after (pre ++ (a ++ [e]))).keyOf? k = (after (pre ++ a)).keyOf? k := by
    intro k hk
    obtain ⟨key', hkey'⟩ := Option.isSome_iff_exists.1 hk
    rw [← List.append_assoc, after_concat, hkey', (apply_keeps hv e).key k key' hkey']
  rw [beginnersOf, beginners_concat, List.filter_append]
  congr 1
  · exact List.filter_congr fun k hk => by rw [hsame k (beginners_ask hk)]
  · exact List.filter_congr fun k hk => by rw [hsame k (begins_asks hv hk)]

/-- Who comes first for a key begins its load, and nobody else does. -/
theorem beginnersOf_eq (hpre : Cleared pre) (ha : .clear ∉ a) (key : LookupKey) :
    ((after (pre ++ a)).entryOf? key = none ↔ comers pre a key = []) ∧
      beginnersOf pre a key = (comers pre a key).take 1 := by
  induction a using List.reverseRecOn with
  | nil =>
    refine ⟨?_, rfl⟩
    rw [List.append_nil]
    exact iff_of_true (hpre.entryOf? key) rfl
  | append_singleton a e ih =>
    rw [List.mem_append, not_or] at ha
    obtain ⟨hknown, hbegan⟩ := ih ha.1
    obtain ⟨hknown', hbegan'⟩ :=
      known_apply (valid_after (pre ++ a)) key (e := e) fun he => ha.2 (by simp [he])
    rw [beginnersOf_concat, hbegan, hbegan', comers_concat, ← List.append_assoc, after_concat]
    refine ⟨hknown'.trans ((and_congr_left' hknown).trans List.append_eq_nil_iff.symm), ?_⟩
    by_cases he : (after (pre ++ a)).entryOf? key = none
    · rw [if_pos he, hknown.1 he, List.take_nil, List.nil_append]
      exact (List.take_of_length_le (length_comes_le _ _ _)).symm
    · have hsome : 1 ≤ (comers pre a key).length :=
        List.length_pos_iff.2 fun hnil => he (hknown.2 hnil)
      rw [if_neg he, List.append_nil, List.take_append_of_le_length hsome]

/-! ### The result -/

/-- The load that is under way for a key was begun by the first one who came for it. -/
theorem head?_comers (hpre : Cleared pre) (ha : .clear ∉ a) {key : LookupKey} {n : Nat}
    (he : (after (pre ++ a)).entryOf? key = some (.inFlight n)) :
    ∃ l, (after (pre ++ a)).loads[n]? = some l ∧
      (comers pre a key).head? = some l.starter := by
  obtain ⟨l, hl, hkey⟩ := Option.bind_eq_some_iff.1 ((valid_after (pre ++ a)).entry key n he)
  have hn : (after pre).loads.length ≤ n := by
    cases life_after hpre ha key with
    | untouched he' _ _ => simp [he] at he'
    | @loading n' he' hb _ =>
      obtain rfl : n = n' := by simpa [he] using he'
      exact ((hb n).2 rfl).1
    | kept he' _ _ _ => simp [he] at he'
    | overtaken he' _ _ _ => simp [he] at he'
  have hstarter := congrArg (fun starters : List Nat => starters[n]?) (starters_after pre a)
  rw [List.getElem?_append_right (by simpa using hn), List.getElem?_map, hl] at hstarter
  have hmem : l.starter ∈ beginnersOf pre a key :=
    List.mem_filter.2 ⟨List.mem_of_getElem? hstarter.symm, by simp [hkey]⟩
  rw [(beginnersOf_eq hpre ha key).2] at hmem
  refine ⟨l, hl, ?_⟩
  cases hcomers : comers pre a key with
  | nil => simp [hcomers] at hmem
  | cons k ks => simp_all

/-- Who has returned does not do so again. -/
theorem done_after {events : List Event} {k : Nat} {o : Loaded}
    (h : (after events).stageOf? k = some (.done o)) (more : List Event) :
    (after (events ++ more)).stageOf? k = some (.done o) := by
  induction more using List.reverseRecOn with
  | nil => rwa [List.append_nil]
  | append_singleton more e ih =>
    have hsome : (after (events ++ more)).keyOf? k ≠ none := fun hnone => by
      simp [keyOf?_eq_none.1 hnone] at ih
    obtain ⟨key, hkey⟩ := Option.ne_none_iff_exists'.1 hsome
    obtain ⟨s, hs, hnext⟩ := stage_apply (valid_after _) hkey ih e
    rw [← List.append_assoc, after_concat, hs]
    cases hnext with
    | same => rfl
    | dropped hne => exact absurd rfl (hne o)
    | waits hon =>
      cases hon with
      | fresh hf _ => simp [ih] at hf
      | waiting hw => simp [ih] at hw
    | takes hon _ =>
      cases hon with
      | fresh hf _ => simp [ih] at hf
      | waiting hw => simp [ih] at hw

/-- How a scope that has just been cleared goes through the events `a`, which come after `pre`. -/
structure SingleFlight (pre a : List Event) : Prop where
  /-- Who comes first for a key begins its load, and nobody else does. -/
  first : ∀ key, beginnersOf pre a key = (comers pre a key).take 1
  /-- Who comes later reads the settled entry, or gets what the load of the first one comes to. -/
  later : ∀ key b k c, a = b ++ .run k :: c → k ∈ (after (pre ++ b)).comes key (.run k) →
    comers pre b key ≠ [] →
    (∃ o, (after (pre ++ b)).entryOf? key = some (.settled o) ∧
      ∀ more, (after (pre ++ b ++ .run k :: more)).stageOf? k = some (.done o)) ∨
    ∃ n l, (after (pre ++ b)).loads[n]? = some l ∧ (comers pre b key).head? = some l.starter ∧
      ∀ more, (after (pre ++ b ++ .run k :: more)).Follows k n
  /-- A settled entry stays as it is. -/
  settled : ∀ key o b c, a = b ++ c → (after (pre ++ b)).entryOf? key = some (.settled o) →
    (after (pre ++ a)).entryOf? key = some (.settled o)
  /-- The count of loads grows by one for each that is begun. -/
  counted : (after (pre ++ a)).scope.loads = (after pre).scope.loads + (beginners pre a).length

theorem single_flight (hpre : Cleared pre) (ha : .clear ∉ a) : SingleFlight pre a where
  first key := (beginnersOf_eq hpre ha key).2
  later key b k c hsplit hk hcomers := by
    have hb : .clear ∉ b := fun h => ha (hsplit ▸ List.mem_append_left _ h)
    have hv := valid_after (pre ++ b)
    obtain ⟨_, hkey, hfresh⟩ := mem_comes.1 hk
    have hone : after (pre ++ b ++ [.run k]) = (after (pre ++ b)).run k := after_concat _ _
    have hmore : ∀ more, pre ++ b ++ .run k :: more = pre ++ b ++ [.run k] ++ more := by simp
    rcases first_turn hv hkey hfresh with ⟨o, he, hdone⟩ | ⟨n, he, _, hfollows⟩
    · refine .inl ⟨o, he, fun more => ?_⟩
      rw [hmore]
      exact done_after (by rw [hone, hdone]) more
    · rcases he with ⟨he, _⟩ | he
      · exact absurd ((beginnersOf_eq hpre hb key).1.1 he) hcomers
      · obtain ⟨l, hl, hhead⟩ := head?_comers hpre hb he
        refine .inr ⟨n, l, hl, hhead, fun more => ?_⟩
        rw [hmore]
        have hkey' : (after (pre ++ b ++ [.run k])).keyOf? k = some key := by
          rw [hone]
          exact (apply_keeps hv (.run k)).key k key hkey
        exact follows_after hkey' (by rwa [hone]) more
  settled key o b c hsplit h := by
    have hc : .clear ∉ c := fun h => ha (hsplit ▸ List.mem_append_right _ h)
    rw [hsplit, ← List.append_assoc]
    clear hsplit
    induction c using List.reverseRecOn with
    | nil => rwa [List.append_nil]
    | append_singleton c e ih =>
      rw [List.mem_append, not_or] at hc
      rw [← List.append_assoc, after_concat]
      exact settled_apply (valid_after _) (ih hc.1) fun he => hc.2 (by simp [he])
  counted := by
    have hstarters := congrArg List.length (starters_after pre a)
    rw [List.length_append, List.length_map, List.length_map] at hstarters
    rw [(valid_after (pre ++ a)).count, (valid_after pre).count, hstarters]

/-- Who began a load after the clear is given up, the next one waits for the load, it fails, and the
last one reads the failure. -/
def givenUp : List Event :=
  [.make ⟨"slot"⟩, .run 1, .make ⟨"slot"⟩, .run 2, .drop 1, .finish 1 (.error .cancelled), .run 2,
    .make ⟨"slot"⟩, .run 3]

/-- Nobody but the one who was given up has begun a load. -/
theorem single_flight_given_up : beginnersOf untilClear givenUp ⟨"slot"⟩ = [1] := by
  have hflight : SingleFlight untilClear givenUp :=
    single_flight (.inr ⟨[.make ⟨"slot"⟩, .run 0], rfl⟩) (by decide)
  have hcomers : comers untilClear givenUp ⟨"slot"⟩ = [1, 2, 3] := by decide
  rw [hflight.first, hcomers, List.take_succ_cons, List.take_zero]

end NodeRpc.Resolves
