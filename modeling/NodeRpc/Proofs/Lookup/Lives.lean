import NodeRpc.Proofs.Lookup.Resolves

/-!
# What is returned between two clears

Between two clears a key is loaded at most once, and who asks for it then gets what that load comes
to, with one exception: somebody who has been waiting since before the clear, for an older load of
the key, may find its outcome while the new load is under way, and record it in the entry of the new
one. `Straggled` says that this has happened. Everybody who starts after it gets the old outcome,
and everybody else the new one.
-/

namespace NodeRpc.Resolves

/-- Nothing is remembered after `pre`: it is empty, or ends in a clear. -/
def Cleared (pre : List Event) : Prop := pre = [] ∨ ∃ before, pre = before ++ [.clear]

/-- Load `n` was begun for `key`, and after `pre`. -/
def BegunAfter (pre : List Event) (r : Resolves) (key : LookupKey) (n : Nat) : Prop :=
  (after pre).loads.length ≤ n ∧ r.loadKey? n = some key

/-- In the state `r`, resolve `j` has been waiting for load `m`, begun for `key` before the end of
`pre`, and finds its outcome while another load of `key` is under way. -/
structure Straggles (pre : List Event) (r : Resolves) (key : LookupKey) (m j : Nat) : Prop where
  older : m < (after pre).loads.length
  asks : r.keyOf? j = some key
  waiting : r.stageOf? j = some (.waiting m)
  finished : (r.outcomeOf? m).isSome = true
  underWay : ∃ n, r.entryOf? key = some (.inFlight n)

/-- In the course of `a`, which comes after `pre`, the outcome of the older load `m` was recorded in
the entry of a newer one. -/
def Straggled (pre a : List Event) (key : LookupKey) (m : Nat) : Prop :=
  ∃ b j c, a = b ++ .run j :: c ∧ Straggles pre (after (pre ++ b)) key m j

theorem straggled_concat (pre a : List Event) (e : Event) (key : LookupKey) (m : Nat) :
    Straggled pre (a ++ [e]) key m ↔
      Straggled pre a key m ∨ ∃ j, e = .run j ∧ Straggles pre (after (pre ++ a)) key m j := by
  constructor
  · rintro ⟨b, j, c, h, hs⟩
    rcases List.eq_nil_or_concat c with rfl | ⟨c, e', rfl⟩
    · obtain ⟨rfl, he⟩ := List.append_inj' h rfl
      exact .inr ⟨j, by simpa using he, hs⟩
    · rw [List.concat_eq_append, ← List.cons_append, ← List.append_assoc] at h
      exact .inl ⟨b, j, c, (List.append_inj' h rfl).1, hs⟩
  · rintro (⟨b, j, c, rfl, hs⟩ | ⟨j, rfl, hs⟩)
    · exact ⟨b, j, c ++ [e], by simp, hs⟩
    · exact ⟨a, j, [], rfl, hs⟩

/-- What has become of a key in the course of `a`, which comes after `pre`. -/
inductive Life (pre a : List Event) (key : LookupKey) (r : Resolves) : Prop where
  | untouched (he : r.entryOf? key = none) (hb : ∀ n, ¬ BegunAfter pre r key n)
      (hs : ∀ m, ¬ Straggled pre a key m)
  | loading {n : Nat} (he : r.entryOf? key = some (.inFlight n))
      (hb : ∀ n', BegunAfter pre r key n' ↔ n' = n) (hs : ∀ m, ¬ Straggled pre a key m)
  | kept {n : Nat} {o : Loaded} (he : r.entryOf? key = some (.settled o))
      (hb : ∀ n', BegunAfter pre r key n' ↔ n' = n) (hs : ∀ m, ¬ Straggled pre a key m)
      (ho : r.outcomeOf? n = some o)
  | overtaken {n m : Nat} {o : Loaded} (he : r.entryOf? key = some (.settled o))
      (hb : ∀ n', BegunAfter pre r key n' ↔ n' = n) (hs : ∀ m', Straggled pre a key m' ↔ m' = m)
      (ho : r.outcomeOf? m = some o)

/-! ### One step -/

/-- A step that leaves the entry and the loads of the key alone. -/
theorem Life.quiet {pre a : List Event} {e : Event} {key : LookupKey} {r r' : Resolves}
    (h : Life pre a key r) (hk : r.Keeps r') (he : r'.entryOf? key = r.entryOf? key)
    (hload : ∀ n, r'.loadKey? n = some key ↔ r.loadKey? n = some key)
    (hs : ∀ m, Straggled pre (a ++ [e]) key m ↔ Straggled pre a key m) :
    Life pre (a ++ [e]) key r' := by
  have hb : ∀ n, BegunAfter pre r' key n ↔ BegunAfter pre r key n :=
    fun n => and_congr_right fun _ => hload n
  cases h with
  | untouched hentry hnone hno =>
    exact .untouched (he.trans hentry) (fun n hn => hnone n ((hb n).1 hn))
      fun m hm => hno m ((hs m).1 hm)
  | loading hentry hone hno =>
    exact .loading (he.trans hentry) (fun n => (hb n).trans (hone n))
      fun m hm => hno m ((hs m).1 hm)
  | kept hentry hone hno ho =>
    exact .kept (he.trans hentry) (fun n => (hb n).trans (hone n)) (fun m hm => hno m ((hs m).1 hm))
      (hk.outcome _ _ ho)
  | overtaken hentry hone hone' ho =>
    exact .overtaken (he.trans hentry) (fun n => (hb n).trans (hone n))
      (fun m => (hs m).trans (hone' m)) (hk.outcome _ _ ho)

theorem entryOf?_recorded (r : Resolves) (key : LookupKey) (o : Loaded) (key' : LookupKey) :
    (r.recorded key o).entryOf? key' =
      match r.entryOf? key' with
      | some (.inFlight n) => if key = key' then some (.settled o) else some (.inFlight n)
      | entry => entry :=
  Scope.entries_settle r.scope key o key'

/-- A turn of somebody who asks for another key leaves the entry and the loads of this one alone. -/
theorem Turn.other {r r' : Resolves} {k : Nat} {key key' : LookupKey}
    (hkey : r.keyOf? k = some key') (hne : key' ≠ key) (h : Turn r k key' r') :
    r'.entryOf? key = r.entryOf? key ∧ ∀ n, r'.loadKey? n = some key ↔ r.loadKey? n = some key := by
  cases h with
  | idle _ _ => exact ⟨rfl, fun _ => Iff.rfl⟩
  | read _ _ => exact ⟨rfl, fun n => by rw [loadKey?_setStage]⟩
  | began _ _ =>
    refine ⟨(r.entryOf?_begun k key' key).trans (if_neg hne), fun n => ?_⟩
    rw [loadKey?_setStage, loadKey?_begun hkey]
    split
    · next hn =>
      have hnone : r.loadKey? n = none := by simp [loadKey?, hn]
      simp [hnone, hne]
    · rfl
  | waits _ _ => exact ⟨rfl, fun n => by rw [loadKey?_setStage]⟩
  | takes _ _ =>
    refine ⟨(r.entryOf?_recorded key' _ key).trans ?_, fun n => by rw [loadKey?_setStage]; rfl⟩
    split
    · next n hn => rw [if_neg hne, hn]
    · rfl

theorem HangsOn.eq_of_waiting {r : Resolves} {k n m : Nat} {key : LookupKey}
    (h : r.HangsOn k key n) (hw : r.stageOf? k = some (.waiting m)) : m = n := by
  cases h with
  | fresh hf _ => rw [hf] at hw; simp at hw
  | waiting h => rw [h] at hw; simpa using hw.symm

/-- Somebody begins a load of the key, of which nothing is known. -/
theorem Life.begun {pre a : List Event} {key : LookupKey} {r : Resolves} {k : Nat}
    (hl : Life pre a key r) (hv : r.Valid) (hlen : (after pre).loads.length ≤ r.loads.length)
    (hkey : r.keyOf? k = some key) (he : r.entryOf? key = none)
    (hs : ∀ m, Straggled pre (a ++ [.run k]) key m ↔ Straggled pre a key m) :
    Life pre (a ++ [.run k]) key ((r.begun k key).setStage k (.waiting r.loads.length)) := by
  cases hl with
  | untouched _ hnone hno =>
    refine .loading (n := r.loads.length) ?_ (fun n => ?_) fun m hm => hno m ((hs m).1 hm)
    · refine (r.entryOf?_begun k key key).trans ?_
      rw [if_pos rfl, hv.count]
    · unfold BegunAfter
      rw [loadKey?_setStage, loadKey?_begun hkey]
      split
      · next hn => exact iff_of_true ⟨hn ▸ hlen, rfl⟩ hn
      · next hn => exact iff_of_false (hnone n) hn
  | loading he' _ _ => simp [he] at he'
  | kept he' _ _ _ => simp [he] at he'
  | overtaken he' _ _ _ => simp [he] at he'

/-- Somebody takes the outcome of load `n` while load `cur` of the key is under way. -/
theorem Life.taken {pre a : List Event} {key : LookupKey} {r : Resolves} {k n cur : Nat}
    {o : Loaded} (hl : Life pre a key r) (hv : r.Valid) (hkey : r.keyOf? k = some key)
    (hon : r.HangsOn k key n) (ho : r.outcomeOf? n = some o)
    (he : r.entryOf? key = some (.inFlight cur))
    (hs : ∀ m, Straggled pre (a ++ [.run k]) key m ↔
      Straggled pre a key m ∨ Straggles pre r key m k) :
    Life pre (a ++ [.run k]) key ((r.recorded key o).setStage k (.done o)) := by
  have hentry : ((r.recorded key o).setStage k (.done o)).entryOf? key = some (.settled o) := by
    refine (r.entryOf?_recorded key o key).trans ?_
    rw [he]
    exact if_pos rfl
  have hout := ((r.recorded_keeps key o).trans (setStage_keeps _ k (.done o))).outcome n o ho
  cases hl with
  | untouched he' _ _ => simp [he] at he'
  | kept he' _ _ _ => simp [he] at he'
  | overtaken he' _ _ _ => simp [he] at he'
  | @loading cur' he' hone hno =>
    obtain rfl : cur = cur' := by simpa [he] using he'
    have hb : ∀ n', BegunAfter pre ((r.recorded key o).setStage k (.done o)) key n' ↔
        n' = cur := fun n' =>
      (and_congr_right fun _ => by rw [loadKey?_setStage]; rfl).trans (hone n')
    by_cases hold : (after pre).loads.length ≤ n
    · -- the load that is under way is the one that the turn takes the outcome of
      obtain rfl := (hone n).1 ⟨hold, hv.hangsOn hkey hon⟩
      refine .kept hentry hb (fun m hm => ?_) hout
      rcases (hs m).1 hm with hm | hm
      · exact hno m hm
      · have hmn := hon.eq_of_waiting hm.waiting
        have := hm.older
        omega
    · have hw : r.stageOf? k = some (.waiting n) := by
        cases hon with
        | fresh _ hcur =>
          have hn : cur = n := by simpa [he] using hcur
          exact absurd ((hone cur).2 rfl).1 (hn ▸ hold)
        | waiting h => exact h
      refine .overtaken (m := n) hentry hb (fun m => ?_) hout
      rw [hs m]
      constructor
      · rintro (hm | hm)
        · exact absurd hm (hno m)
        · exact hon.eq_of_waiting hm.waiting
      · rintro rfl
        exact .inr ⟨by omega, hkey, hw, by rw [ho]; rfl, _, he⟩

/-- A turn of somebody who asks for the key. -/
theorem Life.turn {pre a : List Event} {key : LookupKey} {r r' : Resolves} {k : Nat}
    (hl : Life pre a key r) (hv : r.Valid) (hlen : (after pre).loads.length ≤ r.loads.length)
    (hkey : r.keyOf? k = some key) (h : Turn r k key r')
    (hs : ∀ m, Straggled pre (a ++ [.run k]) key m ↔
      Straggled pre a key m ∨ Straggles pre r key m k) : Life pre (a ++ [.run k]) key r' := by
  have hkeeps := h.keeps
  have hs' : (∀ m, ¬ Straggles pre r key m k) →
      ∀ m, Straggled pre (a ++ [.run k]) key m ↔ Straggled pre a key m :=
    fun hno m => (hs m).trans (or_iff_left (hno m))
  have hfresh : r.stageOf? k = some .fresh → ∀ m, ¬ Straggles pre r key m k := by
    intro hf m hm
    have hw := hm.waiting
    simp [hf] at hw
  cases h with
  | idle hno _ =>
    exact hl.quiet hkeeps rfl (fun _ => Iff.rfl) (hs' fun m hm => hno m (.waiting hm.waiting))
  | read hf _ =>
    exact hl.quiet hkeeps rfl (fun n => by rw [loadKey?_setStage]) (hs' (hfresh hf))
  | waits hon ho =>
    refine hl.quiet hkeeps rfl (fun n => by rw [loadKey?_setStage]) (hs' fun m hm => ?_)
    have hsome := hm.finished
    simp [hon.eq_of_waiting hm.waiting, ho] at hsome
  | began hf he => exact hl.begun hv hlen hkey he (hs' (hfresh hf))
  | @takes n o hon ho =>
    -- nobody straggles unless the entry says that a load is under way
    have hrest : r.entryOf? key = none ∨ (∃ o', r.entryOf? key = some (.settled o')) →
        Life pre (a ++ [.run k]) key ((r.recorded key o).setStage k (.done o)) := by
      intro he
      have hentry : (r.recorded key o).entryOf? key = r.entryOf? key := by
        rw [entryOf?_recorded]
        rcases he with he | ⟨o', he⟩ <;> rw [he]
      refine hl.quiet hkeeps hentry (fun n => by rw [loadKey?_setStage]; rfl) (hs' fun m hm => ?_)
      obtain ⟨n', hn'⟩ := hm.underWay
      rcases he with he | ⟨o', he⟩ <;> simp [he] at hn'
    cases he : r.entryOf? key with
    | none => exact hrest (.inl he)
    | some entry =>
      cases entry with
      | settled o' => exact hrest (.inr ⟨o', he⟩)
      | inFlight cur => exact hl.taken hv hkey hon ho he hs

theorem Valid.length_le {r r' : Resolves} (hv : r.Valid) (hk : r.Keeps r') :
    r.loads.length ≤ r'.loads.length := by
  refine Nat.le_of_not_lt fun hlt => ?_
  obtain ⟨key, hkey⟩ := Option.isSome_iff_exists.1 (hv.starter _ hlt)
  have hkey' := hk.loadKey _ key hkey
  simp [loadKey?] at hkey'

/-- Every event but a clear. -/
theorem life_concat {pre a : List Event} {key : LookupKey}
    (hl : Life pre a key (after (pre ++ a))) {e : Event} (he : e ≠ .clear) :
    Life pre (a ++ [e]) key ((after (pre ++ a)).apply e) := by
  have hv := valid_after (pre ++ a)
  have hlen := (valid_after pre).length_le (after_append_keeps pre a)
  have hs := straggled_concat pre a e key
  have hkeeps := apply_keeps hv e
  generalize after (pre ++ a) = r at hl hv hlen hs hkeeps
  -- only turns begin loads and change entries
  have hquiet : (∀ j, e ≠ .run j) → (r.apply e).loads.length = r.loads.length →
      (r.apply e).scope = r.scope → Life pre (a ++ [e]) key (r.apply e) := by
    intro hrun hlength hscope
    refine hl.quiet hkeeps (by simp only [entryOf?, hscope]) (fun n => ?_) fun m => ?_
    · rw [hv.loadKey?_eq hkeeps hlength]
    · rw [hs m]
      refine or_iff_left ?_
      rintro ⟨j, hj, _⟩
      exact hrun j hj
  cases e with
  | make key' => exact hquiet (by simp) rfl rfl
  | finish n o => exact hquiet (by simp) (by simp [apply, finish]) rfl
  | drop k =>
    exact hquiet (by simp) (congrArg List.length (r.loads_drop k)) (r.scope_drop k)
  | clear => exact absurd rfl he
  | run k =>
    have hs' : ∀ m, Straggled pre (a ++ [.run k]) key m ↔
        Straggled pre a key m ∨ Straggles pre r key m k := by
      intro m
      rw [hs m]
      refine or_congr_right ⟨?_, fun h => ⟨k, rfl, h⟩⟩
      rintro ⟨j, hj, h⟩
      obtain rfl := Event.run.inj hj
      exact h
    cases hkey : r.keyOf? k with
    | none =>
      rw [show r.apply (.run k) = r from run_of_keyOf?_none hkey]
      refine hl.quiet (.refl r) rfl (fun _ => Iff.rfl) fun m => ?_
      rw [hs' m]
      refine or_iff_left fun hm => ?_
      have hasks := hm.asks
      rw [hkey] at hasks
      simp at hasks
    | some key' =>
      have hturn := run_turn hv.count hkey
      by_cases hne : key' = key
      · subst hne
        exact hl.turn hv hlen hkey hturn hs'
      · obtain ⟨hentry, hload⟩ := hturn.other hkey hne
        refine hl.quiet hkeeps hentry hload fun m => ?_
        rw [hs' m]
        refine or_iff_left fun hm => hne ?_
        have hasks := hm.asks
        rw [hkey] at hasks
        exact Option.some.inj hasks

theorem Cleared.entryOf? {pre : List Event} (h : Cleared pre) (key : LookupKey) :
    (after pre).entryOf? key = none := by
  rcases h with rfl | ⟨before, rfl⟩
  · rfl
  · rw [after_concat]
    rfl

/-- What has become of a key since nothing was remembered. -/
theorem life_after {pre a : List Event} (hpre : Cleared pre) (ha : .clear ∉ a) (key : LookupKey) :
    Life pre a key (after (pre ++ a)) := by
  induction a using List.reverseRecOn with
  | nil =>
    rw [List.append_nil]
    refine .untouched (hpre.entryOf? key) (fun n hn => ?_) fun m ⟨b, j, c, h, _⟩ => ?_
    · obtain ⟨hle, hkey⟩ := hn
      simp [loadKey?, List.getElem?_eq_none hle] at hkey
    · simp at h
  | append_singleton a e ih =>
    rw [List.mem_append, not_or] at ha
    rw [← List.append_assoc, after_concat]
    exact life_concat (ih ha.1) fun he => ha.2 (by simp [he])

/-! ### Following one resolve -/

/-- The stages to which resolve `k`, which asks for `key`, can come from a stage by one event. -/
inductive StageNext (r : Resolves) (k : Nat) (key : LookupKey) :
    ResolveStage → ResolveStage → Prop where
  | same (s : ResolveStage) : StageNext r k key s s
  | dropped {s : ResolveStage} (h : ∀ o, s ≠ .done o) : StageNext r k key s .dropped
  | read {o : Loaded} (he : r.entryOf? key = some (.settled o)) : StageNext r k key .fresh (.done o)
  | began (he : r.entryOf? key = none) : StageNext r k key .fresh (.waiting r.loads.length)
  | waits {s : ResolveStage} {n : Nat} (h : r.HangsOn k key n) : StageNext r k key s (.waiting n)
  | takes {s : ResolveStage} {n : Nat} {o : Loaded} (h : r.HangsOn k key n)
      (ho : r.outcomeOf? n = some o) : StageNext r k key s (.done o)

theorem stageNext_setStage {r q : Resolves} {k j : Nat} {key : LookupKey}
    {s stage : ResolveStage} (hs : q.stageOf? k = some s) (h : j = k → StageNext r k key s stage) :
    ∃ s', (q.setStage j stage).stageOf? k = some s' ∧ StageNext r k key s s' := by
  rw [stageOf?_setStage, hs]
  split
  · next hj => exact ⟨stage, rfl, h hj⟩
  · exact ⟨s, rfl, .same s⟩

/-- By the turn of any resolve. -/
theorem Turn.stageNext {r r' : Resolves} {j k : Nat} {key key' : LookupKey} {s : ResolveStage}
    (h : Turn r j key' r') (hj : r.keyOf? j = some key') (hkey : r.keyOf? k = some key)
    (hs : r.stageOf? k = some s) :
    ∃ s', r'.stageOf? k = some s' ∧ StageNext r k key s s' := by
  have heq : j = k → key' = key := by
    rintro rfl
    exact Option.some.inj (hj.symm.trans hkey)
  have hstage : ∀ {s'}, j = k → r.stageOf? j = some s' → s = s' := by
    rintro s' rfl hs'
    exact Option.some.inj (hs.symm.trans hs')
  cases h with
  | idle _ _ => exact ⟨s, hs, .same s⟩
  | read hf he =>
    refine stageNext_setStage hs fun hjk => ?_
    rw [hstage hjk hf]
    exact .read (heq hjk ▸ he)
  | began hf he =>
    refine stageNext_setStage (q := r.begun j key') hs fun hjk => ?_
    rw [hstage hjk hf]
    exact .began (heq hjk ▸ he)
  | waits hon _ =>
    refine stageNext_setStage hs fun hjk => ?_
    subst hjk
    exact .waits (heq rfl ▸ hon)
  | @takes n o hon ho =>
    refine stageNext_setStage (q := r.recorded key' o) hs fun hjk => ?_
    subst hjk
    exact .takes (heq rfl ▸ hon) ho

theorem stage_apply {r : Resolves} (hv : r.Valid) {k : Nat} {key : LookupKey} {s : ResolveStage}
    (hkey : r.keyOf? k = some key) (hs : r.stageOf? k = some s) (e : Event) :
    ∃ s', (r.apply e).stageOf? k = some s' ∧ StageNext r k key s s' := by
  cases e with
  | make key' =>
    have hk : k ≠ r.resolves.length := by
      rintro rfl
      simp [stageOf?] at hs
    refine ⟨s, ?_, .same s⟩
    unfold apply stageOf?
    dsimp only
    rw [getElem?_make, if_neg hk]
    exact hs
  | finish n o => exact ⟨s, hs, .same s⟩
  | clear => exact ⟨s, hs, .same s⟩
  | drop j =>
    unfold apply
    dsimp only
    rw [stageOf?_drop, hs]
    split
    · cases s with
      | done o => exact ⟨_, rfl, .same _⟩
      | _ => exact ⟨_, rfl, .dropped (by simp)⟩
    · exact ⟨s, rfl, .same s⟩
  | run j =>
    cases hj : r.keyOf? j with
    | none =>
      rw [show r.apply (.run j) = r from run_of_keyOf?_none hj]
      exact ⟨s, hs, .same s⟩
    | some key' => exact (run_turn hv.count hj).stageNext hj hkey hs

/-- Resolve `k` gets the outcome of load `n`, if it gets any. -/
def Follows (r : Resolves) (k n : Nat) : Prop :=
  r.stageOf? k = some (.waiting n) ∨ r.stageOf? k = some .dropped ∨
    ∃ o, r.stageOf? k = some (.done o) ∧ r.outcomeOf? n = some o

theorem follows_apply {r : Resolves} (hv : r.Valid) {k n : Nat} {key : LookupKey}
    (hkey : r.keyOf? k = some key) (h : r.Follows k n) (e : Event) : (r.apply e).Follows k n := by
  -- nobody hangs on a load that has an outcome, or on another load than the one it waits for
  have hon : ∀ {m s}, r.stageOf? k = some s → r.HangsOn k key m → s = .waiting n → m = n := by
    rintro m s hs hon rfl
    exact (hon.eq_of_waiting hs).symm
  have hover : ∀ {m s}, r.stageOf? k = some s → r.HangsOn k key m →
      s = .fresh ∨ s = .waiting m := by
    intro m s hs hon
    cases hon with
    | fresh hf _ => exact .inl (Option.some.inj (hs.symm.trans hf))
    | waiting hw => exact .inr (Option.some.inj (hs.symm.trans hw))
  rcases h with hw | hd | ⟨o, hd, ho⟩
  · obtain ⟨s', hs', hnext⟩ := stage_apply hv hkey hw e
    cases hnext with
    | same => exact .inl hs'
    | dropped _ => exact .inr (.inl hs')
    | waits h => exact .inl (hon hw h rfl ▸ hs')
    | takes h ho => exact .inr (.inr ⟨_, hs', (apply_keeps hv e).outcome _ _ (hon hw h rfl ▸ ho)⟩)
  · obtain ⟨s', hs', hnext⟩ := stage_apply hv hkey hd e
    cases hnext with
    | same => exact .inr (.inl hs')
    | dropped _ => exact .inr (.inl hs')
    | waits h => rcases hover hd h with h | h <;> simp at h
    | takes h _ => rcases hover hd h with h | h <;> simp at h
  · obtain ⟨s', hs', hnext⟩ := stage_apply hv hkey hd e
    cases hnext with
    | same => exact .inr (.inr ⟨o, hs', (apply_keeps hv e).outcome _ _ ho⟩)
    | dropped h => exact absurd rfl (h o)
    | waits h => rcases hover hd h with h | h <;> simp at h
    | takes h _ => rcases hover hd h with h | h <;> simp at h

theorem follows_after {events : List Event} {k n : Nat} {key : LookupKey}
    (hkey : (after events).keyOf? k = some key) (h : (after events).Follows k n)
    (more : List Event) : (after (events ++ more)).Follows k n := by
  induction more using List.reverseRecOn with
  | nil => simpa using h
  | append_singleton more e ih =>
    rw [← List.append_assoc, after_concat]
    exact follows_apply (valid_after _) ((after_append_keeps events more).key k key hkey) ih e

/-- A load was there before an event, or its starter waits for it now. -/
theorem load_apply {r : Resolves} (hv : r.Valid) {e : Event} {n : Nat} {l : Load}
    (h : (r.apply e).loads[n]? = some l) :
    (∃ l₀, r.loads[n]? = some l₀ ∧ l₀.starter = l.starter) ∨
      (r.apply e).stageOf? l.starter = some (.waiting n) := by
  cases e with
  | make key => exact .inl ⟨l, h, rfl⟩
  | clear => exact .inl ⟨l, h, rfl⟩
  | drop k => exact .inl ⟨l, (r.loads_drop k) ▸ h, rfl⟩
  | finish m o =>
    have h : (r.loads.modify m fun x => { x with outcome := some (x.outcome.getD o) })[n]? =
      some l := h
    rw [List.getElem?_modify] at h
    obtain ⟨l₀, hl₀, rfl⟩ := Option.map_eq_some_iff.1 h
    exact .inl ⟨l₀, hl₀, by split <;> rfl⟩
  | run k =>
    cases hkey : r.keyOf? k with
    | none =>
      have hrun : r.apply (.run k) = r := run_of_keyOf?_none hkey
      exact .inl ⟨l, hrun ▸ h, rfl⟩
    | some key =>
      have hturn : Turn r k key (r.apply (.run k)) := run_turn hv.count hkey
      generalize r.apply (.run k) = r' at hturn h
      cases hturn with
      | began hf _ =>
        have h : (r.loads ++ [{ starter := k }])[n]? = some l := h
        rw [getElem?_concat] at h
        split at h
        · next hn =>
          obtain rfl := Option.some.inj h
          refine .inr ((stageOf?_setStage _ k _ k).trans ?_)
          rw [if_pos rfl, hn]
          exact congrArg (Option.map _) hf
        · exact .inl ⟨l, h, rfl⟩
      | _ => exact .inl ⟨l, h, rfl⟩

/-- Who began a load follows it. -/
theorem starter_follows {events : List Event} {n : Nat} {l : Load}
    (h : (after events).loads[n]? = some l) : (after events).Follows l.starter n := by
  induction events using List.reverseRecOn generalizing l with
  | nil => simp [after] at h
  | append_singleton events e ih =>
    have hv := valid_after events
    rw [after_concat] at h ⊢
    rcases load_apply hv h with ⟨l₀, hl₀, hstarter⟩ | hw
    · have hloaded := hv.starter n (List.getElem?_eq_some_iff.1 hl₀).1
      obtain ⟨key, hkey⟩ := Option.isSome_iff_exists.1 hloaded
      have hkey : (after events).keyOf? l₀.starter = some key := by simpa [loadKey?, hl₀] using hkey
      rw [← hstarter]
      exact follows_apply hv hkey (ih hl₀) e
    · exact .inl hw

/-! ### Who starts between two clears -/

/-- The first turn of a resolve reads the entry, or follows the load that it begins or finds. -/
theorem first_turn {r : Resolves} (hv : r.Valid) {k : Nat} {key : LookupKey}
    (hkey : r.keyOf? k = some key) (hf : r.stageOf? k = some .fresh) :
    (∃ o, r.entryOf? key = some (.settled o) ∧ (r.run k).stageOf? k = some (.done o)) ∨
    ∃ n, (r.entryOf? key = none ∧ n = r.loads.length ∨ r.entryOf? key = some (.inFlight n)) ∧
      (r.run k).loadKey? n = some key ∧ (r.run k).Follows k n := by
  have hstage : ∀ {q : Resolves} {s}, q.stageOf? k = some .fresh →
      (q.setStage k s).stageOf? k = some s := by
    intro q s h
    rw [stageOf?_setStage, if_pos rfl, h]
    rfl
  have hon : ∀ {n}, r.HangsOn k key n → r.entryOf? key = some (.inFlight n) := by
    intro n h
    cases h with
    | fresh _ he => exact he
    | waiting hw => rw [hf] at hw; simp at hw
  have hturn := run_turn hv.count hkey
  generalize r.run k = r' at hturn
  have hkeeps := hturn.keeps
  cases hturn with
  | idle _ hne => exact absurd hf hne
  | read _ he => exact .inl ⟨_, he, hstage hf⟩
  | began _ he =>
    refine .inr ⟨_, .inl ⟨he, rfl⟩, ?_, .inl (hstage (q := r.begun k key) hf)⟩
    rw [loadKey?_setStage, loadKey?_begun hkey, if_pos rfl]
  | waits h _ =>
    exact .inr ⟨_, .inr (hon h), hkeeps.loadKey _ _ (hv.hangsOn hkey h), .inl (hstage hf)⟩
  | @takes n o h ho =>
    exact .inr ⟨n, .inr (hon h), hkeeps.loadKey _ _ (hv.hangsOn hkey h),
      .inr (.inr ⟨o, hstage (q := r.recorded key o) hf, hkeeps.outcome _ _ ho⟩)⟩

theorem Life.unique {pre a : List Event} {key : LookupKey} {r : Resolves} (h : Life pre a key r)
    {n : Nat} (hn : BegunAfter pre r key n) (n' : Nat) : BegunAfter pre r key n' ↔ n' = n := by
  cases h with
  | untouched _ hb _ => exact absurd hn (hb n)
  | loading _ hb _ => rw [hb, (hb n).1 hn]
  | kept _ hb _ _ => rw [hb, (hb n).1 hn]
  | overtaken _ hb _ _ => rw [hb, (hb n).1 hn]

/-- Whoever starts in the course of `b`, which comes after a clear, follows the load begun since for
the key that it asks for; if somebody straggled before, it follows the older load. -/
theorem Life.follows {pre b : List Event} {key : LookupKey} (hv : (after (pre ++ b)).Valid)
    (h : Life pre b key (after (pre ++ b))) {k : Nat}
    (hkey : (after (pre ++ b)).keyOf? k = some key)
    (hfresh : (after (pre ++ b)).stageOf? k = some .fresh) :
    ∃ n, BegunAfter pre ((after (pre ++ b)).run k) key n ∧
      ((∀ m, ¬ Straggled pre b key m) ∧ ((after (pre ++ b)).run k).Follows k n ∨
        ∃ m, (∀ m', Straggled pre b key m' ↔ m' = m) ∧ m < (after pre).loads.length ∧
          ((after (pre ++ b)).run k).Follows k m) := by
  have hkeeps := apply_keeps hv (.run k)
  have hlen := (valid_after pre).length_le (after_append_keeps pre b)
  have hbegun : ∀ {n}, BegunAfter pre (after (pre ++ b)) key n →
      BegunAfter pre ((after (pre ++ b)).run k) key n :=
    fun hn => ⟨hn.1, hkeeps.loadKey _ key hn.2⟩
  rcases first_turn hv hkey hfresh with ⟨o, he, hdone⟩ | ⟨n, he, hn, hf⟩
  · cases h with
    | untouched he' _ _ => simp [he] at he'
    | loading he' _ _ => simp [he] at he'
    | @kept n o' he' hb hs ho =>
      obtain rfl : o = o' := by simpa [he] using he'
      exact ⟨n, hbegun ((hb n).2 rfl), .inl ⟨hs, .inr (.inr ⟨o, hdone, hkeeps.outcome n o ho⟩)⟩⟩
    | @overtaken n m o' he' hb hs ho =>
      obtain rfl : o = o' := by simpa [he] using he'
      obtain ⟨_, _, _, _, hstraggles⟩ := (hs m).2 rfl
      exact ⟨n, hbegun ((hb n).2 rfl),
        .inr ⟨m, hs, hstraggles.older, .inr (.inr ⟨o, hdone, hkeeps.outcome m o ho⟩)⟩⟩
  · rcases he with ⟨he, rfl⟩ | he
    · cases h with
      | untouched _ _ hs => exact ⟨_, ⟨hlen, hn⟩, .inl ⟨hs, hf⟩⟩
      | loading he' _ _ => simp [he] at he'
      | kept he' _ _ _ => simp [he] at he'
      | overtaken he' _ _ _ => simp [he] at he'
    · cases h with
      | untouched he' _ _ => simp [he] at he'
      | @loading n' he' hb hs =>
        obtain rfl : n = n' := by simpa [he] using he'
        exact ⟨n, hbegun ((hb n).2 rfl), .inl ⟨hs, hf⟩⟩
      | kept he' _ _ _ => simp [he] at he'
      | overtaken he' _ _ _ => simp [he] at he'

/-- Whoever has returned an outcome has returned that of the load that it follows. -/
theorem Follows.outcome {events : List Event} {k n : Nat} {key : LookupKey}
    (hkey : (after events).keyOf? k = some key) (h : (after events).Follows k n)
    (more : List Event) {o : Loaded}
    (hdone : (after (events ++ more)).stageOf? k = some (.done o)) :
    (after (events ++ more)).outcomeOf? n = some o := by
  rcases follows_after hkey h more with h' | h' | ⟨o', h', ho⟩ <;> rw [hdone] at h'
  · simp at h'
  · simp at h'
  · obtain rfl : o = o' := by simpa using h'
    exact ho

/-- Between two clears, in the course of `a`, one load is begun for a key that somebody asks for.
Whoever starts there and returns an outcome returns that of this load, unless somebody straggled
before, in which case he returns the outcome of an older load. -/
theorem returns_own_load_iff {pre a b c post : List Event} {key : LookupKey} {k : Nat} {o : Loaded}
    (hpre : Cleared pre) (hclear : .clear ∉ a) (ha : a = b ++ .run k :: c)
    (hkey : (after (pre ++ b)).keyOf? k = some key)
    (hfresh : (after (pre ++ b)).stageOf? k = some .fresh)
    (hdone : (after (pre ++ a ++ post)).stageOf? k = some (.done o)) :
    ∃ n, (∀ n', BegunAfter pre (after (pre ++ a)) key n' ↔ n' = n) ∧
      ((after (pre ++ a ++ post)).outcomeOf? n = some o ↔ ∀ m, Straggled pre b key m →
        (after (pre ++ a ++ post)).outcomeOf? m = (after (pre ++ a ++ post)).outcomeOf? n) ∧
      ∀ m, Straggled pre b key m →
        m < (after pre).loads.length ∧ (after (pre ++ a ++ post)).outcomeOf? m = some o := by
  have hv := valid_after (pre ++ b)
  have hlife := life_after hpre (fun h => hclear (ha ▸ List.mem_append_left _ h)) (a := b) key
  -- the state after the first turn of `k`
  have hone : after (pre ++ b ++ [.run k]) = (after (pre ++ b)).run k := after_concat _ _
  have hsplit : pre ++ a = pre ++ b ++ [.run k] ++ c := by simp [ha]
  have hkey' : (after (pre ++ b ++ [.run k])).keyOf? k = some key := by
    rw [hone]
    exact (apply_keeps hv (.run k)).key k key hkey
  have hend : ∀ n, ((after (pre ++ b)).run k).Follows k n →
      (after (pre ++ a ++ post)).outcomeOf? n = some o := by
    intro n h
    rw [← hone] at h
    rw [hsplit, List.append_assoc] at hdone ⊢
    exact h.outcome hkey' (c ++ post) hdone
  obtain ⟨n, ⟨hle, hn⟩, hfollows⟩ := hlife.follows hv hkey hfresh
  have hbegun : BegunAfter pre (after (pre ++ a)) key n := by
    refine ⟨hle, ?_⟩
    rw [hsplit]
    exact (after_append_keeps (pre ++ b ++ [.run k]) c).loadKey n key (by rw [hone]; exact hn)
  refine ⟨n, (life_after hpre hclear key).unique hbegun, ?_⟩
  rcases hfollows with ⟨hno, hf⟩ | ⟨m, hs, holder, hf⟩
  · exact ⟨iff_of_true (hend n hf) fun m hm => absurd hm (hno m), fun m hm => absurd hm (hno m)⟩
  · have hm := hend m hf
    refine ⟨⟨fun h m' hm' => ?_, fun h => ?_⟩, fun m' hm' => ?_⟩
    · rw [(hs m').1 hm', hm, h]
    · rw [← h m ((hs m).2 rfl), hm]
    · rw [(hs m').1 hm']
      exact ⟨holder, hm⟩

/-- Somebody waits for a load when everything is forgotten. -/
def untilClear : List Event := [.make ⟨"slot"⟩, .run 0, .clear]

/-- He finds its outcome while somebody else waits for the next load; then a third one asks. -/
def sinceClear : List Event :=
  [.make ⟨"slot"⟩, .run 1, .finish 0 (.ok (.str "old")), .run 0, .make ⟨"slot"⟩, .run 2]

/-- The next load ends, too. -/
def untilEnd : List Event := [.finish 1 (.ok (.str "new")), .run 1]

/-- The one who waited for the next load returns what that load came to. -/
theorem returns_own_load_of_second : ∃ n,
    (∀ n', BegunAfter untilClear (after (untilClear ++ sinceClear)) ⟨"slot"⟩ n' ↔ n' = n) ∧
    (after (untilClear ++ sinceClear ++ untilEnd)).outcomeOf? n = some (.ok (.str "new")) := by
  have hdone : (after (untilClear ++ sinceClear ++ untilEnd)).stageOf? 1 =
      some (.done (.ok (.str "new"))) := by decide
  obtain ⟨n, hn, hiff, _⟩ := @returns_own_load_iff untilClear sinceClear [.make ⟨"slot"⟩] _
    untilEnd ⟨"slot"⟩ 1 (.ok (.str "new")) (.inr ⟨[.make ⟨"slot"⟩, .run 0], rfl⟩) (by decide) rfl
    (by decide) (by decide) hdone
  refine ⟨n, hn, hiff.2 fun m ⟨b, j, c, h, _⟩ => ?_⟩
  have hrun : Event.run j ∈ [Event.make ⟨"slot"⟩] := by rw [h]; simp
  simp at hrun

/-- Two who start after the same clear may return different outcomes. -/
theorem returns_differ :
    ¬ ∀ (pre a b c b' c' post : List Event) (key : LookupKey) (k k' : Nat) (o o' : Loaded),
      Cleared pre → .clear ∉ a → a = b ++ .run k :: c → a = b' ++ .run k' :: c' →
      (after (pre ++ b)).keyOf? k = some key → (after (pre ++ b)).stageOf? k = some .fresh →
      (after (pre ++ b')).keyOf? k' = some key → (after (pre ++ b')).stageOf? k' = some .fresh →
      (after (pre ++ a ++ post)).stageOf? k = some (.done o) →
      (after (pre ++ a ++ post)).stageOf? k' = some (.done o') → o = o' := by
  intro h
  have hsame := h untilClear sinceClear [.make ⟨"slot"⟩] _
    [.make ⟨"slot"⟩, .run 1, .finish 0 (.ok (.str "old")), .run 0, .make ⟨"slot"⟩] _ untilEnd
    ⟨"slot"⟩ 1 2 (.ok (.str "new")) (.ok (.str "old")) (.inr ⟨[.make ⟨"slot"⟩, .run 0], rfl⟩)
    (by decide) rfl rfl
    (by decide) (by decide) (by decide) (by decide) (by decide) (by decide)
  revert hsame
  decide

end NodeRpc.Resolves
