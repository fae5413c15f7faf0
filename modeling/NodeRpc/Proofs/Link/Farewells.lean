import NodeRpc.Proofs.Link.Histories

/-!
# Every subscription that the node knows of is closed there once

A subscription that was confirmed and is not registered any more has to be closed at the node, in
whichever order the two have come about. The call that does so is made at the later of the two, by
whoever brings it about: the end of the stream, the failure of the subscribe call, or the late
answer to it. `Told` is the book of these calls, which every event keeps.
-/

namespace NodeRpc.Link

variable {l l' : Link} {confirmed : List (Nat × SubscriptionId)} {opened : List (Nat × String)}
  {asked : List (List Call)} {told : List (Nat × SubscriptionId × String)}

/-! ### Calls that close subscriptions -/

/-- The calls that close subscriptions, in the order in which they were made. -/
def teardowns (l : Link) : List (List Call) :=
  ((l.calls.exchanges.map Exchange.calls).zip (l.roles.map Role.isTeardown)).filterMap fun p =>
    if p.2 then some p.1 else none

/-- Ages keep what was called. -/
theorem calls_ages {c c' : Calls} (h : c.Ages c') :
    c'.exchanges.map Exchange.calls = c.exchanges.map Exchange.calls := by
  refine List.ext_getElem? fun k => ?_
  rw [List.getElem?_map, List.getElem?_map]
  cases hx' : c'.exchanges[k]? with
  | none =>
    have hlen := List.getElem?_eq_none_iff.1 hx'
    rw [h.length] at hlen
    rw [List.getElem?_eq_none hlen]
  | some x' =>
    obtain ⟨x, hx, hcalls, _⟩ := h.exchange k x' hx'
    rw [hx, Option.map_some, Option.map_some, hcalls]

theorem Aged.kinds {c : Calls} {roles : List Role} (h : l.Aged c roles) :
    roles.map Role.isTeardown = l.roles.map Role.isTeardown := by
  refine List.ext_getElem? fun k => ?_
  rw [List.getElem?_map, List.getElem?_map]
  rcases h.roles k with heq | ⟨d, d', hd, hd'⟩
  · rw [heq]
  · rw [hd, hd']
    rfl

theorem teardowns_aged (h : l.Aged l'.calls l'.roles) : l'.teardowns = l.teardowns := by
  unfold teardowns
  rw [calls_ages h.calls, h.kinds]

theorem teardowns_make (ht : l.Tied) {c : Calls} {roles : List Role} (h : l.Aged c roles)
    {calls : List Call} {batched : Bool} {token : Token} {role : Role}
    (hcalls : l'.calls = c.make calls batched token) (hroles : l'.roles = roles ++ [role]) :
    l'.teardowns = l.teardowns ++ if role.isTeardown then [calls] else [] := by
  have hlen : (l.calls.exchanges.map Exchange.calls).length =
      (l.roles.map Role.isTeardown).length := by
    rw [List.length_map, List.length_map, ht.length]
  unfold teardowns
  rw [hcalls, hroles, Calls.make, List.map_append, List.map_append, calls_ages h.calls, h.kinds,
    List.zip_append hlen, List.filterMap_append]
  cases hrole : role.isTeardown <;> simp [hrole]

/-! ### What the handles are closed by -/

/-- The handles that a run opens, with the methods that close them. -/
def openedIn (l : Link) (events : List Event) : List (Nat × String) :=
  l.trace (fun l e => (e.opens? l).toList) events

/-- What is kept of a handle has the method that it was opened with. -/
structure Titled (l : Link) (opened : List (Nat × String)) : Prop where
  lt : ∀ h ∈ opened.map Prod.fst, h < l.subscriptions.nextHandle
  once : (opened.map Prod.fst).Nodup
  role : ∀ (k h : Nat) (u : String), l.roles[k]? = some (.opening h u) → (h, u) ∈ opened
  registered : ∀ h r, l.subscriptions.registrations.get? h = some r → (h, r.unsubscribe) ∈ opened

theorem Titled.unique (h : l.Titled opened) {handle : Nat} {u u' : String}
    (hu : (handle, u) ∈ opened) (hu' : (handle, u') ∈ opened) : u = u' :=
  congrArg Prod.snd (List.inj_on_of_nodup_map h.once hu hu' rfl)

/-- Handles may go, and calls of other kinds may come. -/
theorem Titled.within (h : l.Titled opened)
    (hnext : l'.subscriptions.nextHandle = l.subscriptions.nextHandle)
    (hroles : ∀ (k h : Nat) (u : String), l'.roles[k]? = some (.opening h u) →
      ∃ k' : Nat, l.roles[k']? = some (.opening h u))
    (hregistered : ∀ h r', l'.subscriptions.registrations.get? h = some r' →
      ∃ r, l.subscriptions.registrations.get? h = some r ∧ r'.unsubscribe = r.unsubscribe) :
    l'.Titled opened where
  lt handle hmem := hnext ▸ h.lt handle hmem
  once := h.once
  role k handle u hk := by
    obtain ⟨k', hk'⟩ := hroles k handle u hk
    exact h.role k' handle u hk'
  registered handle r' hr' := by
    obtain ⟨r, hr, heq⟩ := hregistered handle r' hr'
    rw [heq]
    exact h.registered handle r hr

theorem Titled.of_roles (h : l.Titled opened) (hsubs : l'.subscriptions = l.subscriptions)
    (hroles : ∀ (k h : Nat) (u : String), l'.roles[k]? = some (.opening h u) →
      l.roles[k]? = some (.opening h u)) : l'.Titled opened :=
  h.within (by rw [hsubs]) (fun k handle u hk => ⟨k, hroles k handle u hk⟩)
    fun _ r' hr' => ⟨r', hsubs ▸ hr', rfl⟩

/-- The next handle may be opened. -/
theorem Titled.open (h : l.Titled opened) (names : SubscriptionNames)
    (hsubs : l'.subscriptions = l.subscriptions.register names)
    (hroles : ∀ (k h : Nat) (u : String), l'.roles[k]? = some (.opening h u) →
      (∃ k' : Nat, l.roles[k']? = some (.opening h u)) ∨
        h = l.subscriptions.nextHandle ∧ u = names.unsubscribe) :
    l'.Titled (opened ++ [(l.subscriptions.nextHandle, names.unsubscribe)]) where
  lt handle hmem := by
    rw [hsubs, Subscriptions.nextHandle_register]
    rw [List.map_append, List.mem_append] at hmem
    rcases hmem with hold | hnew
    · exact Nat.lt_succ_of_lt (h.lt handle hold)
    · obtain rfl : handle = l.subscriptions.nextHandle := by simpa using hnew
      exact Nat.lt_succ_self _
  once := nodup_fst_concat h.once (fun hmem => Nat.lt_irrefl _ (h.lt _ hmem)) _
  role k handle u hk := by
    rw [List.mem_append]
    rcases hroles k handle u hk with ⟨k', hk'⟩ | ⟨rfl, rfl⟩
    · exact .inl (h.role k' handle u hk')
    · exact .inr (List.mem_singleton_self _)
  registered handle r hr := by
    rw [List.mem_append]
    rw [hsubs] at hr
    unfold Subscriptions.register at hr
    split at hr
    · exact .inl (h.registered handle r hr)
    · rw [Table.get?_put] at hr
      split at hr
      · next he =>
        rw [← Option.some.inj hr, ← he]
        exact .inr (List.mem_singleton_self _)
      · exact .inl (h.registered handle r hr)

theorem opening_concat {roles : List Role} {role : Role} (hrole : ∀ h u, role ≠ .opening h u)
    {k h : Nat} {u : String} (hk : (roles ++ [role])[k]? = some (.opening h u)) :
    roles[k]? = some (.opening h u) := by
  rw [getElem?_concat] at hk
  split at hk
  · exact absurd (Option.some.inj hk) (hrole h u)
  · exact hk

theorem Titled.passed {e : Event} (h : l.Titled opened) (hp : l.Passed e l') :
    l'.Titled (opened ++ (e.opens? l).toList) := by
  cases hp with
  | aged _ ho haged hsubs =>
    rw [ho, Option.toList_none, List.append_nil]
    exact h.of_roles hsubs haged.opening
  | made calls batched token role hrole _ ho _ hroles hsubs =>
    rw [ho, Option.toList_none, List.append_nil]
    exact h.of_roles hsubs fun k handle u hk => opening_concat hrole (hroles ▸ hk)
  | refused names _ ho _ haged hsubs =>
    rw [ho, Option.toList_some]
    exact h.open names hsubs fun k handle u hk => .inl ⟨k, haged.opening k handle u hk⟩
  | opened names call c _ ho _ _ _ hroles hsubs =>
    rw [ho, Option.toList_some]
    refine h.open names hsubs fun k handle u hk => ?_
    rw [hroles, getElem?_concat] at hk
    split at hk
    · obtain ⟨rfl, rfl⟩ := Role.opening.inj (Option.some.inj hk)
      exact .inr ⟨rfl, rfl⟩
    · exact .inl ⟨k, hk⟩
  | ended handle c roles _ ho haged hsubs htold =>
    rw [ho, Option.toList_none, List.append_nil]
    refine h.within (by rw [hsubs]; rfl) (fun k i u hk => ⟨k, haged.opening k i u ?_⟩)
      fun i r' hr' => ?_
    · rcases htold with ⟨_, _, hroles⟩ | ⟨id, u', _, _, _, hroles⟩
      · rwa [hroles] at hk
      · rw [hroles] at hk
        exact opening_concat (by simp) hk
    · rw [hsubs] at hr'
      simp only [Subscriptions.release, Table.get?_erase] at hr'
      split at hr'
      · simp at hr'
      · exact ⟨r', hr', rfl⟩
  | closed _ ho _ hroles hsubs =>
    rw [ho, Option.toList_none, List.append_nil]
    refine h.within (by rw [hsubs]; rfl) (fun k handle u hk => ⟨k, hroles ▸ hk⟩)
      fun i r' hr' => ?_
    rw [hsubs] at hr'
    simp [Subscriptions.close, Table.get?] at hr'

theorem Titled.answered {i : Nat} {o : Outcome} (h : l.Titled opened) (ha : l.Answered i o l') :
    l'.Titled opened := by
  cases ha with
  | other o' _ _ hroles hsubs =>
    exact h.of_roles hsubs fun k handle u hk => hroles ▸ hk
  | confirmed entry handle u id o' _ _ _ hopen _ hroles hsubs =>
    refine h.within (by rw [hsubs, Subscriptions.nextHandle_confirm])
      (fun k handle u hk => ⟨k, hroles ▸ hk⟩) fun handle' r' hr' => ?_
    obtain ⟨r, hr⟩ := Option.isSome_iff_exists.1 hopen
    rw [hsubs] at hr'
    simp only [Subscriptions.confirm, hr, Table.get?_put] at hr'
    split at hr'
    · next he =>
      rw [← Option.some.inj hr', ← he]
      exact ⟨r, hr, rfl⟩
    · exact ⟨r', hr', rfl⟩
  | late entry handle u id c roles o' _ _ _ _ htold _ hroles hsubs =>
    refine h.of_roles hsubs fun k i u' hk => ?_
    rw [hroles] at hk
    rcases htold with ⟨_, _, rfl⟩ | ⟨_, _, rfl⟩
    · exact hk
    · exact opening_concat (by simp) hk

/-! ### The book -/

/-- The book of what the node was told: one entry for every handle that was confirmed and is not
registered any more, unless the connection is gone. -/
structure Told (l : Link) (confirmed : List (Nat × SubscriptionId)) (opened : List (Nat × String))
    (asked : List (List Call)) (told : List (Nat × SubscriptionId × String)) : Prop where
  once : (told.map Prod.fst).Nodup
  sound : ∀ h id u, (h, id, u) ∈ told →
    (h, id) ∈ confirmed ∧ (h, u) ∈ opened ∧ l.subscriptions.isOpen h = false
  complete : l.subscriptions.closed = false → ∀ h id, (h, id) ∈ confirmed →
    l.subscriptions.isOpen h = false → ∃ u, (h, id, u) ∈ told
  calls : l.teardowns.Perm (asked ++ told.map fun t => farewell t.2.1 t.2.2)

/-- The book stays as it is where no handle ends that was confirmed, whatever callers ask for. -/
theorem Told.keep (hb : l.Told confirmed opened asked told) {more : List (List Call)}
    (hcalls : l'.teardowns = l.teardowns ++ more)
    {confirmed' : List (Nat × SubscriptionId)} {opened' : List (Nat × String)}
    (hconfirmed : confirmed ⊆ confirmed') (hopened : opened ⊆ opened')
    (hstays : ∀ h ∈ told.map Prod.fst, l.subscriptions.isOpen h = false →
      l'.subscriptions.isOpen h = false)
    (hends : l'.subscriptions.closed = false → l.subscriptions.closed = false ∧
      ∀ h id, (h, id) ∈ confirmed' → l'.subscriptions.isOpen h = false →
        (h, id) ∈ confirmed ∧ l.subscriptions.isOpen h = false) :
    l'.Told confirmed' opened' (asked ++ more) told where
  once := hb.once
  sound h id u hmem := by
    obtain ⟨hid, hu, hopen⟩ := hb.sound h id u hmem
    exact ⟨hconfirmed hid, hopened hu, hstays h (List.mem_map_of_mem hmem) hopen⟩
  complete hc h id hid hopen := by
    obtain ⟨hc, hends⟩ := hends hc
    obtain ⟨hid, hopen⟩ := hends h id hid hopen
    exact hb.complete hc h id hid hopen
  calls := by
    rw [hcalls, List.append_assoc]
    refine (hb.calls.append_right more).trans ?_
    rw [List.append_assoc]
    exact List.perm_append_comm.append_left asked

theorem Told.of_subscriptions (hb : l.Told confirmed opened asked told) {more : List (List Call)}
    (hcalls : l'.teardowns = l.teardowns ++ more) (hsubs : l'.subscriptions = l.subscriptions) :
    l'.Told confirmed opened (asked ++ more) told :=
  hb.keep hcalls (List.Subset.refl _) (List.Subset.refl _) (fun _ _ ho => hsubs ▸ ho)
    fun hc => ⟨hsubs ▸ hc, fun _ _ hid ho => ⟨hid, hsubs ▸ ho⟩⟩

/-- A handle that was confirmed and has ended is entered with the call that is made for it. -/
theorem Told.enter (hb : l.Told confirmed opened asked told) {handle : Nat} {id : SubscriptionId}
    {u : String} (hnew : handle ∉ told.map Prod.fst) (hu : (handle, u) ∈ opened)
    (hcalls : l'.teardowns = l.teardowns ++ [farewell id u])
    {confirmed' : List (Nat × SubscriptionId)} (hconfirmed : confirmed ⊆ confirmed')
    (hid : (handle, id) ∈ confirmed') (hopen : l'.subscriptions.isOpen handle = false)
    (hstays : ∀ h, l.subscriptions.isOpen h = false → l'.subscriptions.isOpen h = false)
    (hclosed : l.subscriptions.closed = false)
    (hends : ∀ h id', (h, id') ∈ confirmed' → l'.subscriptions.isOpen h = false →
      h = handle ∧ id' = id ∨ (h, id') ∈ confirmed ∧ l.subscriptions.isOpen h = false) :
    l'.Told confirmed' opened asked (told ++ [(handle, id, u)]) where
  once := nodup_fst_concat hb.once hnew _
  sound h id' u' hmem := by
    rw [List.mem_append, List.mem_singleton] at hmem
    rcases hmem with hold | heq
    · obtain ⟨hid', hu', hopen'⟩ := hb.sound h id' u' hold
      exact ⟨hconfirmed hid', hu', hstays h hopen'⟩
    · obtain ⟨rfl, rfl, rfl⟩ : h = handle ∧ id' = id ∧ u' = u := by simpa using heq
      exact ⟨hid, hu, hopen⟩
  complete _ h id' hid' hopen' := by
    rcases hends h id' hid' hopen' with ⟨rfl, rfl⟩ | ⟨hold, hopen⟩
    · exact ⟨u, List.mem_append_right _ (List.mem_singleton_self _)⟩
    · obtain ⟨u', hmem⟩ := hb.complete hclosed h id' hold hopen
      exact ⟨u', List.mem_append_left _ hmem⟩
  calls := by
    rw [hcalls, List.map_append, ← List.append_assoc]
    exact hb.calls.append_right _

/-- What a book has become: something was entered since, but only while the connection is there. -/
def Entered (l : Link) (confirmed : List (Nat × SubscriptionId)) (opened : List (Nat × String))
    (asked : List (List Call)) (told : List (Nat × SubscriptionId × String)) : Prop :=
  ∃ new, l.Told confirmed opened asked (told ++ new) ∧
    (new ≠ [] → l.subscriptions.closed = false)

theorem Told.entered (hb : l.Told confirmed opened asked told) :
    l.Entered confirmed opened asked told :=
  ⟨[], by rwa [List.append_nil], fun hne => absurd rfl hne⟩

theorem serverId?_of_farewell? {s : Subscriptions} {h : Nat} (hnone : s.farewell? h = none) :
    s.serverId? h = none := by
  unfold Subscriptions.farewell? at hnone
  unfold Subscriptions.serverId?
  cases hr : s.registrations.get? h with
  | none => rfl
  | some r =>
    rw [hr] at hnone
    simpa using hnone

/-- A handle ends of which the node does not know, or when the connection is gone. -/
theorem Told.released (hb : l.Told confirmed opened asked told) (hk : l.Known confirmed)
    {handle : Nat} (hcalls : l'.teardowns = l.teardowns)
    (hsubs : l'.subscriptions = l.subscriptions.release handle)
    (hquiet : l.subscriptions.closed = true ∨ l.subscriptions.farewell? handle = none) :
    l'.Told confirmed opened asked told := by
  have hclosed : l'.subscriptions.closed = l.subscriptions.closed := by rw [hsubs]; rfl
  rw [← List.append_nil asked]
  refine hb.keep (by rw [hcalls, List.append_nil]) (List.Subset.refl _) (List.Subset.refl _)
    (fun h _ ho => by rw [hsubs, Subscriptions.isOpen_release, ho, Bool.and_false]) fun hc => ?_
  rw [hclosed] at hc
  refine ⟨hc, fun h id hid ho => ⟨hid, ?_⟩⟩
  rw [hsubs] at ho
  rcases Subscriptions.ended_of_release ho with rfl | hold
  · -- the node does not know of this handle, so it is not one that was confirmed and is open
    have hnone := serverId?_of_farewell? (hquiet.resolve_left (by simp [hc]))
    by_contra hnot
    have hid' := (hk.serverId h id).2 ⟨by simpa using hnot, hid⟩
    simp [hnone] at hid'
  · exact hold

/-- A handle ends of which the node knows, and it is told. -/
theorem Told.farewelled (hb : l.Told confirmed opened asked told) (hk : l.Known confirmed)
    (htitled : l.Titled opened) {handle : Nat} {id : SubscriptionId} {u : String}
    (hcalls : l'.teardowns = l.teardowns ++ [farewell id u])
    (hsubs : l'.subscriptions = l.subscriptions.release handle)
    (hclosed : l.subscriptions.closed = false)
    (hsome : l.subscriptions.farewell? handle = some (id, u)) :
    l'.Told confirmed opened asked (told ++ [(handle, id, u)]) := by
  obtain ⟨r, hr, hid⟩ := Option.bind_eq_some_iff.1 hsome
  obtain ⟨id', hid', heq⟩ := Option.map_eq_some_iff.1 hid
  obtain ⟨rfl, rfl⟩ := Prod.mk.inj heq
  have hserver : l.subscriptions.serverId? handle = some id' :=
    Option.bind_eq_some_iff.2 ⟨r, hr, hid'⟩
  obtain ⟨hwas, hmem⟩ := (hk.serverId handle id').1 hserver
  have hnew : handle ∉ told.map Prod.fst := by
    intro hin
    obtain ⟨⟨_, id, u⟩, hentry, rfl⟩ := List.mem_map.1 hin
    have hnot := (hb.sound _ id u hentry).2.2
    simp [hwas] at hnot
  refine hb.enter hnew (htitled.registered handle r hr) hcalls (List.Subset.refl _) hmem ?_ ?_
    hclosed fun h id hid ho => ?_
  · rw [hsubs]
    simp [Subscriptions.isOpen_release]
  · intro h ho
    rw [hsubs, Subscriptions.isOpen_release, ho, Bool.and_false]
  · rw [hsubs] at ho
    rcases Subscriptions.ended_of_release ho with rfl | hold
    · exact .inl ⟨rfl, hk.unique hid hmem⟩
    · exact .inr ⟨hid, hold⟩

theorem Told.passed {e : Event} (hb : l.Told confirmed opened asked told) (hk : l.Known confirmed)
    (ht : l.Tied) (htitled : l.Titled opened) (htells : e.tells = true) (hp : l.Passed e l') :
    l'.Entered confirmed (opened ++ (e.opens? l).toList) (asked ++ e.asks?.toList) told := by
  have hsub : opened ⊆ opened ++ (e.opens? l).toList := List.subset_append_left _ _
  cases hp with
  | aged ha ho haged hsubs =>
    rw [ho, Option.toList_none, List.append_nil]
    refine (hb.of_subscriptions ?_ hsubs).entered
    rw [ha, teardowns_aged haged, Option.toList_none, List.append_nil]
  | made calls batched token role _ ha ho hcalls hroles hsubs =>
    rw [ho, Option.toList_none, List.append_nil]
    refine (hb.of_subscriptions ?_ hsubs).entered
    rw [ha, teardowns_make ht (.refl ht.calls) hcalls hroles]
    cases role.isTeardown <;> rfl
  | refused names ha _ hclosed haged hsubs =>
    refine (hb.keep ?_ (List.Subset.refl _) hsub ?_ ?_).entered
    · rw [ha, teardowns_aged haged, Option.toList_none, List.append_nil]
    · intro h _ ho
      rw [hsubs, Subscriptions.isOpen_register, ho, hclosed]
      rfl
    · intro hc
      rw [hsubs, Subscriptions.closed_register, hclosed] at hc
      simp at hc
  | opened names call c ha _ hopen haged hcalls hroles hsubs =>
    have haged' : l.Aged c l.roles := ⟨haged, rfl, fun _ => .inl rfl⟩
    refine (hb.keep ?_ (List.Subset.refl _) hsub ?_ ?_).entered
    · rw [ha, teardowns_make ht haged' hcalls hroles]
      rfl
    · -- the handle that is opened is not one that was confirmed
      intro h hmem ho
      obtain ⟨⟨_, id, u⟩, hin, rfl⟩ := List.mem_map.1 hmem
      have hlt := hk.lt _ (List.mem_map_of_mem (hb.sound _ id u hin).1)
      rw [hsubs, Subscriptions.isOpen_register, ho]
      simp [Nat.ne_of_gt hlt]
    · intro _
      refine ⟨hopen, fun h id hid ho => ⟨hid, ?_⟩⟩
      rw [hsubs, Subscriptions.isOpen_register, Bool.or_eq_false_iff] at ho
      exact ho.1
  | ended handle c roles ha ho haged hsubs htold =>
    rw [ha, ho, Option.toList_none, Option.toList_none, List.append_nil, List.append_nil]
    rcases htold with ⟨hquiet, hcalls, hroles⟩ | ⟨id, u, hc, hsome, hcalls, hroles⟩
    · have hsame : l'.teardowns = l.teardowns := teardowns_aged (by rwa [hcalls, hroles])
      exact (hb.released hk hsame hsubs (hquiet.resolve_left (by simp [htells]))).entered
    · have hclosed : l'.subscriptions.closed = l.subscriptions.closed := by rw [hsubs]; rfl
      exact ⟨_, hb.farewelled hk htitled (teardowns_make ht haged hcalls hroles) hsubs hc hsome,
        fun _ => hclosed.trans hc⟩
  | closed ha _ hcalls hroles hsubs =>
    refine (hb.keep ?_ (List.Subset.refl _) hsub ?_ ?_).entered
    · have haged : l.Aged l'.calls l'.roles := by
        rw [hcalls, hroles]
        exact .refl ht.calls
      rw [ha, teardowns_aged haged, Option.toList_none, List.append_nil]
    · intro h _ _
      rw [hsubs]
      rfl
    · intro hc
      rw [hsubs] at hc
      simp [Subscriptions.close] at hc

/-- A handle that has ended is confirmed, and the node is told. -/
theorem Told.late (hb : l.Told confirmed opened asked told) (hk : l.Known confirmed)
    (htitled : l.Titled opened) {i handle : Nat} {u : String} {entry : Entry} {id : SubscriptionId}
    (hp : l.calls.pending.get? i = some entry)
    (hrole : l.roles[entry.exchange]? = some (.opening handle u))
    (hopen : l.subscriptions.isOpen handle = false) (hclosed : l.subscriptions.closed = false)
    (hcalls : l'.teardowns = l.teardowns ++ [farewell id u])
    (hsubs : l'.subscriptions = l.subscriptions) :
    l'.Told (confirmed ++ [(handle, id)]) opened asked (told ++ [(handle, id, u)]) := by
  have hnew : handle ∉ told.map Prod.fst := by
    intro hin
    obtain ⟨⟨_, id', u'⟩, hentry, rfl⟩ := List.mem_map.1 hin
    have hmem := List.mem_map_of_mem (f := Prod.fst) (hb.sound _ id' u' hentry).1
    exact hk.unanswered i _ u entry hp hrole hmem
  refine hb.enter hnew (htitled.role _ handle u hrole) hcalls (List.subset_append_left _ _)
    (List.mem_append_right _ (List.mem_singleton_self _)) (hsubs ▸ hopen) (fun h ho => hsubs ▸ ho)
    hclosed fun h id' hid ho => ?_
  rw [List.mem_append, List.mem_singleton] at hid
  rcases hid with hold | heq
  · exact .inr ⟨hold, hsubs ▸ ho⟩
  · exact .inl (Prod.mk.inj heq)

theorem Told.answered {i : Nat} {o : Outcome} (hb : l.Told confirmed opened asked told)
    (hk : l.Known confirmed) (ht : l.Tied) (htitled : l.Titled opened) (ha : l.Answered i o l') :
    l'.Entered (confirmed ++ (l.confirmation? i o).toList) opened asked told := by
  have hsub : confirmed ⊆ confirmed ++ (l.confirmation? i o).toList := List.subset_append_left _ _
  have hanswer : ∀ l : Link, l.Tied → ∀ o', l.Aged (l.calls.answer i o') l.roles := fun l ht o' =>
    ⟨Calls.answer_ages ht.calls i o', rfl, fun _ => .inl rfl⟩
  have hteardowns : ∀ o', l'.calls = l.calls.answer i o' → l'.roles = l.roles →
      l'.teardowns = l.teardowns ++ [] := by
    intro o' hcalls hroles
    rw [List.append_nil]
    exact teardowns_aged (by rw [hcalls, hroles]; exact hanswer l ht o')
  cases ha with
  | other o' hnone hcalls hroles hsubs =>
    rw [hnone, Option.toList_none, List.append_nil, ← List.append_nil asked]
    exact (hb.of_subscriptions (hteardowns o' hcalls hroles) hsubs).entered
  | confirmed entry handle u id o' hp hrole hconf hopen hcalls hroles hsubs =>
    rw [← List.append_nil asked]
    refine (hb.keep (hteardowns o' hcalls hroles) hsub (List.Subset.refl _) ?_ ?_).entered
    · intro h _ ho
      rw [hsubs, Subscriptions.isOpen_confirm, ho]
    · intro hc
      rw [hsubs, Subscriptions.closed_confirm] at hc
      refine ⟨hc, fun h id' hid ho => ?_⟩
      rw [hsubs, Subscriptions.isOpen_confirm] at ho
      rw [hconf, Option.toList_some, List.mem_append, List.mem_singleton] at hid
      refine ⟨hid.resolve_right fun heq => ?_, ho⟩
      rw [(Prod.mk.inj heq).1, hopen] at ho
      simp at ho
  | late entry handle u id c roles o' hp hrole hconf hopen htold hcalls hroles hsubs =>
    rcases htold with ⟨hclosed, rfl, rfl⟩ | ⟨hclosed, rfl, rfl⟩
    · rw [← List.append_nil asked]
      refine (hb.keep (hteardowns o' hcalls hroles) hsub (List.Subset.refl _) ?_ ?_).entered
      · exact fun h _ ho => hsubs ▸ ho
      · intro hc
        rw [hsubs, hclosed] at hc
        simp at hc
    · have hmade : (l.make (farewell id u) false .unshared (.teardown none)).Tied :=
        ht.plain (farewell id u) false .unshared (by simp)
      have hmake : (l.make (farewell id u) false .unshared (.teardown none)).teardowns =
          l.teardowns ++ [farewell id u] :=
        Eq.trans (teardowns_make ht (.refl ht.calls) rfl rfl) rfl
      have hcalls' : l'.teardowns = l.teardowns ++ [farewell id u] := by
        refine (teardowns_aged ?_).trans hmake
        rw [hcalls, hroles]
        exact hanswer _ hmade o'
      rw [hconf, Option.toList_some]
      exact ⟨_, hb.late hk htitled hp hrole hopen hclosed hcalls' hsubs, fun _ => hsubs ▸ hclosed⟩

theorem Told.answerAll (as : List (Nat × Outcome)) (hb : l.Told confirmed opened asked told)
    (hk : l.Known confirmed) (ht : l.Tied) (htitled : l.Titled opened) :
    (l.answerAll as).Entered (confirmed ++ l.confirmations as) opened asked told := by
  induction as generalizing l confirmed told with
  | nil =>
    rw [confirmations, List.append_nil]
    exact hb.entered
  | cons a as ih =>
    have ha := l.answered_answer a.1 a.2
    obtain ⟨new, hb', hnew⟩ := hb.answered hk ht htitled ha
    obtain ⟨more, hb'', hmore⟩ := ih hb' (hk.answer ht a.1 a.2) (ht.answer a.1 a.2)
      (htitled.answered ha)
    refine ⟨new ++ more, ?_, fun hne => ?_⟩
    · rw [confirmations, ← List.append_assoc, ← List.append_assoc]
      exact hb''
    · by_cases hnil : new = []
      · exact hmore (by simpa [hnil] using hne)
      · exact (closed_answerAll as _).trans (hnew hnil)

theorem Titled.answerAll (as : List (Nat × Outcome)) (h : l.Titled opened) :
    (l.answerAll as).Titled opened := by
  induction as generalizing l with
  | nil => exact h
  | cons a as ih => exact ih (h.answered (l.answered_answer a.1 a.2))

/-- Events that hand out answers open nothing and ask for nothing. -/
theorem silent_of_answers {e : Event} {as : List (Nat × Outcome)} (he : e.answers? l = some as) :
    e.opens? l = none ∧ e.asks? = none := by
  cases e <;> simp [Event.answers?, Event.opens?, Event.asks?] at he ⊢

theorem titled_apply (h : l.Titled opened) (ht : l.Tied) (e : Event) :
    (l.apply e).Titled (opened ++ (e.opens? l).toList) := by
  cases he : e.answers? l with
  | none => exact h.passed (passed_apply ht he)
  | some as =>
    rw [(silent_of_answers he).1, Option.toList_none, List.append_nil, apply_of_answers he]
    exact h.answerAll as

/-- An event enters what it tells the node, and only while the connection is there. -/
theorem told_apply (hb : l.Told confirmed opened asked told) (hk : l.Known confirmed) (ht : l.Tied)
    (htitled : l.Titled opened) {e : Event} (htells : e.tells = true) :
    (l.apply e).Entered (confirmed ++ l.confirmations ((e.answers? l).getD []))
      (opened ++ (e.opens? l).toList) (asked ++ e.asks?.toList) told := by
  cases he : e.answers? l with
  | none =>
    rw [Option.getD_none, confirmations, List.append_nil]
    exact hb.passed hk ht htitled htells (passed_apply ht he)
  | some as =>
    obtain ⟨hopens, hasks⟩ := silent_of_answers he
    rw [hopens, hasks, Option.toList_none, Option.toList_none, List.append_nil, List.append_nil,
      Option.getD_some, apply_of_answers he]
    exact hb.answerAll as hk ht htitled

/-! ### Runs -/

/-- At some time of the run the handle was confirmed under the id and not registered any more, while
the connection was there. -/
def TornDown (l : Link) (events : List Event) (handle : Nat) (id : SubscriptionId) : Prop :=
  ∃ past, past <+: events ∧ (handle, id) ∈ l.confirmedIn past ∧
    (l.after past).subscriptions.isOpen handle = false ∧ (l.after past).subscriptions.closed = false

theorem tornDown_concat (l : Link) (events : List Event) (e : Event) (handle : Nat)
    (id : SubscriptionId) : l.TornDown (events ++ [e]) handle id ↔ l.TornDown events handle id ∨
      (handle, id) ∈ l.confirmedIn (events ++ [e]) ∧
        (l.after (events ++ [e])).subscriptions.isOpen handle = false ∧
        (l.after (events ++ [e])).subscriptions.closed = false := by
  constructor
  · rintro ⟨past, hpast, hmem, hopen, hclosed⟩
    rcases List.prefix_concat_iff.1 hpast with rfl | hpast
    · exact .inr ⟨hmem, hopen, hclosed⟩
    · exact .inl ⟨past, hpast, hmem, hopen, hclosed⟩
  · rintro (⟨past, hpast, h⟩ | h)
    · exact ⟨past, hpast.trans (List.prefix_append _ _), h⟩
    · exact ⟨events ++ [e], List.prefix_rfl, h⟩

theorem titled_after (buffer : Nat) (policy : Backpressure) (events : List Event) :
    ((ofOptions buffer policy).after events).Titled
      ((ofOptions buffer policy).openedIn events) := by
  induction events using List.reverseRecOn with
  | nil =>
    refine ⟨fun h hh => by simp [openedIn, trace] at hh, List.nodup_nil, fun k h u hk => ?_,
      fun h r hr => ?_⟩
    · simp [after, ofOptions] at hk
    · simp [after, ofOptions, Table.get?] at hr
  | append_singleton events e ih =>
    rw [after_concat, openedIn, trace_concat]
    exact titled_apply ih (tied_after buffer policy events) e

theorem told_after (buffer : Nat) (policy : Backpressure) (events : List Event)
    (htells : ∀ e ∈ events, e.tells = true) :
    ∃ told, ((ofOptions buffer policy).after events).Told
        ((ofOptions buffer policy).confirmedIn events) ((ofOptions buffer policy).openedIn events)
        (events.filterMap Event.asks?) told ∧
      ∀ h id, (ofOptions buffer policy).TornDown events h id ↔ ∃ u, (h, id, u) ∈ told := by
  induction events using List.reverseRecOn with
  | nil =>
    refine ⟨[], ⟨List.nodup_nil, by simp, fun _ h id hid => ?_, .refl _⟩, fun h id => ?_⟩
    · simp [confirmedIn, trace] at hid
    · refine ⟨?_, by simp⟩
      rintro ⟨past, hpast, hid, _⟩
      rw [List.prefix_nil.1 hpast] at hid
      simp [confirmedIn, trace] at hid
  | append_singleton events e ih =>
    obtain ⟨told, hb, htorn⟩ := ih fun e' he' => htells e' (List.mem_append_left _ he')
    obtain ⟨new, hb', hnew⟩ := told_apply hb (known_after buffer policy events)
      (tied_after buffer policy events) (titled_after buffer policy events)
      (htells e (List.mem_append_right _ (List.mem_singleton_self e)))
    have hasks : (events ++ [e]).filterMap Event.asks? =
        events.filterMap Event.asks? ++ e.asks?.toList := by
      rw [List.filterMap_append]
      cases he : e.asks? <;> simp [he]
    have hbook : ((ofOptions buffer policy).after (events ++ [e])).Told
        ((ofOptions buffer policy).confirmedIn (events ++ [e]))
        ((ofOptions buffer policy).openedIn (events ++ [e]))
        ((events ++ [e]).filterMap Event.asks?) (told ++ new) := by
      rw [after_concat, confirmedIn, openedIn, trace_concat, trace_concat, hasks]
      exact hb'
    refine ⟨told ++ new, hbook, fun h id => ?_⟩
    rw [tornDown_concat, htorn]
    constructor
    · rintro (⟨u, hu⟩ | ⟨hmem, hopen, hclosed⟩)
      · exact ⟨u, List.mem_append_left _ hu⟩
      · exact hbook.complete hclosed h id hmem hopen
    · rintro ⟨u, hu⟩
      rcases List.mem_append.1 hu with hold | hin
      · exact .inl ⟨u, hold⟩
      · obtain ⟨hmem, _, hopen⟩ := hbook.sound h id u hu
        rw [← after_concat] at hnew
        exact .inr ⟨hmem, hopen, hnew (List.ne_nil_of_mem hin)⟩

/-- The calls that close subscriptions are those that callers ask for, and one for every
subscription that was confirmed and has ended, in whichever order, before the connection was gone:
with the id under which it was confirmed, and the method that it was opened with. -/
theorem tells_each_once (buffer : Nat) (policy : Backpressure) (events : List Event)
    (htells : ∀ e ∈ events, e.tells = true) :
    ∃ told : List (Nat × SubscriptionId × String), (told.map Prod.fst).Nodup ∧
      (∀ h id u, (h, id, u) ∈ told ↔
        (h, u) ∈ (ofOptions buffer policy).openedIn events ∧
          (ofOptions buffer policy).TornDown events h id) ∧
      ((ofOptions buffer policy).after events).teardowns.Perm
        (events.filterMap Event.asks? ++ told.map fun t => farewell t.2.1 t.2.2) := by
  obtain ⟨told, hb, htorn⟩ := told_after buffer policy events htells
  refine ⟨told, hb.once, fun h id u => ⟨fun hmem => ?_, fun ⟨hu, hdown⟩ => ?_⟩, hb.calls⟩
  · exact ⟨(hb.sound h id u hmem).2.1, (htorn h id).2 ⟨u, hmem⟩⟩
  · obtain ⟨u', hmem⟩ := (htorn h id).1 hdown
    rwa [(titled_after buffer policy events).unique hu (hb.sound h id u' hmem).2.1]

/-- A subscription that is closed while its subscribe call is out, and confirmed afterwards; the
consumer of another drops it after it was confirmed. -/
def twoEnded : List Event :=
  let request : SubscriptionRequest :=
    ⟨⟨"slotSubscribe", "slotUnsubscribe", "slotNotification"⟩, .arr []⟩
  [.act (.open request (.caller 0)), .act (.open request (.caller 0)), .run (.exchange 0),
    .run (.exchange 1), .act (.closeStream 1 true), .route ⟨1, .ok (.int 7)⟩,
    .route ⟨2, .ok (.int 8)⟩, .act (.dropStream 2 true)]

/-- The node is told of both. -/
theorem tells_each_once_of_two :
    (∀ e ∈ twoEnded, e.tells = true) ∧
    ∃ told : List (Nat × SubscriptionId × String), (told.map Prod.fst).Nodup ∧
      (1, .number 7, "slotUnsubscribe") ∈ told ∧ (2, .number 8, "slotUnsubscribe") ∈ told ∧
      ((ofOptions 1 .pauseReads).after twoEnded).teardowns.Perm
        (told.map fun t => farewell t.2.1 t.2.2) := by
  have htells : ∀ e ∈ twoEnded, e.tells = true := by decide
  obtain ⟨told, hnodup, hmem, hperm⟩ := tells_each_once 1 .pauseReads twoEnded htells
  refine ⟨htells, told, hnodup, (hmem ..).2 ⟨by decide, ?_⟩, (hmem ..).2 ⟨by decide, ?_⟩, hperm⟩
  · exact ⟨twoEnded, List.prefix_rfl, by decide, by decide, by decide⟩
  · exact ⟨twoEnded, List.prefix_rfl, by decide, by decide, by decide⟩

end NodeRpc.Link
