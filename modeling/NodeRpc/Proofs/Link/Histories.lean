import Mathlib.Data.List.Nodup
import NodeRpc.Proofs.Link.Steps

/-!
# What a run has confirmed

The answers that a run hands out confirm handles, each at most once: a handle has one subscribe
call. `Known` is what the handles confirmed so far, with the ids that the node gave them, have to do
with the calls that are still out and with the tables; it holds whether the subscriptions are still
open or have ended before the answer came.
-/

namespace NodeRpc

/-- What the handles that were confirmed have to do with calls and subscriptions. -/
structure Known (c : Calls) (roles : List Role) (s : Subscriptions)
    (confirmed : List (Nat × SubscriptionId)) : Prop where
  lt : ∀ h ∈ confirmed.map Prod.fst, h < s.nextHandle
  once : (confirmed.map Prod.fst).Nodup
  /-- While its subscribe call has not been made or answered, a handle is not confirmed. -/
  unmade : ∀ (k h : Nat) (u : String) (x : Exchange), roles[k]? = some (.opening h u) →
    c.exchanges[k]? = some x → x.stage = .fresh → h ∉ confirmed.map Prod.fst
  unanswered : ∀ (i h : Nat) (u : String) (entry : Entry), c.pending.get? i = some entry →
    roles[entry.exchange]? = some (.opening h u) → h ∉ confirmed.map Prod.fst
  /-- A handle that is registered has the id under which it was confirmed. -/
  serverId : ∀ h id, s.serverId? h = some id ↔ s.isOpen h = true ∧ (h, id) ∈ confirmed

section Known

variable {c c' : Calls} {roles roles' : List Role} {s : Subscriptions}
  {confirmed : List (Nat × SubscriptionId)}

theorem Known.unique (hk : Known c roles s confirmed) {h : Nat} {id id' : SubscriptionId}
    (hid : (h, id) ∈ confirmed) (hid' : (h, id') ∈ confirmed) : id = id' :=
  congrArg Prod.snd (List.inj_on_of_nodup_map hk.once hid hid' rfl)

theorem Known.age (hk : Known c roles s confirmed) (h : c.Ages c')
    (hroles : ∀ (k h : Nat) (u : String), roles'[k]? = some (.opening h u) →
      roles[k]? = some (.opening h u)) : Known c' roles' s confirmed where
  lt := hk.lt
  once := hk.once
  unmade k handle u x' hrole hx' hf := by
    obtain ⟨x, hx, _, hfresh, _⟩ := h.exchange k x' hx'
    exact hk.unmade k handle u x (hroles k handle u hrole) hx (hfresh hf)
  unanswered i handle u entry hp hrole := by
    have hrole := hroles _ handle u hrole
    rcases h.pending i entry hp with hp | ⟨x, hx, hf⟩
    · exact hk.unanswered i handle u entry hp hrole
    · exact hk.unmade entry.exchange handle u x hrole hx hf
  serverId := hk.serverId

/-- A call may be made, and a subscribe call for a handle that was not confirmed. -/
theorem Known.make (hk : Known c roles s confirmed) (hlen : roles.length = c.exchanges.length)
    (calls : List Call) (batched : Bool) (token : Token) {role : Role}
    (hrole : ∀ h u, role = .opening h u → h ∉ confirmed.map Prod.fst) :
    Known (c.make calls batched token) (roles ++ [role]) s confirmed where
  lt := hk.lt
  once := hk.once
  unmade k h u x hget hx hf := by
    simp only [Calls.make, getElem?_concat] at hget hx
    split at hget
    · exact hrole h u (Option.some.inj hget)
    · next hne =>
      rw [if_neg (by omega)] at hx
      exact hk.unmade k h u x hget hx hf
  unanswered i h u entry hp hget := by
    rw [getElem?_concat] at hget
    split at hget
    · exact hrole h u (Option.some.inj hget)
    · exact hk.unanswered i h u entry hp hget
  serverId := hk.serverId

theorem Known.register (hk : Known c roles s confirmed) (names : SubscriptionNames) :
    Known c roles (s.register names) confirmed where
  lt h hmem := by
    rw [Subscriptions.nextHandle_register]
    exact Nat.lt_succ_of_lt (hk.lt h hmem)
  once := hk.once
  unmade := hk.unmade
  unanswered := hk.unanswered
  serverId h id := by
    have hnew : (h, id) ∈ confirmed → s.nextHandle ≠ h := fun hmem =>
      Nat.ne_of_gt (hk.lt h (List.mem_map_of_mem hmem))
    rw [Subscriptions.serverId?_register, Subscriptions.isOpen_register]
    split
    · next he => exact ⟨by simp, fun hopen => absurd he.2 (hnew hopen.2)⟩
    · next hne =>
      rw [hk.serverId, Bool.or_eq_true]
      refine ⟨fun hopen => ⟨.inl hopen.1, hopen.2⟩,
        fun hopen => ⟨hopen.1.resolve_right ?_, hopen.2⟩⟩
      simp only [Bool.and_eq_true, Bool.not_eq_true', decide_eq_true_eq]
      exact hne

theorem Known.release (hk : Known c roles s confirmed) (handle : Nat) :
    Known c roles (s.release handle) confirmed where
  lt := hk.lt
  once := hk.once
  unmade := hk.unmade
  unanswered := hk.unanswered
  serverId h id := by
    rw [Subscriptions.serverId?_release, Subscriptions.isOpen_release]
    by_cases he : handle = h <;> simp [he, hk.serverId]

theorem Known.close (hk : Known c roles s confirmed) : Known c roles s.close confirmed where
  lt := hk.lt
  once := hk.once
  unmade := hk.unmade
  unanswered := hk.unanswered
  serverId h id := by
    simp [Subscriptions.close, Subscriptions.serverId?, Subscriptions.isOpen, Table.has, Table.get?]

/-- The answer to a subscribe call makes its handle one that was confirmed. -/
theorem Known.add (hk : Known c roles s confirmed) (ht : Tied c roles s) {i h : Nat} {u : String}
    {entry : Entry} (hp : c.pending.get? i = some entry)
    (hrole : roles[entry.exchange]? = some (.opening h u)) (id : SubscriptionId) (o : Outcome)
    {s' : Subscriptions} (hnext : s'.nextHandle = s.nextHandle)
    (hserver : ∀ h' id', s'.serverId? h' = some id' ↔
      s'.isOpen h' = true ∧ (h', id') ∈ confirmed ++ [(h, id)]) :
    Known (c.answer i o) roles s' (confirmed ++ [(h, id)]) := by
  have hmem : ∀ h', h' ∈ (confirmed ++ [(h, id)]).map Prod.fst ↔
      h' ∈ confirmed.map Prod.fst ∨ h' = h := by simp
  have hage := hk.age (Calls.answer_ages ht.calls i o) fun _ _ _ hget => hget
  obtain ⟨hmade, hanswered⟩ := ht.answered hp hrole o
  refine {
    lt := fun h' hh => ?lt
    once := ?once
    unmade := fun k h' u' y hget hy hf => ?unmade
    unanswered := fun j h' u' other hj hget => ?unanswered
    serverId := hserver }
  case lt =>
    rw [hnext]
    rcases (hmem h').1 hh with hold | rfl
    · exact hk.lt h' hold
    · exact ht.subscribeLt _ _ u hrole
  case once => exact nodup_fst_concat hk.once (hk.unanswered i h u entry hp hrole) id
  case unmade =>
    rw [hmem, not_or]
    refine ⟨hage.unmade k h' u' y hget hy hf, ?_⟩
    rintro rfl
    exact hmade k u' y hget hy hf
  case unanswered =>
    rw [hmem, not_or]
    refine ⟨hage.unanswered j h' u' other hj hget, ?_⟩
    rintro rfl
    exact hanswered j u' other hj hget

end Known

namespace Link

variable {l : Link} {confirmed : List (Nat × SubscriptionId)}

/-! ### Traces -/

/-- What is observed in a run, one event after the other. -/
def trace {α : Type} (f : Link → Event → List α) : Link → List Event → List α
  | _, [] => []
  | l, e :: events => f l e ++ trace f (l.apply e) events

theorem trace_append {α : Type} (f : Link → Event → List α) (l : Link) (events more : List Event) :
    trace f l (events ++ more) = trace f l events ++ trace f (l.after events) more := by
  induction events generalizing l with
  | nil => rfl
  | cons e events ih =>
    simp only [List.cons_append, trace, ih, List.append_assoc]
    rfl

theorem trace_concat {α : Type} (f : Link → Event → List α) (l : Link) (events : List Event)
    (e : Event) : trace f l (events ++ [e]) = trace f l events ++ f (l.after events) e := by
  rw [trace_append, trace, trace, List.append_nil]

/-- What answers confirm that are handed out one after the other. -/
def confirmations : Link → List (Nat × Outcome) → List (Nat × SubscriptionId)
  | _, [] => []
  | l, a :: as => (l.confirmation? a.1 a.2).toList ++ confirmations (l.answer a.1 a.2) as

/-- The handles that a run confirms, with the ids that the node gave them. -/
def confirmedIn (l : Link) (events : List Event) : List (Nat × SubscriptionId) :=
  l.trace (fun l e => l.confirmations ((e.answers? l).getD [])) events

/-! ### Every event -/

/-- What was confirmed is known to a link. -/
abbrev Known (l : Link) (confirmed : List (Nat × SubscriptionId)) : Prop :=
  NodeRpc.Known l.calls l.roles l.subscriptions confirmed

theorem Aged.opening {c : Calls} {roles : List Role} (h : l.Aged c roles) (k handle : Nat)
    (u : String) (hk : roles[k]? = some (.opening handle u)) :
    l.roles[k]? = some (.opening handle u) := by
  rcases h.roles k with heq | ⟨d, d', _, hd'⟩
  · rw [← heq, hk]
  · rw [hd'] at hk
    simp at hk

theorem Known.passed {e : Event} {l' : Link} (hk : l.Known confirmed) (ht : l.Tied)
    (hp : l.Passed e l') : l'.Known confirmed := by
  have haged : ∀ {c roles}, l.Aged c roles → NodeRpc.Known c roles l.subscriptions confirmed :=
    fun h => hk.age h.calls h.opening
  unfold Link.Known
  cases hp with
  | aged _ _ h hsubs =>
    rw [hsubs]
    exact haged h
  | made calls batched token role hrole _ _ hcalls hroles hsubs =>
    rw [hcalls, hroles, hsubs]
    exact hk.make ht.length calls batched token fun h u he => absurd he (hrole h u)
  | refused names _ _ _ h hsubs =>
    rw [hsubs]
    exact (haged h).register names
  | opened names call c _ _ _ h hcalls hroles hsubs =>
    have hage : NodeRpc.Known c l.roles l.subscriptions confirmed :=
      hk.age h fun _ _ _ hget => hget
    rw [hcalls, hroles, hsubs]
    refine (hage.make (ht.length.trans h.length.symm) _ _ _ ?_).register names
    rintro h' u he hmem
    obtain ⟨rfl, _⟩ := Role.opening.inj he
    exact Nat.lt_irrefl _ (hk.lt _ hmem)
  | ended handle c roles _ _ h hsubs htold =>
    rw [hsubs]
    rcases htold with ⟨_, hcalls, hroles⟩ | ⟨id, u, _, _, hcalls, hroles⟩
    · rw [hcalls, hroles]
      exact (haged h).release handle
    · rw [hcalls, hroles]
      have hlen : roles.length = c.exchanges.length := by
        rw [h.length, ht.length, h.calls.length]
      exact ((haged h).make hlen _ _ _ (by simp)).release handle
  | closed _ _ hcalls hroles hsubs =>
    rw [hcalls, hroles, hsubs]
    exact hk.close

theorem Known.answer (hk : l.Known confirmed) (ht : l.Tied) (i : Nat) (o : Outcome) :
    (l.answer i o).Known (confirmed ++ (l.confirmation? i o).toList) := by
  unfold Link.Known
  cases l.answered_answer i o with
  | other o' hnone hcalls hroles hsubs =>
    rw [hcalls, hroles, hsubs, hnone, Option.toList_none, List.append_nil]
    exact hk.age (Calls.answer_ages ht.calls i o') fun _ _ _ hget => hget
  | confirmed entry handle u id o' hp hrole hconf hopen hcalls hroles hsubs =>
    rw [hcalls, hroles, hsubs, hconf, Option.toList_some]
    refine hk.add ht hp hrole id o' (Subscriptions.nextHandle_confirm _ _ _) fun h' id' => ?_
    rw [Subscriptions.serverId?_confirm hopen, Subscriptions.isOpen_confirm, List.mem_append,
      List.mem_singleton, Prod.mk.injEq]
    have hnew := hk.unanswered i handle u entry hp hrole
    split
    · next he =>
      subst he
      simp only [hopen, true_and, Option.some.injEq]
      refine ⟨fun heq => .inr heq.symm, fun hor => ?_⟩
      rcases hor with hold | heq
      · exact absurd (List.mem_map_of_mem (f := Prod.fst) hold) hnew
      · exact heq.symm
    · next hne =>
      rw [hk.serverId]
      refine and_congr_right fun _ => ⟨.inl, fun hor => hor.resolve_right fun heq => hne heq.1.symm⟩
  | late entry handle u id c roles o' hp hrole hconf hopen htold hcalls hroles hsubs =>
    have hserver : ∀ h' id', l.subscriptions.serverId? h' = some id' ↔
        l.subscriptions.isOpen h' = true ∧ (h', id') ∈ confirmed ++ [(handle, id)] := by
      intro h' id'
      rw [hk.serverId, List.mem_append, List.mem_singleton, Prod.mk.injEq]
      refine and_congr_right fun hopen' => ⟨.inl, fun hor => hor.resolve_right fun heq => ?_⟩
      rw [heq.1, hopen] at hopen'
      simp at hopen'
    rw [hcalls, hroles, hsubs, hconf, Option.toList_some]
    rcases htold with ⟨_, rfl, rfl⟩ | ⟨_, rfl, rfl⟩
    · exact hk.add ht hp hrole id o' rfl hserver
    · have hlt : entry.exchange < l.roles.length := (List.getElem?_eq_some_iff.1 hrole).1
      refine Known.add (u := u) (hk.make ht.length _ _ _ (by simp)) (ht.plain _ _ _ (by simp))
        hp ?_ id o' rfl hserver
      rw [List.getElem?_append_left hlt, hrole]

theorem Known.answerAll (as : List (Nat × Outcome)) (hk : l.Known confirmed) (ht : l.Tied) :
    (l.answerAll as).Known (confirmed ++ l.confirmations as) := by
  induction as generalizing l confirmed with
  | nil =>
    rw [confirmations, List.append_nil]
    exact hk
  | cons a as ih =>
    rw [confirmations, ← List.append_assoc]
    exact ih (hk.answer ht a.1 a.2) (ht.answer a.1 a.2)

theorem apply_of_answers {e : Event} {as : List (Nat × Outcome)} (he : e.answers? l = some as) :
    l.apply e = l.answerAll as := by
  cases e with
  | route r => exact congrArg l.answerAll (Option.some.inj he)
  | routeBatch responses => exact congrArg l.answerAll (Option.some.inj he)
  | reject error => exact congrArg l.answerAll (Option.some.inj he)
  | _ => simp [Event.answers?] at he

theorem known_apply (hk : l.Known confirmed) (ht : l.Tied) (e : Event) :
    (l.apply e).Known (confirmed ++ l.confirmations ((e.answers? l).getD [])) := by
  cases he : e.answers? l with
  | none =>
    rw [Option.getD_none, confirmations, List.append_nil]
    exact hk.passed ht (passed_apply ht he)
  | some as =>
    rw [Option.getD_some, apply_of_answers he]
    exact hk.answerAll as ht

theorem tied_after (buffer : Nat) (policy : Backpressure) (events : List Event) :
    ((ofOptions buffer policy).after events).Tied := by
  induction events using List.reverseRecOn with
  | nil => exact tied_ofOptions buffer policy
  | append_singleton events e ih =>
    rw [after_concat]
    exact tied_apply ih e

theorem known_ofOptions (buffer : Nat) (policy : Backpressure) :
    (ofOptions buffer policy).Known [] where
  lt h hh := by simp at hh
  once := List.nodup_nil
  unmade k h u x hk := by simp [ofOptions] at hk
  unanswered i h u entry hp := by simp [ofOptions, Table.get?] at hp
  serverId h id := by simp [ofOptions, Subscriptions.serverId?, Table.get?]

/-- A link knows at all times what was confirmed. -/
theorem known_after (buffer : Nat) (policy : Backpressure) (events : List Event) :
    ((ofOptions buffer policy).after events).Known
      ((ofOptions buffer policy).confirmedIn events) := by
  induction events using List.reverseRecOn with
  | nil => exact known_ofOptions buffer policy
  | append_singleton events e ih =>
    rw [after_concat, confirmedIn, trace_concat]
    exact known_apply ih (tied_after buffer policy events) e

end Link

end NodeRpc
