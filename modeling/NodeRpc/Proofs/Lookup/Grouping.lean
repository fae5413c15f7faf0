import Mathlib.Data.List.Induction
import NodeRpc.Proofs.Lookup.Loading

/-!
# Accounts are asked for by their options, and found by their places

Keys with the same options share a call. What the call brings is dealt out to these keys by their
places among them, so a key gets the account that was asked for in its name, and what becomes of the
calls of other options does not reach it.
-/

namespace NodeRpc

/-! ### The options in their order -/

/-- `firsts` are the values in `all`, each once, in the order in which they first come. -/
structure InFirstOrder {α : Type} [DecidableEq α] (firsts all : List α) : Prop where
  nodup : firsts.Nodup
  mem_iff : ∀ x, x ∈ firsts ↔ x ∈ all
  ordered : firsts.Pairwise fun x y => all.idxOf x < all.idxOf y

theorem inFirstOrder_eraseDups {α : Type} [DecidableEq α] (xs : List α) :
    InFirstOrder xs.eraseDups xs where
  nodup := nodup_eraseDups xs
  mem_iff _ := List.mem_eraseDups
  ordered := by
    induction xs using List.reverseRecOn with
    | nil => simp
    | append_singleton xs x ih =>
      have hold : xs.eraseDups.Pairwise fun y z => (xs ++ [x]).idxOf y < (xs ++ [x]).idxOf z := by
        refine ih.imp_of_mem fun {y z} hy hz hlt => ?_
        rw [List.mem_eraseDups] at hy hz
        rwa [List.idxOf_append_of_mem hy, List.idxOf_append_of_mem hz]
      rw [List.eraseDups_append]
      by_cases hx : x ∈ xs
      · simpa [List.removeAll, hx] using hold
      · have hnew : ∀ y ∈ xs, (xs ++ [x]).idxOf y < (xs ++ [x]).idxOf x := by
          intro y hy
          rw [List.idxOf_append_of_mem hy, List.idxOf_append_of_notMem hx]
          have hlt := List.idxOf_lt_length_of_mem hy
          omega
        simpa [List.removeAll, hx, List.pairwise_append, hold, List.eraseDups_cons] using hnew

/-! ### Places -/

/-- The keys that come with options `o`, in order. -/
def keysWith (keys : List AccountKey) (o : AccountOptions) : List AccountKey :=
  keys.filter fun k => k.options = o

/-- The place that key number `i` has among the keys with options `o`. -/
def placeOf (keys : List AccountKey) (i : Nat) (o : AccountOptions) : Nat :=
  (keysWith (keys.take i) o).length

theorem placeOf_succ (k : AccountKey) (keys : List AccountKey) (i : Nat) (o : AccountOptions) :
    placeOf (k :: keys) (i + 1) o = placeOf keys i o + if k.options = o then 1 else 0 := by
  by_cases ho : k.options = o <;> simp [placeOf, keysWith, ho]

/-- A key is found at its place. -/
theorem getElem?_keysWith {keys : List AccountKey} {i : Nat} {k : AccountKey}
    (hk : keys[i]? = some k) : (keysWith keys k.options)[placeOf keys i k.options]? = some k := by
  induction keys generalizing i with
  | nil => simp at hk
  | cons l keys ih =>
    cases i with
    | zero =>
      obtain rfl : l = k := by simpa using hk
      simp [keysWith, placeOf]
    | succ i =>
      have htail := ih (by simpa using hk)
      rw [placeOf_succ]
      by_cases ho : l.options = k.options
      · simpa [keysWith, ho] using htail
      · simpa [keysWith, ho] using htail

/-- The first key takes the first result of its group, or null if there is none, and the other keys
are dealt what is left. -/
theorem dealResults_cons (k : AccountKey) (keys : List AccountKey)
    (groups : Table AccountOptions (List KeyResult)) :
    ∃ rest : Table AccountOptions (List KeyResult),
      dealResults (k :: keys) groups =
        ((groups.get? k.options).bind fun rs => rs[0]?).getD (.ok .null) :: dealResults keys rest ∧
      ∀ o, rest.get? o = (groups.get? o).map fun rs => if k.options = o then rs.tail else rs := by
  have hsame : (∀ rs, groups.get? k.options = some rs → rs = []) → ∀ o,
      groups.get? o = (groups.get? o).map fun rs => if k.options = o then rs.tail else rs := by
    intro hempty o
    cases ho : groups.get? o with
    | none => rfl
    | some rs =>
      by_cases hk : k.options = o
      · simp [hempty rs (hk ▸ ho)]
      · simp [hk]
  cases hgroup : groups.get? k.options with
  | none => exact ⟨groups, by rw [dealResults, hgroup]; rfl, hsame (by simp [hgroup])⟩
  | some rs =>
    cases rs with
    | nil => exact ⟨groups, by rw [dealResults, hgroup]; rfl, hsame (by simp [hgroup])⟩
    | cons r rs =>
      refine ⟨groups.put k.options rs, by rw [dealResults, hgroup]; rfl, fun o => ?_⟩
      rw [Table.get?_put]
      by_cases hk : k.options = o
      · simp [← hk, hgroup]
      · simp [hk]

/-- Every key gets what its group brings at its place, and null where it brings nothing. -/
theorem getElem?_dealResults (keys : List AccountKey)
    (groups : Table AccountOptions (List KeyResult)) (i : Nat) :
    (dealResults keys groups)[i]? = (keys[i]?).map fun k =>
      ((groups.get? k.options).bind fun rs => rs[placeOf keys i k.options]?).getD (.ok .null) := by
  induction keys generalizing groups i with
  | nil => simp [dealResults]
  | cons l keys ih =>
    obtain ⟨rest, hcons, hrest⟩ := dealResults_cons l keys groups
    rw [hcons]
    cases i with
    | zero => simp [placeOf, keysWith]
    | succ i =>
      rw [List.getElem?_cons_succ, List.getElem?_cons_succ, ih]
      refine Option.map_congr fun k _ => ?_
      rw [hrest, placeOf_succ, Option.bind_map]
      congr 2
      funext rs
      by_cases ho : l.options = k.options
      · simp [ho]
      · simp [ho]

/-! ### What a key comes to -/

/-- What the reply to a call for accounts says, as it goes to the caller. -/
def accountsOf (c : Client) (reply : Outcome) : Except CallError (AtSlot (List (Option Json))) :=
  reply.bind fun v => decodeAs (AtSlot.ofJson? (Json.required (Json.list? (Json.nullable some))))
    (c.registry.transformResponse "getMultipleAccounts" v)

/-- An account that was asked for under `address`: null if there is none; an object says under which
address it is. -/
def accountAt (address : String) : Option Json → Json
  | none => .null
  | some (.obj fields) => .obj (Table.put fields "address" (.str address))
  | some account => account

/-- What a key should come to if its call asks for `asked` accounts, its own at `place`: the account
at that place if as many came as were asked for; else an error that says how many came, or why none
did. -/
inductive AccountKey.ComesTo (k : AccountKey) (asked place : Nat) :
    Except CallError (AtSlot (List (Option Json))) → KeyResult → Prop where
  | found {answer : AtSlot (List (Option Json))} {account : Option Json}
      (many : answer.value.length = asked) (there : answer.value[place]? = some account) :
      ComesTo k asked place (.ok answer) (.ok (accountAt k.address account))
  | mismatch {answer : AtSlot (List (Option Json))} (many : answer.value.length ≠ asked) :
      ComesTo k asked place (.ok answer) (.error (.batchMismatch asked answer.value.length))
  | failed (cause : CallError) : ComesTo k asked place (.error cause) (.error (.call cause))

theorem entity_eq (k : AccountKey) (account : Option Json) :
    k.entity account = accountAt k.address account := by
  cases account with
  | none => rfl
  | some v => cases v <;> rfl

/-- Each of the keys of a group comes to what it should. -/
theorem comesTo_groupResults {keys : List AccountKey} {place : Nat} {k : AccountKey}
    (hk : keys[place]? = some k) (answer : Except CallError (AtSlot (List (Option Json)))) :
    ∃ r, (groupResults keys answer)[place]? = some r ∧ k.ComesTo keys.length place answer r := by
  obtain ⟨hlt, -⟩ := List.getElem?_eq_some_iff.1 hk
  cases answer with
  | error cause => exact ⟨_, by simp [groupResults, hlt], .failed cause⟩
  | ok answer =>
    by_cases hmany : answer.value.length = keys.length
    · have hthere : answer.value[place]? = some answer.value[place] := by simp
      refine ⟨_, ?_, .found hmany hthere⟩
      rw [groupResults, if_pos hmany, List.getElem?_zipWith, hk, hthere, ← entity_eq]
    · exact ⟨_, by simp [groupResults, hmany, hlt], .mismatch hmany⟩

/-- The options that keys come with, in their order. -/
def optionsOf (keys : List AccountKey) : List AccountOptions :=
  (keys.map AccountKey.options).eraseDups

/-- The calls that ask for accounts, one for each of their options, as they go to the node. -/
def accountsCalls (c : Client) (keys : List AccountKey) : List Call :=
  c.batchCalls ((optionsOf keys).map fun o =>
    accountsCall ((keysWith keys o).map AccountKey.address) (o.normalized c.commitment))

theorem accountsAsk_eq (c : Client) (keys : List AccountKey) :
    accountsAsk c keys = .calls (accountsCalls c keys) := by
  unfold accountsAsk accountsCalls accountGroups Client.batchCalls
  rw [List.map_map, List.map_map]
  rfl

/-- Calls that are replied to by `reply`, each for its options. -/
def Replied (keys : List AccountKey) (reply : AccountOptions → Outcome) (answer : Answer) : Prop :=
  answer.outcomes (optionsOf keys).length = (optionsOf keys).map reply

/-- What keys come to if the calls are replied to by `reply`. -/
def loadedBy (c : Client) (keys : List AccountKey) (reply : AccountOptions → Outcome) :
    List KeyResult :=
  dealResults keys ((optionsOf keys).map fun o =>
    (o, groupResults (keysWith keys o) (accountsOf c (reply o))))

theorem accountsRead_of_replied {c : Client} {keys : List AccountKey}
    {reply : AccountOptions → Outcome} {answer : Answer} (h : Replied keys reply answer) :
    accountsRead c keys answer = .ok (loadedBy c keys reply) := by
  have hgroups : accountGroups keys = (optionsOf keys).map fun o => (o, keysWith keys o) := rfl
  unfold accountsRead loadedBy
  dsimp only
  rw [hgroups, List.length_map, h, List.zipWith_map, List.zipWith_self]
  rfl

theorem length_dealResults (keys : List AccountKey)
    (groups : Table AccountOptions (List KeyResult)) :
    (dealResults keys groups).length = keys.length := by
  induction keys generalizing groups with
  | nil => rfl
  | cons k keys ih =>
    obtain ⟨rest, hcons, -⟩ := dealResults_cons k keys groups
    rw [hcons, List.length_cons, List.length_cons, ih]

/-- A key comes to what it should by the reply to the call of its options, and nothing else has a
say in it. -/
theorem getElem?_loadedBy (c : Client) {keys : List AccountKey} {i : Nat} {k : AccountKey}
    (hk : keys[i]? = some k) (reply : AccountOptions → Outcome) :
    ∃ r, (groupResults (keysWith keys k.options) (accountsOf c (reply k.options)))[
        placeOf keys i k.options]? = some r ∧ (loadedBy c keys reply)[i]? = some r ∧
      k.ComesTo (keysWith keys k.options).length (placeOf keys i k.options)
        (accountsOf c (reply k.options)) r := by
  obtain ⟨r, hr, hcomes⟩ := comesTo_groupResults (getElem?_keysWith hk)
    (accountsOf c (reply k.options))
  have hmem : k.options ∈ optionsOf keys :=
    List.mem_eraseDups.2 (List.mem_map_of_mem (List.mem_of_getElem? hk))
  refine ⟨r, hr, ?_, hcomes⟩
  unfold loadedBy
  rw [getElem?_dealResults, hk, Option.map_some, Table.get?_map_const, if_pos hmem,
    Option.bind_some, hr, Option.getD_some]

/-- Accounts are loaded by one call for each of the options that they come with, in the order in
which these first come, for the addresses of the keys with these options in their order. Whatever is
replied to each of the calls, every key comes to what it should by the reply to the call of its
options, and to the same by any other replies that are the same to this call. -/
theorem loads_by_options (c : Client) (keys : List AccountKey) :
    InFirstOrder (optionsOf keys) (keys.map AccountKey.options) ∧
      (∀ node, (loadAccounts c keys).asked node = [.calls (accountsCalls c keys)]) ∧
      ∀ node reply, Replied keys reply (node (.calls (accountsCalls c keys))) →
        ∃ results, (loadAccounts c keys).result node = .ok results ∧
          results.length = keys.length ∧
          ∀ (i : Nat) (k : AccountKey), keys[i]? = some k → ∃ r, results[i]? = some r ∧
            k.ComesTo (keysWith keys k.options).length (placeOf keys i k.options)
              (accountsOf c (reply k.options)) r ∧
            ∀ node' reply', Replied keys reply' (node' (.calls (accountsCalls c keys))) →
              reply' k.options = reply k.options → ∃ results',
                (loadAccounts c keys).result node' = .ok results' ∧ results'[i]? = some r := by
  have hresult : ∀ node reply, Replied keys reply (node (.calls (accountsCalls c keys))) →
      (loadAccounts c keys).result node = .ok (loadedBy c keys reply) := by
    intro node reply hreplied
    rw [loadAccounts_eq, accountsAsk_eq]
    exact accountsRead_of_replied hreplied
  refine ⟨inFirstOrder_eraseDups _, fun node => ?_, fun node reply hreplied => ?_⟩
  · rw [loadAccounts_eq, accountsAsk_eq]
    rfl
  refine ⟨_, hresult node reply hreplied, length_dealResults .., fun i k hk => ?_⟩
  obtain ⟨r, hr, hloaded, hcomes⟩ := getElem?_loadedBy c hk reply
  refine ⟨r, hloaded, hcomes, fun node' reply' hreplied' hsame => ?_⟩
  obtain ⟨r', hr', hloaded', -⟩ := getElem?_loadedBy c hk reply'
  rw [hsame, hr] at hr'
  obtain rfl := Option.some.inj hr'
  exact ⟨_, hresult node' reply' hreplied', hloaded'⟩

/-- Accounts of two options, one of them twice. -/
def mixed : List AccountKey :=
  [⟨"a", {}⟩, ⟨"b", { encoding := some .base64 }⟩, ⟨"gone", {}⟩,
    ⟨"c", { encoding := some .base64 }⟩, ⟨"a", {}⟩]

/-- An account as it comes. -/
def oneLamport : Json := .obj [("lamports", .int 1)]

/-- The accounts that come without options are replied to in full, and one of the others is left
out. -/
def mixedReply (o : AccountOptions) : Outcome :=
  .ok (.obj [("context", .obj [("slot", .int 1)]),
    ("value", .arr (if o.encoding = none then [oneLamport, .null, oneLamport] else [oneLamport]))])

/-- The account that there is not is null, and an account whose call brings too few is an error. -/
theorem loads_by_options_mixed : ∃ results,
    (loadAccounts {} mixed).result (fun _ => .ok ((optionsOf mixed).map mixedReply)) = .ok results ∧
      results.length = 5 ∧ results[2]? = some (.ok .null) ∧
      results[3]? = some (.error (.batchMismatch 2 1)) := by
  have hreplied : Replied mixed mixedReply (.ok ((optionsOf mixed).map mixedReply)) := rfl
  obtain ⟨-, -, hloads⟩ := loads_by_options {} mixed
  obtain ⟨results, hresult, hlength, hkeys⟩ :=
    hloads (fun _ => .ok ((optionsOf mixed).map mixedReply)) mixedReply hreplied
  refine ⟨results, hresult, hlength, ?_, ?_⟩
  · obtain ⟨r, hr, hcomes, -⟩ := hkeys 2 ⟨"gone", {}⟩ rfl
    have hread : accountsOf {} (mixedReply {}) =
        .ok ⟨1, [some oneLamport, none, some oneLamport]⟩ := by decide
    rw [hread] at hcomes
    cases hcomes with
    | found _ there =>
      obtain rfl := Option.some.inj there
      exact hr
    | mismatch many => exact absurd rfl many
  · obtain ⟨r, hr, hcomes, -⟩ := hkeys 3 ⟨"c", { encoding := some .base64 }⟩ rfl
    have hread : accountsOf {} (mixedReply { encoding := some .base64 }) =
        .ok ⟨1, [some oneLamport]⟩ := by decide
    rw [hread] at hcomes
    cases hcomes with
    | found many _ => exact absurd many (by decide)
    | mismatch _ => exact hr

end NodeRpc
