import Mathlib.Data.List.Chain
import Mathlib.Data.Set.Card
import Mathlib.Logic.Relation
import NodeRpc.Proofs.Lookup.Inquiries
import NodeRpc.Proofs.Lookup.Loading

/-!
# Chains of owners

The owner of an account is an account that may have an owner again. From a first address, owners
lead on until an account is missing, has no owner, or has one that was there before. `ChainOutcome`
says what a chain of owners comes to. The course of an inquiry for one ends with that, and it seeks
no address twice, so it does end where owners lead to finitely many addresses only.
-/

namespace NodeRpc

/-! ### What a chain of owners is -/

/-- Account `a` has the owner `b`. -/
def OwnedBy (account : String → Json) (a b : String) : Prop :=
  (account a).get? "owner" = some (.str b)

/-- The addresses that owners lead to from `start`. -/
def reachedFrom (account : String → Json) (start : String) : Set String :=
  {a | Relation.ReflTransGen (OwnedBy account) start a}

/-- Different accounts that there are, of which `start` is the first, and each other one is the
owner of the one before it. -/
structure OwnerChain (account : String → Json) (start : String) (as : List String) : Prop where
  nodup : as.Nodup
  first : ∀ a, as.head? = some a → a = start
  linked : as.IsChain (OwnedBy account)
  present : ∀ a ∈ as, account a ≠ .null

/-- The address that comes behind `as`: the first one, or the owner of the last one. -/
inductive ComesNext (account : String → Json) (start : String) : List String → String → Prop where
  | first : ComesNext account start [] start
  | owner {as : List String} {a b : String} (h : OwnedBy account a b) :
      ComesNext account start (as ++ [a]) b

/-- What a chain of owners comes to: the accounts, as they are `found`, up to the first address
where there is none, the first account without an owner, or the first one whose owner is among them;
or an error, if the owner of an account is no address. -/
inductive ChainOutcome (account found : String → Json) (start : String) :
    Except LookupError Finding → Prop where
  | missing {as : List String} {b : String} (h : OwnerChain account start as)
      (hb : ComesNext account start as b) (hmissing : account b = .null) :
      ChainOutcome account found start (.ok (.chain (as.map found)))
  | unowned {as : List String} {a : String} (h : OwnerChain account start (as ++ [a]))
      (hnone : (account a).get? "owner" = none ∨ (account a).get? "owner" = some .null) :
      ChainOutcome account found start (.ok (.chain ((as ++ [a]).map found)))
  | repeats {as : List String} {a b : String} (h : OwnerChain account start (as ++ [a]))
      (hb : OwnedBy account a b) (hseen : b ∈ as ++ [a]) :
      ChainOutcome account found start (.ok (.chain ((as ++ [a]).map found)))
  | unreadable {as : List String} {a : String} {v : Json}
      (h : OwnerChain account start (as ++ [a])) (hv : (account a).get? "owner" = some v)
      (hnull : v ≠ .null) (hstr : ∀ b, v ≠ .str b) :
      ChainOutcome account found start
        (.error (.decode "account" ("owner is not an address: " ++ v.compact)))

/-- The account behind a chain belongs to it, if there is one and it is new. -/
theorem OwnerChain.concat {account : String → Json} {start : String} {as : List String} {a : String}
    (h : OwnerChain account start as) (ha : ComesNext account start as a) (hnew : a ∉ as)
    (hthere : account a ≠ .null) : OwnerChain account start (as ++ [a]) where
  nodup := List.nodup_append.2 ⟨h.nodup, List.nodup_singleton a, fun b hb c hc hbc =>
    hnew (List.mem_singleton.1 hc ▸ hbc ▸ hb)⟩
  first b hb := by
    cases ha with
    | first => exact (Option.some.inj hb).symm
    | @owner as' a' _ _ =>
      refine h.first b ?_
      cases as' <;> exact hb
  linked := by
    refine List.isChain_append.2 ⟨h.linked, List.isChain_singleton a, fun b hb c hc => ?_⟩
    obtain rfl : a = c := by simpa using hc
    cases ha with
    | first => simp at hb
    | owner howned =>
      obtain rfl : _ = b := by simpa using hb
      exact howned
  present b hb := by
    rcases List.mem_append.1 hb with hb | hb
    · exact h.present b hb
    · exact List.mem_singleton.1 hb ▸ hthere

theorem comesNext_nil {account : String → Json} {start b : String} :
    ComesNext account start [] b ↔ b = start := by
  constructor
  · intro h
    generalize hbs : ([] : List String) = bs at h
    cases h with
    | first => rfl
    | owner _ => simp at hbs
  · rintro rfl
    exact .first

theorem comesNext_concat {account : String → Json} {start : String} {as : List String}
    {a b : String} : ComesNext account start (as ++ [a]) b ↔ OwnedBy account a b := by
  constructor
  · intro h
    generalize hbs : as ++ [a] = bs at h
    cases h with
    | first => simp at hbs
    | owner howned =>
      obtain ⟨-, rfl⟩ : _ ∧ a = _ := by simpa using hbs
      exact howned
  · exact .owner

/-- The last account of a chain comes next behind the others, and is a new one. -/
theorem OwnerChain.of_concat {account : String → Json} {start : String} {as : List String}
    {a : String} (h : OwnerChain account start (as ++ [a])) :
    OwnerChain account start as ∧ ComesNext account start as a ∧ a ∉ as ∧ account a ≠ .null := by
  obtain ⟨has, -, hapart⟩ := List.nodup_append.1 h.nodup
  have hnew : a ∉ as := fun hmem => hapart a hmem a (by simp) rfl
  have hlinked := List.isChain_append.1 h.linked
  refine ⟨⟨has, fun b hb => h.first b ?_, hlinked.1, fun b hb => h.present b (by simp [hb])⟩, ?_,
    hnew, h.present a (by simp)⟩
  · cases as with
    | nil => simp at hb
    | cons c cs => exact hb
  · rcases List.eq_nil_or_concat as with rfl | ⟨bs, b, rfl⟩
    · rw [h.first a rfl]
      exact .first
    · rw [List.concat_eq_append] at hlinked ⊢
      exact .owner (hlinked.2.2 b (by simp) a (by simp))

/-! ### The inquiry for a chain -/

/-- A field other than the address is found as it is in the record. -/
theorem get?_foundBy (record : AccountKey → Json) (k : AccountKey) {name : String}
    (hname : "address" ≠ name) : (foundBy record k).get? name = (record k).get? name := by
  unfold foundBy
  cases record k <;> simp [Json.set, Json.get?, Json.fields, Table.get?_put, hname]

theorem foundBy_eq_null_iff {record : AccountKey → Json} {k : AccountKey} :
    foundBy record k = .null ↔ record k = .null := by
  unfold foundBy
  cases record k <;> simp [Json.set]

/-- An inquiry for a chain that has found an account goes on by its owner. -/
theorem Inquiry.after_chain {c : Client} {v : Json} (hv : v ≠ .null) {o : AccountOptions}
    {found : List Json} {seen : List String} : after c (.chain o found seen) (.ok v) =
      match ownerOf v with
      | .ok owner => afterOwner c v owner (.chain o found seen)
      | .error cause => .ended (.error cause) := by
  cases v with
  | null => exact absurd rfl hv
  | _ => rfl

theorem Inquiry.filled_chain (c : Client) (start : String) (o : AccountOptions) :
    (Inquiry.chain c start o).Filled c := by
  intro e goal h
  obtain ⟨rfl, -⟩ := Inquiry.seeks.inj h
  exact ⟨_, rfl, rfl⟩

/-- The account at an address where it is sought with options `o`. -/
def Client.accountAt (c : Client) (o : AccountOptions) (find : AccountKey → Json) (a : String) :
    Json :=
  find (.wanted c (a, o))

section

variable {c : Client} {o : AccountOptions} {record : AccountKey → Json}

/-- The inquiry for a chain of owners that has found the accounts `as` and seeks `a`. -/
def chainAt (c : Client) (o : AccountOptions) (record : AccountKey → Json) (as : List String)
    (a : String) : Inquiry :=
  .seeks (.ofAccount c a o) (.chain o (as.map (c.accountAt o (foundBy record)))
    (as ++ [a]).reverse)

theorem resume_chainAt (as : List String) (a : String) :
    Inquiry.resume c (foundBy record) (chainAt c o record as a) =
      .after c (.chain o (as.map (c.accountAt o (foundBy record))) (as ++ [a]).reverse)
        (.ok (c.accountAt o (foundBy record) a)) := rfl

/-- An inquiry for a chain ends where an account is missing. -/
theorem resume_of_missing {as : List String} {a : String} (h : c.accountAt o record a = .null) :
    Inquiry.resume c (foundBy record) (chainAt c o record as a) =
      .ended (.ok (.chain (as.map (c.accountAt o (foundBy record))))) := by
  rw [resume_chainAt, show c.accountAt o (foundBy record) a = .null from foundBy_eq_null_iff.2 h]
  rfl

/-- Where an account is present, the inquiry has found one more, and goes on by its owner. -/
theorem resume_of_present {as : List String} {a : String} (h : c.accountAt o record a ≠ .null) :
    Inquiry.resume c (foundBy record) (chainAt c o record as a) =
      match ownerOf (c.accountAt o record a) with
      | .ok (some b) =>
        if b ∈ as ++ [a] then
          .ended (.ok (.chain ((as ++ [a]).map (c.accountAt o (foundBy record)))))
        else chainAt c o record (as ++ [a]) b
      | .ok none => .ended (.ok (.chain ((as ++ [a]).map (c.accountAt o (foundBy record)))))
      | .error cause => .ended (.error cause) := by
  have hfound : c.accountAt o (foundBy record) a ≠ .null := mt foundBy_eq_null_iff.1 h
  have howner : ownerOf (c.accountAt o (foundBy record) a) = ownerOf (c.accountAt o record a) := by
    unfold ownerOf Client.accountAt
    rw [get?_foundBy record _ (by decide)]
  have hmap : as.map (c.accountAt o (foundBy record)) ++ [c.accountAt o (foundBy record) a] =
      (as ++ [a]).map (c.accountAt o (foundBy record)) := by
    rw [List.map_append, List.map_singleton]
  rw [resume_chainAt, Inquiry.after_chain hfound, howner]
  cases ownerOf (c.accountAt o record a) with
  | error cause => rfl
  | ok owner =>
    unfold Inquiry.afterOwner
    dsimp only
    rw [hmap]
    cases owner with
    | none => rfl
    | some b =>
      unfold chainAt
      simp only [List.mem_reverse]
      rw [@List.reverse_concat _ (as ++ [a])]

/-- An inquiry for a chain ends as it should, or has found one account more. -/
theorem chainAt_next {start : String} {as : List String} {a : String}
    (h : OwnerChain (c.accountAt o record) start as)
    (ha : ComesNext (c.accountAt o record) start as a) (hnew : a ∉ as) :
    (∃ result, Inquiry.resume c (foundBy record) (chainAt c o record as a) = .ended result ∧
      ChainOutcome (c.accountAt o record) (c.accountAt o (foundBy record)) start
        result) ∨
    ∃ b, OwnerChain (c.accountAt o record) start (as ++ [a]) ∧
      OwnedBy (c.accountAt o record) a b ∧ b ∉ as ++ [a] ∧
      Inquiry.resume c (foundBy record) (chainAt c o record as a) =
        chainAt c o record (as ++ [a]) b := by
  by_cases hmissing : c.accountAt o record a = .null
  · exact .inl ⟨_, resume_of_missing hmissing, .missing h ha hmissing⟩
  · have hchain := h.concat ha hnew hmissing
    rw [resume_of_present hmissing]
    unfold ownerOf
    rcases hv : (c.accountAt o record a).get? "owner" with - | v
    · exact .inl ⟨_, rfl, .unowned hchain (.inl hv)⟩
    · cases v with
      | null => exact .inl ⟨_, rfl, .unowned hchain (.inr hv)⟩
      | str b =>
        dsimp only
        by_cases hseen : b ∈ as ++ [a]
        · rw [if_pos hseen]
          exact .inl ⟨_, rfl, .repeats hchain hv hseen⟩
        · rw [if_neg hseen]
          exact .inr ⟨b, hchain, hv, hseen, rfl⟩
      | _ => exact .inl ⟨_, rfl, .unreadable hchain hv nofun nofun⟩

/-! ### The course of the inquiry -/

/-- At any time, the inquiry for a chain has found different accounts, one for each step, and seeks
another one that owners lead to, or it has ended as it should. -/
theorem chain_course (c : Client) (o : AccountOptions) (record : AccountKey → Json) (start : String)
    (n : Nat) :
    (∃ as a, (Inquiry.resume c (foundBy record))^[n] (.chain c start o) = chainAt c o record as a ∧
      as.length = n ∧ OwnerChain (c.accountAt o record) start as ∧
      ComesNext (c.accountAt o record) start as a ∧ a ∉ as ∧
      ∀ b ∈ as ++ [a], b ∈ reachedFrom (c.accountAt o record) start) ∨
    ∃ result, (Inquiry.resume c (foundBy record))^[n] (.chain c start o) = .ended result ∧
      ChainOutcome (c.accountAt o record) (c.accountAt o (foundBy record)) start
        result := by
  induction n with
  | zero =>
    refine .inl ⟨[], start, rfl, rfl, ⟨List.nodup_nil, by simp, List.isChain_nil, by simp⟩, .first,
      by simp, fun b hb => ?_⟩
    obtain rfl : b = start := by simpa using hb
    exact .refl
  | succ n ih =>
    rw [Function.iterate_succ_apply']
    rcases ih with ⟨as, a, hn, hlength, h, ha, hnew, hreached⟩ | ⟨result, hn, houtcome⟩
    · rw [hn]
      rcases chainAt_next h ha hnew with hended | ⟨b, hchain, howned, hb, hresume⟩
      · exact .inr hended
      · refine .inl ⟨_, b, hresume, by simp [hlength], hchain, .owner howned, hb, fun d hd => ?_⟩
        rcases List.mem_append.1 hd with hd | hd
        · exact hreached d hd
        · rw [List.mem_singleton.1 hd]
          exact .tail (hreached a (by simp)) howned
    · rw [hn]
      exact .inr ⟨result, rfl, houtcome⟩

/-- The inquiry finds every chain that there is. -/
theorem chain_reaches {start : String} {as : List String} {a : String}
    (h : OwnerChain (c.accountAt o record) start as)
    (ha : ComesNext (c.accountAt o record) start as a) (hnew : a ∉ as) :
    (Inquiry.resume c (foundBy record))^[as.length] (.chain c start o) =
      chainAt c o record as a := by
  induction as using List.reverseRecOn generalizing a with
  | nil =>
    rw [comesNext_nil.1 ha]
    rfl
  | append_singleton as b ih =>
    obtain ⟨hbefore, hb, hbnew, hthere⟩ := h.of_concat
    have howner : ownerOf (c.accountAt o record b) = .ok (some a) := by
      unfold ownerOf
      rw [show (c.accountAt o record b).get? "owner" = some (.str a) from comesNext_concat.1 ha]
    rw [List.length_append, List.length_singleton, Function.iterate_succ_apply', ih hbefore hb hbnew,
      resume_of_present hthere, howner]
    exact if_neg hnew

/-- The course of an inquiry for a chain ends with what the chain comes to, and nothing else. -/
theorem chainOutcome_iff {start : String} {result : Except LookupError Finding} :
    ChainOutcome (c.accountAt o record) (c.accountAt o (foundBy record)) start
      result ↔
    ∃ n, (Inquiry.resume c (foundBy record))^[n] (.chain c start o) = .ended result := by
  constructor
  · intro houtcome
    have hlast : ∀ {as a}, OwnerChain (c.accountAt o record) start (as ++ [a]) →
        Inquiry.resume c (foundBy record) (chainAt c o record as a) = .ended result →
        ∃ n, (Inquiry.resume c (foundBy record))^[n] (.chain c start o) = .ended result := by
      intro as a h hend
      obtain ⟨hbefore, ha, hnew, -⟩ := h.of_concat
      refine ⟨as.length + 1, ?_⟩
      rw [Function.iterate_succ_apply', chain_reaches hbefore ha hnew, hend]
    cases houtcome with
    | @missing as b h hb hmissing =>
      refine ⟨as.length + 1, ?_⟩
      rw [Function.iterate_succ_apply',
        chain_reaches h hb fun hmem => h.present b hmem hmissing, resume_of_missing hmissing]
    | unowned h hnone =>
      refine hlast h ?_
      rw [resume_of_present h.of_concat.2.2.2]
      unfold ownerOf
      rcases hnone with hnone | hnone <;> rw [hnone]
    | repeats h hb hseen =>
      refine hlast h ?_
      rw [resume_of_present h.of_concat.2.2.2]
      unfold ownerOf
      rw [show (c.accountAt o record _).get? "owner" = _ from hb]
      exact if_pos hseen
    | @unreadable as a v h hv hnull hstr =>
      refine hlast h ?_
      rw [resume_of_present h.of_concat.2.2.2]
      unfold ownerOf
      rw [hv]
      cases v with
      | null => exact absurd rfl hnull
      | str b => exact absurd rfl (hstr b)
      | _ => rfl
  · rintro ⟨n, hn⟩
    rcases chain_course c o record start n with
      ⟨as, a, hseeks, -⟩ | ⟨result', hended, houtcome⟩
    · rw [hn] at hseeks
      cases hseeks
    · rw [hn] at hended
      exact Inquiry.ended.inj hended ▸ houtcome

/-- The course of an inquiry for a chain passes addresses that owners lead to, with the options of
the inquiry. -/
theorem reached_of_passes {start : String} {key : AccountKey}
    (h : (Inquiry.chain c start o).Passes c (foundBy record) key) :
    ∃ a ∈ reachedFrom (c.accountAt o record) start, key = .wanted c (a, o) := by
  obtain ⟨n, goal, hn⟩ := h
  rcases chain_course c o record start n with
    ⟨as, a, hseeks, -, -, -, -, hreached⟩ | ⟨_, hended, -⟩
  · rw [hn] at hseeks
    exact ⟨a, hreached a (by simp), Entity.account.inj (Inquiry.seeks.inj hseeks).1⟩
  · rw [hn] at hended
    cases hended

/-- Where owners lead to finitely many addresses, an inquiry for a chain ends after no more accounts
than there are such addresses. -/
theorem chain_ends {start : String}
    (hfinite : (reachedFrom (c.accountAt o record) start).Finite) : ∃ result,
      (Inquiry.resume c (foundBy record))^[(reachedFrom (c.accountAt o record) start).ncard]
        (.chain c start o) = .ended result := by
  rcases chain_course c o record start
    (reachedFrom (c.accountAt o record) start).ncard with
    ⟨as, a, -, hlength, h, -, hnew, hreached⟩ | ⟨result, hended, -⟩
  · -- else there are more different addresses than owners lead to
    have hnodup : (as ++ [a]).Nodup := List.nodup_append.2 ⟨h.nodup, List.nodup_singleton a,
      fun b hb d hd hbd => hnew (List.mem_singleton.1 hd ▸ hbd ▸ hb)⟩
    have hsub : ((as ++ [a]).toFinset : Set String) ⊆
        reachedFrom (c.accountAt o record) start :=
      fun b hb => hreached b (List.mem_toFinset.1 hb)
    have hle := Set.ncard_le_ncard hsub hfinite
    rw [Set.ncard_coe_finset, List.toFinset_card_of_nodup hnodup, List.length_append, hlength,
      List.length_singleton] at hle
    exact absurd hle (Nat.not_succ_le_self _)
  · exact ⟨result, hended⟩

end

end NodeRpc
