import NodeRpc.Lookup.Key
import NodeRpc.Proofs.Json.Alike
import NodeRpc.Proofs.Json.Nesting

/-!
# What a lookup key stands for

A key is a method, a colon and a text, and the method may have colons of its own. It is told where
the method ends all the same, because the text behind a later colon would not be the text of a
value. So two lookups have the same key if and only if they are of one method and their parameters
differ at most in the order of fields and in fields that are null.
-/

namespace NodeRpc.LookupKey

variable {m n : String} {v w : Json}

/-- A key tells its method from the text behind it. -/
theorem split_unique (h : m ++ ":" ++ v.compact = n ++ ":" ++ w.compact) :
    m = n ∧ v.compact = w.compact := by
  have hlist : m.toList ++ ':' :: v.chars = n.toList ++ ':' :: w.chars := by
    simpa [Json.compact] using congrArg String.toList h
  -- one method begins with the other; if more follows, it begins with the colon
  rcases List.append_eq_append_iff.1 hlist with ⟨more, hn, hmore⟩ | ⟨more, hm, hmore⟩
  · cases more with
    | nil =>
      rw [List.append_nil] at hn
      exact ⟨(String.toList_inj.1 hn).symm, congrArg String.ofList (List.cons.inj hmore).2⟩
    | cons c front => exact absurd (List.cons.inj hmore).2 (v.chars_ne_behind_colon w front)
  · cases more with
    | nil =>
      rw [List.append_nil] at hm
      exact ⟨String.toList_inj.1 hm, (congrArg String.ofList (List.cons.inj hmore).2).symm⟩
    | cons c front => exact absurd (List.cons.inj hmore).2 (w.chars_ne_behind_colon v front)

theorem make_eq_iff : make m v = make n w ↔ m = n ∧ v.canonical = w.canonical := by
  constructor
  · intro h
    obtain ⟨hmethod, htext⟩ := split_unique (LookupKey.mk.inj h)
    exact ⟨hmethod, Json.compact_inj htext⟩
  · rintro ⟨rfl, hcanonical⟩
    rw [make, make, hcanonical]

/-- Two lookups have the same key if and only if they are of one method and their parameters are
alike. -/
theorem same_key_iff (hv : v.WellFormed) (hw : w.WellFormed) :
    make m v = make n w ↔ m = n ∧ v.Alike w := by
  rw [make_eq_iff, Json.canonical_eq_iff hv hw]

/-- The double `1.5`. -/
def oneAndAHalf : Binary64 := ⟨0x3FF8000000000000⟩

/-- Fields in no order, and null ones among them. -/
def scattered : Json :=
  .obj [("c", .obj [("y", .null), ("x", .str "\":")]), ("b", .null),
    ("a", .arr [.float oneAndAHalf, .null])]

/-- The same without the null fields, in order. -/
def ordered : Json :=
  .obj [("a", .arr [.float oneAndAHalf, .null]), ("c", .obj [("x", .str "\":")])]

/-- The two are told to be alike by their keys. -/
theorem same_key_of_scattered :
    make "get:\"" scattered = make "get:\"" ordered ∧ scattered.Alike ordered := by
  have hcanonical : scattered.canonical = ordered.canonical := by
    simp [scattered, ordered, Json.canonical, Json.canonicalFields, Json.canonicalItems,
      Json.sortFields, Json.isNull, List.mergeSort]
  have hkey : make "get:\"" scattered = make "get:\"" ordered := by rw [make, make, hcanonical]
  have hwell : scattered.WellFormed ∧ ordered.WellFormed := by
    simp [scattered, ordered, Json.WellFormed, Json.WellFormedFields, Json.WellFormedItems]
  exact ⟨hkey, ((same_key_iff hwell.1 hwell.2).1 hkey).2⟩

end NodeRpc.LookupKey
