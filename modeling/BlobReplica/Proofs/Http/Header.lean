import BlobReplica.Http.Message
import BlobReplica.Proofs.Text.Letters

/-! Header fields of responses: one that was set is found under its name in any spelling, and
setting others leaves it as it is. -/

namespace BlobReplica.Http

variable {n name value other : String} {headers : Headers}

theorem isTokenChar_toLower : ∀ c : Char, isTokenChar c.toLower = isTokenChar c :=
  Text.forall_char (by decide) fun c low _ => by rw [low]

theorem isHeaderName_congr (same : Text.sameName n name = true) :
    isHeaderName n = isHeaderName name := by
  have chars : n.toList.map Char.toLower = name.toList.map Char.toLower := by
    rw [← Text.toList_lower, ← Text.toList_lower, Text.sameName_iff.mp same]
  have all (s : String) : s.toList.all isTokenChar = (s.toList.map Char.toLower).all isTokenChar := by
    rw [List.all_map]
    exact List.all_congr rfl fun c => (isTokenChar_toLower c).symm
  have empty (s : String) : s = "" ↔ s.toList.map Char.toLower = [] := by
    rw [List.map_eq_nil_iff, String.toList_eq_nil_iff]
  rw [isHeaderName, isHeaderName, all n, all name, chars]
  simp only [ne_eq, empty n, empty name, chars]

namespace Headers

/-- There is a header of that name, and every header of that name has this value. -/
structure Gives (headers : Headers) (name value : String) : Prop where
  present : ∃ h ∈ headers, Text.sameName h.1 name = true
  only : ∀ h ∈ headers, Text.sameName h.1 name = true → h.2 = value

theorem Gives.get? (gives : headers.Gives name value) : headers.get? name = some value := by
  obtain ⟨h, member, same⟩ := gives.present
  cases found : headers.find? fun h => Text.sameName h.1 name with
  | none => simp [List.find?_eq_none.mp found h member] at same
  | some x =>
    obtain ⟨alike, _⟩ := List.find?_eq_some_iff_append.mp found
    rw [Headers.get?, found, Option.map_some,
      gives.only x (List.mem_of_find?_eq_some found) alike]

theorem Gives.readable (gives : headers.Gives name value) :
    Headers.get? (headers.filter fun h => isReadable h.2) name = (some value).filter isReadable := by
  cases readable : isReadable value with
  | true =>
    have kept : Gives (headers.filter fun h => isReadable h.2) name value := by
      obtain ⟨h, member, same⟩ := gives.present
      refine ⟨⟨h, List.mem_filter.mpr ⟨member, ?_⟩, same⟩, fun x listed => ?_⟩
      · rw [gives.only h member same, readable]
      · exact gives.only x (List.mem_filter.mp listed).1
    rw [kept.get?, Option.filter_some, if_pos readable]
  | false =>
    rw [Option.filter_some, if_neg (by simp [readable]), Headers.get?, Option.map_eq_none_iff,
      List.find?_eq_none]
    intro x listed same
    obtain ⟨member, told⟩ := List.mem_filter.mp listed
    rw [gives.only x member same, readable] at told
    contradiction

theorem gives_set (headers : Headers) (same : Text.sameName n name = true)
    (named : isHeaderName name = true) (valid : isHeaderValue value = true) :
    (headers.set n value).Gives name value := by
  rw [set, isHeaderName_congr same, named, valid, Bool.true_and, if_pos rfl]
  constructor
  · refine ⟨(Text.lower n, value), by simp, ?_⟩
    exact Text.sameName_trans (Text.sameName_lower n) same
  · intro h member alike
    rcases List.mem_append.mp member with kept | new
    · have differs := (List.mem_filter.mp kept).2
      have match_ := Text.sameName_of_common alike same
      simp [match_] at differs
    · rw [List.mem_singleton.mp new]

theorem Gives.set (gives : headers.Gives name value) (different : Text.sameName n name = false)
    (v : String) : (headers.set n v).Gives name value := by
  rw [Headers.set]
  split
  next =>
    have apart {h : String × String} (alike : Text.sameName h.1 name = true) :
        Text.sameName h.1 n = false := by
      refine Bool.eq_false_iff.mpr fun same => ?_
      rw [Text.sameName_congr same] at alike
      simp [alike] at different
    constructor
    · obtain ⟨h, member, alike⟩ := gives.present
      exact ⟨h, List.mem_append_left _ (List.mem_filter.mpr ⟨member, by simp [apart alike]⟩), alike⟩
    · intro h member alike
      rcases List.mem_append.mp member with kept | new
      · exact gives.only h (List.mem_filter.mp kept).1 alike
      · rw [List.mem_singleton.mp new] at alike
        rw [Text.sameName_congr (Text.sameName_lower n)] at alike
        simp [alike] at different
  next => exact gives

theorem get?_eq_none : headers.get? name = none ↔ ∀ h ∈ headers, Text.sameName h.1 name = false := by
  simp [Headers.get?]

theorem get?_set_none (absent : headers.get? name = none) {v : String}
    (either : Text.sameName n name = false ∨ isHeaderValue v = false) :
    (headers.set n v).get? name = none := by
  rw [get?_eq_none] at absent ⊢
  rw [Headers.set]
  split
  next valid =>
    have different : Text.sameName n name = false :=
      either.resolve_right (by simp [(Bool.and_eq_true _ _).mp valid])
    intro h member
    rcases List.mem_append.mp member with kept | new
    · exact absent h (List.mem_filter.mp kept).1
    · rw [List.mem_singleton.mp new, Text.sameName_congr (Text.sameName_lower n), different]
  next => exact absent

/-- A header whose name occurs among entries with one value only has that value after all were
set. -/
theorem gives_foldl_set {entries : List (String × String)}
    (only : ∀ e ∈ entries, Text.sameName e.1 name = true → e.2 = value)
    (named : isHeaderName name = true) (valid : isHeaderValue value = true)
    (either : (∃ e ∈ entries, Text.sameName e.1 name = true) ∨ headers.Gives name value) :
    (entries.foldl (fun (hs : Headers) e => hs.set e.1 e.2) headers).Gives name value := by
  induction entries generalizing headers with
  | nil =>
    rcases either with ⟨e, member, _⟩ | gives
    · contradiction
    · exact gives
  | cons e rest ih =>
    refine ih (fun x member => only x (List.mem_cons_of_mem _ member)) ?_
    cases same : Text.sameName e.1 name with
    | true =>
      have value := only e List.mem_cons_self same
      exact .inr (value ▸ gives_set headers same named (value.symm ▸ valid))
    | false =>
      rcases either with ⟨x, member, alike⟩ | gives
      · rcases List.mem_cons.mp member with rfl | member
        · simp [same] at alike
        · exact .inl ⟨x, member, alike⟩
      · exact .inr (gives.set same e.2)

/-- A header stays away if no entry that is set has both its name and a value that it can have. -/
theorem get?_foldl_set_none {entries : List (String × String)} (absent : headers.get? name = none)
    (either : ∀ e ∈ entries, Text.sameName e.1 name = false ∨ isHeaderValue e.2 = false) :
    (entries.foldl (fun (hs : Headers) e => hs.set e.1 e.2) headers).get? name = none := by
  induction entries generalizing headers with
  | nil => exact absent
  | cons e rest ih =>
    exact ih (get?_set_none absent (either e List.mem_cons_self))
      fun x member => either x (List.mem_cons_of_mem _ member)

end Headers
end BlobReplica.Http
