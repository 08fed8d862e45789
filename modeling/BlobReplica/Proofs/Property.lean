import BlobReplica.Property
import BlobReplica.Proofs.Metadata
import BlobReplica.Proofs.Text.Letters
import Mathlib.Data.List.Pairwise

/-! Properties under assignment: what is found afterwards, and that names keep differing by more than
letter case. Assigning the entries of such a table one by one gives the same table. -/

namespace BlobReplica.Properties

variable {ps : Properties} {name value other : String}

theorem assign_spelled (ps : Properties) (name value : String) :
    ∃ spelled, Text.sameName spelled name = true ∧
      ps.assign name value = Table.insert ps spelled value ∧
      ∀ e, ps.entries.find? (fun e => Text.sameName e.1 name) = some e → e.1 = spelled := by
  cases found : ps.entries.find? fun e => Text.sameName e.1 name with
  | none => exact ⟨name, Text.sameName_refl _, by rw [assign, found], by simp⟩
  | some e =>
    obtain ⟨alike, _⟩ := List.find?_eq_some_iff_append.mp found
    refine ⟨e.1, alike, by rw [assign, found], fun x hit => ?_⟩
    rw [Option.some.inj hit]

theorem lookup?_assign : (ps.assign name value).lookup? other =
    if Text.sameName name other then some value else ps.lookup? other := by
  obtain ⟨spelled, same, put, first⟩ := assign_spelled ps name value
  rw [put, lookup?, lookup?, Table.insert]
  split
  next alike =>
    have search : (fun e : String × String => Text.sameName e.1 other) =
        fun e => Text.sameName e.1 name := by
      funext e
      exact (Text.sameName_congr_right alike e.1).symm
    rw [search, Table.find?_put_accepted (Text.sameName · name) same first,
      Option.map_some]
  next different =>
    have apart : Text.sameName spelled other = false := by
      rw [Text.sameName_congr same]
      simpa using different
    rw [Table.find?_put_refused (Text.sameName · other) apart]

theorem lookup?_foldl_assign {entries : List (String × String)}
    (only : ∀ e ∈ entries, Text.sameName e.1 name = true → e.2 = value)
    (either : (∃ e ∈ entries, Text.sameName e.1 name = true) ∨ ps.lookup? name = some value) :
    (entries.foldl (fun ps e => ps.assign e.1 e.2) ps).lookup? name = some value := by
  induction entries generalizing ps with
  | nil =>
    rcases either with ⟨e, member, _⟩ | known
    · contradiction
    · exact known
  | cons e rest ih =>
    refine ih (fun x member => only x (List.mem_cons_of_mem _ member)) ?_
    rw [lookup?_assign]
    cases same : Text.sameName e.1 name with
    | true => exact .inr (by rw [if_pos rfl, only e List.mem_cons_self same])
    | false =>
      rcases either with ⟨x, member, alike⟩ | known
      · rcases List.mem_cons.mp member with rfl | member
        · simp [same] at alike
        · exact .inl ⟨x, member, alike⟩
      · exact .inr (by simpa using known)

/-- No two names of the table are spellings of the same name. -/
def DistinctNames (ps : Properties) : Prop :=
  ps.entries.Pairwise fun a b => Text.sameName a.1 b.1 = false

instance (ps : Properties) : Decidable ps.DistinctNames :=
  inferInstanceAs (Decidable (List.Pairwise _ _))

theorem unique_of_pairwise {entries : List (String × String)}
    (distinct : entries.Pairwise fun a b => Text.sameName a.1 b.1 = false) {x e : String × String}
    (hx : x ∈ entries) (he : e ∈ entries) (same : Text.sameName x.1 e.1 = true) : x = e := by
  by_contra differ
  have : Std.Symm fun a b : String × String => Text.sameName a.1 b.1 = false :=
    ⟨fun a b apart => Text.sameName_comm b.1 a.1 ▸ apart⟩
  have apart := distinct.forall hx he differ
  simp [same] at apart

theorem DistinctNames.unique (distinct : ps.DistinctNames) {x e : String × String}
    (hx : x ∈ ps.entries) (he : e ∈ ps.entries) (same : Text.sameName x.1 e.1 = true) : x = e :=
  unique_of_pairwise distinct hx he same

theorem DistinctNames.lookup?_eq (distinct : ps.DistinctNames) {e : String × String} {name : String}
    (member : e ∈ ps.entries) (same : Text.sameName e.1 name = true) :
    ps.lookup? name = some e.2 := by
  cases found : ps.entries.find? fun x => Text.sameName x.1 name with
  | none => simp [List.find?_eq_none.mp found e member] at same
  | some x =>
    obtain ⟨alike, _⟩ := List.find?_eq_some_iff_append.mp found
    have spelling := Text.sameName_of_common alike same
    rw [lookup?, found, Option.map_some,
      distinct.unique (List.mem_of_find?_eq_some found) member spelling]

theorem distinctNames_of_unique
    (unique : ∀ x ∈ ps.entries, ∀ y ∈ ps.entries, Text.sameName x.1 y.1 = true → x = y) :
    ps.DistinctNames := by
  refine ps.ascending.imp_of_mem fun {x y} hx hy below => Bool.eq_false_iff.mpr fun same => ?_
  exact String.lt_irrefl _ (unique x hx y hy same ▸ below)

theorem distinctNames_assign (distinct : ps.DistinctNames) (name value : String) :
    (ps.assign name value).DistinctNames := by
  obtain ⟨spelled, same, put, first⟩ := assign_spelled ps name value
  rw [put]
  -- an older entry of that name would be the one that was replaced
  have replaced {y : String × String} (hy : y ∈ ps.entries) (other : y.1 ≠ spelled) :
      Text.sameName y.1 spelled = false := by
    refine Bool.eq_false_iff.mpr fun alike => ?_
    have alike := Text.sameName_trans alike same
    cases found : ps.entries.find? fun e => Text.sameName e.1 name with
    | none => simp [List.find?_eq_none.mp found y hy] at alike
    | some e =>
      have former := (List.find?_eq_some_iff_append.mp found).1
      have spelling := Text.sameName_of_common former alike
      have e_y := distinct.unique (List.mem_of_find?_eq_some found) hy spelling
      exact other (e_y ▸ first e found)
  refine distinctNames_of_unique fun x hx y hy alike => ?_
  rcases Table.mem_insert hx with rfl | ⟨hx, hx'⟩ <;> rcases Table.mem_insert hy with rfl | ⟨hy, hy'⟩
  · rfl
  · rw [Text.sameName_comm, replaced hy hy'] at alike
    contradiction
  · rw [replaced hx hx'] at alike
    contradiction
  · exact distinct.unique hx hy alike

theorem distinctNames_foldl_assign (distinct : ps.DistinctNames)
    (entries : List (String × String)) :
    (entries.foldl (fun ps e => ps.assign e.1 e.2) ps).DistinctNames := by
  induction entries generalizing ps with
  | nil => exact distinct
  | cons e rest ih => exact ih (distinctNames_assign distinct e.1 e.2)

theorem assign_new
    (fresh : ∀ e ∈ ps.entries, Text.sameName e.1 name = false) :
    ps.assign name value = Table.insert ps name value := by
  have none : (ps.entries.find? fun e => Text.sameName e.1 name) = none := by
    simpa using fresh
  rw [assign, none]

theorem foldl_assign {entries : List (String × String)} {result : Properties}
    (whole : result.entries = ps.entries ++ entries) (distinct : result.DistinctNames) :
    entries.foldl (fun ps e => ps.assign e.1 e.2) ps = result := by
  induction entries generalizing ps with
  | nil =>
    rw [List.append_nil] at whole
    exact Table.ext_entries whole.symm
  | cons e rest ih =>
    have member : e ∈ e :: rest := List.mem_cons_self
    have last : ∀ x ∈ ps.entries, x.1 < e.1 := fun x known =>
      (List.pairwise_append.mp (whole ▸ result.ascending)).2.2 x known e member
    have apart : (ps.entries ++ e :: rest).Pairwise fun a b => Text.sameName a.1 b.1 = false :=
      whole ▸ distinct
    have fresh : ∀ x ∈ ps.entries, Text.sameName x.1 e.1 = false := fun x known =>
      (List.pairwise_append.mp apart).2.2 x known e member
    rw [List.foldl_cons, assign_new fresh]
    refine ih ?_
    rw [whole, Table.entries_insert_last last, List.append_assoc]
    rfl

theorem foldl_assign_entries (distinct : ps.DistinctNames) :
    ps.entries.foldl (fun ps e => ps.assign e.1 e.2) {} = ps :=
  foldl_assign (List.nil_append _).symm distinct

/-- The value that was given last to a name, whatever its spelling. -/
def lastGiven? (given : List (String × String)) (name : String) : Option String :=
  (given.reverse.find? fun e => Text.sameName e.1 name).map (·.2)

theorem lastGiven?_append {given more : List (String × String)} :
    lastGiven? (given ++ more) name = (lastGiven? more name).or (lastGiven? given name) := by
  simp [lastGiven?, List.find?_append, Option.map_or]

/-- After assignments a name has the value that it was given last, and else the one that it had. -/
theorem lookup?_assignments (ps : Properties) (given : List (String × String)) (name : String) :
    (given.foldl (fun ps e => ps.assign e.1 e.2) ps).lookup? name =
      (lastGiven? given name).or (ps.lookup? name) := by
  induction given generalizing ps with
  | nil => rfl
  | cons e rest ih =>
    rw [List.foldl_cons, ih, lookup?_assign, ← List.singleton_append, lastGiven?_append, Option.or_assoc]
    congr 1
    cases same : Text.sameName e.1 name <;> simp [lastGiven?, same]

theorem lastGiven?_entries {e : String × String} (listed : e ∈ ps.entries)
    (same : Text.sameName e.1 name = true)
    (last : ∀ x ∈ ps.entries, Text.sameName x.1 name = true → x.1 ≤ e.1) :
    lastGiven? ps.entries name = some e.2 := by
  rw [lastGiven?]
  cases found : ps.entries.reverse.find? fun e => Text.sameName e.1 name with
  | none => exact absurd same (List.find?_eq_none.mp found e (List.mem_reverse.mpr listed))
  | some x =>
    obtain ⟨alike, later, earlier, split, others⟩ := List.find?_eq_some_iff_append.mp found
    have descending : (later ++ x :: earlier).Pairwise fun a b => b.1 < a.1 :=
      split ▸ List.pairwise_reverse.mpr ps.ascending
    have member : e ∈ later ++ x :: earlier := split ▸ List.mem_reverse.mpr listed
    have known : x ∈ ps.entries := List.mem_reverse.mp (split ▸ by simp)
    rcases List.mem_append.mp member with before | after
    · have passed := others e before
      simp [same] at passed
    · rcases List.mem_cons.mp after with rfl | after
      · rfl
      · have below := (List.pairwise_cons.mp (List.pairwise_append.mp descending).2.1).1 e after
        exact absurd below (String.not_lt.mpr (last x known alike))

/-- What was given last to a name depends on nothing but what was given to its spellings. -/
theorem lastGiven?_congr {given more : List (String × String)}
    (same : given.filter (fun e => Text.sameName e.1 name) =
      more.filter fun e => Text.sameName e.1 name) : lastGiven? given name = lastGiven? more name := by
  rw [lastGiven?, lastGiven?, ← List.head?_filter, ← List.head?_filter, List.filter_reverse,
    List.filter_reverse, same]

theorem lastGiven?_eq_none {given : List (String × String)} :
    lastGiven? given name = none ↔ ∀ e ∈ given, Text.sameName e.1 name = false := by
  simp [lastGiven?]

theorem mem_of_lastGiven? {given : List (String × String)} (found : lastGiven? given name = some value) :
    ∃ e ∈ given, Text.sameName e.1 name = true ∧ e.2 = value := by
  obtain ⟨e, hit, rfl⟩ := Option.map_eq_some_iff.mp found
  obtain ⟨same, _⟩ := List.find?_eq_some_iff_append.mp hit
  exact ⟨e, List.mem_reverse.mp (List.mem_of_find?_eq_some hit), same, rfl⟩

/-! ### Properties entered over others

A table tells spellings of a name apart, so what is entered replaces what was given under exactly its
name, and the other spellings stay. -/

section Entered

variable {given entered : List (String × String)} {e : String × String}

theorem get?_entered (distinct : entered.Pairwise fun x y => Text.sameName x.1 y.1 = false)
    (member : e ∈ entered) : (Table.ofList (given ++ entered)).get? e.1 = some e.2 := by
  have found : entered.reverse.find? (·.1 == e.1) = some e := by
    cases search : entered.reverse.find? (·.1 == e.1) with
    | none => simpa using List.find?_eq_none.mp search e (List.mem_reverse.mpr member)
    | some x =>
      have named : x.1 = e.1 := by simpa using List.find?_some search
      have listed := List.mem_reverse.mp (List.mem_of_find?_eq_some search)
      rw [unique_of_pairwise distinct listed member (named ▸ Text.sameName_refl _)]
  rw [Table.get?_ofList, List.reverse_append, List.find?_append, found, Option.some_or, Option.map_some]

/-- What is entered counts unless something was given under a later spelling of its name. -/
theorem lastGiven?_entered (distinct : entered.Pairwise fun x y => Text.sameName x.1 y.1 = false)
    (member : e ∈ entered) (keeps : ∀ p ∈ given, Text.sameName p.1 e.1 = true → p.1 ≤ e.1) :
    lastGiven? (Table.ofList (given ++ entered)).entries e.1 = some e.2 := by
  refine lastGiven?_entries (Table.get?_eq_some.mp (get?_entered distinct member))
    (Text.sameName_refl _) fun x listed same => ?_
  rcases List.mem_append.mp (Table.mem_of_mem_ofList listed) with given | new
  · exact keeps x given same
  · obtain rfl := unique_of_pairwise distinct new member same
    exact String.le_refl _

theorem lastGiven?_unentered (others : ∀ e ∈ entered, Text.sameName e.1 name = false) :
    lastGiven? (Table.ofList (given ++ entered)).entries name =
      lastGiven? (Table.ofList given).entries name := by
  induction entered using List.reverseRecOn with
  | nil => rw [List.append_nil]
  | append_singleton entered e ih =>
    rw [← List.append_assoc, Table.ofList_concat, ← ih fun x member => others x (by simp [member])]
    apply lastGiven?_congr
    exact Table.filter_put_refused (Text.sameName · name) (others e (by simp))

theorem lastGiven?_absent (unentered : ∀ e ∈ entered, Text.sameName e.1 name = false)
    (ungiven : ∀ p ∈ given, Text.sameName p.1 name = false) :
    lastGiven? (Table.ofList (given ++ entered)).entries name = none := by
  rw [lastGiven?_unentered unentered, lastGiven?_eq_none]
  exact fun e listed => ungiven e (Table.mem_of_mem_ofList listed)

end Entered
end BlobReplica.Properties
