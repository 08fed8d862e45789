import BlobReplica.Cache.Folder
import BlobReplica.Proofs.Cache.Queries
import Mathlib.Algebra.BigOperators.Group.List.Basic

/-! Statistics of folders. A key is counted under the child of a folder that its next element names, and
looking into the child counts it again by the element after that. Slashes between elements are passed over
before the child, but a folder is found by its own text, so other slashes before the child, or nothing but
slashes behind it, lead a key astray on the way down. -/

namespace BlobReplica.Cache

variable {c : Cache} {folder key : List Char} {child : String} {own : Bool}

/-! ### Keys below a folder -/

/-- What keys below a folder start with. -/
def stem (folder : List Char) : List Char :=
  if folder = [] then [] else folder ++ ['/']

theorem below?_eq (folder key : List Char) : below? folder key =
    if stem folder <+: key then some ((key.drop (stem folder).length).dropWhile (· == '/')) else none := by
  rw [below?, stem]
  split
  next => simp
  next => simp

theorem below?_eq_some_iff {rest : List Char} : below? folder key = some rest ↔
    rest.head? ≠ some '/' ∧ ∃ i, key = stem folder ++ (List.replicate i '/' ++ rest) := by
  rw [below?_eq]
  constructor
  · intro found
    split at found
    next starts =>
      obtain ⟨behind, rfl⟩ := starts
      rw [List.drop_left] at found
      obtain ⟨i, form, front⟩ := Text.exists_marks '/' behind
      rw [Option.some.inj found] at form front
      exact ⟨front, i, by rw [← form]⟩
    next => contradiction
  · rintro ⟨front, i, rfl⟩
    rw [if_pos (List.prefix_append _ _), List.drop_left, Text.dropWhile_marks i front]

theorem child?_eq_some_iff : child? folder key = some (child, own) ↔
    ∃ rest, below? folder key = some rest ∧ rest ≠ [] ∧
      child.toList = rest.takeWhile (· != '/') ∧ own = rest.all (· != '/') := by
  rw [child?]
  cases below? folder key with
  | none => simp
  | some rest =>
    cases rest with
    | nil => simp
    | cons c rest =>
      simp only [Option.some.injEq, Prod.mk.injEq, exists_eq_left', ne_eq, List.cons_ne_nil,
        not_false_eq_true, true_and]
      refine and_congr ?_ eq_comm
      rw [← String.toList_inj, String.toList_ofList, eq_comm]

theorem isSome_child?_iff : (child? folder key).isSome ↔
    ∃ rest, key = stem folder ++ rest ∧ ¬ ∀ c ∈ rest, c = '/' := by
  have found : (child? folder key).isSome ↔ ∃ rest, below? folder key = some rest ∧ rest ≠ [] := by
    simp only [Option.isSome_iff_exists, Prod.exists, child?_eq_some_iff]
    constructor
    · rintro ⟨_, _, rest, below, some, _⟩
      exact ⟨rest, below, some⟩
    · rintro ⟨rest, below, some⟩
      exact ⟨_, _, rest, below, some, String.toList_ofList, rfl⟩
  rw [found]
  constructor
  · rintro ⟨rest, below, some⟩
    obtain ⟨front, i, rfl⟩ := below?_eq_some_iff.mp below
    refine ⟨_, rfl, fun slashes => ?_⟩
    obtain ⟨c, others, rfl⟩ := List.exists_cons_of_ne_nil some
    exact front (congrArg Option.some (slashes c (by simp)))
  · rintro ⟨behind, rfl, other⟩
    obtain ⟨i, form, front⟩ := Text.exists_marks '/' behind
    refine ⟨_, below?_eq_some_iff.mpr ⟨front, i, by rw [← form]⟩, fun nothing => ?_⟩
    rw [nothing, List.append_nil] at form
    exact other fun c member => List.eq_of_mem_replicate (form ▸ member)

structure IsElement (child : String) : Prop where
  nonempty : child.toList ≠ []
  solid : '/' ∉ child.toList

theorem IsElement.front (element : IsElement child) (rest : List Char) :
    (child.toList ++ rest).head? ≠ some '/' := by
  obtain ⟨c, others, form⟩ := List.exists_cons_of_ne_nil element.nonempty
  have solid := element.solid
  rw [form] at solid ⊢
  simpa using fun same : c = '/' => solid (same ▸ List.mem_cons_self)

theorem isElement_of_child? (found : child? folder key = some (child, own)) : IsElement child := by
  obtain ⟨rest, below, some, name, _⟩ := child?_eq_some_iff.mp found
  obtain ⟨front, _⟩ := below?_eq_some_iff.mp below
  refine ⟨fun nothing => ?_, fun member => ?_⟩
  · obtain ⟨c, others, rfl⟩ := List.exists_cons_of_ne_nil some
    rw [name] at nothing
    have stops : c = '/' := by simpa using nothing
    exact front (congrArg Option.some stops)
  · rw [name] at member
    simpa using List.mem_takeWhile_imp member

/-- A key is nested below the child that its next element names if a slash follows there. -/
theorem child?_nested_iff : child? folder key = some (child, false) ↔ IsElement child ∧
    ∃ i rest, key = stem folder ++ (List.replicate i '/' ++ (child.toList ++ '/' :: rest)) := by
  constructor
  · intro found
    refine ⟨isElement_of_child? found, ?_⟩
    obtain ⟨rest, below, _, name, followed⟩ := child?_eq_some_iff.mp found
    obtain ⟨front, i, rfl⟩ := below?_eq_some_iff.mp below
    have parts : rest = child.toList ++ rest.dropWhile (· != '/') := by
      rw [name, List.takeWhile_append_dropWhile]
    cases tail : rest.dropWhile (· != '/') with
    | nil =>
      have free : rest.all (· != '/') = true :=
        List.all_eq_true.mpr (List.dropWhile_eq_nil_iff.mp tail)
      rw [free] at followed
      contradiction
    | cons c others =>
      have stops := List.head?_dropWhile_not (· != '/') rest
      obtain rfl : c = '/' := by simpa [tail] using stops
      exact ⟨i, others, by rw [parts, tail]⟩
  · rintro ⟨element, i, rest, rfl⟩
    have solid : ∀ c ∈ child.toList, (c != '/') = true := fun c member => by
      simpa using fun same : c = '/' => element.solid (same ▸ member)
    have below : below? folder _ = some _ :=
      below?_eq_some_iff.mpr ⟨element.front ('/' :: rest), i, rfl⟩
    refine child?_eq_some_iff.mpr ⟨_, below, by simp, ?_, by simp⟩
    rw [List.takeWhile_append_of_pos solid, List.takeWhile_cons_of_neg (by simp), List.append_nil]

/-! ### The way down -/

/-- The text of a child's own folder. -/
def drilled (folder child : String) : String :=
  if Text.trimOf '/' folder.toList = [] then child else folder ++ "/" ++ child

/-- How many more slashes than one stand before the child in that text. -/
def gap (folder : String) : Nat :=
  if Text.trimOf '/' folder.toList = [] then 0
  else (folder.toList.reverse.takeWhile (· == '/')).length

/-- A key that is nested below a child and not found below the child's own folder. -/
def Astray (folder child key : String) : Prop :=
  child? (Text.trimOf '/' folder.toList) key.toList = some (child, false) ∧
    child? (Text.trimOf '/' (drilled folder child).toList) key.toList = none

instance (folder child key : String) : Decidable (Astray folder child key) :=
  inferInstanceAs (Decidable (_ ∧ _))

theorem trimOf_drilled {folder : String} (element : IsElement child) :
    Text.trimOf '/' (drilled folder child).toList =
      stem (Text.trimOf '/' folder.toList) ++ (List.replicate (gap folder) '/' ++ child.toList) := by
  have front : child.toList.head? ≠ some '/' := by simpa using element.front []
  have back : child.toList.getLast? ≠ some '/' := fun last => element.solid (List.mem_of_getLast? last)
  rw [drilled, gap, stem]
  by_cases root : Text.trimOf '/' folder.toList = []
  · simp only [if_pos root, List.replicate_zero, List.nil_append]
    exact Text.trimOf_eq front back
  · simp only [if_neg root]
    obtain ⟨⟨n, m, form⟩, front', back'⟩ := Text.wrapped_trimOf '/' folder.toList
    generalize Text.trimOf '/' folder.toList = core at root form front' back'
    have behind : (List.replicate n '/' ++ core).getLast? ≠ some '/' := by
      rwa [List.getLast?_append_of_ne_nil _ root]
    have counted : (folder.toList.reverse.takeWhile (· == '/')).length = m := by
      rw [form, ← List.append_assoc, Text.marks_behind m behind, List.length_replicate]
    have moved : List.replicate m '/' ++ '/' :: child.toList =
        '/' :: (List.replicate m '/' ++ child.toList) := by
      rw [← List.singleton_append, ← List.append_assoc, ← List.replicate_succ', List.replicate_succ]
      rfl
    rw [counted]
    refine Text.Wrapped.trimOf_eq ⟨⟨n, 0, ?_⟩, ?_, ?_⟩
    · simp [form, moved]
    · cases core with
      | nil => contradiction
      | cons c others => simpa using front'
    · rw [← List.append_assoc, List.getLast?_append_of_ne_nil _ element.nonempty]
      exact back

theorem isSome_drilled_iff {folder key : String} (element : IsElement child) :
    (child? (Text.trimOf '/' (drilled folder child).toList) key.toList).isSome ↔ ∃ rest,
      key.toList = stem (Text.trimOf '/' folder.toList) ++
        (List.replicate (gap folder) '/' ++ (child.toList ++ '/' :: rest)) ∧ ¬ ∀ c ∈ rest, c = '/' := by
  have deeper : stem (Text.trimOf '/' (drilled folder child).toList) =
      stem (Text.trimOf '/' folder.toList) ++
        (List.replicate (gap folder) '/' ++ (child.toList ++ ['/'])) := by
    rw [trimOf_drilled element, stem, if_neg (by simp [element.nonempty])]
    simp only [List.append_assoc]
  simp only [isSome_child?_iff, deeper, List.append_assoc, List.singleton_append]

theorem nested_of_drilled {folder key : String} (element : IsElement child)
    (found : (child? (Text.trimOf '/' (drilled folder child).toList) key.toList).isSome) :
    child? (Text.trimOf '/' folder.toList) key.toList = some (child, false) := by
  obtain ⟨rest, form, _⟩ := (isSome_drilled_iff element).mp found
  exact child?_nested_iff.mpr ⟨element, _, rest, form⟩

/-- A key goes astray by other slashes before the child than its own folder has there, or by nothing but
slashes behind the child. -/
theorem astray_iff {folder key : String} (element : IsElement child) : Astray folder child key ↔
    ∃ i rest, key.toList = stem (Text.trimOf '/' folder.toList) ++
        (List.replicate i '/' ++ (child.toList ++ '/' :: rest)) ∧
      (i ≠ gap folder ∨ ∀ c ∈ rest, c = '/') := by
  rw [Astray, child?_nested_iff, and_iff_right element, ← Option.not_isSome_iff_eq_none,
    isSome_drilled_iff element]
  constructor
  · rintro ⟨⟨i, rest, form⟩, lost⟩
    refine ⟨i, rest, form, ?_⟩
    by_contra straight
    rw [not_or, not_not] at straight
    exact lost ⟨rest, straight.1 ▸ form, straight.2⟩
  · rintro ⟨i, rest, form, strays⟩
    refine ⟨⟨i, rest, form⟩, ?_⟩
    rintro ⟨rest', form', other⟩
    have same := List.append_cancel_left (form.symm.trans form')
    have marks := congrArg (List.takeWhile (· == '/')) same
    rw [Text.takeWhile_marks _ (element.front _), Text.takeWhile_marks _ (element.front _)] at marks
    have behind := congrArg (List.dropWhile (· == '/')) same
    rw [Text.dropWhile_marks _ (element.front _), Text.dropWhile_marks _ (element.front _)] at behind
    obtain rfl : rest = rest' := (List.cons.inj (List.append_cancel_left behind)).2
    rcases strays with apart | slashes
    · exact apart (by simpa using congrArg List.length marks)
    · exact other slashes

theorem empty_of_slashes {cs : List Char} (slashes : ∀ c ∈ cs, c = '/') : [] ∈ Text.splitAt '/' cs := by
  cases cs with
  | nil => exact List.mem_singleton.mpr rfl
  | cons c rest =>
    rw [slashes c List.mem_cons_self, ← List.nil_append ('/' :: rest), Text.splitAt_append List.not_mem_nil]
    exact List.mem_cons_self

/-- Only keys with empty elements go astray from a folder without slashes behind its name. -/
theorem Astray.empty_element {folder key : String} (astray : Astray folder child key)
    (straight : gap folder = 0) : [] ∈ Text.splitAt '/' key.toList := by
  obtain ⟨i, rest, form, strays⟩ := (astray_iff (child?_nested_iff.mp astray.1).1).mp astray
  rw [form]
  rcases strays with apart | slashes
  · cases i with
    | zero => exact absurd straight.symm apart
    | succ i =>
      have first : [] ∈ Text.splitAt '/' (List.replicate (i + 1) '/' ++ (child.toList ++ '/' :: rest)) := by
        rw [List.replicate_succ, List.cons_append, ← List.nil_append ('/' :: _),
          Text.splitAt_append List.not_mem_nil]
        exact List.mem_cons_self
      rw [stem]
      split
      next => exact first
      next =>
        rw [List.append_assoc, List.singleton_append, Text.splitAt_marked]
        exact List.mem_append_right _ first
  · rw [← List.append_assoc, ← List.append_assoc, Text.splitAt_marked]
    exact List.mem_append_right _ (empty_of_slashes slashes)

/-! ### Keys one by one -/

/-- Counts the list of one key. -/
def enter (folder : List Char) (t : Table FolderStats) (e : String × List Blob) : Table FolderStats :=
  match child? folder e.1.toList with
  | none => t
  | some (child, isOwn) => t.insert child (((t.get? child).getD {}).add isOwn e.2)

theorem isElement_of_enter {t : Table FolderStats} {e : String × List Blob}
    (elements : ∀ child, t.get? child ≠ none → IsElement child) (child : String)
    (listed : (enter folder t e).get? child ≠ none) : IsElement child := by
  rw [enter] at listed
  cases found : child? folder e.1.toList with
  | none =>
    rw [found] at listed
    exact elements child listed
  | some other =>
    obtain ⟨name, isOwn⟩ := other
    simp only [found, Table.get?_insert] at listed
    by_cases same : child = name
    · exact same ▸ isElement_of_child? found
    · rw [if_neg same] at listed
      exact elements child listed

theorem isElement_of_listed {folder : String} {s : FolderStats}
    (listed : (c.subfolders folder).get? child = some s) : IsElement child := by
  have all (entries : List (String × List Blob)) (t : Table FolderStats)
      (elements : ∀ child, t.get? child ≠ none → IsElement child) (child : String)
      (listed : (entries.foldl (enter (Text.trimOf '/' folder.toList)) t).get? child ≠ none) :
      IsElement child := by
    induction entries generalizing t with
    | nil => exact elements child listed
    | cons e rest ih => exact ih _ (isElement_of_enter elements) listed
  have found : (c.subfolders folder).get? child ≠ none := by simp [listed]
  exact all c.lists.entries {} (fun _ none => absurd rfl none) child found

theorem foldl_enter (value : Table FolderStats → Nat) {gain : String × List Blob → Nat}
    (step : ∀ t e, value (enter folder t e) = value t + gain e) (entries : List (String × List Blob))
    (t : Table FolderStats) : value (entries.foldl (enter folder) t) = value t + (entries.map gain).sum := by
  induction entries generalizing t with
  | nil => rfl
  | cons e rest ih => rw [List.foldl_cons, ih, step, List.map_cons, List.sum_cons, Nat.add_assoc]

/-! ### Sums -/

/-- Something that statistics count of blobs: under the child's own key, and under keys further below. -/
structure Amount where
  of : List Blob → Nat
  own : FolderStats → Nat
  nested : FolderStats → Nat
  of_nil : of [] = 0
  own_empty : own {} = 0
  nested_empty : nested {} = 0
  own_add : ∀ s isOwn blobs, own (s.add isOwn blobs) = own s + if isOwn then of blobs else 0
  nested_add : ∀ s isOwn blobs, nested (s.add isOwn blobs) = nested s + if isOwn then 0 else of blobs

namespace Amount

def count : Amount where
  of := List.length
  own := FolderStats.ownCount
  nested := FolderStats.nestedCount
  of_nil := rfl
  own_empty := rfl
  nested_empty := rfl
  own_add s isOwn blobs := by cases isOwn <;> rfl
  nested_add s isOwn blobs := by cases isOwn <;> rfl

def size : Amount where
  of := totalSize
  own := FolderStats.ownSize
  nested := FolderStats.nestedSize
  of_nil := rfl
  own_empty := rfl
  nested_empty := rfl
  own_add s isOwn blobs := by cases isOwn <;> rfl
  nested_add s isOwn blobs := by cases isOwn <;> rfl

/-- The amount under all children of a table. -/
def total (a : Amount) (t : Table FolderStats) : Nat :=
  (t.entries.map fun e => a.own e.2 + a.nested e.2).sum

/-- The amount that a cache holds under keys with a property. -/
def held (a : Amount) (c : Cache) (p : String → Prop) [DecidablePred p] : Nat :=
  (c.lists.entries.map fun e => if p e.1 then a.of e.2 else 0).sum

variable (a : Amount)

theorem total_enter (folder : List Char) (t : Table FolderStats) (e : String × List Blob) :
    a.total (enter folder t e) =
      a.total t + if (child? folder e.1.toList).isSome then a.of e.2 else 0 := by
  rw [enter]
  cases child? folder e.1.toList with
  | none => simp
  | some found =>
    obtain ⟨child, isOwn⟩ := found
    have former : ((t.get? child).map fun s => a.own s + a.nested s).getD 0 =
        a.own ((t.get? child).getD {}) + a.nested ((t.get? child).getD {}) := by
      cases t.get? child with
      | none => simp [a.own_empty, a.nested_empty]
      | some s => rfl
    have sums := Table.sum_insert (fun s => a.own s + a.nested s) t child
      (((t.get? child).getD {}).add isOwn e.2)
    rw [former, a.own_add, a.nested_add] at sums
    simp only [total, Option.isSome_some, if_true]
    cases isOwn <;> simp only [if_true, Bool.false_eq_true, if_false] at sums ⊢ <;> omega

theorem nested_enter (folder : List Char) (t : Table FolderStats) (e : String × List Blob)
    (child : String) :
    a.nested (((enter folder t e).get? child).getD {}) = a.nested ((t.get? child).getD {}) +
      if child? folder e.1.toList = some (child, false) then a.of e.2 else 0 := by
  rw [enter]
  cases child? folder e.1.toList with
  | none => simp
  | some found =>
    obtain ⟨name, isOwn⟩ := found
    simp only [Table.get?_insert]
    by_cases same : child = name
    · subst same
      cases isOwn <;> simp [a.nested_add]
    · simp [same, Ne.symm same]

theorem total_subfolders (c : Cache) (folder : String) : a.total (c.subfolders folder) =
    a.held c fun key => (child? (Text.trimOf '/' folder.toList) key.toList).isSome :=
  (foldl_enter a.total (a.total_enter _) c.lists.entries {}).trans (Nat.zero_add _)

theorem nested_subfolders (c : Cache) (folder child : String) :
    a.nested (((c.subfolders folder).get? child).getD {}) =
      a.held c fun key => child? (Text.trimOf '/' folder.toList) key.toList = some (child, false) := by
  have added := foldl_enter (fun t => a.nested ((t.get? child).getD {}))
    (fun t e => a.nested_enter (Text.trimOf '/' folder.toList) t e child) c.lists.entries {}
  have empty : a.nested (((Table.get? ({} : Table FolderStats) child)).getD {}) = 0 := a.nested_empty
  rw [empty, Nat.zero_add] at added
  exact added

/-- A child's statistics have all that its own folder shows, and what goes astray. -/
theorem nested_drilled {folder : String} {s : FolderStats}
    (listed : (c.subfolders folder).get? child = some s) : a.nested s =
      a.total (c.subfolders (drilled folder child)) + a.held c (Astray folder child) := by
  have element := isElement_of_listed listed
  have nested := a.nested_subfolders c folder child
  rw [listed, Option.getD_some] at nested
  rw [nested, total_subfolders, held, held, held, ← List.sum_map_add]
  refine congrArg List.sum (List.map_congr_left fun e _ => ?_)
  by_cases seen : (child? (Text.trimOf '/' (drilled folder child).toList) e.1.toList).isSome
  · rw [if_pos (nested_of_drilled element seen), if_pos seen, if_neg, Nat.add_zero]
    rintro ⟨_, unseen⟩
    rw [unseen] at seen
    contradiction
  · rw [if_neg seen, Nat.zero_add]
    exact if_congr (and_iff_left (Option.not_isSome_iff_eq_none.mp seen)).symm rfl rfl

theorem held_eq_zero {p : String → Prop} [DecidablePred p]
    (nothing : ∀ key, p key → c.versions key = []) : a.held c p = 0 := by
  refine List.sum_eq_zero fun n listed => ?_
  obtain ⟨e, entry, rfl⟩ := List.mem_map.mp listed
  split
  next here => rw [← versions_of_mem entry, nothing e.1 here, a.of_nil]
  next => rfl

end Amount

theorem versions_of_count {p : String → Prop} [DecidablePred p] {key : String}
    (nothing : Amount.count.held c p = 0) (here : p key) : c.versions key = [] := by
  rw [versions]
  cases found : c.lists.get? key with
  | none => rfl
  | some blobs =>
    have entry := Table.get?_eq_some.mp found
    have part := List.sum_eq_zero_iff_forall_eq_nat.mp nothing _ (List.mem_map.mpr ⟨_, entry, rfl⟩)
    rw [if_pos here] at part
    exact List.length_eq_zero_iff.mp part

theorem isSome_child?_root (key : String) : (child? (Text.trimOf '/' "".toList) key.toList).isSome =
    key.toList.any (· != '/') := by
  have other : (∃ rest, key.toList = stem [] ++ rest ∧ ¬ ∀ c ∈ rest, c = '/') ↔ ∃ c ∈ key.toList, c ≠ '/' := by
    simp [stem]
  have empty : Text.trimOf '/' "".toList = [] := rfl
  rw [Bool.eq_iff_iff, empty, isSome_child?_iff, other]
  simp

open Amount in
/-- What is nested below a child is what its own folder shows and what goes astray on the way down, so the two
agree exactly if no version is stored under such a key. None of them is a key without empty elements, if no
slash stands behind the folder's name. All children of the root together have every version whose key is not
made of slashes only. -/
theorem folders_add_up (c : Cache) :
    (∀ folder child s, (c.subfolders folder).get? child = some s →
      s.nestedCount = count.total (c.subfolders (drilled folder child)) +
        count.held c (Astray folder child) ∧
      s.nestedSize = size.total (c.subfolders (drilled folder child)) +
        size.held c (Astray folder child) ∧
      (s.nestedCount = count.total (c.subfolders (drilled folder child)) ↔
        ∀ key, Astray folder child key → c.versions key = []) ∧
      (∀ key, Astray folder child key ↔ ∃ i rest,
        key.toList = stem (Text.trimOf '/' folder.toList) ++
          (List.replicate i '/' ++ (child.toList ++ '/' :: rest)) ∧
        (i ≠ gap folder ∨ ∀ x ∈ rest, x = '/')) ∧
      (gap folder = 0 → (∀ key ∈ c.keys, [] ∉ Text.splitAt '/' key.toList) →
        s.nestedCount = count.total (c.subfolders (drilled folder child)) ∧
        s.nestedSize = size.total (c.subfolders (drilled folder child)))) ∧
    count.total (c.subfolders "") = count.held c fun key => key.toList.any (· != '/') := by
  refine ⟨fun folder child s listed => ?_, ?_⟩
  · have counts : s.nestedCount = _ := count.nested_drilled listed
    have sizes : s.nestedSize = _ := size.nested_drilled listed
    have exact_iff : s.nestedCount = count.total (c.subfolders (drilled folder child)) ↔
        ∀ key, Astray folder child key → c.versions key = [] := by
      rw [counts, Nat.add_eq_left]
      exact ⟨fun nothing key astray => versions_of_count nothing astray, count.held_eq_zero⟩
    refine ⟨counts, sizes, exact_iff, fun key => astray_iff (isElement_of_listed listed),
      fun straight tidy => ?_⟩
    have empty (key : String) (astray : Astray folder child key) : c.versions key = [] := by
      rw [versions]
      cases found : c.lists.get? key with
      | none => rfl
      | some blobs =>
        have here : key ∈ c.keys := Table.mem_names.mpr (by simp [found])
        exact absurd (astray.empty_element straight) (tidy key here)
    refine ⟨exact_iff.mpr empty, ?_⟩
    rw [sizes, size.held_eq_zero empty, Nat.add_zero]
  · rw [total_subfolders]
    simp only [held, isSome_child?_root]

def sampleShelf (key : String) : Cache :=
  empty.insertAll [{ sampleVersion key 7 10 with size := some 3 }]

theorem folders_add_up_sample :
    (((sampleShelf "a/b").subfolders "").get? "a").map (·.nestedCount) =
      some (Amount.count.total ((sampleShelf "a/b").subfolders (drilled "" "a"))) ∧
    (((sampleShelf "a/b").subfolders "").get? "a").map (·.nestedSize) = some 3 ∧
    Amount.count.total ((sampleShelf "a/b").subfolders "") = 1 := by
  have listed : ((sampleShelf "a/b").subfolders "").get? "a" = some ⟨0, 0, 1, 3⟩ := by decide +kernel
  have tidy : ∀ key ∈ (sampleShelf "a/b").keys, [] ∉ Text.splitAt '/' key.toList := by decide +kernel
  obtain ⟨below, root⟩ := folders_add_up (sampleShelf "a/b")
  obtain ⟨_, _, _, _, straight⟩ := below "" "a" _ listed
  rw [listed, root]
  exact ⟨congrArg some (straight (by decide) tidy).1, rfl, by decide +kernel⟩

/-- A slash in front of a key: the folder counts it for a child, and the child's own folder is empty. -/
theorem folder_lost :
    ((sampleShelf "/a/b").subfolders "").get? "a" = some ⟨0, 0, 1, 3⟩ ∧
    drilled "" "a" = "a" ∧
    Amount.count.total ((sampleShelf "/a/b").subfolders "a") = 0 ∧
    Amount.size.total ((sampleShelf "/a/b").subfolders "a") = 0 := by
  decide +kernel

end BlobReplica.Cache
