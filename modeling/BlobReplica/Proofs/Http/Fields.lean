import BlobReplica.Http.ContentRange
import BlobReplica.Http.Range
import BlobReplica.Proofs.Text.Numeral
import Mathlib.Data.List.Forall2

/-! The fields about byte ranges as they may be written. A request lists items of three forms, blank ones
among them left out; a response gives the place of a slice. Reading accepts exactly these forms. -/

namespace BlobReplica.Http

open Text (Blank Padded Numeral Trimmed)

variable {size : Nat} {item header value : String} {slice : Nat × Nat} {found : List (Nat × Nat)}

theorem free_hyphen {cs : List Char} {n : Nat} (numeral : Numeral cs n) : '-' ∉ cs :=
  numeral.free (by decide) (by decide) (by decide)

theorem trim_ne_empty {cs : List Char} {n : Nat} (numeral : Numeral cs n) :
    Text.trim (String.ofList cs) ≠ "" := by
  rw [Ne, Text.trim_eq_empty_iff, String.toList_ofList]
  exact numeral.not_blank

theorem trim_empty {cs : List Char} (blank : Blank cs) : Text.trim (String.ofList cs) = "" := by
  rwa [Text.trim_eq_empty_iff, String.toList_ofList]

theorem readWord_ofList {cs : List Char} {n : Nat} (numeral : Numeral cs n) :
    Text.readWord (Text.trim (String.ofList cs)) = some n := by
  rwa [Text.readWord_trim_iff, String.toList_ofList]

namespace RangeRequest

/-- An item of a range field, and the first and last position that it asks for of an object of `size`
bytes. -/
inductive Item (size : Nat) : List Char → Nat × Nat → Prop
  /-- `first-last` -/
  | between {x y : List Char} {first last : Nat} : Numeral x first → Numeral y last → first ≤ last →
      last < size → Item size (x ++ '-' :: y) (first, last)
  /-- `first-` -/
  | onward {x y : List Char} {first : Nat} : Numeral x first → Blank y → first < size →
      Item size (x ++ '-' :: y) (first, size - 1)
  /-- `-count` -/
  | ending {x y : List Char} {count : Nat} : Blank x → Numeral y count → 1 ≤ count → 0 < size →
      Item size (x ++ '-' :: y) (size - min count size, size - 1)

theorem item_of_item? (read : item? size item = some slice) : Item size item.toList slice := by
  obtain ⟨⟨x, y⟩, cut, read⟩ := Option.bind_eq_some_iff.mp read
  obtain ⟨form, _⟩ := Text.cutAt_eq_some_iff.mp cut
  obtain ⟨nonempty, read⟩ := Option.ite_none_left_eq_some.mp read
  rw [form]
  split at read
  next left =>
    obtain ⟨n, right, read⟩ := Option.bind_eq_some_iff.mp read
    obtain ⟨positive, same⟩ := Option.ite_none_left_eq_some.mp read
    obtain rfl := Option.some.inj same
    exact .ending (Text.trim_eq_empty_iff.mp left) (Text.readWord_trim_iff.mp right)
      (Nat.one_le_iff_ne_zero.mpr positive) (Nat.pos_of_ne_zero nonempty)
  next left =>
    split at read
    next right =>
      obtain ⟨n, left, read⟩ := Option.bind_eq_some_iff.mp read
      obtain ⟨inside, same⟩ := Option.ite_none_right_eq_some.mp read
      obtain rfl := Option.some.inj same
      exact .onward (Text.readWord_trim_iff.mp left) (Text.trim_eq_empty_iff.mp right) inside
    next right =>
      obtain ⟨n, left, read⟩ := Option.bind_eq_some_iff.mp read
      obtain ⟨m, right, read⟩ := Option.bind_eq_some_iff.mp read
      obtain ⟨⟨ordered, inside⟩, same⟩ := Option.ite_none_right_eq_some.mp read
      obtain rfl := Option.some.inj same
      exact .between (Text.readWord_trim_iff.mp left) (Text.readWord_trim_iff.mp right) ordered inside

theorem Item.item? (written : Item size item.toList slice) : RangeRequest.item? size item = some slice := by
  generalize form : item.toList = cs at written
  cases written with
  | between left right ordered inside =>
    rw [RangeRequest.item?, Text.cutAt_eq form (free_hyphen left)]
    simp only [Option.bind_eq_bind, Option.bind_some, trim_ne_empty left, trim_ne_empty right,
      readWord_ofList left, readWord_ofList right, if_false]
    rw [if_neg (by omega), if_pos ⟨ordered, inside⟩]
  | onward left right inside =>
    rw [RangeRequest.item?, Text.cutAt_eq form (free_hyphen left)]
    simp only [Option.bind_eq_bind, Option.bind_some, trim_ne_empty left, trim_empty right,
      readWord_ofList left, if_false, if_true]
    rw [if_neg (by omega), if_pos inside]
  | ending left right positive nonempty =>
    rw [RangeRequest.item?, Text.cutAt_eq form (left.free (by decide))]
    simp only [Option.bind_eq_bind, Option.bind_some, trim_empty left, readWord_ofList right, if_true]
    rw [if_neg (by omega), if_neg (by omega)]

theorem item?_eq_some_iff : item? size item = some slice ↔ Item size item.toList slice :=
  ⟨item_of_item?, Item.item?⟩

theorem item?_trim (size : Nat) (item : String) : item? size (Text.trim item) = item? size item := by
  have hyphen : Text.isBlank '-' = false := by decide
  cases cut : Text.cutAt '-' item with
  | none =>
    have absent : Text.cutAt '-' (Text.trim item) = none := by
      rw [Text.cutAt_eq_none_iff] at cut ⊢
      intro member
      obtain ⟨front, back, _, _, form⟩ := (Text.trimmed_trimChars item.toList).padded
      rw [Text.trim, String.toList_ofList] at member
      rw [form, List.mem_append, List.mem_append] at cut
      exact cut (.inr (.inl member))
    rw [item?, item?, cut, absent]
  | some sides =>
    obtain ⟨form, free⟩ := Text.cutAt_eq_some_iff.mp cut
    have trimmed : Text.cutAt '-' (Text.trim item) =
        some (String.ofList (Text.trimStartChars sides.1.toList),
          String.ofList (Text.trimEndChars sides.2.toList)) := by
      refine Text.cutAt_eq ?_ fun member => ?_
      · rw [Text.trim, String.toList_ofList, form, Text.trimChars_mark hyphen]
      · obtain ⟨front, _, start⟩ := Text.exists_trimStartChars sides.1.toList
        rw [start, List.mem_append] at free
        exact free (.inr member)
    have left : Text.trim (String.ofList (Text.trimStartChars sides.1.toList)) = Text.trim sides.1 := by
      rw [Text.trim, Text.trim, String.toList_ofList, Text.trimChars_trimStartChars]
    have right : Text.trim (String.ofList (Text.trimEndChars sides.2.toList)) = Text.trim sides.2 := by
      rw [Text.trim, Text.trim, String.toList_ofList, Text.trimChars_trimEndChars]
    rw [item?, item?, cut, trimmed]
    simp only [Option.bind_eq_bind, Option.bind_some, left, right]

/-- Whether a text holds more than blanks. -/
def hasInk (cs : List Char) : Bool :=
  cs.any (!Text.isBlank ·)

/-- A range field, and the slices that it asks for of an object of `size` bytes: behind `bytes=` items with
commas between them, of which one at least is not blank. -/
def Asks (size : Nat) (header : String) (found : List (Nat × Nat)) : Prop :=
  ∃ items, Trimmed ("bytes=".toList ++ [','].intercalate items) header.toList ∧
    (∀ item ∈ items, ',' ∉ item) ∧ List.Forall₂ (Item size) (items.filter hasInk) found ∧ found ≠ []

theorem mapM_eq_some_iff {α β : Type} {f : α → Option β} {xs : List α} {ys : List β} :
    xs.mapM f = some ys ↔ List.Forall₂ (fun x y => f x = some y) xs ys := by
  induction xs generalizing ys with
  | nil =>
    rw [List.mapM_nil, List.forall₂_nil_left_iff]
    exact Option.some_inj.trans eq_comm
  | cons x rest ih =>
    rw [List.mapM_cons, List.forall₂_cons_left_iff]
    constructor
    · intro mapped
      obtain ⟨y, first, mapped⟩ := Option.bind_eq_some_iff.mp mapped
      obtain ⟨others, more, same⟩ := Option.bind_eq_some_iff.mp mapped
      exact ⟨y, others, first, ih.mp more, (Option.some.inj same).symm⟩
    · rintro ⟨y, others, first, more, rfl⟩
      rw [first, ih.mpr more]
      rfl

theorem trim_ne_empty_iff (cs : List Char) :
    decide (Text.trim (String.ofList cs) ≠ "") = hasInk cs := by
  rw [Bool.eq_iff_iff, decide_eq_true_iff, Ne, Text.trim_eq_empty_iff, String.toList_ofList, hasInk,
    List.any_eq_true, Blank, not_forall]
  simp

/-- The items that are looked at are those with more than blanks in them. -/
theorem mapM_items (size : Nat) (specs : String) :
    (((Text.split ',' specs).map Text.trim).filter (· ≠ "")).mapM (item? size) = some found ↔
      List.Forall₂ (Item size) ((Text.splitAt ',' specs.toList).filter hasInk) found := by
  have filled : (fun item => decide (item ≠ "")) ∘ (Text.trim ∘ String.ofList) = hasInk := by
    funext cs
    rw [Function.comp_apply, Function.comp_apply, trim_ne_empty_iff]
  have read (item : List Char) (slice : Nat × Nat) :
      item? size ((Text.trim ∘ String.ofList) item) = some slice ↔ Item size item slice := by
    rw [Function.comp_apply, item?_trim, item?_eq_some_iff, String.toList_ofList]
  rw [Text.split, List.map_map, List.filter_map, filled, mapM_eq_some_iff, List.forall₂_map_left_iff]
  simp only [read]

/-- Several commas make as many items and one more, in one way. -/
theorem asks_iff : Asks size header found ↔
    ∃ specs, Text.dropStart "bytes=" (Text.trim header) = some specs ∧
      List.Forall₂ (Item size) ((Text.splitAt ',' specs.toList).filter hasInk) found ∧ found ≠ [] := by
  constructor
  · rintro ⟨items, trimmed, free, asked, nonempty⟩
    have some : items ≠ [] := by
      rintro rfl
      exact nonempty (List.forall₂_nil_left_iff.mp asked)
    refine ⟨String.ofList ([','].intercalate items), ?_, ?_, nonempty⟩
    · apply Text.dropStart_append
      rw [Text.trim, String.toList_ofList, Text.trimChars_eq_iff.mpr trimmed]
    · rwa [String.toList_ofList, Text.splitAt_intercalate some free]
  · rintro ⟨specs, dropped, asked, nonempty⟩
    refine ⟨Text.splitAt ',' specs.toList, ?_, Text.free_splitAt ',' _, asked, nonempty⟩
    rw [← Text.trimChars_eq_iff, Text.intercalate_splitAt, ← Text.dropStart_eq_some_iff.mp dropped,
      Text.trim, String.toList_ofList]

/-- Reading a field gives the slices that it asks for, if it asks for any. -/
theorem parse_eq_slices_iff : parse (some header) size = .slices found ↔ Asks size header found := by
  rw [asks_iff, parse]
  cases Text.dropStart "bytes=" (Text.trim header) with
  | none => simp
  | some specs =>
    simp only [Option.some.injEq, exists_eq_left', ← mapM_items]
    constructor
    · intro parsed
      split at parsed
      next => contradiction
      next => contradiction
      next others read =>
        obtain rfl := RangeRequest.slices.inj parsed
        exact ⟨read, others⟩
    · rintro ⟨read, nonempty⟩
      rw [read]
      split
      next absent => contradiction
      next empty => exact absurd (Option.some.inj empty) nonempty
      next others same => rw [Option.some.inj same]

theorem parse_ne_full (header : String) (size : Nat) : parse (some header) size ≠ .full := by
  rw [parse]
  split
  next => nofun
  next =>
    simp only
    split <;> nofun

/-- A field that asks for nothing in the object is unsatisfiable, and no other is. -/
theorem parse_eq_unsatisfiable_iff :
    parse (some header) size = .unsatisfiable ↔ ∀ found, ¬ Asks size header found := by
  simp only [← parse_eq_slices_iff]
  constructor
  · intro refused found asked
    rw [refused] at asked
    cases asked
  · intro none
    cases parsed : parse (some header) size with
    | full => exact absurd parsed (parse_ne_full header size)
    | slices found => exact absurd parsed (none found)
    | unsatisfiable => rfl

/-- A slice inside an object of this size. -/
def Proper (size : Nat) (slice : Nat × Nat) : Prop :=
  slice.1 ≤ slice.2 ∧ slice.2 < size

theorem Item.proper {cs : List Char} (item : Item size cs slice) : Proper size slice := by
  cases item with
  | between _ _ ordered inside => exact ⟨ordered, inside⟩
  | onward _ _ inside => constructor <;> simp only <;> omega
  | ending _ _ positive nonempty => constructor <;> simp only <;> omega

theorem proper_of_items {items : List (List Char)} (asked : List.Forall₂ (Item size) items found) :
    ∀ s ∈ found, Proper size s := by
  induction asked with
  | nil => simp
  | cons item _ ih => exact List.forall_mem_cons.mpr ⟨item.proper, ih⟩

theorem Asks.proper (asks : Asks size header found) : found ≠ [] ∧ ∀ s ∈ found, Proper size s := by
  obtain ⟨items, _, _, asked, nonempty⟩ := asks
  exact ⟨nonempty, proper_of_items asked⟩

end RangeRequest

namespace ContentRange

variable {r : ContentRange}

/-- The length of the whole: a number, or an asterisk where it is not known. -/
inductive Total : List Char → Option Nat → Prop
  | known {cs : List Char} {n : Nat} : Numeral cs n → Total cs (some n)
  | unknown {cs : List Char} : Padded ['*'] cs → Total cs none

/-- The value of a field that tells a range: `bytes first-last/total`, with blanks around each number. -/
def Tells (cs : List Char) (r : ContentRange) : Prop :=
  ∃ lead x y z, Blank lead ∧ cs = lead ++ ("bytes".toList ++ (x ++ '-' :: (y ++ '/' :: z))) ∧
    Numeral x r.first ∧ Numeral y r.last ∧ r.first ≤ r.last ∧ Total z r.total

theorem position?_eq_some_iff {s : String} {n : Nat} : position? s = some n ↔ Numeral s.toList n :=
  Text.readWord_trim_iff

theorem padded_star_iff {cs : List Char} : Padded ['*'] cs ↔ Text.trimChars cs = ['*'] := by
  rw [Text.trimChars_eq_iff]
  constructor
  · intro padded
    have solid : Text.isBlank '*' = false := by decide
    refine ⟨padded, ?_, ?_⟩
    · intro c first
      obtain rfl := Option.some.inj first
      exact solid
    · intro c last
      obtain rfl := Option.some.inj last
      exact solid
  · exact Text.Trimmed.padded

theorem trim_eq_star_iff {s : String} : Text.trim s = "*" ↔ Padded ['*'] s.toList := by
  have star : "*" = String.ofList ['*'] := by decide
  rw [Text.trim, star, String.ofList_inj, padded_star_iff]

theorem not_numeral_star {cs : List Char} {n : Nat} (padded : Padded ['*'] cs) : ¬ Numeral cs n := by
  intro numeral
  obtain ⟨front, back, _, _, form⟩ := padded
  have free : '*' ∉ cs := numeral.free (by decide) (by decide) (by decide)
  rw [form] at free
  simp at free

theorem Total.pad {cs back : List Char} {total : Option Nat} (written : Total cs total)
    (blank : Blank back) : Total (cs ++ back) total := by
  cases written with
  | known numeral => exact .known (numeral.pad Text.blank_nil blank)
  | unknown padded => exact .unknown (padded.pad Text.blank_nil blank)

theorem Total.trimEnd {cs : List Char} {total : Option Nat} (written : Total cs total) :
    Total (Text.trimEndChars cs) total := by
  cases written with
  | known numeral => exact .known numeral.trimEnd
  | unknown padded =>
    rw [padded_star_iff, ← Text.trimChars_trimEndChars, ← padded_star_iff] at padded
    exact .unknown padded

theorem total_iff {s : String} {first last : Nat} :
    (if Text.trim s = "*" then some ⟨first, last, none⟩
      else (position? s).bind fun total => some ⟨first, last, some total⟩) = some r ↔
    r.first = first ∧ r.last = last ∧ Total s.toList r.total := by
  constructor
  · intro read
    split at read
    next star =>
      obtain rfl := Option.some.inj read
      exact ⟨rfl, rfl, .unknown (trim_eq_star_iff.mp star)⟩
    next =>
      obtain ⟨n, counted, same⟩ := Option.bind_eq_some_iff.mp read
      obtain rfl := Option.some.inj same
      exact ⟨rfl, rfl, .known (position?_eq_some_iff.mp counted)⟩
  · obtain ⟨_, _, total⟩ := r
    rintro ⟨rfl, rfl, written⟩
    generalize form : s.toList = cs at written
    cases written with
    | known numeral =>
      rw [← form] at numeral
      rw [if_neg fun star => not_numeral_star (trim_eq_star_iff.mp star) numeral,
        position?_eq_some_iff.mpr numeral, Option.bind_some]
    | unknown padded => rw [if_pos (trim_eq_star_iff.mpr (form ▸ padded))]

theorem tells_of_parse? (read : parse? value = some r) : Tells value.toList r := by
  unfold parse? at read
  obtain ⟨spec, start, read⟩ := Option.bind_eq_some_iff.mp read
  obtain ⟨⟨range, total⟩, slash, read⟩ := Option.bind_eq_some_iff.mp read
  obtain ⟨⟨x, y⟩, hyphen, read⟩ := Option.bind_eq_some_iff.mp read
  obtain ⟨first, left, read⟩ := Option.bind_eq_some_iff.mp read
  obtain ⟨last, right, read⟩ := Option.bind_eq_some_iff.mp read
  obtain ⟨ordered, read⟩ := Option.ite_none_left_eq_some.mp read
  obtain ⟨rfl, rfl, written⟩ := total_iff.mp read
  have form := Text.dropStart_eq_some_iff.mp start
  have rest := (Text.cutAt_eq_some_iff.mp slash).1
  have span := (Text.cutAt_eq_some_iff.mp hyphen).1
  obtain ⟨front, back, before, after, whole⟩ := (Text.trimmed_trimChars value.toList).padded
  obtain ⟨gap, blank, spaced⟩ := Text.exists_trimStartChars spec.toList
  rw [Text.trim, String.toList_ofList] at form
  rw [String.toList_ofList] at rest
  refine ⟨front, gap ++ x.toList, y.toList, total.toList ++ back, before, ?_,
    (position?_eq_some_iff.mp left).behind blank, position?_eq_some_iff.mp right,
    Nat.not_lt.mp ordered, written.pad after⟩
  rw [whole, form, spaced, rest, span]
  simp

theorem trimChars_field {lead x z : List Char} (blank : Blank lead) :
    Text.trimChars (lead ++ ("bytes".toList ++ (x ++ '/' :: z))) =
      "bytes".toList ++ (x ++ '/' :: Text.trimEndChars z) := by
  have word : Text.trimStartChars ("bytes".toList ++ x) = "bytes".toList ++ x := rfl
  have regrouped : lead ++ ("bytes".toList ++ (x ++ '/' :: z)) =
      (lead ++ ("bytes".toList ++ x)) ++ '/' :: z := by simp
  rw [regrouped, Text.trimChars_mark (by decide), Text.trimStartChars_blank blank, word,
    List.append_assoc]

theorem Tells.parse? (tells : Tells value.toList r) : ContentRange.parse? value = some r := by
  obtain ⟨lead, x, y, z, blank, form, left, right, ordered, total⟩ := tells
  have slash {cs : List Char} {n : Nat} (numeral : Numeral cs n) : '/' ∉ cs :=
    numeral.free (by decide) (by decide) (by decide)
  have start : Text.dropStart "bytes" (Text.trim value) =
      some (String.ofList (x ++ '-' :: (y ++ '/' :: Text.trimEndChars z))) := by
    apply Text.dropStart_append
    have field := trimChars_field (x := x ++ '-' :: y) (z := z) blank
    simp only [List.append_assoc, List.cons_append] at field
    rw [Text.trim, String.toList_ofList, form, field]
  have cut : Text.cutAt '/' (String.ofList (Text.trimStartChars
      (x ++ '-' :: (y ++ '/' :: Text.trimEndChars z)))) =
      some (String.ofList (Text.trimStartChars x ++ '-' :: y), String.ofList (Text.trimEndChars z)) := by
    apply Text.cutAt_eq
    · rw [String.toList_ofList, Text.trimStartChars_mark (by decide)]
      simp
    · simp [slash left.trimStart, slash right]
  have span : Text.cutAt '-' (String.ofList (Text.trimStartChars x ++ '-' :: y)) =
      some (String.ofList (Text.trimStartChars x), String.ofList y) :=
    Text.cutAt_eq String.toList_ofList (free_hyphen left.trimStart)
  have first : position? (String.ofList (Text.trimStartChars x)) = some r.first := by
    rw [position?_eq_some_iff, String.toList_ofList]
    exact left.trimStart
  have last : position? (String.ofList y) = some r.last := by
    rwa [position?_eq_some_iff, String.toList_ofList]
  simp only [ContentRange.parse?, start, Option.bind_eq_bind, Option.bind_some, String.toList_ofList,
    cut, span, first, last]
  rw [if_neg (Nat.not_lt.mpr ordered), total_iff, String.toList_ofList]
  exact ⟨rfl, rfl, total.trimEnd⟩

theorem Tells.pad {core cs : List Char} (tells : Tells core r) (padded : Padded core cs) : Tells cs r := by
  obtain ⟨lead, x, y, z, blank, rfl, left, right, ordered, total⟩ := tells
  obtain ⟨front, back, before, after, rfl⟩ := padded
  exact ⟨front ++ lead, x, y, z ++ back, before.append blank, by simp, left, right, ordered,
    total.pad after⟩

/-- Reading a field gives the range that it tells. -/
theorem parse?_eq_some_iff : parse? value = some r ↔ Tells value.toList r :=
  ⟨tells_of_parse?, Tells.parse?⟩

theorem length?_eq_some_iff {n : Nat} :
    r.length? = some n ↔ r.first ≤ r.last ∧ n = r.last - r.first + 1 ∧ n ≤ Text.maxWord := by
  rw [length?, Option.ite_none_right_eq_some, Option.some_inj]
  constructor
  · rintro ⟨⟨ordered, narrow⟩, rfl⟩
    exact ⟨ordered, rfl, narrow⟩
  · rintro ⟨ordered, rfl, narrow⟩
    exact ⟨⟨ordered, narrow⟩, rfl⟩

end ContentRange
end BlobReplica.Http
