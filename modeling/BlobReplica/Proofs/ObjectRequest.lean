import BlobReplica.ObjectRequest
import BlobReplica.Proofs.Except
import BlobReplica.Proofs.Table
import BlobReplica.Proofs.Text.Numeral

/-! Which paths are requests for one object. The tokens that are no flags spell path elements, a start, and
behind it an end and a version, in either order or left out; the flags may stand anywhere between them. -/

namespace BlobReplica.ObjectRequest

variable {path path' token name value : String} {ts : List String} {r q : ObjectRequest} {n start : Millis}
  {headers : Http.Headers}

/-! ### Tokens -/

def isFlag (token : String) : Bool :=
  token.toList.contains '='

/-- The tokens of a path that are no flags. -/
def plainTokens (path : String) : List String :=
  (tokens path).filter fun t => !isFlag t

def flagTokens (path : String) : List String :=
  (tokens path).filter isFlag

/-- Names and values that the flags of a path give, in their order. -/
def givenFlags (path : String) : List (String × String) :=
  (flagTokens path).filterMap (Text.cutAt '=')

theorem cutAt_eq_none (plain : isFlag token = false) : Text.cutAt '=' token = none := by
  apply Text.cutAt_eq_none_iff.mpr
  simpa [isFlag] using plain

theorem exists_cutAt (flag : isFlag token = true) :
    ∃ name value, Text.cutAt '=' token = some (name, value) := by
  cases cut : Text.cutAt '=' token with
  | none =>
    have plain := Text.cutAt_eq_none_iff.mp cut
    simp [isFlag, plain] at flag
  | some e => exact ⟨e.1, e.2, rfl⟩

theorem plain_of_mem (member : token ∈ plainTokens path) : isFlag token = false := by
  simpa using (List.mem_filter.mp member).2

/-- A text that can be a token of a path, and no flag. -/
structure IsPlain (token : String) : Prop where
  nonempty : token ≠ ""
  unslashed : '/' ∉ token.toList
  unflagged : isFlag token = false

theorem isPlain_of_mem (member : token ∈ plainTokens path) : IsPlain token := by
  obtain ⟨piece, nonempty⟩ := List.mem_filter.mp (List.mem_filter.mp member).1
  obtain ⟨cs, split, rfl⟩ := List.mem_map.mp piece
  refine ⟨by simpa using nonempty, ?_, plain_of_mem member⟩
  rw [String.toList_ofList]
  exact Text.free_splitAt '/' _ cs split

theorem plainTokens_eq (plain : ∀ t ∈ tokens path, isFlag t = false) :
    plainTokens path = tokens path ∧ givenFlags path = [] := by
  constructor
  · exact List.filter_eq_self.mpr fun t member => by simp [plain t member]
  · rw [givenFlags, flagTokens, List.filter_eq_nil_iff.mpr fun t member => by simp [plain t member]]
    rfl

/-- Decimal digits of a 64-bit number, with blanks around them or none. -/
def IsNumber (token : String) (n : Millis) : Prop :=
  ∃ core, Text.Padded core token.toList ∧ core ≠ [] ∧ (∀ c ∈ core, c.isDigit = true) ∧
    Nat.ofDigitChars 10 core 0 = n ∧ n ≤ Text.maxWord

theorem number?_eq_some_iff : number? token = some n ↔ IsNumber token n := by
  rw [number?, Text.readDigits_eq_some_iff]
  constructor
  · intro read
    exact ⟨_, (Text.trimmed_trimChars _).padded, read⟩
  · rintro ⟨core, padded, some, digits, value⟩
    have kept : Text.trimChars core = core :=
      Text.trimChars_solid fun c member => Text.isBlank_of_isDigit (digits c member)
    rw [padded.trimChars_eq, kept]
    exact ⟨some, digits, value⟩

theorem number?_eq_none_iff : number? token = none ↔ ∀ n, ¬ IsNumber token n := by
  rw [Option.eq_none_iff_forall_ne_some]
  exact forall_congr' fun n => not_congr number?_eq_some_iff

theorem isNumber_toString (bound : n ≤ Text.maxWord) : IsNumber (toString n) n := by
  refine ⟨Text.digits n, ?_, Nat.toDigits_ne_nil, ?_, Nat.ofDigitChars_ten_toDigits, bound⟩
  · rw [Text.toList_toString]
    exact Text.padded_refl _
  · intro c member
    exact Text.isDigit_of_mem_digits member

theorem IsNumber.free (number : IsNumber token n) : '-' ∉ token.toList := by
  obtain ⟨core, ⟨front, back, before, after, form⟩, _, digits, _⟩ := number
  intro member
  rw [form] at member
  rcases List.mem_append.mp member with blank | member
  · exact before.free (by decide) blank
  · rcases List.mem_append.mp member with digit | blank
    · exact Text.digit_ne (digits _ digit) (by decide) rfl
    · exact after.free (by decide) blank

/-! ### Flags between other tokens -/

theorem addToken_flag (cut : Text.cutAt '=' token = some (name, value)) :
    addToken path r token = .ok { r with flags := Table.insert r.flags name value } := by
  rw [addToken, cut]

theorem addToken_withFlags (path : String) (r : ObjectRequest) (plain : isFlag token = false)
    (flags : Properties) :
    addToken path { r with flags } token =
      (addToken path r token).map fun q => { q with flags } := by
  rw [addToken, addToken, cutAt_eq_none plain]
  cases number? token with
  | some n => cases r.startTime <;> cases r.endTime <;> rfl
  | none =>
    cases r.startTime with
    | none => rfl
    | some start =>
      cases VersionId.parse? token with
      | none => rfl
      | some v => cases r.version <;> rfl

theorem foldlM_withFlags (plain : ∀ t ∈ ts, isFlag t = false) (flags : Properties) :
    ts.foldlM (addToken path) { r with flags } =
      (ts.foldlM (addToken path) r).map fun q => { q with flags } := by
  induction ts generalizing r with
  | nil => rfl
  | cons t rest ih =>
    rw [List.foldlM_cons, List.foldlM_cons, addToken_withFlags path r (plain t List.mem_cons_self)]
    cases addToken path r t with
    | error e => rfl
    | ok q => exact ih fun x member => plain x (List.mem_cons_of_mem _ member)

/-- Flags entered over those that are there. -/
def entered (flags : Properties) (given : List (String × String)) : Properties :=
  given.foldl (fun flags e => Table.insert flags e.1 e.2) flags

/-- The flags and the other tokens are taken apart from each other. -/
theorem foldlM_addToken (path : String) (ts : List String) (r : ObjectRequest) :
    ts.foldlM (addToken path) r = ((ts.filter fun t => !isFlag t).foldlM (addToken path) r).map
      fun q => { q with flags := entered r.flags ((ts.filter isFlag).filterMap (Text.cutAt '=')) } := by
  have plain (l : List String) : ∀ t ∈ l.filter fun t => !isFlag t, isFlag t = false := by
    intro t member
    simpa using (List.mem_filter.mp member).2
  induction ts generalizing r with
  | nil => rfl
  | cons t rest ih =>
    rw [List.foldlM_cons]
    cases flag : isFlag t with
    | true =>
      obtain ⟨name, value, cut⟩ := exists_cutAt flag
      have others : (t :: rest).filter (fun t => !isFlag t) = rest.filter fun t => !isFlag t :=
        List.filter_cons_of_neg (by simp [flag])
      rw [addToken_flag cut, others, List.filter_cons_of_pos flag, List.filterMap_cons_some cut, entered,
        List.foldl_cons]
      refine (ih _).trans ?_
      rw [foldlM_withFlags (plain rest)]
      cases (rest.filter fun t => !isFlag t).foldlM (addToken path) r <;> rfl
    | false =>
      have others : (t :: rest).filter (fun t => !isFlag t) = t :: rest.filter fun t => !isFlag t :=
        List.filter_cons_of_pos (by simp [flag])
      have flags : (t :: rest).filter isFlag = rest.filter isFlag := List.filter_cons_of_neg (by simp [flag])
      rw [others, flags, List.foldlM_cons]
      cases taken : addToken path r t with
      | error e => rfl
      | ok q =>
        have kept : q.flags = r.flags := by
          have same := addToken_withFlags path r flag r.flags
          rw [taken] at same
          have tells : q = { q with flags := r.flags } := Except.ok.inj same
          rw [tells]
        exact kept ▸ ih q

/-! ### The other tokens -/

/-- What stands behind the start: at most one end, and at most one version that is no number, in either
order. -/
inductive Follows : List String → Option Millis → Option VersionId → Prop where
  | nothing : Follows [] none none
  | stop {token : String} {n : Millis} {rest : List String} {version : Option VersionId}
      (number : IsNumber token n) (follows : Follows rest none version) :
      Follows (token :: rest) (some n) version
  | version {token : String} {v : VersionId} {rest : List String} {stop : Option Millis}
      (unnumbered : ∀ n, ¬ IsNumber token n) (read : VersionId.parse? token = some v)
      (follows : Follows rest stop none) : Follows (token :: rest) stop (some v)

theorem Follows.stop_le {stop : Option Millis} {version : Option VersionId}
    (follows : Follows ts stop version) : ∀ n, stop = some n → n ≤ Text.maxWord := by
  induction follows with
  | nothing => exact nofun
  | stop number _ _ =>
    obtain ⟨_, _, _, _, _, bound⟩ := number
    rintro n ⟨⟩
    exact bound
  | version _ _ _ ih => exact ih

/-- Tokens that spell a request for one object. -/
structure Spells (plain : List String) (r : ObjectRequest) : Prop where
  nonempty : 1 ≤ r.path.length
  few : r.path.length ≤ maxPathElements
  unnumbered : ∀ e ∈ r.path, ∀ n, ¬ IsNumber e n
  timed : ∃ token start rest, plain = r.path ++ token :: rest ∧ IsNumber token start ∧
    r.startTime = some start ∧ Follows rest r.endTime r.version

theorem Spells.times_le (spells : Spells ts r) :
    (∀ n, r.startTime = some n → n ≤ Text.maxWord) ∧ ∀ n, r.endTime = some n → n ≤ Text.maxWord := by
  obtain ⟨token, start, rest, _, ⟨_, _, _, _, _, bound⟩, started, follows⟩ := spells.timed
  refine ⟨fun n given => ?_, follows.stop_le⟩
  obtain rfl := Option.some.inj (started.symm.trans given)
  exact bound

theorem addToken_element (path : String) (unstarted : r.startTime = none)
    (plain : isFlag token = false) (unnumbered : ∀ n, ¬ IsNumber token n) :
    addToken path r token = .ok { r with path := r.path ++ [token] } := by
  rw [addToken, cutAt_eq_none plain]
  simp only [number?_eq_none_iff.mpr unnumbered, unstarted, Option.isNone_none, if_true]

theorem addToken_start (path : String) (unstarted : r.startTime = none)
    (plain : isFlag token = false) (number : IsNumber token n) :
    addToken path r token = .ok { r with startTime := some n } := by
  rw [addToken, cutAt_eq_none plain]
  simp only [number?_eq_some_iff.mpr number, unstarted]

theorem addToken_started (path : String) (started : r.startTime = some start)
    (plain : isFlag token = false) :
    addToken path r token = .ok q ↔
      (∃ n, IsNumber token n ∧ r.endTime = none ∧ q = { r with endTime := some n }) ∨
      ∃ v, (∀ n, ¬ IsNumber token n) ∧ VersionId.parse? token = some v ∧ r.version = none ∧
        q = { r with version := some v } := by
  rw [addToken, cutAt_eq_none plain]
  cases number : number? token with
  | some n =>
    have isNumber := number?_eq_some_iff.mp number
    have only (m : Millis) : IsNumber token m ↔ n = m := by
      rw [← number?_eq_some_iff, number, Option.some.injEq]
    cases r.endTime <;> simp [started, only, eq_comm (a := q)]
  | none =>
    have unnumbered := number?_eq_none_iff.mp number
    cases VersionId.parse? token <;> cases r.version <;> simp [started, unnumbered, eq_comm (a := q)]

theorem foldlM_elements {elements rest : List String} (unstarted : r.startTime = none)
    (plain : ∀ t ∈ elements, isFlag t = false) (unnumbered : ∀ t ∈ elements, ∀ n, ¬ IsNumber t n) :
    (elements ++ rest).foldlM (addToken path) r =
      rest.foldlM (addToken path) { r with path := r.path ++ elements } := by
  induction elements generalizing r with
  | nil => rw [List.nil_append, List.append_nil]
  | cons t elements ih =>
    have taken := addToken_element path unstarted (plain t List.mem_cons_self)
      (unnumbered t List.mem_cons_self)
    have further := ih (r := { r with path := r.path ++ [t] }) unstarted
      (fun x member => plain x (List.mem_cons_of_mem _ member))
      fun x member => unnumbered x (List.mem_cons_of_mem _ member)
    rw [List.append_assoc, List.singleton_append] at further
    rw [List.cons_append, List.foldlM_cons, taken]
    exact further

theorem foldlM_follows (started : r.startTime = some start) (plain : ∀ t ∈ ts, isFlag t = false) :
    ts.foldlM (addToken path) r = .ok q ↔ ∃ stop version, Follows ts stop version ∧
      (r.endTime = none ∨ stop = none) ∧ (r.version = none ∨ version = none) ∧
      q = { r with endTime := r.endTime.or stop, version := r.version.or version } := by
  induction ts generalizing r with
  | nil =>
    constructor
    · intro same
      refine ⟨none, none, .nothing, .inr rfl, .inr rfl, ?_⟩
      rw [Option.or_none, Option.or_none]
      exact (Except.ok.inj same).symm
    · rintro ⟨stop, version, follows, _, _, rfl⟩
      cases follows
      rw [Option.or_none, Option.or_none]
      rfl
  | cons t rest ih =>
    have others : ∀ x ∈ rest, isFlag x = false := fun x member => plain x (List.mem_cons_of_mem _ member)
    have step {q' : ObjectRequest} := addToken_started (q := q') path started
      (plain t List.mem_cons_self)
    rw [List.foldlM_cons, bind_eq_ok]
    constructor
    · rintro ⟨q', taken, further⟩
      rcases step.mp taken with ⟨n, number, ended, rfl⟩ | ⟨v, unnumbered, read, unversioned, rfl⟩
      · obtain ⟨stop, version, follows, free, alone, rfl⟩ :=
          (ih (r := { r with endTime := some n }) started others).mp further
        obtain rfl := free.resolve_left (Option.some_ne_none n)
        exact ⟨some n, version, .stop number follows, .inl ended, alone, by rw [ended]; rfl⟩
      · obtain ⟨stop, version, follows, free, alone, rfl⟩ :=
          (ih (r := { r with version := some v }) started others).mp further
        obtain rfl := alone.resolve_left (Option.some_ne_none v)
        exact ⟨stop, some v, .version unnumbered read follows, free, .inl unversioned, by
          rw [unversioned]; rfl⟩
    · rintro ⟨stop, version, follows, free, alone, rfl⟩
      cases follows with
      | @stop _ n _ _ number follows =>
        have ended := free.resolve_right (Option.some_ne_none _)
        refine ⟨_, step.mpr (.inl ⟨n, number, ended, rfl⟩),
          (ih (r := { r with endTime := some n }) started others).mpr ?_⟩
        exact ⟨none, version, follows, .inr rfl, alone, by rw [ended]; rfl⟩
      | @version _ v _ _ unnumbered read follows =>
        have unversioned := alone.resolve_right (Option.some_ne_none _)
        refine ⟨_, step.mpr (.inr ⟨v, unnumbered, read, unversioned, rfl⟩),
          (ih (r := { r with version := some v }) started others).mpr ?_⟩
        exact ⟨stop, none, follows, free, .inr rfl, by rw [unversioned]; rfl⟩

/-- Plain tokens are a request for one object exactly if they spell it. -/
theorem foldlM_plain (path : String) (plain : ∀ t ∈ ts, isFlag t = false) :
    (ts.foldlM (addToken path) {} = .ok q ∧ 1 ≤ q.path.length ∧ q.path.length ≤ maxPathElements ∧
        q.startTime ≠ none) ↔
      Spells ts q ∧
        q = { path := q.path, startTime := q.startTime, endTime := q.endTime, version := q.version } := by
  constructor
  · rintro ⟨run, nonempty, few, started⟩
    let isElement (t : String) : Bool := (number? t).isNone
    have unnumbered : ∀ t ∈ ts.takeWhile isElement, ∀ n, ¬ IsNumber t n := by
      intro t member
      have unread : isElement t = true := List.mem_takeWhile_imp member
      exact number?_eq_none_iff.mp (Option.isNone_iff_eq_none.mp unread)
    have whole : ts.takeWhile isElement ++ ts.dropWhile isElement = ts := List.takeWhile_append_dropWhile
    have stops := List.head?_dropWhile_not isElement ts
    generalize ts.takeWhile isElement = elements at unnumbered whole
    generalize ts.dropWhile isElement = rest at whole stops
    subst whole
    rw [foldlM_elements rfl (fun t member => plain t (List.mem_append_left _ member)) unnumbered] at run
    cases rest with
    | nil =>
      cases run
      contradiction
    | cons token rest =>
      obtain ⟨start, read⟩ := Option.isSome_iff_exists.mp (Option.isNone_eq_false_iff.mp stops)
      have number := number?_eq_some_iff.mp read
      have behind : ∀ t ∈ token :: rest, isFlag t = false :=
        fun t member => plain t (List.mem_append_right _ member)
      rw [List.foldlM_cons, addToken_start path rfl (behind token List.mem_cons_self) number] at run
      obtain ⟨stop, version, follows, _, _, rfl⟩ :=
        (foldlM_follows rfl fun t member => behind t (List.mem_cons_of_mem _ member)).mp run
      exact ⟨⟨nonempty, few, unnumbered, token, start, rest, rfl, number, rfl, follows⟩, rfl⟩
  · rintro ⟨⟨nonempty, few, unnumbered, token, start, rest, rfl, number, started, follows⟩, same⟩
    have behind : ∀ t ∈ token :: rest, isFlag t = false :=
      fun t member => plain t (List.mem_append_right _ member)
    refine ⟨?_, nonempty, few, by simp [started]⟩
    rw [foldlM_elements rfl (fun t member => plain t (List.mem_append_left _ member)) unnumbered,
      List.foldlM_cons, addToken_start path rfl (behind token List.mem_cons_self) number]
    refine (foldlM_follows rfl fun t member => behind t (List.mem_cons_of_mem _ member)).mpr ?_
    exact ⟨q.endTime, q.version, follows, .inl rfl, .inl rfl, same.trans (by rw [started]; rfl)⟩

/-! ### Requests -/

theorem parsePath_eq_ok : parsePath path true = .ok r ↔
    (tokens path).foldlM (addToken path) {} = .ok r ∧ 1 ≤ r.path.length ∧
      r.path.length ≤ maxPathElements ∧ r.startTime ≠ none := by
  rw [parsePath]
  cases (tokens path).foldlM (addToken path) {} with
  | error e =>
    constructor
    · intro refused
      contradiction
    · rintro ⟨refused, _⟩
      contradiction
  | ok q =>
    simp only [Bool.true_and]
    constructor
    · intro accepted
      split at accepted
      next => contradiction
      next few =>
        split at accepted
        next => contradiction
        next nonempty =>
          split at accepted
          next => contradiction
          next started =>
            cases accepted
            refine ⟨rfl, List.length_pos_iff.mpr ?_, Nat.not_lt.mp few, ?_⟩
            · simpa using nonempty
            · simpa using started
    · rintro ⟨same, nonempty, few, started⟩
      cases same
      have some : r.path.isEmpty = false := by simpa using List.length_pos_iff.mp nonempty
      have timed : r.startTime.isNone = false := by simpa [Option.isSome_iff_ne_none] using started
      rw [if_neg (Nat.not_lt.mpr few), some, timed]
      rfl

/-- A path is a request exactly if its plain tokens spell it; its flags are then those that were given. -/
theorem parse_eq_ok_iff : parse path headers true = .ok r ↔
    Spells (plainTokens path) r ∧ r.flags = Table.ofList (givenFlags path) ∧ r.withHeaders headers = r := by
  have plain : ∀ t ∈ plainTokens path, isFlag t = false := fun t => plain_of_mem
  rw [parse, map_eq_ok]
  simp only [parsePath_eq_ok, foldlM_addToken path (tokens path), map_eq_ok]
  constructor
  · rintro ⟨_, ⟨⟨q, run, rfl⟩, nonempty, few, started⟩, rfl⟩
    obtain ⟨spells, _⟩ := (foldlM_plain path plain).mp ⟨run, nonempty, few, started⟩
    exact ⟨⟨spells.nonempty, spells.few, spells.unnumbered, spells.timed⟩, rfl, rfl⟩
  · rintro ⟨spells, flags, headed⟩
    let q : ObjectRequest :=
      { path := r.path, startTime := r.startTime, endTime := r.endTime, version := r.version }
    have spells' : Spells (plainTokens path) q :=
      ⟨spells.nonempty, spells.few, spells.unnumbered, spells.timed⟩
    obtain ⟨run, limits⟩ := (foldlM_plain path plain).mpr ⟨spells', rfl⟩
    refine ⟨{ q with flags := Table.ofList (givenFlags path) }, ⟨⟨q, run, rfl⟩, limits⟩, ?_⟩
    rw [← flags]
    exact headed

theorem get?_givenFlags (given : List (String × String)) : (Table.ofList given).get? name = some value ↔
    ∃ before after, given = before ++ (name, value) :: after ∧ ∀ e ∈ after, e.1 ≠ name := by
  rw [Table.get?_ofList, Option.map_eq_some_iff]
  constructor
  · rintro ⟨e, found, rfl⟩
    obtain ⟨named, after, before, split, others⟩ := List.find?_eq_some_iff_append.mp found
    obtain rfl := beq_iff_eq.mp named
    refine ⟨before.reverse, after.reverse, ?_, ?_⟩
    · rw [← List.reverse_reverse given, split]
      simp
    · intro x member
      simpa using others x (List.mem_reverse.mp member)
  · rintro ⟨before, after, rfl, others⟩
    refine ⟨(name, value), ?_, rfl⟩
    apply List.find?_eq_some_iff_append.mpr
    refine ⟨by simp, after.reverse, before.reverse, by simp, ?_⟩
    intro x member
    simpa using others x (List.mem_reverse.mp member)

/-- A path is a request for one object exactly if its tokens without the flags are one to ten elements that
are no numbers, a start, and behind it at most one other number and at most one version, in either order.
The key is the elements with slashes between them, a flag has the value that it is given last, and where
the flags stand, or empty tokens, makes no difference. -/
theorem parse_grammar (path : String) (headers : Http.Headers) :
    (∀ r, parse path headers true = .ok r ↔
      Spells (plainTokens path) r ∧ r.flags = Table.ofList (givenFlags path) ∧
        r.withHeaders headers = r) ∧
    ((parse path headers true).isOk = true ↔ ∃ r, Spells (plainTokens path) r) ∧
    (∀ r, parse path headers true = .ok r → r.key = "/".intercalate r.path ∧
      ∀ name value, r.flags.get? name = some value ↔
        ∃ before after, givenFlags path = before ++ (name, value) :: after ∧ ∀ e ∈ after, e.1 ≠ name) ∧
    ∀ path', plainTokens path' = plainTokens path → flagTokens path' = flagTokens path →
      (parse path' headers true).toOption = (parse path headers true).toOption := by
  refine ⟨fun r => parse_eq_ok_iff, ?_, ?_, ?_⟩
  · constructor
    · intro accepted
      cases read : parse path headers true with
      | error e =>
        rw [read] at accepted
        contradiction
      | ok r => exact ⟨r, (parse_eq_ok_iff.mp read).1⟩
    · rintro ⟨r, spells⟩
      have read : parse path headers true =
          .ok ({ r with flags := Table.ofList (givenFlags path) }.withHeaders headers) :=
        parse_eq_ok_iff.mpr ⟨⟨spells.nonempty, spells.few, spells.unnumbered, spells.timed⟩, rfl, rfl⟩
      rw [read]
      rfl
  · intro r read
    refine ⟨rfl, fun name value => ?_⟩
    rw [(parse_eq_ok_iff.mp read).2.1, get?_givenFlags]
  · intro path' plain flags
    have given : givenFlags path' = givenFlags path := by rw [givenFlags, givenFlags, flags]
    apply Option.ext
    intro r
    rw [toOption_eq_some, toOption_eq_some, parse_eq_ok_iff, parse_eq_ok_iff, plain, given]

end BlobReplica.ObjectRequest
