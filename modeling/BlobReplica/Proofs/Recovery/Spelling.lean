import BlobReplica.Proofs.Recovery.Properties

/-! The spelling of header names does not matter for what is recovered from them: the canonical spelling
is one for all spellings of a name, and a name that is passed on is the header's own. -/

namespace BlobReplica.Recovery

variable {headers respelled : Http.Headers} {h h' : String × String}

/-- The same header, its name maybe written with other large and small letters. -/
structure Respelled (h h' : String × String) : Prop where
  name : Text.sameName h.1 h'.1 = true
  value : h.2 = h'.2

theorem recovered?_congr (same : Respelled h h') : recovered? h = recovered? h' := by
  rw [recovered?, recovered?, Text.any_sameName_congr same.name, Text.sameName_congr same.name,
    canonicalName_congr same.name, same.value]

theorem recoveredProperties_congr (same : List.Forall₂ Respelled headers respelled) :
    recoveredProperties headers = recoveredProperties respelled := by
  induction same with
  | nil => rfl
  | cons first _ ih =>
    simp only [recoveredProperties_eq, List.filterMap_cons, recovered?_congr first] at ih ⊢
    rw [ih]

/-- Whether a header is about the object: it does not describe the transfer, and if it is the disposition,
then one that gives a file name. -/
def isAboutObject (h : String × String) : Bool :=
  !transferHeaders.any (Text.sameName · h.1) &&
    (!Text.sameName h.1 "Content-Disposition" || (Http.dispositionFileName? h.2).isSome)

theorem isAboutObject_iff : isAboutObject h = true ↔ ∃ e, Recovers h e := by
  constructor
  · intro about
    obtain ⟨name, value⟩ := h
    simp only [isAboutObject, Bool.and_eq_true, Bool.not_eq_true', Bool.or_eq_true,
      Option.isSome_iff_exists] at about
    obtain ⟨object, plain | ⟨file, read⟩⟩ := about
    · exact ⟨_, .property object plain⟩
    · cases disposition : Text.sameName name "Content-Disposition" with
      | true => exact ⟨_, .fileName object disposition read⟩
      | false => exact ⟨_, .property object disposition⟩
  · rintro ⟨e, ⟨object, _, read⟩ | ⟨object, plain⟩⟩
    · simp only [isAboutObject, object, read, Bool.not_false, Option.isSome_some, Bool.or_true,
        Bool.and_true]
    · simp only [isAboutObject, object, plain, Bool.not_false, Bool.true_or, Bool.and_true]

theorem forall₂_recovers (headers : Http.Headers) :
    List.Forall₂ Recovers (headers.filter isAboutObject) (recoveredProperties headers) := by
  induction headers with
  | nil => exact .nil
  | cons h rest ih =>
    rw [recoveredProperties_eq] at ih ⊢
    cases given : recovered? h with
    | none =>
      have left : ¬ isAboutObject h = true := by
        intro about
        obtain ⟨e, recovers⟩ := isAboutObject_iff.mp about
        rw [recovered?_eq_some_iff.mpr recovers] at given
        contradiction
      rw [List.filter_cons_of_neg left, List.filterMap_cons_none given]
      exact ih
    | some e =>
      have recovers := recovered?_eq_some_iff.mp given
      rw [List.filter_cons_of_pos (isAboutObject_iff.mpr ⟨e, recovers⟩), List.filterMap_cons_some given]
      exact .cons recovers ih

theorem Recovers.sameName {e : String × String} (recovers : Recovers h e)
    (plain : Text.sameName h.1 "Content-Disposition" = false) : Text.sameName e.1 h.1 = true := by
  cases recovers with
  | fileName _ disposition _ => simp [disposition] at plain
  | property => exact sameName_canonicalName _

/-- Headers give the same properties however their names are spelled. Those about the object give one
property each, in their order and, the disposition's file name apart, of their own name; the canonical
spelling is its own, and names share it exactly if they are spellings of one name. -/
theorem spelling_ignored :
    (∀ headers respelled, List.Forall₂ Respelled headers respelled →
      recoveredProperties headers = recoveredProperties respelled) ∧
    (∀ headers, List.Forall₂
      (fun h e => Recovers h e ∧
        (Text.sameName h.1 "Content-Disposition" = false → Text.sameName e.1 h.1 = true))
      (headers.filter isAboutObject) (recoveredProperties headers)) ∧
    (∀ name, canonicalName (canonicalName name) = canonicalName name) ∧
    ∀ name other, canonicalName name = canonicalName other ↔ Text.sameName name other = true := by
  refine ⟨?_, ?_, ?_, ?_⟩
  · intro headers respelled same
    exact recoveredProperties_congr same
  · intro headers
    apply (forall₂_recovers headers).imp
    intro h e recovers
    exact ⟨recovers, recovers.sameName⟩
  · intro name
    exact canonicalName_congr (sameName_canonicalName name)
  · intro name other
    exact canonicalName_eq_iff

/-- Headers with words that are empty or start with other than ASCII letters. -/
def sampleHeaders : Http.Headers :=
  [("DATE", "now"), ("content-md5", "abc"), ("x--Éclat-ID", "1"),
    ("content-Disposition", "inline;filename=b")]

def sampleRespelled : Http.Headers :=
  [("date", "now"), ("Content-MD5", "abc"), ("X--ÉCLAT-id", "1"),
    ("Content-disposition", "inline;filename=b")]

theorem spelling_ignored_sample :
    List.Forall₂ Respelled sampleHeaders sampleRespelled ∧
    recoveredProperties sampleHeaders = recoveredProperties sampleRespelled ∧
    recoveredProperties sampleRespelled =
      [("Content-MD5", "abc"), ("X--Éclat-Id", "1"), ("OriginalFileName", "b")] := by
  have same : List.Forall₂ Respelled sampleHeaders sampleRespelled :=
    .cons ⟨by decide +kernel, rfl⟩ (.cons ⟨by decide +kernel, rfl⟩
      (.cons ⟨by decide +kernel, rfl⟩ (.cons ⟨by decide +kernel, rfl⟩ .nil)))
  exact ⟨same, spelling_ignored.1 _ _ same, by decide +kernel⟩

end BlobReplica.Recovery
