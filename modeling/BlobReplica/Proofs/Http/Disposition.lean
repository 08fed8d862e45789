import BlobReplica.Http.Header
import BlobReplica.Proofs.Text.Numeral

/-! File names in content dispositions. A name is written in quotes, but a disposition is read by cutting it at
semicolons first, so a semicolon in the name ends it, and the quote before the name stays. -/

namespace BlobReplica.Http

variable {name rest : List Char}

/-- What is read of a file name that was written in quotes: all of it, or what stands before its first
semicolon, less the blanks there, behind a quote. -/
def readBack (name : List Char) : String :=
  if ';' ∈ name then String.ofList ('"' :: Text.trimEndChars (name.takeWhile (· != ';')))
  else String.ofList name

theorem cutAt_fileName (rest : List Char) :
    Text.cutAt '=' (Text.trim (String.ofList ("filename=".toList ++ '"' :: rest))) =
      some ("filename", String.ofList ('"' :: Text.trimEndChars rest)) := by
  have word : Text.trimStartChars "filename=".toList = "filename".toList ++ ['='] := by decide
  have trimmed : (Text.trim (String.ofList ("filename=".toList ++ '"' :: rest))).toList =
      "filename".toList ++ '=' :: ('"' :: Text.trimEndChars rest) := by
    rw [Text.trim, String.toList_ofList, String.toList_ofList, Text.trimChars_mark (by decide), word]
    simp
  rw [Text.cutAt_eq trimmed (by decide), String.ofList_toList]

theorem trim_quoted (rest : List Char) :
    Text.trim (String.ofList ('"' :: Text.trimEndChars rest)) =
      String.ofList ('"' :: Text.trimEndChars rest) := by
  have once : Text.trimChars ('"' :: rest) = '"' :: Text.trimEndChars rest :=
    Text.trimChars_mark (by decide) [] rest
  have trimmed := Text.trimmed_trimChars ('"' :: rest)
  rw [once] at trimmed
  apply Text.trim_eq
  rw [String.toList_ofList]
  exact Text.trimChars_eq trimmed.first trimmed.last

theorem unquoted_closed (name : List Char) :
    unquoted (String.ofList ('"' :: Text.trimEndChars (name ++ ['"']))) = String.ofList name := by
  have kept : Text.trimEndChars (name ++ ['"']) = name ++ ['"'] :=
    Text.trimEndChars_mark (by decide) name []
  simp [unquoted, kept]

theorem unquoted_open (free : '"' ∉ rest) :
    unquoted (String.ofList ('"' :: Text.trimEndChars rest)) =
      String.ofList ('"' :: Text.trimEndChars rest) := by
  obtain ⟨back, _, form⟩ := Text.exists_trimEndChars rest
  have last : (Text.trimEndChars rest).getLast? ≠ some '"' := by
    intro last
    refine free ?_
    rw [form]
    exact List.mem_append_left _ (List.mem_of_getLast? last)
  simp [unquoted, last]

theorem dispositionFileName?_eq {value : String} {pieces : List (List Char)}
    (split : Text.splitAt ';' value.toList = "inline".toList :: ("filename=".toList ++ '"' :: rest) :: pieces)
    (some : unquoted (String.ofList ('"' :: Text.trimEndChars rest)) ≠ "") :
    dispositionFileName? value = .some (unquoted (String.ofList ('"' :: Text.trimEndChars rest))) := by
  have inline : Text.cutAt '=' (Text.trim (String.ofList "inline".toList)) = none := by decide
  have named : Text.sameName (Text.trim "filename") "filename" = true := by decide
  simp only [dispositionFileName?, parameter?, Text.split, split, List.map_cons, List.drop_zero,
    List.findSome?_cons, inline, cutAt_fileName, Option.bind_eq_bind, Option.bind_none, Option.bind_some, named,
    trim_quoted, if_true, decide_eq_true some]

/-- The name that a disposition was written with, as it is read. -/
theorem dispositionFileName?_written (nonempty : name ≠ []) (free : '"' ∉ name) :
    dispositionFileName? ("inline;filename=\"" ++ String.ofList name ++ "\"") = some (readBack name) := by
  have start : "inline;filename=\"".toList = "inline".toList ++ ';' :: ("filename=".toList ++ ['"']) := by
    decide
  have written : ("inline;filename=\"" ++ String.ofList name ++ "\"").toList =
      "inline".toList ++ ';' :: ("filename=".toList ++ '"' :: (name ++ ['"'])) := by
    rw [String.toList_append, String.toList_append, start, String.toList_ofList]
    simp
  rw [readBack]
  split
  next semicolon =>
    obtain ⟨front, back, rfl, others⟩ := List.eq_append_cons_of_mem semicolon
    have before : ∀ c ∈ front, (c != ';') = true := fun c member => by
      simpa using fun same : c = ';' => others (same ▸ member)
    have cut : (front ++ ';' :: back).takeWhile (· != ';') = front := by
      rw [List.takeWhile_append_of_pos before, List.takeWhile_cons_of_neg (by simp), List.append_nil]
    have solid : ';' ∉ "filename=".toList ++ '"' :: front := by
      rw [List.mem_append, List.mem_cons, not_or, not_or]
      exact ⟨by decide, by decide, others⟩
    have quote : '"' ∉ front := fun member => free (List.mem_append_left _ member)
    have regrouped : "filename=".toList ++ '"' :: (front ++ ';' :: back ++ ['"']) =
        ("filename=".toList ++ '"' :: front) ++ ';' :: (back ++ ['"']) := by simp
    rw [regrouped] at written
    rw [cut, ← unquoted_open quote]
    apply dispositionFileName?_eq
    · rw [written, Text.splitAt_append (by decide), Text.splitAt_append solid]
    · rw [unquoted_open quote]
      simp
  next others =>
    have solid : ';' ∉ "filename=".toList ++ '"' :: (name ++ ['"']) := by
      simp [others]
    have pieces : Text.splitAt ';' ("inline;filename=\"" ++ String.ofList name ++ "\"").toList =
        ["inline".toList, "filename=".toList ++ '"' :: (name ++ ['"'])] := by
      rw [written, Text.splitAt_append (by decide), Text.splitAt_free solid]
    have read := dispositionFileName?_eq pieces (by rw [unquoted_closed]; simpa using nonempty)
    rwa [unquoted_closed] at read

end BlobReplica.Http
