import BlobReplica.Proofs.Http.Header
import BlobReplica.Proofs.Property
import BlobReplica.Recovery.Properties

/-! What a blob learns from response headers: a property that the headers give under any spelling
of its name is found under that name afterwards. -/

namespace BlobReplica.Recovery

variable {headers : Http.Headers} {name value other : String}

theorem sameName_canonicalName (name : String) :
    Text.sameName (canonicalName name) name = true := by
  rw [canonicalName]
  split
  next known found => exact (List.find?_eq_some_iff_append.mp found).1
  next => exact Text.sameName_capitalized name

theorem canonicalName_congr (same : Text.sameName name other = true) :
    canonicalName name = canonicalName other := by
  have search : (fun known => Text.sameName known name) = fun known => Text.sameName known other :=
    funext (Text.sameName_congr_right same)
  rw [canonicalName, canonicalName, search, Text.map_capitalize_congr same]

theorem canonicalName_eq_iff :
    canonicalName name = canonicalName other ↔ Text.sameName name other = true := by
  constructor
  · intro same
    have own := sameName_canonicalName name
    rw [same] at own
    rw [← Text.sameName_congr own]
    exact sameName_canonicalName other
  · exact canonicalName_congr

def recovered? (h : String × String) : Option (String × String) :=
  if transferHeaders.any (Text.sameName · h.1) then none
  else if Text.sameName h.1 "Content-Disposition" then
    (Http.dispositionFileName? h.2).map (Property.fileName, ·)
  else some (canonicalName h.1, h.2)

theorem recoveredProperties_eq (headers : Http.Headers) :
    recoveredProperties headers = headers.filterMap recovered? :=
  rfl

/-- A header that is not about the transfer gives the file name if it is the disposition, and else its
value under its own name. -/
inductive Recovers : String × String → String × String → Prop where
  | fileName {name value file : String}
      (object : transferHeaders.any (Text.sameName · name) = false)
      (disposition : Text.sameName name "Content-Disposition" = true)
      (read : Http.dispositionFileName? value = some file) :
      Recovers (name, value) (Property.fileName, file)
  | property {name value : String}
      (object : transferHeaders.any (Text.sameName · name) = false)
      (plain : Text.sameName name "Content-Disposition" = false) :
      Recovers (name, value) (canonicalName name, value)

theorem recovered?_eq_some_iff {h e : String × String} : recovered? h = some e ↔ Recovers h e := by
  constructor
  · intro made
    obtain ⟨object, made⟩ := Option.ite_none_left_eq_some.mp made
    rw [Bool.not_eq_true] at object
    split at made
    next disposition =>
      obtain ⟨file, read, rfl⟩ := Option.map_eq_some_iff.mp made
      exact .fileName object disposition read
    next plain =>
      rw [Bool.not_eq_true] at plain
      obtain rfl := Option.some.inj made
      exact .property object plain
  · rintro (⟨object, disposition, read⟩ | ⟨object, plain⟩)
    · simp [recovered?, object, disposition, read]
    · simp [recovered?, object, plain]

theorem mem_recoveredProperties {e : String × String} :
    e ∈ recoveredProperties headers ↔ ∃ h ∈ headers, Recovers h e := by
  simp only [recoveredProperties_eq, List.mem_filterMap, recovered?_eq_some_iff]

/-- Names that headers give to a property and not to the transfer. -/
structure IsPropertyName (name : String) : Prop where
  transfer : transferHeaders.any (Text.sameName · name) = false
  disposition : Text.sameName name "Content-Disposition" = false
  fileName : Text.sameName Property.fileName name = false

theorem lookup?_recoveredProperties (gives : headers.Gives name value)
    (property : IsPropertyName name) (ps : Properties) :
    ((recoveredProperties headers).foldl (fun ps h => ps.assign h.1 h.2) ps).lookup? name =
      some value := by
  refine Properties.lookup?_foldl_assign ?_ (.inl ?_)
  · intro e listed same
    obtain ⟨h, member, recovers⟩ := mem_recoveredProperties.mp listed
    cases recovers with
    | fileName => simp [property.fileName] at same
    | @property n v =>
      rw [Text.sameName_congr (sameName_canonicalName n)] at same
      exact gives.only (n, v) member same
  · obtain ⟨h, member, same⟩ := gives.present
    refine ⟨(canonicalName h.1, h.2), mem_recoveredProperties.mpr ⟨h, member, .property ?_ ?_⟩,
      Text.sameName_trans (sameName_canonicalName _) same⟩
    · rw [Text.any_sameName_congr same, property.transfer]
    · rw [Text.sameName_congr same, property.disposition]

/-- Where no header is named for it, the file name is what the disposition gives, and nothing else. -/
theorem recovered_fileName_iff (gives : headers.Gives "Content-Disposition" value)
    (absent : headers.get? Property.fileName = none)
    (read : Http.dispositionFileName? value = some name) (e : String × String) :
    e ∈ recoveredProperties headers ∧ Text.sameName e.1 Property.fileName = true ↔
      e = (Property.fileName, name) := by
  constructor
  · rintro ⟨listed, named⟩
    obtain ⟨h, member, recovers⟩ := mem_recoveredProperties.mp listed
    cases recovers with
    | @fileName n v file _ disposed found =>
      have told : v = value := gives.only (n, v) member disposed
      rw [told, read] at found
      rw [Option.some.inj found]
    | @property n v =>
      rw [Text.sameName_congr (sameName_canonicalName n)] at named
      exact absurd (Http.Headers.get?_eq_none.mp absent (n, v) member) (by simp [named])
  · rintro rfl
    obtain ⟨h, member, disposed⟩ := gives.present
    refine ⟨mem_recoveredProperties.mpr ⟨h, member, .fileName ?_ disposed ?_⟩, Text.sameName_refl _⟩
    · rw [Text.any_sameName_congr disposed]
      decide
    · rw [gives.only h member disposed, read]

end BlobReplica.Recovery
