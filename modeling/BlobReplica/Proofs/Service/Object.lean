import BlobReplica.Proofs.Http.Header
import BlobReplica.Proofs.Property
import BlobReplica.Proofs.Service.Multipart
import BlobReplica.Proofs.VersionId

/-! What a served object tells of itself: its times and its checksum are among the headers of every
response that carries it or slices of it, and the content type tells how the slices stand. -/

namespace BlobReplica

namespace Service

open Http (Headers)

variable {a : Blob} {headers : Headers} {separator : VersionId} {n : Nat} {payload : Bytes}

theorem isReadable_of_printable {s : String} (printable : Text.IsPrintable s) :
    Headers.isReadable s = true :=
  List.all_eq_true.mpr fun c member => by simp [printable c member]

theorem isHeaderValue_of_readable {value : String} (readable : Headers.isReadable value = true) :
    Http.isHeaderValue value = true := by
  refine List.all_eq_true.mpr fun c member => ?_
  have told := List.all_eq_true.mp readable c member
  have delete : '\x7f'.toNat = 0x7f := rfl
  simp only [Bool.or_eq_true, Bool.and_eq_true, decide_eq_true_eq, bne_iff_ne] at told ⊢
  refine told.imp_right fun bounds => ⟨bounds.1, ?_⟩
  rintro rfl
  omega

theorem isHeaderValue_of_printable {s : String} (printable : Text.IsPrintable s) :
    Http.isHeaderValue s = true :=
  isHeaderValue_of_readable (isReadable_of_printable printable)

theorem printable_toString (n : Nat) : Text.IsPrintable (toString n) := by
  intro c member
  rw [Text.toList_toString] at member
  have := Text.toNat_of_isDigit (Text.isDigit_of_mem_digits member)
  omega

/-- Headers that tell the times of an object, and its checksum if it declares one. -/
structure Describes (headers : Headers) (a : Blob) : Prop where
  start : headers.Gives Property.validFrom (toString a.validity.start)
  stop : headers.Gives Property.validUntil (toString a.validity.stop)
  created : headers.Gives Property.created (toString a.created)
  checksum : ∀ v, a.properties.lookup? Property.contentMd5 = some v →
    headers.Gives Property.contentMd5 v

def describing : List String :=
  [Property.validFrom, Property.validUntil, Property.created, Property.contentMd5]

theorem Describes.set (describes : Describes headers a) {name : String}
    (other : ∀ d ∈ describing, Text.sameName name d = false) (value : String) :
    Describes (headers.set name value) a where
  start := describes.start.set (other _ (by decide)) value
  stop := describes.stop.set (other _ (by decide)) value
  created := describes.created.set (other _ (by decide)) value
  checksum v found := (describes.checksum v found).set (other _ (by decide)) value

/-- The properties that can be headers. -/
def propertyHeaders (a : Blob) : Headers :=
  (a.properties.entries.filter fun p => !withheldProperties.any (Text.sameName p.1)).foldl
    (fun (hs : Headers) p => hs.set p.1 p.2) []

def withTimes (a : Blob) (headers : Headers) : Headers :=
  ((headers.set Property.validFrom (toString a.validity.start)).set Property.validUntil
    (toString a.validity.stop)).set Property.created (toString a.created)

def withDate (a : Blob) (headers : Headers) : Headers :=
  if (headers.get? Property.lastModified).isSome then headers
  else match Http.date? a.created with
    | some date => headers.set Property.lastModified date
    | none => headers

def disposition (a : Blob) : String :=
  let name := String.ofList (a.fileName.toList.map fun c => if c == '"' then '\'' else c)
  "inline;filename=\"" ++ name ++ "\""

theorem objectHeaders_eq (a : Blob) : objectHeaders a =
    ((((withDate a (withTimes a (propertyHeaders a))).set "Content-Disposition"
      (disposition a)).set Property.contentType a.contentType).set "ETag" (etag a)).set
      "Accept-Ranges" "bytes" := by
  unfold objectHeaders withDate
  cases Http.date? a.created <;> rfl

theorem gives_checksum (distinct : a.properties.DistinctNames)
    (printable : ∀ e ∈ a.properties.entries, Text.IsPrintable e.2) {v : String}
    (found : a.properties.lookup? Property.contentMd5 = some v) :
    (propertyHeaders a).Gives Property.contentMd5 v := by
  obtain ⟨e, hit, rfl⟩ := Option.map_eq_some_iff.mp found
  obtain ⟨same, _⟩ := List.find?_eq_some_iff_append.mp hit
  have member := List.mem_of_find?_eq_some hit
  have shown : withheldProperties.any (Text.sameName e.1) = false := by
    have apart : withheldProperties.any (Text.sameName Property.contentMd5) = false := by
      decide
    rw [← apart]
    exact List.any_congr rfl fun w => Text.sameName_congr same w
  refine Headers.gives_foldl_set ?_ (by decide)
    (isHeaderValue_of_printable (printable e member)) (.inl ⟨e, ?_, same⟩)
  · intro x kept alike
    have spelling := Text.sameName_of_common alike same
    rw [distinct.unique (List.mem_filter.mp kept).1 member spelling]
  · refine List.mem_filter.mpr ⟨member, ?_⟩
    rw [shown]
    rfl

/-- The times are set after the properties, so no property stands in their place. -/
theorem describes_withTimes (checksum : ∀ v, a.properties.lookup? Property.contentMd5 = some v →
    headers.Gives Property.contentMd5 v) : Describes (withTimes a headers) a where
  start := ((Headers.gives_set _ (Text.sameName_refl _) (by decide)
    (isHeaderValue_of_printable (printable_toString _))).set (by decide) _).set
      (by decide) _
  stop := (Headers.gives_set _ (Text.sameName_refl _) (by decide)
    (isHeaderValue_of_printable (printable_toString _))).set (by decide) _
  created := Headers.gives_set _ (Text.sameName_refl _) (by decide)
    (isHeaderValue_of_printable (printable_toString _))
  checksum v found := (((checksum v found).set (by decide) _).set (by decide) _).set
    (by decide) _

theorem Describes.withDate (describes : Describes headers a) :
    Describes (withDate a headers) a := by
  rw [Service.withDate]
  split
  next => exact describes
  next =>
    split
    next date _ => exact describes.set (by decide) date
    next => exact describes

theorem describes_objectHeaders (distinct : a.properties.DistinctNames)
    (printable : ∀ e ∈ a.properties.entries, Text.IsPrintable e.2) :
    Describes (objectHeaders a) a := by
  have timed : Describes (withTimes a (propertyHeaders a)) a :=
    describes_withTimes fun v found => gives_checksum distinct printable found
  rw [objectHeaders_eq]
  exact (((timed.withDate.set (by decide) _).set (by decide) _).set
    (by decide) _).set (by decide) _

theorem printable_contentType (printable : ∀ e ∈ a.properties.entries, Text.IsPrintable e.2) :
    Text.IsPrintable a.contentType := by
  rw [Blob.contentType]
  cases found : a.property? Property.contentType with
  | none =>
    have default : Text.IsPrintable Property.defaultContentType := by decide
    exact default
  | some v =>
    obtain ⟨e, hit, rfl⟩ := Option.map_eq_some_iff.mp found
    exact printable e (List.mem_of_find?_eq_some hit)

theorem gives_contentType (valid : Http.isHeaderValue a.contentType = true) :
    (objectHeaders a).Gives Property.contentType a.contentType := by
  rw [objectHeaders_eq]
  exact ((Headers.gives_set _ (Text.sameName_refl _) (by decide) valid).set
    (by decide) _).set (by decide) _

/-- The headers that every object sets besides its properties and its content type. -/
def ownNames : List String :=
  [Property.validFrom, Property.validUntil, Property.created, Property.lastModified, "Content-Disposition",
    "ETag", "Accept-Ranges"]

theorem get?_objectHeaders_none {name : String} (absent : (propertyHeaders a).get? name = none)
    (other : ∀ n ∈ ownNames, Text.sameName n name = false)
    (kind : Text.sameName Property.contentType name = false ∨ Http.isHeaderValue a.contentType = false) :
    (objectHeaders a).get? name = none := by
  have still {headers : Headers} (absent : headers.get? name = none) {n : String} (own : n ∈ ownNames)
      (value : String) : (headers.set n value).get? name = none :=
    Headers.get?_set_none absent (.inl (other n own))
  have timed : (withTimes a (propertyHeaders a)).get? name = none :=
    still (still (still absent (by decide) _) (by decide) _) (by decide) _
  have dated : (withDate a (withTimes a (propertyHeaders a))).get? name = none := by
    rw [withDate]
    split
    next => exact timed
    next =>
      split
      next => exact still timed (by decide) _
      next => exact timed
  have disposed := still dated (by decide) (disposition a) (n := "Content-Disposition")
  have typed := Headers.get?_set_none disposed kind
  rw [objectHeaders_eq]
  exact still (still typed (by decide) _) (by decide) _

theorem contentType_absent (distinct : a.properties.DistinctNames)
    (invalid : Http.isHeaderValue a.contentType = false) :
    (objectHeaders a).get? Property.contentType = none := by
  have properties : (propertyHeaders a).get? Property.contentType = none := by
    refine Headers.get?_foldl_set_none rfl fun e kept => ?_
    have member := (List.mem_filter.mp kept).1
    refine (Bool.eq_false_or_eq_true _).symm.imp_right fun same => ?_
    have declared : a.contentType = e.2 := by
      rw [Blob.contentType, Blob.property?, distinct.lookup?_eq member same, Option.getD_some]
    exact declared ▸ invalid
  exact get?_objectHeaders_none properties (by decide) (.inr invalid)

/-- A boundary is one word of letters, digits, hyphens and underscores. -/
theorem mem_boundaryText {c : Char} (member : c ∈ (boundaryText separator).toList) :
    c.isAlphanum = true ∨ c = '-' ∨ c = '_' := by
  have word : "THIS_STRING_SEPARATES_".toList.all (fun c => c.isAlphanum || c == '_') = true := by
    decide
  have text : (boundaryText separator).toList =
      "THIS_STRING_SEPARATES_".toList ++ separator.text.toList :=
    String.toList_append
  rcases List.mem_append.mp (text ▸ member) with fixed | member
  · have plain := List.all_eq_true.mp word c fixed
    simp only [Bool.or_eq_true, beq_iff_eq] at plain
    exact plain.imp id .inr
  · exact (VersionId.mem_text member).imp id .inl

/-- The content type of a response with several slices. -/
def kindText (separator : VersionId) : String :=
  s!"multipart/byteranges; boundary={boundaryText separator}"

theorem boundary?_kindText (separator : VersionId) :
    Http.boundary? (kindText separator) = some (boundaryText separator) := by
  have apart (mark : Char) (other : ¬ (mark.isAlphanum = true ∨ mark = '-' ∨ mark = '_')) :
      mark ∉ (boundaryText separator).toList :=
    fun member => other (mem_boundaryText member)
  refine Http.boundary?_written (apart ';' (by decide)) (apart '"' (by decide)) fun c member => ?_
  rcases mem_boundaryText member with word | rfl | rfl
  · exact Text.isBlank_of_isAlphanum word
  · decide
  · decide

theorem printable_kind (separator : VersionId) : Text.IsPrintable (kindText separator) := by
  have fixed : Text.IsPrintable "multipart/byteranges; boundary=" := by decide
  refine printable_append fixed fun c member => ?_
  rcases mem_boundaryText member with word | rfl | rfl
  · have := Text.toNat_of_isAlphanum word
    omega
  · decide
  · decide

/-- A response that describes an object and carries bytes of this content type. -/
structure Delivers (response : Http.Response) (a : Blob) (status : Nat) (kind : String)
    (body : Bytes) : Prop where
  status : response.status = status
  describes : Describes response.headers a
  kind : response.headers.Gives Property.contentType kind
  body : response.body = body

theorem gives_withBytes {name value : String} (gives : headers.Gives name value)
    (other : Text.sameName Property.contentType name = false) (status : Nat) (body : Bytes) :
    (withBytes status headers body).headers.Gives name value :=
  gives.set other _

theorem gives_withBytes_kind {kind : String} (gives : headers.Gives Property.contentType kind)
    (valid : Http.isHeaderValue kind = true) (status : Nat) (body : Bytes) :
    (withBytes status headers body).headers.Gives Property.contentType kind := by
  simp only [withBytes, gives.get?, Option.getD_some]
  exact Headers.gives_set _ (Text.sameName_refl _) (by decide) valid

theorem delivers_withBytes {kind : String} (describes : Describes headers a)
    (gives : headers.Gives Property.contentType kind) (valid : Http.isHeaderValue kind = true)
    (status : Nat) (body : Bytes) :
    Delivers (withBytes status headers body) a status kind body where
  status := rfl
  describes := describes.set (by decide) _
  kind := gives_withBytes_kind gives valid status body
  body := rfl

theorem gives_place (headers : Headers) (first last size : Nat) :
    (headers.set "Content-Range" (Http.ContentRange.written first last size)).Gives "Content-Range"
      (Http.ContentRange.written first last size) :=
  Headers.gives_set _ (Text.sameName_refl _) (by decide)
    (isHeaderValue_of_printable (printable_written first last size))

theorem serve_whole {asked : Headers} (separator : VersionId) (whole : a.payload? = some payload)
    (unranged : asked.readable? "Range" = none) :
    serve a asked separator = withBytes 200 (objectHeaders a) payload := by
  simp only [serve, whole, unranged, Http.RangeRequest.parse]

theorem serve_slice {asked : Headers} (separator : VersionId) (whole : a.payload? = some payload)
    {first last : Nat} (wanted : Http.RangeRequest.parse (asked.readable? "Range") payload.length =
      .slices [(first, last)]) : serve a asked separator =
    withBytes 206 ((objectHeaders a).set "Content-Range"
      (Http.ContentRange.written first last payload.length)) (payload.slice first (last + 1)) := by
  simp only [serve, whole, wanted]
  rfl

theorem serve_slices {asked : Headers} (separator : VersionId) (whole : a.payload? = some payload)
    {s t : Nat × Nat} {rest : List (Nat × Nat)}
    (wanted : Http.RangeRequest.parse (asked.readable? "Range") payload.length =
      .slices (s :: t :: rest)) : serve a asked separator =
    withBytes 206 ((objectHeaders a).set Property.contentType (kindText separator))
      (multipartBody a (boundaryText separator) payload (s :: t :: rest)) := by
  simp only [serve, whole, wanted]
  rfl

theorem status_serve (asked : Headers) (separator : VersionId) (whole : a.payload? = some payload) :
    (serve a asked separator).status ∈ [200, 206, 416] := by
  rw [serve, whole]
  simp only
  split <;> simp [withBytes]

section Serve

variable {asked : Headers} (separator : VersionId) (distinct : a.properties.DistinctNames)
  (printable : ∀ e ∈ a.properties.entries, Text.IsPrintable e.2) (whole : a.payload? = some payload)

include distinct printable whole

/-- Without a range the whole object is served. -/
theorem delivers_whole (unranged : asked.readable? "Range" = none) :
    Delivers (serve a asked separator) a 200 a.contentType payload := by
  have valid := isHeaderValue_of_printable (printable_contentType printable)
  rw [serve_whole separator whole unranged]
  exact delivers_withBytes (describes_objectHeaders distinct printable) (gives_contentType valid) valid 200
    payload

/-- One range is served by itself, and a header tells its place. -/
theorem delivers_slice {first last : Nat}
    (wanted : Http.RangeRequest.parse (asked.readable? "Range") payload.length =
      .slices [(first, last)]) :
    Delivers (serve a asked separator) a 206 a.contentType (payload.slice first (last + 1)) ∧
      (serve a asked separator).headers.Gives "Content-Range"
        (Http.ContentRange.written first last payload.length) := by
  have valid := isHeaderValue_of_printable (printable_contentType printable)
  have placed := gives_place (objectHeaders a) first last payload.length
  rw [serve_slice separator whole wanted]
  refine ⟨delivers_withBytes ?_ ?_ valid 206 _, gives_withBytes placed (by decide) 206 _⟩
  · exact (describes_objectHeaders distinct printable).set (by decide) _
  · exact (gives_contentType valid).set (by decide) _

/-- Several ranges are served between delimiters, whose text the content type gives. -/
theorem delivers_slices {s t : Nat × Nat} {rest : List (Nat × Nat)}
    (wanted : Http.RangeRequest.parse (asked.readable? "Range") payload.length =
      .slices (s :: t :: rest)) :
    Delivers (serve a asked separator) a 206 (kindText separator)
      (multipartBody a (boundaryText separator) payload (s :: t :: rest)) := by
  have valid := isHeaderValue_of_printable (printable_kind separator)
  rw [serve_slices separator whole wanted]
  refine delivers_withBytes ?_ ?_ valid 206 _
  · exact (describes_objectHeaders distinct printable).set (by decide) _
  · exact Headers.gives_set _ (Text.sameName_refl _) (by decide) valid

end Serve
end Service
end BlobReplica
