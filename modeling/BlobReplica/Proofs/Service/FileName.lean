import BlobReplica.Proofs.Http.Disposition
import BlobReplica.Proofs.Recovery.Properties
import BlobReplica.Proofs.Service.Ranges

/-! The file name of an object, as it is told by the headers of a response and recovered from them. -/

namespace BlobReplica.Service

open Http (Headers)

variable {a : Blob}

/-- A name with single quotes for its double ones. -/
def singleQuoted (name : String) : List Char :=
  name.toList.map fun c => if c == '"' then '\'' else c

theorem mem_singleQuoted {name : String} {c : Char} (member : c ∈ singleQuoted name) :
    c ≠ '"' ∧ (c = '\'' ∨ c ∈ name.toList) := by
  obtain ⟨x, listed, rfl⟩ := List.mem_map.mp member
  split
  next => exact ⟨by decide, .inl rfl⟩
  next other => exact ⟨by simpa using other, .inr listed⟩

theorem semicolon_singleQuoted {name : String} : ';' ∈ singleQuoted name ↔ ';' ∈ name.toList := by
  constructor
  · intro member
    exact (mem_singleQuoted member).2.resolve_left (by decide)
  · intro member
    exact List.mem_map.mpr ⟨';', member, rfl⟩

theorem gives_disposition (printable : Text.IsPrintable a.fileName) :
    (objectHeaders a).Gives "Content-Disposition" (disposition a) := by
  have quoted : Text.IsPrintable (String.ofList (singleQuoted a.fileName)) := by
    intro c member
    rw [String.toList_ofList] at member
    rcases (mem_singleQuoted member).2 with rfl | listed
    · decide
    · exact printable c listed
  have valid : Http.isHeaderValue (disposition a) = true := by
    refine isHeaderValue_of_printable (printable_append (printable_append ?_ quoted) ?_)
    · decide
    · decide
  rw [objectHeaders_eq]
  exact (((Headers.gives_set _ (Text.sameName_refl _) (by decide) valid).set (by decide) _).set
    (by decide) _).set (by decide) _

theorem fileName_absent (a : Blob) : (objectHeaders a).get? Property.fileName = none := by
  have properties : (propertyHeaders a).get? Property.fileName = none := by
    refine Headers.get?_foldl_set_none rfl fun e kept => .inl ?_
    have shown := (List.mem_filter.mp kept).2
    simp only [Bool.not_eq_true', List.any_eq_false] at shown
    exact Bool.eq_false_iff.mpr (shown Property.fileName List.mem_cons_self)
  exact get?_objectHeaders_none properties (by decide) (.inl (by decide))

/-- What is recovered as the file name of an object is what is read of its name, and nothing else; it is the
name exactly if there is no semicolon in it. -/
theorem fileName_recovered (nonempty : a.fileName ≠ "") (printable : Text.IsPrintable a.fileName) :
    (∀ e, e ∈ Recovery.recoveredProperties (objectHeaders a) ∧
        Text.sameName e.1 Property.fileName = true ↔
      e = (Property.fileName, Http.readBack (singleQuoted a.fileName))) ∧
    (Http.readBack (singleQuoted a.fileName) = String.ofList (singleQuoted a.fileName) ↔
      ';' ∉ a.fileName.toList) := by
  have quote : '"' ∉ singleQuoted a.fileName := fun member => (mem_singleQuoted member).1 rfl
  have some : singleQuoted a.fileName ≠ [] := by simpa [singleQuoted] using nonempty
  have read : Http.dispositionFileName? (disposition a) = .some (Http.readBack (singleQuoted a.fileName)) :=
    Http.dispositionFileName?_written some quote
  refine ⟨Recovery.recovered_fileName_iff (gives_disposition printable) (fileName_absent a) read, ?_⟩
  rw [Http.readBack, ← semicolon_singleQuoted]
  split
  next semicolon =>
    refine iff_of_false (fun same => ?_) (not_not.mpr semicolon)
    rw [String.ofList_inj] at same
    exact quote (same ▸ List.mem_cons_self)
  next whole => exact iff_of_true rfl whole

def sampleNamed (name : String) : Blob :=
  { threeBytes with properties := .ofList [(Property.fileName, name)] }

/-- Blanks, quotes and signs of equality come through. -/
theorem fileName_recovered_sample :
    (sampleNamed " x = \"1\" ").fileName ≠ "" ∧ Text.IsPrintable (sampleNamed " x = \"1\" ").fileName ∧
    (Property.fileName, " x = '1' ") ∈
      Recovery.recoveredProperties (objectHeaders (sampleNamed " x = \"1\" ")) := by
  have nonempty : (sampleNamed " x = \"1\" ").fileName ≠ "" := by decide +kernel
  have printable : Text.IsPrintable (sampleNamed " x = \"1\" ").fileName := by decide +kernel
  obtain ⟨recovered, whole⟩ := fileName_recovered nonempty printable
  have name := whole.mpr (by decide +kernel)
  have told : String.ofList (singleQuoted (sampleNamed " x = \"1\" ").fileName) = " x = '1' " := by
    decide +kernel
  rw [name, told] at recovered
  exact ⟨nonempty, printable, ((recovered _).mpr rfl).1⟩

/-- A semicolon ends the name, and one of the quotes becomes part of it. -/
theorem fileName_cut :
    (sampleNamed "a;b.txt").isComplete = true ∧ (sampleNamed "a;b.txt").fileName = "a;b.txt" ∧
    (Property.fileName, "\"a") ∈ Recovery.recoveredProperties (objectHeaders (sampleNamed "a;b.txt")) ∧
    (Property.fileName, "a;b.txt") ∉
      Recovery.recoveredProperties (objectHeaders (sampleNamed "a;b.txt")) := by
  decide +kernel

end BlobReplica.Service
