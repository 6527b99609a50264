import SlotCalc.Config
import SlotCalc.Proofs.Config.Table

namespace SlotCalc.Config

/-- What loading comes to. -/
inductive Loads (read : Path → Except ReadFailure ByteArray) (path : Path) :
    Except (Failure LoadError) Config → Prop
  | nullInPath (hnull : path.hasNull = true) : Loads read path (.error (.broken .nullInPath))
  | missing (hnull : path.hasNull = false) (hread : read path = .error .missing) :
    Loads read path (.error (.reported (.missing path)))
  | unreadable (hnull : path.hasNull = false) (hread : read path = .error .unreadable) :
    Loads read path (.error (.reported (.unreadable path)))
  | notUtf8 (content : ByteArray) (hnull : path.hasNull = false) (hread : read path = .ok content)
    (hcontent : ∀ text : String, content ≠ text.toUTF8) :
    Loads read path (.error (.reported (.notUtf8 path)))
  | notToml (text : String) (e : Toml.Invalid) (hnull : path.hasNull = false)
    (hread : read path = .ok text.toUTF8) (hdocument : Toml.document text = .error (.reported e)) :
    Loads read path (.error (.reported (.notToml path)))
  | unfinished (text : String) (cause : Breakdown) (hnull : path.hasNull = false)
    (hread : read path = .ok text.toUTF8)
    (hdocument : Toml.document text = .error (.broken cause)) :
    Loads read path (.error (.broken cause))
  | invalid (text : String) (document : Table) (p : Problem) (hnull : path.hasNull = false)
    (hread : read path = .ok text.toUTF8) (hdocument : Toml.document text = .ok document)
    (hproblem : ofDocument document = .error p) :
    Loads read path (.error (.reported (.invalid p)))
  | settings (text : String) (document : Table) (c : Config) (hnull : path.hasNull = false)
    (hread : read path = .ok text.toUTF8) (hdocument : Toml.document text = .ok document)
    (hsettings : ofDocument document = .ok c) : Loads read path (.ok c)

theorem fromUTF8?_eq_some_iff {content : ByteArray} {text : String} :
    String.fromUTF8? content = some text ↔ content = text.toUTF8 := by
  unfold String.fromUTF8?
  constructor
  · intro h
    split at h
    · cases h
      rfl
    · cases h
  · rintro rfl
    exact dif_pos text.isValidUTF8

section
variable {read : Path → Except ReadFailure ByteArray} {path : Path} {content : ByteArray}
  {text : String} {r : Except (Failure LoadError) Config}

theorem ofBytes_of_document {document : Table} (h : Toml.document text = .ok document) :
    ofBytes path text.toUTF8 =
      (ofDocument document).mapError fun e => .reported (.invalid e) := by
  simp only [ofBytes, fromUTF8?_eq_some_iff.2 rfl, h]

theorem ofBytes_of_document_error {e : Failure Toml.Invalid} (h : Toml.document text = .error e) :
    ofBytes path text.toUTF8 = .error (e.map fun _ => .notToml path) := by
  simp only [ofBytes, fromUTF8?_eq_some_iff.2 rfl, h]

theorem ofBytes_of_not_utf8 (h : ∀ text : String, content ≠ text.toUTF8) :
    ofBytes path content = .error (.reported (.notUtf8 path)) := by
  have hdecode : String.fromUTF8? content = none :=
    Option.eq_none_iff_forall_ne_some.2 fun text htext => h text (fromUTF8?_eq_some_iff.1 htext)
  simp only [ofBytes, hdecode]

theorem load_of_content (hnull : path.hasNull = false) (hread : read path = .ok content) :
    load read path = ofBytes path content := by
  simp only [load, hnull, hread, Bool.false_eq_true, if_false]

theorem Loads.load_eq (h : Loads read path r) : load read path = r := by
  cases h with
  | nullInPath hnull => rw [load, hnull, if_pos rfl]
  | missing hnull hread | unreadable hnull hread =>
    simp only [load, hnull, hread, Bool.false_eq_true, if_false]
  | notUtf8 content hnull hread hcontent =>
    rw [load_of_content hnull hread, ofBytes_of_not_utf8 hcontent]
  | notToml text e hnull hread hdocument =>
    rw [load_of_content hnull hread, ofBytes_of_document_error hdocument, Failure.map]
  | unfinished text cause hnull hread hdocument =>
    rw [load_of_content hnull hread, ofBytes_of_document_error hdocument, Failure.map]
  | invalid text document p hnull hread hdocument hproblem =>
    rw [load_of_content hnull hread, ofBytes_of_document hdocument, hproblem, Except.mapError]
  | settings text document c hnull hread hdocument hsettings =>
    rw [load_of_content hnull hread, ofBytes_of_document hdocument, hsettings, Except.mapError]

theorem exists_loads (read : Path → Except ReadFailure ByteArray) (path : Path) :
    ∃ r, Loads read path r := by
  cases hnull : path.hasNull with
  | true => exact ⟨_, .nullInPath hnull⟩
  | false =>
    cases hread : read path with
    | error failure =>
      cases failure with
      | missing => exact ⟨_, .missing hnull hread⟩
      | unreadable => exact ⟨_, .unreadable hnull hread⟩
    | ok content =>
      by_cases hcontent : ∃ text : String, content = text.toUTF8
      · obtain ⟨text, rfl⟩ := hcontent
        cases hdocument : Toml.document text with
        | error e =>
          cases e with
          | reported e => exact ⟨_, .notToml text e hnull hread hdocument⟩
          | broken cause => exact ⟨_, .unfinished text cause hnull hread hdocument⟩
        | ok document =>
          cases hgives : ofDocument document with
          | error p => exact ⟨_, .invalid text document p hnull hread hdocument hgives⟩
          | ok c => exact ⟨_, .settings text document c hnull hread hdocument hgives⟩
      · exact ⟨_, .notUtf8 content hnull hread (not_exists.1 hcontent)⟩

end

/-- The number of slots, if it is limited, is positive. -/
def AllowsSlot (c : Config) : Prop := ∀ n, c.maxSlots = some n → 1 ≤ n

section
variable {c c' : Config} {e : String × Value} {document t : Table}

theorem allowsSlot_default : AllowsSlot {} := by
  rintro n ⟨⟩

theorem AllowsSlot.of_setEntry (hc : c.AllowsSlot) (h : setEntry c e = .ok c') :
    c'.AllowsSlot := by
  by_cases hkey : e.1 ∈ settingKeys
  · rcases fits_or_misfits hkey with hfits | ⟨p, hp⟩
    · obtain ⟨after, hafter, hvalues⟩ := setEntry_of_fits hfits c
      obtain rfl : after = c' := Except.ok.inj (hafter.symm.trans h)
      intro n hn
      have hvalue := hvalues "max_slots"
      rw [get?_entries, get?_entries, if_pos rfl, if_pos rfl, hn] at hvalue
      split_ifs at hvalue
      · exact hfits.one_le (Option.some.inj hvalue).symm
      · exact hc n (by simpa using hvalue.symm)
    · rw [setEntry_of_misfits hp] at h
      cases h
  · have hnone := (isNone_ofKey?_iff e.1).2 hkey
    rw [setEntry, Option.isNone_iff_eq_none.1 hnone] at h
    cases h
    exact hc

theorem AllowsSlot.of_foldlM (hc : c.AllowsSlot) (h : t.foldlM setEntry c = .ok c') :
    c'.AllowsSlot := by
  induction t generalizing c with
  | nil =>
    cases h
    exact hc
  | cons e t ih =>
    rw [List.foldlM_cons] at h
    cases hfirst : setEntry c e with
    | ok first =>
      rw [hfirst] at h
      exact ih (hc.of_setEntry hfirst) h
    | error p =>
      rw [hfirst] at h
      cases h

theorem allowsSlot_of_ofDocument (h : ofDocument document = .ok c) : c.AllowsSlot := by
  unfold ofDocument at h
  split at h
  · cases h
    exact allowsSlot_default
  · unfold ofTable at h
    split_ifs at h
    exact allowsSlot_default.of_foldlM h
  · cases h

theorem Loads.allowsSlot {read : Path → Except ReadFailure ByteArray} {path : Path}
    (h : Loads read path (.ok c)) : c.AllowsSlot := by
  cases h with
  | settings text document c hnull hread hdocument hsettings =>
    exact allowsSlot_of_ofDocument hsettings

end

end SlotCalc.Config
